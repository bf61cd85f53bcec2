import FlatPlan.Plan

/-!
# Installed galaxies

A registry holds the galaxies that are installed, one a name, and prepares a database for them: the
setup procedures are run one after another by ascending name, up to the first one that fails.
-/

namespace FlatPlan

/-- A database that executes statements; a failure has a reason, and the state may have changed. -/
structure Connection (σ : Type) where
  execute : String → σ → Except String Unit × σ

namespace Connection

variable {σ : Type}

/-- Run a procedure on a database. -/
def run (c : Connection σ) : Setup → σ → Except String Unit × σ
  | .done, s => (.ok (), s)
  | .fail reason, s => (.error reason, s)
  | .execute statement next, s =>
    let (outcome, s) := c.execute statement s
    c.run (next outcome) s

/-- A connection that lists what it has executed, and refuses one statement. -/
def recording (refused : Option String) : Connection (List String) where
  execute statement done :=
    if refused = some statement then (.error ("cannot run " ++ statement), done)
    else (.ok (), done ++ [statement])

end Connection

/-- Run the setup of a galaxy. -/
def Galaxy.provision {σ : Type} (g : Galaxy) (c : Connection σ) (s : σ) : Except String Unit × σ :=
  c.run g.setup s

/-- The installed galaxies by name. -/
structure Registry where
  galaxies : NameMap Galaxy

namespace Registry

variable {σ : Type}

def empty : Registry := ⟨.empty⟩

instance : Inhabited Registry := ⟨empty⟩

/-- Install a galaxy, over the one of the same name. -/
def install (r : Registry) (g : Galaxy) : Registry × List Event :=
  (⟨r.galaxies.insert g.name g⟩,
    .galaxyInstalled g.name g.type.text ::
      if r.galaxies.contains g.name then [.galaxyReplaced g.name] else [])

/-- The installed galaxy of a name. -/
def get? (r : Registry) (name : String) : Option Galaxy := r.galaxies.find? name

/-- The relation of the installed galaxy of a name. -/
def relation? (r : Registry) (name : String) : Option Query := (r.get? name).map .galaxy

/-- The installed names, ascending. -/
def names (r : Registry) : List String := r.galaxies.names

def size (r : Registry) : Nat := r.galaxies.size

def isEmpty (r : Registry) : Bool := r.galaxies.isEmpty

/-- Run the setups of galaxies in order, up to the first failure. -/
def provisionEach (c : Connection σ) : List Galaxy → σ → (Except Error Unit × σ) × List Event
  | [], s => ((.ok (), s), [])
  | g :: gs, s =>
    match g.provision c s with
    | (.ok (), s) =>
      let (outcome, events) := provisionEach c gs s
      (outcome, .galaxyProvisioned g.name :: events)
    | (.error reason, s) =>
      ((.error (.provisionFailed g.name reason), s), [.galaxyProvisioned g.name])

/-- Run the setups of all installed galaxies by ascending name; answers how many there are. -/
def provisionAll (r : Registry) (c : Connection σ) (s : σ) : (Except Error Nat × σ) × List Event :=
  let ((outcome, s), events) := provisionEach c (r.galaxies.entries.map Prod.snd) s
  ((outcome.map fun _ => r.size, s), events)

end Registry

end FlatPlan
