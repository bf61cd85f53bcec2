import Mathlib.Data.List.Induction
import FlatPlan.Galaxy.Registry
import FlatPlan.Ty.Builtin

/-!
# Provisioning

A registry after any history of installations holds the last galaxy of each name, by ascending name.
Running its setups gives a database the statements of these galaxies one after another, up to the
first setup that fails: `Setup.Runs` lists the statements that one procedure executes, and
`Provisioned` those of several that all succeed. Main statement: what a registry answers and does
after a history of installations (`Registry.provisioning`).
-/

namespace FlatPlan

variable {σ : Type} {c : Connection σ}

/-! ## Runs of setups -/

/-- A procedure that is run on a database in state `s` executes these statements, in this order, and
ends with this result in state `t`. -/
inductive Setup.Runs (c : Connection σ) : Setup → σ → List String → Except String Unit → σ → Prop
  | done {s : σ} : Runs c .done s [] (.ok ()) s
  | fail {reason : String} {s : σ} : Runs c (.fail reason) s [] (.error reason) s
  | execute {statement : String} {next : Except String Unit → Setup}
    {outcome result : Except String Unit} {s t u : σ} {statements : List String}
    (first : c.execute statement s = (outcome, t))
    (rest : Runs c (next outcome) t statements result u) :
    Runs c (.execute statement next) s (statement :: statements) result u

namespace Connection

/-- The state of a database after statements, whatever their outcomes. -/
def after (c : Connection σ) (s : σ) (statements : List String) : σ :=
  statements.foldl (fun s statement => (c.execute statement s).2) s

theorem after_append (s : σ) (first second : List String) :
    c.after s (first ++ second) = c.after (c.after s first) second := by
  rw [after, List.foldl_append]
  rfl

/-- Every run executes statements one after another. -/
theorem exists_runs {setup : Setup} {s t : σ} {result : Except String Unit}
    (h : c.run setup s = (result, t)) :
    ∃ statements, setup.Runs c s statements result t := by
  induction setup generalizing s with
  | done =>
    cases h
    exact ⟨[], .done⟩
  | fail reason =>
    cases h
    exact ⟨[], .fail⟩
  | execute statement next ih =>
    obtain ⟨statements, rest⟩ := ih _ h
    exact ⟨statement :: statements, .execute rfl rest⟩

end Connection

theorem Setup.Runs.after {setup : Setup} {s t : σ} {statements : List String}
    {result : Except String Unit} (h : setup.Runs c s statements result t) :
    t = c.after s statements := by
  induction h with
  | done | fail => rfl
  | @execute statement _ _ _ s t u statements first rest ih =>
    have step : c.after s (statement :: statements) = c.after (c.execute statement s).2
        statements := rfl
    rw [ih, step, first]

/-- The setups of galaxies, run one after another, all succeed; together they execute these
statements. -/
inductive Provisioned (c : Connection σ) : List Galaxy → σ → List String → σ → Prop
  | nil {s : σ} : Provisioned c [] s [] s
  | cons {g : Galaxy} {gs : List Galaxy} {s t u : σ} {own others : List String}
    (first : g.setup.Runs c s own (.ok ()) t) (rest : Provisioned c gs t others u) :
    Provisioned c (g :: gs) s (own ++ others) u

theorem Provisioned.after {gs : List Galaxy} {s t : σ} {seen : List String}
    (h : Provisioned c gs s seen t) :
    t = c.after s seen := by
  induction h with
  | nil => rfl
  | cons first _ ih => rw [ih, first.after, Connection.after_append]

namespace Registry

/-- Either all setups succeed, or the first that fails is the last that is run. -/
theorem provisionEach_cases (c : Connection σ) (gs : List Galaxy) (s : σ) :
    (∃ seen t, Provisioned c gs s seen t ∧ (provisionEach c gs s).1 = (.ok (), t)) ∨
      ∃ before g after seen t own reason u, gs = before ++ g :: after ∧
        Provisioned c before s seen t ∧ g.setup.Runs c t own (.error reason) u ∧
        (provisionEach c gs s).1 = (.error (.provisionFailed g.name reason), u) := by
  induction gs generalizing s with
  | nil => exact .inl ⟨[], s, .nil, rfl⟩
  | cons g gs ih =>
    cases run : g.provision c s with
    | mk result t =>
      obtain ⟨own, runs⟩ := Connection.exists_runs run
      cases result with
      | error reason =>
        refine .inr ⟨[], g, gs, [], s, own, reason, t, rfl, .nil, runs, ?_⟩
        rw [provisionEach, run]
      | ok _ =>
        have step : (provisionEach c (g :: gs) s).1 = (provisionEach c gs t).1 := by
          rw [provisionEach, run]
        rw [step]
        rcases ih t with ⟨seen, u, all, equal⟩
          | ⟨before, h, after, seen, u, failed, reason, w, rfl, all, fails, equal⟩
        · exact .inl ⟨own ++ seen, u, .cons runs all, equal⟩
        · exact .inr ⟨g :: before, h, after, own ++ seen, u, failed, reason, w, rfl, .cons runs all,
            fails, equal⟩

end Registry

/-! ## Histories of installations -/

/-- Whether a galaxy is the last of its name in a history of installations. -/
def Galaxy.LastIn (g : Galaxy) (history : List Galaxy) : Prop :=
  ∃ before after, history = before ++ g :: after ∧ ∀ h ∈ after, h.name ≠ g.name

/-- A further installation puts its galaxy in the place of the one of the same name. -/
theorem Galaxy.lastIn_concat {g h : Galaxy} {history : List Galaxy} :
    g.LastIn (history ++ [h]) ↔ g = h ∨ g.name ≠ h.name ∧ g.LastIn history := by
  constructor
  · rintro ⟨before, after, equal, last⟩
    rcases List.eq_nil_or_concat after with rfl | ⟨after, final, rfl⟩
    · exact .inl (List.cons.inj (List.append_inj' equal rfl).2).1.symm
    · rw [List.concat_eq_append, ← List.cons_append, ← List.append_assoc] at equal
      obtain ⟨rfl, same⟩ := List.append_inj' equal rfl
      obtain rfl := (List.cons.inj same).1
      rw [List.concat_eq_append, List.forall_mem_append, List.forall_mem_singleton] at last
      exact .inr ⟨last.2.symm, before, after, rfl, last.1⟩
  · rintro (rfl | ⟨different, before, after, rfl, last⟩)
    · exact ⟨history, [], rfl, fun _ member => absurd member List.not_mem_nil⟩
    · refine ⟨before, after ++ [h], by rw [List.append_assoc, List.cons_append], ?_⟩
      rw [List.forall_mem_append, List.forall_mem_singleton]
      exact ⟨last, different.symm⟩

namespace Registry

variable {history : List Galaxy} {r : Registry} {g : Galaxy} {name : String}

/-- The registry after a history of installations. -/
def ofInstalls (history : List Galaxy) : Registry :=
  history.foldl (fun r g => (r.install g).1) empty

theorem ofInstalls_concat (history : List Galaxy) (g : Galaxy) :
    ofInstalls (history ++ [g]) = ((ofInstalls history).install g).1 := by
  rw [ofInstalls, List.foldl_append]
  rfl

theorem get?_install (r : Registry) (g : Galaxy) (name : String) :
    (r.install g).1.get? name = if name = g.name then some g else r.get? name :=
  NameMap.find?_insert r.galaxies g.name name g

/-- The last galaxy of a name is the installed one. -/
theorem get?_ofInstalls : (ofInstalls history).get? name = some g ↔ g.LastIn history ∧
    g.name = name := by
  -- the last installation decides, so the history is taken apart at its end
  induction history using List.reverseRecOn generalizing name g with
  | nil =>
    refine ⟨fun h => (by cases h), ?_⟩
    rintro ⟨⟨before, after, equal, _⟩, _⟩
    exact absurd equal.symm (List.append_ne_nil_of_right_ne_nil _ (List.cons_ne_nil _ _))
  | append_singleton history h ih =>
    rw [ofInstalls_concat, get?_install, Galaxy.lastIn_concat]
    by_cases own : name = h.name
    · subst own
      rw [if_pos rfl, Option.some.injEq]
      constructor
      · rintro rfl
        exact ⟨.inl rfl, rfl⟩
      · rintro ⟨rfl | ⟨different, _⟩, same⟩
        · rfl
        · exact absurd same different
    · rw [if_neg own, ih]
      constructor
      · rintro ⟨last, rfl⟩
        exact ⟨.inr ⟨own, last⟩, rfl⟩
      · rintro ⟨rfl | ⟨_, last⟩, rfl⟩
        · exact absurd rfl own
        · exact ⟨last, rfl⟩

theorem mem_names_ofInstalls : name ∈ (ofInstalls history).names ↔
    ∃ g ∈ history, g.name = name := by
  induction history using List.reverseRecOn with
  | nil => simp [ofInstalls, empty, names, NameMap.names, NameMap.empty]
  | append_singleton history h ih =>
    have step : name ∈ ((ofInstalls history).install h).1.names ↔ name = h.name ∨
        name ∈ (ofInstalls history).names :=
      NameMap.mem_names_insert _ _ _ _
    rw [ofInstalls_concat, step, ih]
    simp only [List.mem_append, List.mem_singleton, or_and_right, exists_or, exists_eq_left]
    rw [or_comm, eq_comm]

/-- The installed names ascend, so that none stands twice. -/
theorem pairwise_names (r : Registry) : r.names.Pairwise (· < ·) :=
  List.pairwise_map.2 r.galaxies.ascending

/-- The installed galaxies by ascending name. -/
def installed (r : Registry) : List Galaxy := r.galaxies.entries.map Prod.snd

theorem mem_installed : g ∈ r.installed ↔ ∃ name, r.get? name = some g := by
  simp only [installed, List.mem_map, get?, NameMap.find?_eq_some_iff, Prod.exists, exists_eq_right]

theorem names_installed (own : ∀ name g, r.get? name = some g → g.name = name) :
    r.installed.map (·.name) = r.names := by
  rw [installed, List.map_map]
  refine List.map_congr_left fun entry member => ?_
  exact own entry.1 entry.2 (NameMap.find?_eq_some_iff.2 member)

theorem provisionAll_eq (r : Registry) (c : Connection σ) (s : σ) :
    (r.provisionAll c s).1 =
      ((provisionEach c r.installed s).1.1.map fun _ => r.names.length,
        (provisionEach c r.installed s).1.2) := by
  have size : r.names.length = r.size := List.length_map _
  rw [size]
  rfl

/-- After any history of installations, the names of the registry are those of the installed
galaxies, each once and ascending by code points, and a name means the last galaxy that was
installed under it. Provisioning runs the setups of exactly these galaxies by ascending name. If all
succeed, it answers their number. Otherwise it answers which galaxy failed and why, and the database
has executed the statements of all galaxies of smaller names and then those of the failing one up to
its failure, and no others. -/
theorem provisioning (history : List Galaxy) :
    (ofInstalls history).names.Pairwise (· < ·) ∧
    (∀ name, name ∈ (ofInstalls history).names ↔ ∃ g ∈ history, g.name = name) ∧
    (∀ name g, (ofInstalls history).get? name = some g ↔ g.LastIn history ∧ g.name = name) ∧
    (∀ name q, (ofInstalls history).relation? name = some q ↔
      ∃ g : Galaxy, (g.LastIn history ∧ g.name = name) ∧ q = .galaxy g) ∧
    ∃ latest : List Galaxy, latest.map (·.name) = (ofInstalls history).names ∧
      (∀ g, g ∈ latest ↔ g.LastIn history) ∧
      ∀ (σ : Type) (c : Connection σ) (s : σ),
        (∃ seen t, Provisioned c latest s seen t ∧ t = c.after s seen ∧
          ((ofInstalls history).provisionAll c s).1 = (.ok (ofInstalls history).names.length, t)) ∨
        ∃ smaller g larger seen t own reason u, latest = smaller ++ g :: larger ∧
          Provisioned c smaller s seen t ∧
          g.setup.Runs c t own (.error reason) u ∧ u = c.after s (seen ++ own) ∧
          ((ofInstalls history).provisionAll c s).1 =
            (.error (.provisionFailed g.name reason), u) := by
  refine ⟨pairwise_names _, fun _ => mem_names_ofInstalls, fun _ _ => get?_ofInstalls,
    fun name q => ?_, (ofInstalls history).installed, names_installed fun name g h =>
      (get?_ofInstalls.1 h).2, fun g => ?_,
    fun σ c s => ?_⟩
  · simp only [relation?, Option.map_eq_some_iff, get?_ofInstalls]
    exact exists_congr fun g => and_congr_right fun _ => eq_comm
  · simp only [mem_installed, get?_ofInstalls, exists_and_left, exists_eq', and_true]
  · rw [provisionAll_eq]
    rcases provisionEach_cases c (ofInstalls history).installed s with
      ⟨seen, t, all, equal⟩ | ⟨smaller, g, larger, seen, t, own, reason, u, split, all,
        fails, equal⟩
    · exact .inl ⟨seen, t, all, all.after, by rw [equal]; rfl⟩
    · refine .inr ⟨smaller, g, larger, seen, t, own, reason, u, split, all, fails, ?_, by
        rw [equal]; rfl⟩
      rw [Connection.after_append, ← all.after]
      exact fails.after

/-- The galaxy of that name whose setup executes the statements. -/
private def scripted (name : String) (statements : List String) : Galaxy :=
  ⟨name, .integer, statements, .empty⟩

/-- The second galaxy `b` replaces the first one. The third statement fails, so that `c` is not set
up. -/
example :
    ((ofInstalls [scripted "b" ["drop b"], scripted "c" ["create c"],
      scripted "b" ["create b", "fill b"], scripted "a" ["create a"]]).provisionAll
        (.recording (some "fill b")) []).1 =
          (.error (.provisionFailed "b" "cannot run fill b"), ["create a", "create b"]) := rfl

end Registry

end FlatPlan
