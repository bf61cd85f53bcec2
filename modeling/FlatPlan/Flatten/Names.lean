/-!
# Fresh names

A generator of column names: a stem and a number that grows with every name it issues.
-/

namespace FlatPlan

/-- A generator that has issued the names numbered `1` to `issued`. -/
structure FreshNames where
  stem : String
  issued : Nat
  deriving DecidableEq, Repr

namespace FreshNames

/-- A generator that has issued no name yet. -/
def start (stem : String) : FreshNames := ⟨stem, 0⟩

/-- The name of a number. -/
def numbered (stem : String) (n : Nat) : String := stem ++ "_" ++ toString n

/-- The next name, and the generator after it. -/
def fresh (g : FreshNames) : String × FreshNames :=
  (numbered g.stem (g.issued + 1), { g with issued := g.issued + 1 })

end FreshNames

end FlatPlan
