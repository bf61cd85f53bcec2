import FlatPlan.Datum
import FlatPlan.Value

/-!
# Finite values

A value is finite if no number in it is an infinity or not a number (`Value.isFinite`). The numbers
of a datum are finite by themselves, and so is a double that is read from one.
-/

namespace FlatPlan

namespace Value

mutual

/-- Whether no number in the value is an infinity or not a number. -/
def isFinite : Value → Bool
  | .float x => x.isFinite
  | .tuple items => areFinite items
  | .set items => areFinite items
  | .record fields => fieldsFinite fields
  | .null | .boolean _ | .integer _ | .string _ => true

/-- Whether all the values are finite. -/
def areFinite : List Value → Bool
  | [] => true
  | v :: vs => v.isFinite && areFinite vs

/-- Whether all the fields are finite. -/
def fieldsFinite : List (String × Value) → Bool
  | [] => true
  | (_, v) :: fields => v.isFinite && fieldsFinite fields

end

theorem areFinite_iff {vs : List Value} : areFinite vs = true ↔ ∀ v ∈ vs, v.isFinite = true := by
  induction vs with
  | nil => simp [areFinite]
  | cons v vs ih => simp [areFinite, ih]

end Value

theorem Datum.isFinite_of_asDouble? {d : Datum} {x : Double} (h : d.asDouble? = some x) :
    x.isFinite = true := by
  obtain ⟨own, _, rfl⟩ := Option.map_eq_some_iff.1 h
  exact own.finite

end FlatPlan
