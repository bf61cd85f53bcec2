import FlatPlan.Datum.Text
import FlatPlan.Error

/-!
# Reading datum forms

Access to the parts of a datum that answers, where the form is another one, with what was expected
and what was found.
-/

namespace FlatPlan.Datum

/-- The datum is not what is read here. -/
def malformed (expected : String) (found : Datum) : DataError :=
  .malformed expected found.text

/-- A tagged array with a wrong number of parts after its tag. -/
def wrongParts (tag : String) (expected : Nat) (parts : List Datum) : DataError :=
  .malformed (toString expected ++ " argument(s) for '" ++ tag ++ "'")
    (toString parts.length ++ " argument(s)")

/-- The items of an array of things named `what`. -/
def items (what : String) (d : Datum) : Except DataError (List Datum) :=
  match d.asArray? with
  | some ds => .ok ds
  | none => .error (malformed ("array of " ++ what) d)

def expectString (what : String) (d : Datum) : Except DataError String :=
  match d.asString? with
  | some s => .ok s
  | none => .error (malformed what d)

def expectUInt64 (what : String) (d : Datum) : Except DataError UInt64 :=
  match d.asUInt64? with
  | some n => .ok n
  | none => .error (malformed what d)

end FlatPlan.Datum
