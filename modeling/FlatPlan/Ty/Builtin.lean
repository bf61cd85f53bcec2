import FlatPlan.Datum.Access
import FlatPlan.Ty

/-!
# Built-in types

The four base types that are always there: integers and floats, which are numeric, ordered strings,
and booleans.
-/

namespace FlatPlan.Ty

/-- A base type without layout whose datums are read and written by partial functions. -/
def scalar (name : String) (numeric : Bool) (ordered : Option Bool) (contains : Value → Bool)
    (write : Value → Option Datum) (read : Datum → Option Value) : Ty :=
  .base {
    name, contains, numeric, ordered
    toDatum := fun v => match write v with
      | some d => .ok d
      | none => .error (invalidValue name v)
    ofDatum := fun d => match read d with
      | some v => .ok v
      | none => .error (d.malformed name)
    layout := none }

/-- The 64-bit integers. -/
def integer : Ty :=
  scalar "integer" true none
    (fun | .integer _ => true | _ => false)
    (fun | .integer n => some (.integer n) | _ => none)
    (fun d => d.asInt64?.map .integer)

/-- The doubles. Not-a-number and the infinities have no datum. -/
def float : Ty :=
  scalar "float" true none
    (fun | .float _ => true | _ => false)
    (fun | .float x => if finite : x.isFinite then some (.real ⟨x, finite⟩) else none | _ => none)
    (fun d => d.asDouble?.map .float)

/-- The strings of any length. -/
def string : Ty :=
  scalar "string" false (some true)
    (fun | .string _ => true | _ => false)
    (fun | .string s => some (.string s) | _ => none)
    (fun d => d.asString?.map .string)

def boolean : Ty :=
  scalar "boolean" false none
    (fun | .boolean _ => true | _ => false)
    (fun | .boolean b => some (.boolean b) | _ => none)
    (fun d => d.asBool?.map .boolean)

/-- The built-in type of a name. -/
def builtin? : String → Option Ty
  | "integer" => some integer
  | "float" => some float
  | "string" => some string
  | "boolean" => some boolean
  | _ => none

/-- The built-in types with their names. -/
def builtins : List (String × Ty) :=
  [("integer", integer), ("float", float), ("string", string), ("boolean", boolean)]

end FlatPlan.Ty
