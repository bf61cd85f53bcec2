import FlatPlan.Ty.Builtin
import FlatPlan.Ty.Constant

/-!
# Further base types

`Ty.record` is the structured type of the records with given fields, one column a field, and
`Ty.counter` the type of the integers that are not negative.
-/

namespace FlatPlan

namespace Value

/-- Whether a value is a record. -/
def isRecord : Value → Bool
  | .record _ => true
  | _ => false

end Value

namespace Ty

/-- The integers that are not negative. -/
def counter (name : String) (numeric : Bool) (ordered : Option Bool) : Ty :=
  scalar name numeric ordered
    (fun | .integer n => 0 ≤ n | _ => false)
    (fun | .integer n => some (.integer n) | _ => none)
    (fun d => d.asInt64?.map .integer)

/-- Whether a value is a record with the given fields, each of its type. -/
def hasFields (fields : List (String × Ty)) (v : Value) : Bool :=
  v.isRecord && fields.all fun (name, t) => (v.field? name).any t.isMember

/-- The datum of each field of a record. -/
def fieldsToDatums (typeName : String) (fields : List (String × Ty)) (v : Value) :
    Except DataError (List Datum) :=
  fields.mapM fun (name, t) =>
    match v.field? name with
    | some field => t.constToDatum field
    | none => .error (invalidValue typeName v)

/-- The record that an array of field datums stands for. -/
def recordOfDatum (typeName : String) (fields : List (String × Ty)) (d : Datum) :
    Except DataError Value :=
  match d.asArray? with
  | some ds =>
    if ds.length = fields.length then do
      return .record (← (fields.zip ds).mapM
        fun ((name, t), d) => do return (name, ← t.datumToConst d))
    else .error (d.malformed typeName)
  | none => .error (d.malformed typeName)

/-- The constants that a record is stored as: one a field, or only the last one. -/
def encodeRecord (typeName : String) (fields : List (String × Ty)) (lastOnly : Bool) (v : Value) :
    Except Error Encoding :=
  if hasFields fields v then
    let constants := fields.map fun (name, t) => Encoding.const t ((v.field? name).getD .null)
    match lastOnly, constants.getLast? with
    | true, some last => .ok last
    | _, _ => .ok (.group constants)
  else .error (.data (invalidValue typeName v))

/-- The record that stored columns stand for. -/
def reifyRecord (typeName : String) (fields : List (String × Ty)) (columns : List Value) :
    Except Error Value :=
  let v := Value.record ((fields.map Prod.fst).zip columns)
  if hasFields fields v then .ok v else .error (.invalidArgument (.cannotBuild typeName v.text))

/-- The structured type of records; with `lastOnly` only the last field of a constant is stored. -/
def record (name : String) (fields : List (String × Ty)) (lastOnly : Bool) : Ty :=
  .base {
    name
    contains := hasFields fields
    toDatum := fun v => do return .array (← fieldsToDatums name fields v)
    ofDatum := recordOfDatum name fields
    numeric := false
    ordered := none
    layout := some {
      columns := fields
      encode := encodeRecord name fields lastOnly
      reify := reifyRecord name fields } }

end Ty

end FlatPlan
