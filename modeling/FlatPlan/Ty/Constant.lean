import FlatPlan.Datum.Access
import FlatPlan.Ty

/-!
# Constants as datums

A value is written by its type: a base type has its own form, null is `null`, products and sets are
arrays, and bounded strings are strings.
-/

namespace FlatPlan.Ty

mutual

/-- The datum of a value of a type. -/
def constToDatum : Ty → Value → Except DataError Datum
  | .base b, v => if b.contains v then b.toDatum v else .error (invalidValue b.name v)
  | .nullable _, .null => .ok .null
  | .nullable inner, v => inner.constToDatum v
  | .product ts, v =>
    match v with
    | .tuple vs =>
      if ts.length = vs.length then do return .array (← constsToDatums ts vs)
      else .error (invalidValue (Ty.product ts).text v)
    | v => .error (invalidValue (Ty.product ts).text v)
  | .set member, v =>
    match v with
    | .set vs => do return .array (← vs.mapM fun v => member.constToDatum v)
    | v => .error (invalidValue (Ty.set member).text v)
  | .boundedString limit, v =>
    match v with
    | .string s =>
      if s.length ≤ limit.toNat then .ok (.string s)
      else .error (invalidValue (Ty.boundedString limit).text v)
    | v => .error (invalidValue (Ty.boundedString limit).text v)

/-- The datum of one value for each type. -/
def constsToDatums : List Ty → List Value → Except DataError (List Datum)
  | t :: ts, v :: vs => do
    let d ← t.constToDatum v
    let ds ← constsToDatums ts vs
    return d :: ds
  | _, _ => .ok []

end

mutual

/-- The value of a type that a datum stands for. -/
def datumToConst : Ty → Datum → Except DataError Value
  | .base b, d => b.ofDatum d
  | .nullable inner, d => if d.isNull then .ok .null else inner.datumToConst d
  | .product ts, d => do
    let ds ← d.items "product components"
    if ds.length = ts.length then return .tuple (← datumsToConsts ts ds)
    else .error (.invalidValue (Ty.product ts).text d.text)
  | .set member, d => do
    let ds ← d.items "set members"
    return .set (← ds.mapM fun d => member.datumToConst d)
  | .boundedString limit, d => do
    let s ← d.expectString "string"
    ensureMember (.boundedString limit) (.string s)
    return .string s

/-- The value that one datum for each type stands for. -/
def datumsToConsts : List Ty → List Datum → Except DataError (List Value)
  | t :: ts, d :: ds => do
    let v ← t.datumToConst d
    let vs ← datumsToConsts ts ds
    return v :: vs
  | _, _ => .ok []

end

end FlatPlan.Ty
