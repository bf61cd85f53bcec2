import FlatPlan.Datum.Access
import FlatPlan.Ty

/-!
# Types as datums

A base type is written as its name and read back through a resolver of names; every other type is a
tagged array.
-/

namespace FlatPlan.Ty

mutual

/-- The datum of a type. -/
def toDatum : Ty → Datum
  | .base b => .string b.name
  | .nullable inner => .tagged "nullable" [inner.toDatum]
  | .product items => .tagged "product" [.array (toDatums items)]
  | .set member => .tagged "set" [member.toDatum]
  | .boundedString limit => .tagged "bounded-string" [.integer limit.toUInt64]

/-- The datum of each type. -/
def toDatums : List Ty → List Datum
  | [] => []
  | t :: ts => t.toDatum :: toDatums ts

end

/-- The string type bounded by the number that a datum holds. -/
def boundedOfDatum (d : Datum) : Except DataError Ty := do
  let n ← d.expectUInt64 "string length"
  if n.toNat < UInt32.size then return .boundedString n.toUInt32
  else .error (d.malformed "32-bit string length")

mutual

/-- The type that a datum stands for; `resolve` gives the base types. -/
def ofDatum (resolve : String → Option Ty) : Datum → Except DataError Ty
  | .string name =>
    match resolve name with
    | some t => .ok t
    | none => .error (.unknownType name)
  | .array (.string tag :: parts) =>
    if tag = "nullable" then
      match parts with
      | [inner] => do return (← ofDatum resolve inner).orNull
      | parts => .error (Datum.wrongParts tag 1 parts)
    else if tag = "product" then
      match parts with
      | [.array items] => do return .product (← ofDatums resolve items)
      | [d] => .error (d.malformed "array of types")
      | parts => .error (Datum.wrongParts tag 1 parts)
    else if tag = "set" then
      match parts with
      | [member] => do return .set (← ofDatum resolve member)
      | parts => .error (Datum.wrongParts tag 1 parts)
    else if tag = "bounded-string" then
      match parts with
      | [d] => boundedOfDatum d
      | parts => .error (Datum.wrongParts tag 1 parts)
    else .error (.malformed "type tag" tag)
  | d => .error (d.malformed "tagged array")

/-- The type that each datum stands for. -/
def ofDatums (resolve : String → Option Ty) : List Datum → Except DataError (List Ty)
  | [] => .ok []
  | d :: ds => do
    let t ← ofDatum resolve d
    let ts ← ofDatums resolve ds
    return t :: ts

end

end FlatPlan.Ty
