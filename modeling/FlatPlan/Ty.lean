import FlatPlan.Datum
import FlatPlan.Error
import FlatPlan.Value

/-!
# Types

A type is a named base type, or built from others: nullable, product, set, and strings of bounded
length. A base type brings its own membership test and datum form, and is known by its name alone. A
base type with a `Layout` is structured: its values are stored as several columns.
-/

namespace FlatPlan

mutual

/-- A value type. -/
inductive Ty where
  | base (b : BaseTy)
  /-- The values of a type and null. -/
  | nullable (inner : Ty)
  | product (items : List Ty)
  | set (member : Ty)
  /-- Strings of at most so many characters. -/
  | boundedString (limit : UInt32)

/-- A named type with its own values. -/
structure BaseTy where
  /-- The name, which is also the identity of the type. -/
  name : String
  contains : Value → Bool
  toDatum : Value → Except DataError Datum
  ofDatum : Datum → Except DataError Value
  /-- Whether the type is numeric unless said otherwise. -/
  numeric : Bool
  /-- Whether the type is ordered unless said otherwise; `none` follows `numeric`. -/
  ordered : Option Bool
  layout : Option Layout

/-- How the values of a structured type are stored. -/
structure Layout where
  /-- The columns that hold a value, by name and type. -/
  columns : List (String × Ty)
  /-- What a value is stored as. -/
  encode : Value → Except Error Encoding
  /-- The value that stored columns stand for. -/
  reify : List Value → Except Error Value

/-- What a value is stored as: a constant, a group of encodings, or what an encoder makes of it. -/
inductive Encoding where
  | const (type : Ty) (value : Value)
  | group (items : List Encoding)
  /-- The answer of an encoder that is known by its name, which may be any expression. -/
  | named (encoder : String) (value : Value)

end

namespace Ty

mutual

/-- Whether two types are the same: base types by name, all others part by part. -/
def same : Ty → Ty → Bool
  | .base a, .base b => a.name == b.name
  | .nullable a, .nullable b => a.same b
  | .product as, .product bs => sameItems as bs
  | .set a, .set b => a.same b
  | .boundedString m, .boundedString n => m == n
  | _, _ => false

/-- Whether two lists of types agree item by item. -/
def sameItems : List Ty → List Ty → Bool
  | [], [] => true
  | a :: as, b :: bs => a.same b && sameItems as bs
  | _, _ => false

end

instance : BEq Ty := ⟨same⟩

mutual

/-- The text of a type. -/
def text : Ty → String
  | .base b => b.name
  | .nullable inner => inner.text ++ "?"
  | .product items => "(" ++ ", ".intercalate (itemTexts items) ++ ")"
  | .set member => "\x7b" ++ member.text ++ "\x7d"
  | .boundedString limit => "string(" ++ toString limit.toNat ++ ")"

/-- The text of each type. -/
def itemTexts : List Ty → List String
  | [] => []
  | t :: ts => t.text :: itemTexts ts

end

/-- The structural text of a base type. -/
def dumpBase (b : BaseTy) : String :=
  Text.dumpFields "BaseType" [
    ("name", Text.dumpString b.name),
    ("numeric", Text.dumpBool b.numeric),
    ("ordered", match b.ordered with
      | none => "None"
      | some ordered => Text.dumpCall "Some" [Text.dumpBool ordered]),
    ("extension", Text.dumpBool b.layout.isSome)]

mutual

/-- The structural text of a type. -/
def dump : Ty → String
  | .base b => Text.dumpCall "Base" [dumpBase b]
  | .nullable inner => Text.dumpCall "Nullable" [inner.dump]
  | .product items => Text.dumpCall "Product" [Text.dumpList (dumpItems items)]
  | .set member => Text.dumpCall "Set" [member.dump]
  | .boundedString limit => Text.dumpCall "BoundedString" [toString limit.toNat]

/-- The structural text of each type. -/
def dumpItems : List Ty → List String
  | [] => []
  | t :: ts => t.dump :: dumpItems ts

end

/-- The type with null, which is the type itself if it has null already. -/
def orNull : Ty → Ty
  | .nullable inner => .nullable inner
  | t => .nullable t

/-- The type without null. -/
def nonNull : Ty → Ty
  | .nullable inner => inner
  | t => t

def isProduct : Ty → Bool
  | .product _ => true
  | _ => false

def base? : Ty → Option BaseTy
  | .base b => some b
  | _ => none

/-- The layout of a structured base type. -/
def ownLayout? (t : Ty) : Option Layout := do (← t.base?).layout

/-- The layout of a structured type, with or without null. -/
def layout? (t : Ty) : Option Layout := t.nonNull.ownLayout?

/-- Whether the type has a layout. -/
def isStructured (t : Ty) : Bool := t.layout?.isSome

mutual

/-- Whether a value belongs to a type. -/
def isMember : Ty → Value → Bool
  | .base b, v => b.contains v
  | .nullable _, .null => true
  | .nullable inner, v => inner.isMember v
  | .product ts, .tuple vs => areMembers ts vs
  | .set member, .set vs => vs.all fun v => member.isMember v
  | .boundedString limit, .string s => s.length ≤ limit.toNat
  | _, _ => false

/-- Whether there is one value for each type, and it belongs to it. -/
def areMembers : List Ty → List Value → Bool
  | [], [] => true
  | t :: ts, v :: vs => t.isMember v && areMembers ts vs
  | _, _ => false

end

/-- The value is not a member of the type of that name. -/
def invalidValue (name : String) (v : Value) : DataError :=
  .invalidValue name v.text

/-- Refuse a value that does not belong to the type. -/
def ensureMember (t : Ty) (v : Value) : Except DataError Unit :=
  if t.isMember v then .ok () else .error (invalidValue t.text v)

end Ty

end FlatPlan
