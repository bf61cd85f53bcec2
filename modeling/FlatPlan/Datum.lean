import FlatPlan.Number.Finite

/-!
# Datums

A datum is the written form of types, constants, expressions and queries: a tree of nulls, booleans,
numbers, strings, arrays and objects. Composite things are tagged arrays, whose first item is a
string that names the form of the rest.
-/

namespace FlatPlan

/-- A JSON-like tree. Integers range from `-2^63` to `2^64 - 1`; all other numbers are finite
doubles. -/
inductive Datum where
  | null
  | boolean (b : Bool)
  | integer (n : WideInt)
  | real (x : FiniteDouble)
  | string (s : String)
  | array (items : List Datum)
  | object (fields : List (String × Datum))
  deriving Inhabited

namespace Datum

/-- The array of a tag and the parts after it. -/
def tagged (tag : String) (parts : List Datum) : Datum :=
  .array (.string tag :: parts)

/-- The 64-bit signed integer that a datum holds. -/
def asInt64? : Datum → Option Int64
  | .integer n => if n.toInt < 0x8000000000000000 then some n.toInt.toInt64 else none
  | _ => none

/-- The 64-bit unsigned integer that a datum holds. -/
def asUInt64? : Datum → Option UInt64
  | .integer n => if 0 ≤ n.toInt then some n.toInt.toNat.toUInt64 else none
  | _ => none

/-- The number that a datum holds, rounded if it is an integer. -/
def asFinite? : Datum → Option FiniteDouble
  | .integer n => some (.ofInt n)
  | .real x => some x
  | _ => none

/-- The double that a datum holds. -/
def asDouble? (d : Datum) : Option Double :=
  d.asFinite?.map (·.toDouble)

def asString? : Datum → Option String
  | .string s => some s
  | _ => none

def asBool? : Datum → Option Bool
  | .boolean b => some b
  | _ => none

def asArray? : Datum → Option (List Datum)
  | .array items => some items
  | _ => none

def isNull : Datum → Bool
  | .null => true
  | _ => false

/-- The field of an object, if there is one of that name. -/
def field? (name : String) : Datum → Option Datum
  | .object fields => fields.lookup name
  | _ => none

@[simp] theorem asInt64?_integer (n : Int64) : (integer n).asInt64? = some n := by
  have upper : (WideInt.ofInt64 n).toInt < 0x8000000000000000 := n.toInt_lt
  rw [asInt64?, if_pos upper, WideInt.toInt_ofInt64, Int.toInt64, Int64.ofInt_toInt]

@[simp] theorem asUInt64?_integer (n : UInt64) : (integer n).asUInt64? = some n := by
  have lower : 0 ≤ (WideInt.ofUInt64 n).toInt := Int.natCast_nonneg _
  rw [asUInt64?, if_pos lower, WideInt.toInt_ofUInt64, Int.toNat_natCast, Nat.toUInt64,
    UInt64.ofNat_toNat]

end Datum

end FlatPlan
