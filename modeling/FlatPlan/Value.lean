import FlatPlan.Number.Format
import FlatPlan.Text.Dump

/-!
# Values

What a constant denotes and what a result row holds: nulls, scalars, tuples, sets and records.
-/

namespace FlatPlan

/-- A value of some type. A record lists its fields in order; of fields of one name the first
counts. -/
inductive Value where
  | null
  | boolean (b : Bool)
  | integer (n : Int64)
  | float (x : Double)
  | string (s : String)
  | tuple (items : List Value)
  | set (items : List Value)
  | record (fields : List (String × Value))
  deriving Inhabited

namespace Value

def isNull : Value → Bool
  | .null => true
  | _ => false

/-- The field of a record, if there is one of that name. -/
def field? (name : String) : Value → Option Value
  | .record fields => fields.lookup name
  | _ => none

/-- Values are shown in plain notation, whole numbers without a point. -/
def numberFormat : NumberFormat := ⟨none, false, false, .up⟩

/-- In structural text a double has a point, or an exponent outside `10^-4 .. 10^16`. -/
def dumpNumberFormat : NumberFormat := ⟨some (-4, 15), true, false, .up⟩

mutual

/-- The text of a value, as it stands in expressions and messages. -/
def text : Value → String
  | .null => "NULL"
  | .boolean b => if b then "true" else "false"
  | .integer n => toString n.toInt
  | .float x => numberFormat.text x
  | .string s => "'" ++ s ++ "'"
  | .tuple items => "(" ++ ", ".intercalate (itemTexts items) ++ ")"
  | .set items => "\x7b" ++ ", ".intercalate (itemTexts items) ++ "\x7d"
  | .record fields => "\x7b" ++ ", ".intercalate (fieldTexts fields) ++ "\x7d"

/-- The text of each item. -/
def itemTexts : List Value → List String
  | [] => []
  | v :: vs => v.text :: itemTexts vs

/-- The name and text of each field. -/
def fieldTexts : List (String × Value) → List String
  | [] => []
  | (name, v) :: fields => (name ++ ": " ++ v.text) :: fieldTexts fields

end

mutual

/-- The structural text of a value. -/
def dump : Value → String
  | .null => "Null"
  | .boolean b => Text.dumpCall "Boolean" [Text.dumpBool b]
  | .integer n => Text.dumpCall "Integer" [toString n.toInt]
  | .float x => Text.dumpCall "Float" [dumpNumberFormat.text x]
  | .string s => Text.dumpCall "String" [Text.dumpString s]
  | .tuple items => Text.dumpCall "Tuple" [Text.dumpList (dumpItems items)]
  | .set items => Text.dumpCall "Set" [Text.dumpList (dumpItems items)]
  | .record fields => Text.dumpCall "Record" [Text.dumpList (dumpFields fields)]

/-- The structural text of each item. -/
def dumpItems : List Value → List String
  | [] => []
  | v :: vs => v.dump :: dumpItems vs

/-- The structural text of each field. -/
def dumpFields : List (String × Value) → List String
  | [] => []
  | (name, v) :: fields => Text.dumpPair (Text.dumpString name) v.dump :: dumpFields fields

end

mutual

/-- Equality that compares numbers as numbers: a NaN differs from itself, the two zeros agree. -/
def same : Value → Value → Bool
  | .null, .null => true
  | .boolean a, .boolean b => a == b
  | .integer a, .integer b => a == b
  | .float a, .float b => a.numEq b
  | .string a, .string b => a == b
  | .tuple as, .tuple bs => sameItems as bs
  | .set as, .set bs => sameItems as bs
  | .record as, .record bs => sameFields as bs
  | _, _ => false

/-- Whether two lists agree item by item. -/
def sameItems : List Value → List Value → Bool
  | [], [] => true
  | a :: as, b :: bs => a.same b && sameItems as bs
  | _, _ => false

/-- Whether two field lists agree name by name and value by value. -/
def sameFields : List (String × Value) → List (String × Value) → Bool
  | [], [] => true
  | (m, a) :: as, (n, b) :: bs => m == n && a.same b && sameFields as bs
  | _, _ => false

end

end Value

end FlatPlan
