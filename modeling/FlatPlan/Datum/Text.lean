import FlatPlan.Datum
import FlatPlan.Number.Format
import FlatPlan.Text.Hex

/-!
# Datum text

The compact JSON text of a datum: no blanks, the fields of an object in the order in which it holds
them, and characters below U+0020, the quote and the backslash escaped.
-/

namespace FlatPlan.Datum

/-- Doubles have a point or an exponent; an exponent is written outside `10^-5 .. 10^16`, with its
sign. -/
def numberFormat : NumberFormat := ⟨some (-5, 15), true, true, .even⟩

/-- The characters that stand for one character inside quotes. -/
def escape (c : Char) : List Char :=
  if c = '"' then ['\\', '"']
  else if c = '\\' then ['\\', '\\']
  else if c.toNat = 8 then ['\\', 'b']
  else if c.toNat = 9 then ['\\', 't']
  else if c.toNat = 10 then ['\\', 'n']
  else if c.toNat = 12 then ['\\', 'f']
  else if c.toNat = 13 then ['\\', 'r']
  else if c.toNat < 32 then
    ['\\', 'u', '0', '0', Text.hexDigit (c.toNat / 16), Text.hexDigit (c.toNat % 16)]
  else [c]

/-- A string in quotes. -/
def quote (s : String) : String :=
  "\"" ++ String.ofList (s.toList.flatMap escape) ++ "\""

mutual

/-- The text of a datum. -/
def text : Datum → String
  | .null => "null"
  | .boolean b => if b then "true" else "false"
  | .integer n => toString n.toInt
  | .real x => numberFormat.text x.toDouble
  | .string s => quote s
  | .array items => "[" ++ ",".intercalate (itemTexts items) ++ "]"
  | .object fields => "\x7b" ++ ",".intercalate (fieldTexts fields) ++ "\x7d"

/-- The text of each item. -/
def itemTexts : List Datum → List String
  | [] => []
  | d :: ds => d.text :: itemTexts ds

/-- The text of each field, its name in quotes. -/
def fieldTexts : List (String × Datum) → List String
  | [] => []
  | (name, d) :: fields => (quote name ++ ":" ++ d.text) :: fieldTexts fields

end

end FlatPlan.Datum
