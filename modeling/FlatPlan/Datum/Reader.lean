import FlatPlan.Datum
import FlatPlan.NameMap
import FlatPlan.Text.Hex

/-!
# Reading datums

`Datum.parse?` reads the JSON text of a datum. A number without point and exponent is an integer if
it fits 64 bits; all other numbers are doubles, among them the integer that is written `-0`. An
object keeps its fields by ascending name and, of fields of one name, the last.
-/

namespace FlatPlan.Datum

namespace Reader

def isBlank (c : Char) : Bool := c = ' ' || c = '\n' || c = '\t' || c = '\r'

def skipBlanks (cs : List Char) : List Char := cs.dropWhile isBlank

/-- The character that a `\u` escape stands for, given what follows the `u`. -/
def unicodeEscape? (cs : List Char) : Option (Char × List Char) := do
  let (high, rest) ← Text.hexNumber? 0 4 cs
  if 0xD800 ≤ high ∧ high < 0xDC00 then
    match rest with
    | '\\' :: 'u' :: rest =>
      let (low, rest) ← Text.hexNumber? 0 4 rest
      if 0xDC00 ≤ low ∧ low < 0xE000 then
        return (Char.ofNat (0x10000 + (high - 0xD800) * 0x400 + (low - 0xDC00)), rest)
      else none
    | _ => none
  else if 0xDC00 ≤ high ∧ high < 0xE000 then none
  else return (Char.ofNat high, rest)

/-- The character that an escape stands for, given what follows the backslash. -/
def escape? : List Char → Option (Char × List Char)
  | '"' :: rest => some ('"', rest)
  | '\\' :: rest => some ('\\', rest)
  | '/' :: rest => some ('/', rest)
  | 'b' :: rest => some (Char.ofNat 8, rest)
  | 'f' :: rest => some (Char.ofNat 12, rest)
  | 'n' :: rest => some ('\n', rest)
  | 'r' :: rest => some ('\r', rest)
  | 't' :: rest => some ('\t', rest)
  | 'u' :: rest => unicodeEscape? rest
  | _ => none

/-- The rest of a string, after its opening quote; `done` holds the characters read, last first. -/
def string? : Nat → List Char → List Char → Option (String × List Char)
  | 0, _, _ => none
  | _ + 1, _, [] => none
  | fuel + 1, done, c :: rest =>
    if c = '"' then some (String.ofList done.reverse, rest)
    else if c = '\\' then do
      let (c, rest) ← escape? rest
      string? fuel (c :: done) rest
    else if c.toNat < 32 then none
    else string? fuel (c :: done) rest

/-- Take digits into a 64-bit number while they fit; answers the number and how many were taken. -/
def takeDigits (n taken : Nat) : List Char → Nat × Nat
  | [] => (n, taken)
  | c :: cs =>
    let next := n * 10 + (c.toNat - '0'.toNat)
    if next < UInt64.size then takeDigits next (taken + 1) cs else (n, taken)

theorem takeDigits_lt {n taken : Nat} {cs : List Char} (h : n < 0x10000000000000000) :
    (takeDigits n taken cs).1 < 0x10000000000000000 := by
  induction cs generalizing n taken with
  | nil => exact h
  | cons c cs ih =>
    simp only [takeDigits]
    split
    case isTrue fits => exact ih fits
    case isFalse => exact h

/-- The digits after a point, and the rest. -/
def fraction? : List Char → Option (List Char × List Char)
  | '.' :: rest =>
    let digits := rest.takeWhile Char.isDigit
    if digits.isEmpty then none else some (digits, rest.dropWhile Char.isDigit)
  | rest => some ([], rest)

/-- The exponent after its mark, and the rest. -/
def exponent? : List Char → Option (Option Int × List Char)
  | [] => some (none, [])
  | c :: rest =>
    if c = 'e' ∨ c = 'E' then
      let (negative, rest) := match rest with
        | '-' :: rest => (true, rest)
        | '+' :: rest => (false, rest)
        | rest => (false, rest)
      let digits := rest.takeWhile Char.isDigit
      if digits.isEmpty then none
      else
        let n : Nat := digits.foldl (fun n c => n * 10 + (c.toNat - '0'.toNat)) 0
        some (some (if negative then -(n : Int) else n), rest.dropWhile Char.isDigit)
    else some (none, c :: rest)

/-- The double of a sign, digits before and after the point, and an exponent. -/
def real? (negative : Bool) (whole fraction : List Char) (exponent : Int) : Option Datum := do
  let before := takeDigits 0 0 whole
  let all := takeDigits before.1 0 fraction
  let x ← FiniteDouble.ofScaled? all.1 (takeDigits_lt (takeDigits_lt (by decide)))
    (exponent + (whole.length - before.2 : Nat) - all.2)
  return .real (if negative then x.neg else x)

/-- The integer of a sign and a magnitude, if it has 64 bits. The negative zero is none. -/
def integer? (negative : Bool) (n : Nat) : Option WideInt :=
  if negative && n == 0 then none else WideInt.ofInt? (if negative then -(n : Int) else n)

/-- A number; `cs` begins with its first digit. -/
def number? (negative : Bool) (cs : List Char) : Option (Datum × List Char) := do
  let whole := cs.takeWhile Char.isDigit
  if whole.isEmpty || (whole.head? == some '0' && whole.length != 1) then none
  else
    let (fraction, rest) ← fraction? (cs.dropWhile Char.isDigit)
    let (exponent, rest) ← exponent? rest
    if fraction.isEmpty && exponent.isNone then
      let n : Nat := whole.foldl (fun n c => n * 10 + (c.toNat - '0'.toNat)) 0
      match integer? negative n with
      | some n => return (.integer n, rest)
      | none => return (← real? negative whole [] 0, rest)
    else return (← real? negative whole fraction (exponent.getD 0), rest)

/-- The rest after an expected word. -/
def word? : List Char → List Char → Option (List Char)
  | [], rest => some rest
  | c :: cs, d :: ds => if c = d then word? cs ds else none
  | _ :: _, [] => none

mutual

/-- A datum at the head of the input, which has no blank in front. -/
def datum? : Nat → List Char → Option (Datum × List Char)
  | 0, _ => none
  | _ + 1, [] => none
  | fuel + 1, c :: rest =>
    if c = '"' then do
      let (s, rest) ← string? (rest.length + 1) [] rest
      return (.string s, rest)
    else if c = '[' then
      match skipBlanks rest with
      | ']' :: rest => some (.array [], rest)
      | rest => do
        let (items, rest) ← items? fuel [] rest
        return (.array items, rest)
    else if c = '\x7b' then
      match skipBlanks rest with
      | '\x7d' :: rest => some (.object [], rest)
      | rest => do
        let (fields, rest) ← fields? fuel .empty rest
        return (.object fields.entries, rest)
    else if c = 'n' then do return (.null, ← word? ['u', 'l', 'l'] rest)
    else if c = 't' then do return (.boolean true, ← word? ['r', 'u', 'e'] rest)
    else if c = 'f' then do return (.boolean false, ← word? ['a', 'l', 's', 'e'] rest)
    else if c = '-' then number? true rest
    else number? false (c :: rest)

/-- The items of an array up to its bracket; `done` holds those before, last first. -/
def items? : Nat → List Datum → List Char → Option (List Datum × List Char)
  | 0, _, _ => none
  | fuel + 1, done, cs => do
    let (d, rest) ← datum? fuel cs
    match skipBlanks rest with
    | ',' :: rest => items? fuel (d :: done) (skipBlanks rest)
    | ']' :: rest => return ((d :: done).reverse, rest)
    | _ => none

/-- The fields of an object up to its bracket, added to those before. -/
def fields? : Nat → NameMap Datum → List Char → Option (NameMap Datum × List Char)
  | 0, _, _ => none
  | fuel + 1, done, cs =>
    match cs with
    | '"' :: rest => do
      let (name, rest) ← string? (rest.length + 1) [] rest
      match skipBlanks rest with
      | ':' :: rest =>
        let (d, rest) ← datum? fuel (skipBlanks rest)
        match skipBlanks rest with
        | ',' :: rest => fields? fuel (done.insert name d) (skipBlanks rest)
        | '\x7d' :: rest => return (done.insert name d, rest)
        | _ => none
      | _ => none
    | _ => none

end

end Reader

/-- Read a text that holds one datum and blanks around it. -/
def parse? (text : String) : Option Datum := do
  let cs := Reader.skipBlanks text.toList
  let (d, rest) ← Reader.datum? (cs.length + 1) cs
  if (Reader.skipBlanks rest).isEmpty then some d else none

end FlatPlan.Datum
