/-!
# Numbers in base sixteen
-/

namespace FlatPlan.Text

/-- A digit in base sixteen, lower case. -/
def hexDigit (n : Nat) : Char :=
  if n < 10 then Char.ofNat ('0'.toNat + n) else Char.ofNat ('a'.toNat + n - 10)

/-- The value of a digit in base sixteen, of either case. -/
def hexValue? (c : Char) : Option Nat :=
  if '0' ≤ c ∧ c ≤ '9' then some (c.toNat - '0'.toNat)
  else if 'a' ≤ c ∧ c ≤ 'f' then some (c.toNat - 'a'.toNat + 10)
  else if 'A' ≤ c ∧ c ≤ 'F' then some (c.toNat - 'A'.toNat + 10)
  else none

/-- A number of so many digits at the head of a text, added to the digits before it, and the
rest. -/
def hexNumber? (before : Nat) : Nat → List Char → Option (Nat × List Char)
  | 0, cs => some (before, cs)
  | _ + 1, [] => none
  | digits + 1, c :: cs => do hexNumber? (before * 16 + (← hexValue? c)) digits cs

end FlatPlan.Text
