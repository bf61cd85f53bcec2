import FlatPlan.Number.Double

/-!
# Shortest decimals

`Double.shortest` gives the fewest decimal digits that read back as the same double, and of those
the nearest to it. The doubles around a number leave an interval of reals that round to it; a
decimal reads back exactly if it lies in that interval, ends included if the significand is even.
For one digit, two digits and so on the two neighbours of the number on the decimal grid of that
many digits are tried, in exact arithmetic.
-/

namespace FlatPlan

/-- The positive number `digits * 10 ^ exponent`. -/
structure Decimal where
  digits : Nat
  exponent : Int
  deriving DecidableEq, Repr

/-- Which neighbour to take if a number lies halfway between two. -/
inductive Tie where
  | even
  | up
  deriving DecidableEq, Repr

namespace Decimal

/-- Drop final zeros, at most `fuel` of them. -/
def trim : Nat → Decimal → Decimal
  | 0, d => d
  | fuel + 1, d =>
    if d.digits ≠ 0 ∧ d.digits % 10 = 0 then trim fuel ⟨d.digits / 10, d.exponent + 1⟩ else d

/-- The digits as characters. -/
def digitChars (d : Decimal) : List Char := (Nat.toDigits 10 d.digits)

/-- The power of ten of the first digit. -/
def magnitude (d : Decimal) : Int := d.exponent + d.digitChars.length - 1

end Decimal

namespace Double

/-- The reals that round to a finite double, over a common denominator. -/
structure Neighbourhood where
  low : Nat
  value : Nat
  high : Nat
  den : Nat
  /-- Whether the two ends belong to it. -/
  closed : Bool

/-- Halfway to the doubles below and above; the step down is half as wide at a power of two. -/
def neighbourhood (x : Double) : Neighbourhood :=
  let m := x.significand
  let step := if m = Nat.pow 2 52 ∧ 1 < x.exponentField then 1 else 2
  let unit := x.exponent - 2
  let num := if 0 ≤ unit then Nat.pow 2 unit.toNat else 1
  let den := if 0 ≤ unit then 1 else Nat.pow 2 (-unit).toNat
  ⟨(4 * m - step) * num, 4 * m * num, (4 * m + 2) * num, den, m % 2 = 0⟩

namespace Neighbourhood

/-- The neighbourhood in units of `10 ^ p`. -/
def inUnits (n : Neighbourhood) (p : Int) : Neighbourhood :=
  if 0 ≤ p then { n with den := n.den * Nat.pow 10 p.toNat }
  else
    let s := Nat.pow 10 (-p).toNat
    { n with low := n.low * s, value := n.value * s, high := n.high * s }

/-- Whether the integer `k` reads back as the number. -/
def holds (n : Neighbourhood) (k : Nat) : Bool :=
  if n.closed then n.low ≤ k * n.den && k * n.den ≤ n.high
  else n.low < k * n.den && k * n.den < n.high

/-- The integer next to the number that reads back, the nearer one if both do. -/
def nearest? (n : Neighbourhood) (tie : Tie) : Option Nat :=
  let down := n.value / n.den
  match n.holds down, n.holds (down + 1) with
  | false, false => none
  | true, false => some down
  | false, true => some (down + 1)
  | true, true =>
    let twice := 2 * (n.value % n.den)
    if twice < n.den then some down
    else if n.den < twice then some (down + 1)
    else match tie with
      | .up => some (down + 1)
      | .even => some (down + down % 2)

/-- The power of ten of the first digit of the value. -/
def magnitude (n : Neighbourhood) : Int :=
  let log : Int := (n.value.log2 : Int) - n.den.log2
  let guess := log * 30103 / 100000 - 1
  let reaches (e : Int) : Bool :=
    let s := n.inUnits e
    s.den ≤ s.value
  if reaches (guess + 3) then guess + 3
  else if reaches (guess + 2) then guess + 2
  else if reaches (guess + 1) then guess + 1
  else guess

/-- Try grids of ever more digits; `17` always suffice. -/
def search (n : Neighbourhood) (tie : Tie) (first : Int) : Nat → Decimal
  | 0 => ⟨n.value / n.den, 0⟩
  | fuel + 1 =>
    let p := first - (17 - (fuel + 1) : Nat)
    match (n.inUnits p).nearest? tie with
    | some k => ⟨k, p⟩
    | none => n.search tie first fuel

end Neighbourhood

/-- The shortest decimal that reads back as a finite number other than zero, without its sign. -/
def shortest (x : Double) (tie : Tie) : Decimal :=
  let n := x.neighbourhood
  (n.search tie n.magnitude 17).trim 20

end Double

end FlatPlan
