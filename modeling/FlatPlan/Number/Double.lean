/-!
# Double-precision numbers

A `Double` is the 64 bits of an IEEE-754 binary64 number. Every operation is exact integer
arithmetic on its fields: `ofRatio` rounds a quotient to the nearest double, a half going to the
even neighbour, and integers, products and quotients are rounded through it.
-/

namespace FlatPlan

/-- A binary64 number, given by its bits. -/
structure Double where
  bits : UInt64
  deriving DecidableEq, Inhabited

namespace Double

/-- The sign bit. -/
def negative (x : Double) : Bool := x.bits >>> 63 == 1

/-- The eleven exponent bits. -/
def exponentField (x : Double) : Nat := ((x.bits >>> 52) &&& 0x7ff).toNat

/-- The 52 fraction bits. -/
def fraction (x : Double) : Nat := (x.bits &&& 0xfffffffffffff).toNat

def isNaN (x : Double) : Bool := x.exponentField == 0x7ff && x.fraction != 0

def isInfinite (x : Double) : Bool := x.exponentField == 0x7ff && x.fraction == 0

def isFinite (x : Double) : Bool := x.exponentField != 0x7ff

/-- Both zeros. -/
def isZero (x : Double) : Bool := x.exponentField == 0 && x.fraction == 0

/-- The magnitude of a finite number is `significand * 2 ^ exponent`. -/
def significand (x : Double) : Nat :=
  if x.exponentField = 0 then x.fraction else x.fraction + Nat.pow 2 52

/-- The power of two that scales `significand`. -/
def exponent (x : Double) : Int := (max x.exponentField 1 : Nat) - 1075

/-- Numeric equality: a NaN differs from itself and the two zeros agree. -/
def numEq (x y : Double) : Bool :=
  !x.isNaN && !y.isNaN && (x.bits == y.bits || x.isZero && y.isZero)

def nan : Double := ⟨0x7ff8000000000000⟩

/-- Put a sign before a magnitude. -/
def withSign (negative : Bool) (magnitude : UInt64) : Double :=
  ⟨if negative then magnitude ||| 0x8000000000000000 else magnitude⟩

def infinity (negative : Bool) : Double := withSign negative 0x7ff0000000000000

def zero (negative : Bool) : Double := withSign negative 0

/-- The quotient rounded to an integer, a half going to the even one. -/
def roundQuotient (num den : Nat) : Nat :=
  let q := num / den
  let r := num % den
  if 2 * r < den then q
  else if den < 2 * r then q + 1
  else q + q % 2

/-- Scale a fraction by a power of two. -/
def scaleByTwo (num den : Nat) (e : Int) : Nat × Nat :=
  if 0 ≤ e then (num * Nat.pow 2 e.toNat, den) else (num, den * Nat.pow 2 (-e).toNat)

/-- The double nearest to `num / den`, a half going to the even one. -/
def ofRatio (negative : Bool) (num den : Nat) : Double :=
  if num = 0 then zero negative
  else
    let guess : Int := (num.log2 : Int) - den.log2 - 52
    -- The unit of the last place is `2 ^ e`; the quotient then has 53 bits, or fewer below the
    -- normal range.
    let fits (e : Int) : Bool :=
      let (n, d) := scaleByTwo num den (-e)
      n < Nat.pow 2 53 * d
    let e := max (if fits (guess - 1) then guess - 1 else guess) (-1074)
    let (n, d) := scaleByTwo num den (-e)
    let q := roundQuotient n d
    let magnitude := if q < Nat.pow 2 52 then q else (e + 1074).toNat * Nat.pow 2 52 + q
    if magnitude < 0x7ff0000000000000 then withSign negative magnitude.toUInt64
    else infinity negative

/-- The double nearest to an integer. -/
def ofInt (n : Int) : Double := ofRatio (n < 0) n.natAbs 1

/-- The magnitude of a finite number as a fraction. -/
def toRatio (x : Double) : Nat × Nat := scaleByTwo x.significand 1 x.exponent

/-- The rounded product of two finite numbers. -/
def mul (x y : Double) : Double :=
  let (a, b) := x.toRatio
  let (c, d) := y.toRatio
  ofRatio (x.negative != y.negative) (a * c) (b * d)

/-- The rounded quotient of two finite numbers, the second not zero. -/
def div (x y : Double) : Double :=
  let (a, b) := x.toRatio
  let (c, d) := y.toRatio
  ofRatio (x.negative != y.negative) (a * d) (b * c)

/-- The same number with the other sign. -/
def neg (x : Double) : Double := ⟨x.bits ^^^ 0x8000000000000000⟩

/-- The double nearest to a power of ten. -/
def tenPow (k : Nat) : Double := ofRatio false (Nat.pow 10 k) 1

/-- The largest power of ten below the greatest double. -/
def maxTenPow : Nat := 308

/-- Scale digits by a power of ten: the digits are rounded to a double and then multiplied or
divided by the double of one power of ten. Where the power lies beyond the doubles a division goes
in steps, and a multiplication has no result, nor has one that leaves the finite range. -/
def ofScaled? (digits : Nat) (exponent : Int) : Option Double :=
  let x := ofInt digits
  if x.isZero then some x
  else if 0 ≤ exponent then
    if exponent.toNat ≤ maxTenPow then
      let y := x.mul (tenPow exponent.toNat)
      if y.isFinite then some y else none
    else none
  else some (descend (-exponent).toNat x)
where
  /-- Divide by a power of ten, in steps of the largest one that there is. -/
  descend (k : Nat) (x : Double) : Double :=
    if x.isZero then x
    else if k ≤ maxTenPow then x.div (tenPow k)
    else descend (k - maxTenPow) (x.div (tenPow maxTenPow))
  termination_by k
  decreasing_by simp only [maxTenPow] at *; omega

end Double

end FlatPlan
