import FlatPlan.Number.Double

/-!
# Finite numbers

A `FiniteDouble` is a double that is neither an infinity nor not a number, and a `WideInt` an
integer that has 64 bits, with or without sign. Main statements: such an integer is rounded to a
finite double (`Double.isFinite_ofInt`), and so are digits that are scaled by a power of ten
(`Double.isFinite_of_ofScaled?`). Both come from bounds on the exponent bits of a rounded fraction.
-/

namespace FlatPlan

/-! ## Doubles -/

namespace Double

theorem exponentField_eq (x : Double) :
    x.exponentField = x.bits.toNat / 0x10000000000000 % 0x800 := by
  have mask : (0x7ff : UInt64).toNat = 2 ^ 11 - 1 := rfl
  rw [exponentField, UInt64.toNat_and, UInt64.toNat_shiftRight, mask,
    Nat.and_two_pow_sub_one_eq_mod, Nat.shiftRight_eq_div_pow]
  rfl

theorem isFinite_of_exponentField_lt {x : Double} (h : x.exponentField < 2047) :
    x.isFinite = true := by
  rw [isFinite, bne_iff_ne]
  omega

theorem exponentField_withSign (negative : Bool) {magnitude : Nat}
    (small : magnitude < 0x8000000000000000) :
    (withSign negative magnitude.toUInt64).exponentField = magnitude / 0x10000000000000 := by
  have bits : magnitude.toUInt64.toNat = magnitude := Nat.mod_eq_of_lt (by omega)
  rw [exponentField_eq]
  cases negative with
  | false =>
    simp only [withSign, Bool.false_eq_true, if_false, bits]
    omega
  | true =>
    have signed : (magnitude.toUInt64 ||| 0x8000000000000000).toNat = 2 ^ 63 + magnitude := by
      have sign : (0x8000000000000000 : UInt64).toNat = 2 ^ 63 := rfl
      rw [UInt64.toNat_or, bits, sign, Nat.or_comm]
      have bound : magnitude < 2 ^ 63 := small
      simpa using (Nat.two_pow_add_eq_or_of_lt bound 1).symm
    simp only [withSign, if_true, signed]
    omega

theorem exponentField_neg (x : Double) : x.neg.exponentField = x.exponentField := by
  have sign : (0x8000000000000000 : UInt64).toNat = 2 ^ 63 := rfl
  rw [exponentField_eq, exponentField_eq, neg, UInt64.toNat_xor, sign]
  change (x.bits.toNat ^^^ 2 ^ 63) / 2 ^ 52 % 2 ^ 11 = x.bits.toNat / 2 ^ 52 % 2 ^ 11
  rw [Nat.xor_div_two_pow, Nat.xor_mod_two_pow]
  exact Nat.xor_zero _

/-! ### Rounded fractions -/

theorem roundQuotient_le (num den : Nat) : roundQuotient num den ≤ num / den + 1 := by
  simp only [roundQuotient]
  split
  · omega
  · split
    · omega
    · omega

/-- A fraction has less than 55 bits in units of `2 ^ e`, if the unit is not too small. -/
theorem div_scaleByTwo_lt {num den : Nat} {e : Int} (positive : den ≠ 0)
    (coarse : (num.log2 : Int) - den.log2 - 53 ≤ e) :
    (scaleByTwo num den (-e)).1 / (scaleByTwo num den (-e)).2 < 0x40000000000000 := by
  change _ < 2 ^ 54
  have below : num < 2 ^ (num.log2 + 1) := Nat.lt_log2_self
  have above : 2 ^ den.log2 ≤ den := Nat.log2_self_le positive
  unfold scaleByTwo
  split
  case isTrue nonneg =>
    refine Nat.div_lt_of_lt_mul ?_
    calc num * 2 ^ (-e).toNat
      _ < 2 ^ (num.log2 + 1) * 2 ^ (-e).toNat :=
        Nat.mul_lt_mul_of_pos_right below (Nat.two_pow_pos _)
      _ = 2 ^ (num.log2 + 1 + (-e).toNat) := (Nat.pow_add ..).symm
      _ ≤ 2 ^ (den.log2 + 54) := Nat.pow_le_pow_right (by omega) (by omega)
      _ = 2 ^ den.log2 * 2 ^ 54 := Nat.pow_add ..
      _ ≤ den * 2 ^ 54 := Nat.mul_le_mul_right _ above
  case isFalse negative =>
    refine Nat.div_lt_of_lt_mul ?_
    calc num
      _ < 2 ^ (num.log2 + 1) := below
      _ ≤ 2 ^ (den.log2 + (- -e).toNat + 54) := Nat.pow_le_pow_right (by omega) (by omega)
      _ = 2 ^ den.log2 * 2 ^ (- -e).toNat * 2 ^ 54 := by rw [Nat.pow_add, Nat.pow_add]
      _ ≤ den * 2 ^ (- -e).toNat * 2 ^ 54 := Nat.mul_le_mul_right _ (Nat.mul_le_mul_right _ above)

/-- `q` units of the last place `2 ^ e`. -/
def units (negative : Bool) (q : Nat) (e : Int) : Double :=
  let magnitude := if q < Nat.pow 2 52 then q else (e + 1074).toNat * Nat.pow 2 52 + q
  if magnitude < 0x7ff0000000000000 then withSign negative magnitude.toUInt64 else infinity negative

/-- A fraction is rounded to units of a place that leaves 53 bits or 54, or of the lowest place that
there is. -/
theorem exists_ofRatio_eq_units (negative : Bool) {num den : Nat} (nonzero : num ≠ 0) :
    ∃ e : Int, (num.log2 : Int) - den.log2 - 53 ≤ e ∧ -1074 ≤ e ∧
      e ≤ max ((num.log2 : Int) - den.log2 - 52) (-1074) ∧ ofRatio negative num den =
        units negative (roundQuotient (scaleByTwo num den (-e)).1 (scaleByTwo num den (-e)).2)
          e := by
  unfold ofRatio
  rw [if_neg nonzero]
  refine ⟨_, ?_, ?_, ?_, rfl⟩
  · split
    · omega
    · omega
  · omega
  · split
    · omega
    · omega

theorem exponentField_units_le (negative : Bool) {q : Nat} {e : Int} (few : q ≤ 0x40000000000000)
    (high : -1074 ≤ e) (low : e < 968) : ((units negative q e).exponentField : Int) ≤ e + 1078 := by
  have place : Nat.pow 2 52 = 4503599627370496 := rfl
  have magnitude : (if q < Nat.pow 2 52 then q else (e + 1074).toNat * Nat.pow 2 52 + q) ≤
      (e + 1078).toNat * 4503599627370496 := by
    simp only [place]
    split
    · omega
    · omega
  unfold units
  dsimp only
  rw [if_pos (by omega), exponentField_withSign negative (by omega)]
  omega

/-- The exponent bits of a fraction that is at most `2 ^ i / 2 ^ j`. -/
theorem exponentField_ofRatio_le (negative : Bool) {num den i j : Nat} (positive : den ≠ 0)
    (bound : num * Nat.pow 2 j ≤ den * Nat.pow 2 i) (small : i ≤ j + 1000) :
    (ofRatio negative num den).exponentField ≤ max (i + 1026 - j) 4 := by
  by_cases nonzero : num = 0
  · have zero : (ofRatio negative num den).exponentField = 0 := by
      rw [ofRatio, if_pos nonzero]
      exact @exponentField_withSign negative 0 (by omega)
    omega
  have logs : num.log2 + j ≤ den.log2 + i := by
    have powers : 2 ^ (num.log2 + j) < 2 ^ (den.log2 + 1 + i) := by
      calc 2 ^ (num.log2 + j)
        _ = 2 ^ num.log2 * 2 ^ j := Nat.pow_add ..
        _ ≤ num * 2 ^ j := Nat.mul_le_mul_right _ (Nat.log2_self_le nonzero)
        _ ≤ den * 2 ^ i := bound
        _ < 2 ^ (den.log2 + 1) * 2 ^ i :=
          Nat.mul_lt_mul_of_pos_right Nat.lt_log2_self (Nat.two_pow_pos _)
        _ = 2 ^ (den.log2 + 1 + i) := (Nat.pow_add ..).symm
    have less := (Nat.pow_lt_pow_iff_right (by omega)).1 powers
    omega
  obtain ⟨e, coarse, high, low, rounded⟩ := @exists_ofRatio_eq_units negative num den nonzero
  have few := Nat.le_trans (roundQuotient_le _ _) (div_scaleByTwo_lt positive coarse)
  have field := exponentField_units_le negative few high (by omega)
  rw [rounded]
  omega

theorem le_roundQuotient (num den : Nat) : num / den ≤ roundQuotient num den := by
  simp only [roundQuotient]
  split
  · omega
  · split
    · omega
    · omega

/-- A number has more than `n` bits in units of `2 ^ e`, if the unit is small enough. -/
theorem le_div_scaleByTwo {num n : Nat} {e : Int} (nonzero : num ≠ 0) (fine : e + n ≤ num.log2) :
    Nat.pow 2 n ≤ (scaleByTwo num 1 (-e)).1 / (scaleByTwo num 1 (-e)).2 := by
  have above : 2 ^ num.log2 ≤ num := Nat.log2_self_le nonzero
  unfold scaleByTwo
  split
  case isTrue nonneg =>
    rw [Nat.div_one]
    calc 2 ^ n
      _ ≤ 2 ^ (num.log2 + (-e).toNat) := Nat.pow_le_pow_right (by omega) (by omega)
      _ = 2 ^ num.log2 * 2 ^ (-e).toNat := Nat.pow_add ..
      _ ≤ num * 2 ^ (-e).toNat := Nat.mul_le_mul_right _ above
  case isFalse negative =>
    refine (Nat.le_div_iff_mul_le (Nat.mul_pos Nat.one_pos (Nat.two_pow_pos _))).2 ?_
    calc 2 ^ n * (1 * 2 ^ (- -e).toNat)
      _ = 2 ^ (n + (- -e).toNat) := by rw [Nat.one_mul, Nat.pow_add]
      _ ≤ 2 ^ num.log2 := Nat.pow_le_pow_right (by omega) (by omega)
      _ ≤ num := above

theorem le_exponentField_units (negative : Bool) {q n : Nat} {e : Int}
    (many : n * 0x10000000000000 ≤ q) (nonzero : n ≠ 0) (high : -1074 ≤ e) :
    min (e + 1074 + n) 2047 ≤ ((units negative q e).exponentField : Int) := by
  have place : Nat.pow 2 52 = 2 ^ 52 := rfl
  have large : ¬q < 2 ^ 52 := by omega
  simp only [units, place, if_neg large]
  split
  case isTrue finite =>
    rw [exponentField_withSign negative (by omega)]
    omega
  case isFalse =>
    have infinite : (infinity negative).exponentField = 2047 := by cases negative <;> rfl
    omega

/-- The exponent bits of an integer, as far as they go. -/
theorem le_exponentField_ofRatio (negative : Bool) {num : Nat} (nonzero : num ≠ 0) :
    min (num.log2 + 1023) 2047 ≤ (ofRatio negative num 1).exponentField := by
  have one : Nat.log2 1 = 0 := rfl
  obtain ⟨e, coarse, high, low, rounded⟩ := @exists_ofRatio_eq_units negative num 1 nonzero
  have bits (n : Nat) (fine : e + n ≤ num.log2) :=
    Nat.le_trans (le_div_scaleByTwo nonzero fine) (le_roundQuotient _ _)
  rw [rounded]
  by_cases best : e = num.log2 - 52
  · have field := le_exponentField_units negative (n := 1) (bits 52 (by omega)) (by omega) high
    omega
  · have field := le_exponentField_units negative (n := 2) (bits 53 (by omega)) (by omega) high
    omega

/-! ### Quotients and decimal places -/

theorem significand_lt (x : Double) : x.significand < 0x20000000000000 := by
  have mask : (0xfffffffffffff : UInt64).toNat = 2 ^ 52 - 1 := rfl
  have fraction : x.fraction < 2 ^ 52 := by
    rw [Double.fraction, UInt64.toNat_and, mask, Nat.and_two_pow_sub_one_eq_mod]
    exact Nat.mod_lt _ (Nat.two_pow_pos _)
  have place : Nat.pow 2 52 = 2 ^ 52 := rfl
  unfold significand
  split
  · omega
  · omega

theorem le_significand {x : Double} (normal : x.exponentField ≠ 0) :
    0x10000000000000 ≤ x.significand := by
  rw [significand, if_neg normal]
  exact Nat.le_add_left ..

/-- A number as a fraction, without negative powers. -/
theorem toRatio_eq (x : Double) {bias : Nat} (known : bias = 1075) :
    x.toRatio.1 * Nat.pow 2 bias =
      x.toRatio.2 * (x.significand * Nat.pow 2 (max x.exponentField 1)) := by
  unfold toRatio scaleByTwo exponent
  split
  case isTrue nonneg =>
    have sum : ((max x.exponentField 1 : Nat) - 1075 : Int).toNat + bias = max x.exponentField
        1 := by omega
    change x.significand * 2 ^ ((max x.exponentField 1 : Nat) - 1075 : Int).toNat * 2 ^ bias =
      1 * (x.significand * 2 ^ max x.exponentField 1)
    rw [Nat.one_mul, Nat.mul_assoc, ← Nat.pow_add, sum]
  case isFalse negative =>
    have sum : (-((max x.exponentField 1 : Nat) - 1075 : Int)).toNat + max x.exponentField 1 =
        bias := by omega
    change x.significand * 2 ^ bias =
      1 * 2 ^ (-((max x.exponentField 1 : Nat) - 1075 : Int)).toNat *
        (x.significand * 2 ^ max x.exponentField 1)
    rw [Nat.one_mul, Nat.mul_left_comm, ← Nat.pow_add, sum]

theorem toRatio_ne_zero {x : Double} (nonzero : x.significand ≠ 0) : x.toRatio.1 ≠ 0 := by
  unfold toRatio scaleByTwo
  split
  · exact Nat.mul_ne_zero nonzero (Nat.ne_of_gt (Nat.two_pow_pos _))
  · exact nonzero

theorem toRatio_snd_ne_zero (x : Double) : x.toRatio.2 ≠ 0 := by
  unfold toRatio scaleByTwo
  split
  · exact Nat.one_ne_zero
  · exact Nat.mul_ne_zero Nat.one_ne_zero (Nat.ne_of_gt (Nat.two_pow_pos _))

/-- Crosswise products of two fractions of the same denominator. -/
theorem cross_eq {a b c d p s t : Nat} (power : 0 < p) (first : a * p = b * s)
    (second : c * p = d * t) :
    a * d * t = b * c * s := by
  refine Nat.eq_of_mul_eq_mul_right power ?_
  calc a * d * t * p
    _ = a * p * (d * t) := by ac_rfl
    _ = b * s * (c * p) := by rw [first, second]
    _ = b * c * s * p := by ac_rfl

/-- The exponent bits of a quotient by a number that is not below one. -/
theorem exponentField_div_le {x y : Double} (large : 1023 ≤ y.exponentField)
    (small : x.exponentField ≤ 2000) :
    (x.div y).exponentField ≤ max (max x.exponentField 1 + 1027 - y.exponentField) 4 := by
  have normal := le_significand (x := y) (by omega)
  have own : max y.exponentField 1 = y.exponentField := by omega
  obtain ⟨bias, known⟩ : ∃ bias, bias = 1075 := ⟨_, rfl⟩
  have cross := cross_eq (Nat.two_pow_pos bias) (x.toRatio_eq known) (y.toRatio_eq known)
  rw [own] at cross
  have bound : x.toRatio.1 * y.toRatio.2 * 2 ^ y.exponentField ≤
      x.toRatio.2 * y.toRatio.1 * 2 ^ (max x.exponentField 1 + 1) := by
    refine Nat.le_of_mul_le_mul_right ?_ (Nat.two_pow_pos 52)
    calc x.toRatio.1 * y.toRatio.2 * 2 ^ y.exponentField * 2 ^ 52
      _ = x.toRatio.1 * y.toRatio.2 * (2 ^ 52 * 2 ^ y.exponentField) := by ac_rfl
      _ ≤ x.toRatio.1 * y.toRatio.2 * (y.significand * 2 ^ y.exponentField) :=
        Nat.mul_le_mul_left _ (Nat.mul_le_mul_right _ normal)
      _ = x.toRatio.2 * y.toRatio.1 * (x.significand * 2 ^ max x.exponentField 1) := cross
      _ ≤ x.toRatio.2 * y.toRatio.1 * (2 ^ 53 * 2 ^ max x.exponentField 1) :=
        Nat.mul_le_mul_left _ (Nat.mul_le_mul_right _ (Nat.le_of_lt x.significand_lt))
      _ = x.toRatio.2 * y.toRatio.1 * 2 ^ (max x.exponentField 1 + 1) * 2 ^ 52 := by
        rw [Nat.mul_assoc _ (2 ^ _) (2 ^ 52), ← Nat.pow_add, ← Nat.pow_add, Nat.add_comm 53,
          Nat.add_assoc]
  have positive : x.toRatio.2 * y.toRatio.1 ≠ 0 :=
    Nat.mul_ne_zero x.toRatio_snd_ne_zero (toRatio_ne_zero (by omega))
  exact exponentField_ofRatio_le _ positive bound (by omega)

theorem le_exponentField_tenPow (k : Nat) : min (k + 1023) 2047 ≤ (tenPow k).exponentField := by
  have nonzero : Nat.pow 10 k ≠ 0 := Nat.ne_of_gt (Nat.pow_pos (by omega))
  have large : k ≤ (Nat.pow 10 k).log2 := (Nat.le_log2 nonzero).2 (Nat.pow_le_pow_left (by omega) k)
  have bits := le_exponentField_ofRatio false nonzero
  exact Nat.le_trans (by omega) bits

theorem exponentField_descend_le (k : Nat) {x : Double} (small : x.exponentField ≤ 1090) :
    (ofScaled?.descend k x).exponentField ≤ 1094 := by
  fun_induction ofScaled?.descend k x with
  | case1 => omega
  | case2 k x =>
    have large := le_exponentField_tenPow k
    have bound := @exponentField_div_le x (tenPow k) (by omega) (by omega)
    omega
  | case3 k x _ _ ih =>
    have steps : maxTenPow = 308 := rfl
    have large := le_exponentField_tenPow maxTenPow
    have bound := @exponentField_div_le x (tenPow maxTenPow) (by omega) (by omega)
    exact ih (by omega)

theorem exponentField_ofInt_le {n : Int} (bound : n.natAbs ≤ 0x10000000000000000) :
    (ofInt n).exponentField ≤ 1090 := by
  refine exponentField_ofRatio_le _ Nat.one_ne_zero (i := 64) (j := 0) ?_ (by omega)
  change n.natAbs * 2 ^ 0 ≤ 1 * 2 ^ 64
  omega

/-- The integers that a datum can hold are rounded to finite doubles. -/
theorem isFinite_ofInt {n : Int} (lower : -0x8000000000000000 ≤ n)
    (upper : n < 0x10000000000000000) : (ofInt n).isFinite = true := by
  have bound := exponentField_ofInt_le (n := n) (by omega)
  exact isFinite_of_exponentField_lt (by omega)

/-- Scaled digits are finite. -/
theorem isFinite_of_ofScaled? {digits : Nat} {exponent : Int} {x : Double}
    (bound : digits < 0x10000000000000000) (h : ofScaled? digits exponent = some x) :
    x.isFinite = true := by
  have small : (ofInt digits).exponentField ≤ 1090 := exponentField_ofInt_le (by omega)
  unfold ofScaled? at h
  dsimp only at h
  split at h
  · cases h
    exact isFinite_of_exponentField_lt (by omega)
  split at h
  · split at h
    · split at h
      · cases h
        assumption
      · cases h
    · cases h
  · cases h
    have descended := exponentField_descend_le (-exponent).toNat small
    exact isFinite_of_exponentField_lt (by omega)

end Double

/-! ## Numbers that carry their bounds -/

/-- An integer from `-2^63` to `2^64 - 1`. -/
@[ext]
structure WideInt where
  toInt : Int
  lower : -0x8000000000000000 ≤ toInt
  upper : toInt < 0x10000000000000000

namespace WideInt

/-- The integer, if it is in range. -/
def ofInt? (n : Int) : Option WideInt :=
  if bounds : -0x8000000000000000 ≤ n ∧ n < 0x10000000000000000 then some ⟨n, bounds.1, bounds.2⟩
  else none

def ofInt64 (n : Int64) : WideInt where
  toInt := n.toInt
  lower := n.le_toInt
  upper := by
    have upper := n.toInt_lt
    omega

def ofUInt64 (n : UInt64) : WideInt where
  toInt := n.toNat
  lower := by omega
  upper := by
    have upper := n.toNat_lt
    omega

@[simp] theorem toInt_ofInt64 (n : Int64) : (ofInt64 n).toInt = n.toInt := rfl

@[simp] theorem toInt_ofUInt64 (n : UInt64) : (ofUInt64 n).toInt = n.toNat := rfl

instance : Coe Int64 WideInt := ⟨ofInt64⟩

instance : Coe UInt64 WideInt := ⟨ofUInt64⟩

instance : NatCast WideInt := ⟨fun n => ofUInt64 n.toUInt64⟩

instance : IntCast WideInt := ⟨fun n => ofInt64 n.toInt64⟩

end WideInt

/-- A double that is neither an infinity nor not a number. -/
structure FiniteDouble where
  toDouble : Double
  finite : toDouble.isFinite = true

namespace FiniteDouble

/-- The same number with the other sign. -/
def neg (x : FiniteDouble) : FiniteDouble where
  toDouble := x.toDouble.neg
  finite := by
    rw [Double.isFinite, Double.exponentField_neg]
    exact x.finite

/-- The double nearest to an integer. -/
def ofInt (n : WideInt) : FiniteDouble where
  toDouble := .ofInt n.toInt
  finite := Double.isFinite_ofInt n.lower n.upper

/-- Digits of 64 bits, scaled by a power of ten. -/
def ofScaled? (digits : Nat) (bound : digits < 0x10000000000000000) (exponent : Int) :
    Option FiniteDouble :=
  (Double.ofScaled? digits exponent).pmap mk fun _ scaled =>
    Double.isFinite_of_ofScaled? bound scaled

end FiniteDouble

end FlatPlan
