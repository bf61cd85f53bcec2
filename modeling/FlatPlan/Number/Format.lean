import FlatPlan.Number.Decimal

/-!
# Number text

How the digits of a number are laid out: in plain decimal notation or with an exponent. A
`NumberFormat` holds the choices that differ between the places where numbers are written.
-/

namespace FlatPlan

/-- The choices made when writing a number. -/
structure NumberFormat where
  /-- The powers of ten of the first digit that are written without an exponent; `none` is all of
  them. -/
  plain : Option (Int × Int)
  /-- Whether a whole number in plain notation ends in `.0`. -/
  wholePoint : Bool
  /-- Whether an exponent that is not negative has a plus sign. -/
  plusSign : Bool
  tie : Tie

namespace NumberFormat

/-- Digits with the decimal point at its place, zeros filling the gap. -/
def plainText (f : NumberFormat) (d : Decimal) : String :=
  let cs := d.digitChars
  if 0 ≤ d.exponent then
    String.ofList (cs ++ List.replicate d.exponent.toNat '0') ++ if f.wholePoint then ".0" else ""
  else
    let places := (-d.exponent).toNat
    let padded := List.replicate (places + 1 - cs.length) '0' ++ cs
    String.ofList (padded.take (padded.length - places)) ++ "." ++
      String.ofList (padded.drop (padded.length - places))

/-- One digit before the point and the power of ten after the mark `e`. -/
def exponentText (f : NumberFormat) (d : Decimal) : String :=
  let e := d.magnitude
  let mantissa := match d.digitChars with
    | [] => "0"
    | [c] => String.singleton c
    | c :: cs => String.singleton c ++ "." ++ String.ofList cs
  mantissa ++ "e" ++ (if e < 0 then "-" else if f.plusSign then "+" else "") ++ toString e.natAbs

/-- The magnitude of a finite number. -/
def magnitudeText (f : NumberFormat) (x : Double) : String :=
  if x.isZero then if f.wholePoint then "0.0" else "0"
  else
    let d := x.shortest f.tie
    match f.plain with
    | none => f.plainText d
    | some (least, greatest) =>
      if least ≤ d.magnitude ∧ d.magnitude ≤ greatest then f.plainText d else f.exponentText d

/-- The text of a number. -/
def text (f : NumberFormat) (x : Double) : String :=
  if x.isNaN then "NaN"
  else
    (if x.negative then "-" else "") ++ if x.isInfinite then "inf" else f.magnitudeText x

end NumberFormat

end FlatPlan
