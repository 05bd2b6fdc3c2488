import Stave.Decimal.Shortest

/-!
# Writing decimals

A style says how the shortest digits of a float are laid out: where the exponent form
begins, whether a whole number keeps a point, and which way ties go.
-/
namespace Stave.Decimal

/-- A way to write numbers. -/
structure Style where
  ties : Ties
  /-- The most digits in front of the point, if there is a limit. -/
  mostWhole : Option Nat
  /-- The most zeros between the point and the first digit, if there is a limit. -/
  mostZeros : Option Nat
  /-- A whole number is written with a point and a zero. -/
  keepsPoint : Bool
deriving DecidableEq, Inhabited

namespace Style

/-- A run of zeros. -/
def zeros (count : Nat) : String := String.ofList (List.replicate count '0')

/-- Put a point after the first digits of a text. -/
def pointAfter (count : Nat) (digits : String) : String :=
  String.ofList (digits.toList.take count) ++ "." ++ String.ofList (digits.toList.drop count)

/-- Whether a count keeps to a limit, if there is one. -/
def within (count : Nat) : Option Nat → Bool
  | none => true
  | some most => count ≤ most

/-- Write a numeral without its sign. -/
def writeNumeral (style : Style) (numeral : Numeral) : String :=
  let digits := toString numeral.digits
  let whole : Int := digits.length + numeral.exponent
  if numeral.exponent ≥ 0 ∧ within whole.toNat style.mostWhole then
    digits ++ zeros numeral.exponent.toNat ++ (if style.keepsPoint then ".0" else "")
  else if 0 < whole ∧ within whole.toNat style.mostWhole then pointAfter whole.toNat digits
  else if whole ≤ 0 ∧ within (-whole).toNat style.mostZeros then
    "0." ++ zeros (-whole).toNat ++ digits
  else
    (if digits.length = 1 then digits else pointAfter 1 digits) ++ "e" ++ toString (whole - 1)

/-- Write a number from its sign and parts; none if it is not finite. -/
def write? (style : Style) (negative : Bool) (number : Option Binary) : Option String :=
  number.map fun number =>
    (if negative then "-" else "") ++ style.writeNumeral (shortest style.ties number)

/-- Write a number of single precision; none if it is not finite. -/
def writeSingle? (style : Style) (x : Float32) : Option String :=
  let bits := x.toBits.toNat
  style.write? (bits ≥ 0x80000000) (Binary.ofBits? 23 8 (bits % 0x80000000))

/-- Write a number of double precision; none if it is not finite. -/
def writeDouble? (style : Style) (x : Float) : Option String :=
  let bits := x.toBits.toNat
  style.write? (bits ≥ 0x8000000000000000) (Binary.ofBits? 52 11 (bits % 0x8000000000000000))

end Style

end Stave.Decimal
