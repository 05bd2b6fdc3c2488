import Stave.Text.Numeral

/-!
# Reading decimals

A decimal text is read digit by digit into a whole number as long as that fits a machine
word; further digits only count for the size. The whole number is then multiplied or
divided once by a power of ten, in double precision, which gives the nearest double for
all but the longest texts. The text must already be known to be a number: an optional
minus sign, digits, and perhaps a fraction and an exponent.
-/
namespace Stave.Decimal

/-- The largest whole number of a machine word. -/
def largestWord : Nat := 18446744073709551615

/-- The largest whole number of a machine word below zero, without its sign. -/
def largestNegativeWord : Nat := 9223372036854775808

/-- Cut a list of characters at the first that passes a test, which belongs to neither
part. -/
def cutAt (test : Char → Bool) (cs : List Char) : List Char × List Char :=
  (cs.takeWhile (!test ·), (cs.dropWhile (!test ·)).drop 1)

/-- Put digits behind a number as long as it fits a word: the number and the digits left. -/
def takeDigits (value : Nat) : List Char → Nat × List Char
  | [] => (value, [])
  | c :: rest =>
    let longer := 10 * value + (c.toNat - '0'.toNat)
    if longer ≤ largestWord then takeDigits longer rest else (value, c :: rest)

/-- A power of ten with an exponent of at most 308. -/
def powerOfTen (exponent : Nat) : Float := .ofScientific 1 false exponent

/-- A number times a power of ten. -/
def scale (x : Float) (exponent : Int) : Float :=
  if 0 ≤ exponent then x * powerOfTen exponent.toNat
  else if -308 ≤ exponent then x / powerOfTen (-exponent).toNat
  else if -616 ≤ exponent then x / powerOfTen 308 / powerOfTen (-exponent - 308).toNat
  else 0.0

/-- The exponent written by an optional sign and digits, zero if there are none. -/
def readExponent : List Char → Int
  | '-' :: digits => -(Text.digitsValue digits : Int)
  | '+' :: digits => Text.digitsValue digits
  | digits => Text.digitsValue digits

/-- The double of a decimal without a sign. -/
def readMagnitude (cs : List Char) : Float :=
  let (mantissa, exponent) := cutAt (fun c => c = 'e' || c = 'E') cs
  let (whole, fraction) := cutAt (· = '.') mantissa
  let (value, wholeLeft) := takeDigits 0 whole
  let (value, fractionLeft) := takeDigits value fraction
  let taken := fraction.length - fractionLeft.length
  scale (.ofScientific value false 0) (readExponent exponent + wholeLeft.length - taken)

/-- The double of a decimal. -/
def readDouble (text : String) : Float :=
  match text.toList with
  | '-' :: rest => -readMagnitude rest
  | cs => readMagnitude cs

/-- The single of a decimal: the one nearest to a whole number that fits a word, else the
one nearest to the double. -/
def readSingle (text : String) : Float32 :=
  let nearest (n : Nat) : Float32 := (UInt64.ofNat n).toFloat32
  match text.toList with
  | '-' :: rest =>
    match Text.digits? rest with
    | some n =>
      if 0 < n ∧ n ≤ largestNegativeWord then -nearest n else (readDouble text).toFloat32
    | none => (readDouble text).toFloat32
  | cs =>
    match Text.digits? cs with
    | some n => if n ≤ largestWord then nearest n else (readDouble text).toFloat32
    | none => (readDouble text).toFloat32

end Stave.Decimal
