/-!
# Whole numbers in decimal

Reading accepts an optional sign and then ASCII digits only, and refuses a number
outside the stated range. There are no separators, blanks or other bases. A plus
sign is always allowed, a minus sign only where negative numbers are.
-/
namespace Stave.Text

/-- The number written by a list of digits, most significant first. -/
def digitsValue (digits : List Char) : Nat :=
  digits.foldl (fun value digit => 10 * value + (digit.toNat - '0'.toNat)) 0

/-- Read a nonempty run of digits that fills the whole list. -/
def digits? (cs : List Char) : Option Nat :=
  if !cs.isEmpty && cs.all Char.isDigit then some (digitsValue cs) else none

/-- Read a number from zero to `largest`. -/
def natural? (largest : Nat) (cs : List Char) : Option Nat :=
  let unsigned := match cs with
    | '+' :: rest => rest
    | _ => cs
  (digits? unsigned).filter (· ≤ largest)

/-- Read a number from `least` to `largest`. -/
def integer? (least largest : Int) (cs : List Char) : Option Int :=
  let value : Option Int := match cs with
    | '-' :: rest => (digits? rest).map fun n => -(n : Int)
    | '+' :: rest => (digits? rest).map Int.ofNat
    | _ => (digits? cs).map Int.ofNat
  value.filter fun n => least ≤ n && n ≤ largest

/-- The value of a hexadecimal digit. -/
def hexDigit? (c : Char) : Option Nat :=
  if c.isDigit then some (c.toNat - '0'.toNat)
  else if 'a' ≤ c ∧ c ≤ 'f' then some (c.toNat - 'a'.toNat + 10)
  else if 'A' ≤ c ∧ c ≤ 'F' then some (c.toNat - 'A'.toNat + 10)
  else none

/-- The largest number a count or a tempo may have: thirty-two bits. -/
def largestCount : Nat := 4294967295

end Stave.Text
