import Stave.Music.Length
import Stave.Text.Blank
import Stave.Text.Numeral

/-!
# Meters

A meter fixes the length of a bar and the beat within it. Meters that are read or
made by `Meter.of?` have at most 64 beats and a duration digit as denominator. The
structure itself only insists that a bar can be counted.
-/
namespace Stave

/-- A time signature. -/
structure Meter where
  numerator : Nat
  denominator : Nat
  /-- The units of a bar can be computed, and fit. -/
  countable : 0 < denominator ∧ numerator * (wholeUnits / denominator) < wordLimit
deriving DecidableEq

namespace Meter

/-- Common time. -/
def common : Meter := ⟨4, 4, by decide⟩

instance : Inhabited Meter := ⟨common⟩

/-- The numbers of a meter that can be written: one to 64 beats of a duration digit. -/
def Writable (numerator denominator : Nat) : Prop :=
  0 < numerator ∧ numerator ≤ 64 ∧ (digitUnits? denominator).isSome

instance (numerator denominator : Nat) : Decidable (Writable numerator denominator) :=
  inferInstanceAs (Decidable (_ ∧ _ ∧ _))

theorem Writable.countable {numerator denominator : Nat}
    (h : Writable numerator denominator) :
    0 < denominator ∧ numerator * (wholeUnits / denominator) < wordLimit := by
  obtain ⟨-, hnumerator, hdigit⟩ := h
  have hpos : 0 < denominator := by
    rcases Nat.eq_zero_or_pos denominator with rfl | hpos
    · exact absurd hdigit (by decide)
    · exact hpos
  have hbar := Nat.mul_le_mul hnumerator (Nat.div_le_self wholeUnits denominator)
  exact ⟨hpos, Nat.lt_of_le_of_lt hbar (by decide)⟩

/-- A meter that can be written. -/
def Legal (meter : Meter) : Prop := Writable meter.numerator meter.denominator

/-- The meter with these numbers, if they can be written. -/
def of? (numerator denominator : Nat) : Option Meter :=
  if h : Writable numerator denominator then some ⟨numerator, denominator, h.countable⟩ else none

/-- Read a meter such as `3/4`; blanks may stand around the two numbers. -/
def read? (text : List Char) : Option Meter := do
  let (above, below) ← Text.splitAtFirst? '/' text
  let numerator ← Text.natural? Text.largestCount (Text.trim above)
  let denominator ← Text.natural? Text.largestCount (Text.trim below)
  of? numerator denominator

/-- The units of one bar. -/
def barUnits (meter : Meter) : Nat := meter.numerator * (wholeUnits / meter.denominator)

/-- The units of one beat. Meters of three, six, nine ... short beats above three
count in dotted beats. -/
def beatUnits (meter : Meter) : Nat :=
  let beat := wholeUnits / meter.denominator
  if meter.denominator ≥ 8 ∧ meter.numerator > 3 ∧ meter.numerator % 3 = 0 then beat * 3
  else beat

/-- The meter as it is written. -/
def text (meter : Meter) : String := toString meter.numerator ++ "/" ++ toString meter.denominator

theorem barUnits_lt (meter : Meter) : meter.barUnits < wordLimit := meter.countable.2

end Meter

end Stave
