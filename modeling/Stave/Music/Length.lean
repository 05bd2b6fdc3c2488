import Stave.Data.Word

/-!
# Note lengths

Time is counted in units, 256 to a whole note, so that a duration digit `d` means
`256 / d` units and every digit up to 128 is a whole number of them. Each dot adds
half of what was added last, rounded down.
-/
namespace Stave

/-- The units of a whole note. -/
def wholeUnits : Nat := 256

/-- The units of a quarter note, the shortest value that is never beamed. -/
def quarterUnits : Nat := 64

/-- The units of a duration digit: the digit is a power of two from 1 to 128. -/
def digitUnits? (digit : Nat) : Option Nat :=
  if digit ∈ [1, 2, 4, 8, 16, 32, 64, 128] then some (wholeUnits / digit) else none

/-- Add a number of dots to `total`, the first of them adding `half`. -/
def addDots (total half : Nat) : Nat → Nat
  | 0 => total
  | dots + 1 => addDots (total + half) (half / 2) dots

/-- A value of `base` units with dots. -/
def dottedUnits (base dots : Nat) : Nat := addDots base (base / 2) dots

/-- A written length: the undotted units and the number of dots. -/
structure NoteLength where
  base : Nat
  dots : Nat
deriving DecidableEq, Inhabited

namespace NoteLength

/-- The most dots a length records. -/
def mostDots : Nat := 255

/-- The units of the length before any tuplet scaling. -/
def units (length : NoteLength) : Nat := dottedUnits length.base length.dots

/-- The beams or flags of the length, one for an eighth and one more for each halving. -/
def beamCount (length : NoteLength) : Nat :=
  ([32, 16, 8, 4, 2, 1].takeWhile (length.base ≤ ·)).length

@[simp] theorem units_plain (base : Nat) : (NoteLength.mk base 0).units = base := rfl

end NoteLength

end Stave
