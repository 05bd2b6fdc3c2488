import Stave.Music.Length
import Stave.Text.Blank
import Stave.Text.Numeral

/-!
# Tempo marks

A tempo says how many beats of a given length go into a minute. Times in seconds
are computed in double precision, in the order written here.
-/
namespace Stave

/-- A tempo: a duration digit, perhaps dotted, and the beats in a minute. -/
structure Tempo where
  unit : Nat
  beatsPerMinute : Nat
  dotted : Bool
deriving DecidableEq

namespace Tempo

/-- Quarter notes at 120, in force before any mark. -/
def moderate : Tempo := ⟨4, 120, false⟩

instance : Inhabited Tempo := ⟨moderate⟩

/-- Read a tempo such as `4=120` or `4.=60`; blanks may stand around the two sides. -/
def read? (text : List Char) : Option Tempo := do
  let (left, right) ← Text.splitAtFirst? '=' text
  let left := Text.trim left
  let dotted := left.getLast? == some '.'
  let unit ← Text.natural? Text.largestCount (if dotted then left.dropLast else left)
  let _ ← digitUnits? unit
  let beatsPerMinute ← Text.natural? Text.largestCount (Text.trim right)
  if beatsPerMinute = 0 then none else some ⟨unit, beatsPerMinute, dotted⟩

/-- The units of one beat. -/
def beatUnits (tempo : Tempo) : Nat :=
  dottedUnits (wholeUnits / tempo.unit) (if tempo.dotted then 1 else 0)

/-- The seconds a number of units lasts. -/
def seconds (tempo : Tempo) (units : Nat) : Float :=
  Float.ofNat units / Float.ofNat tempo.beatUnits * 60.0 / Float.ofNat tempo.beatsPerMinute

end Tempo

end Stave
