/-!
# Pitches

A pitch has two sides. Its `natural` index counts staff positions and decides where
the head is drawn; its `sounding` value counts semitones and takes in the alteration
and the transposition of the instrument. Alterations are quarter-tones, so two of
them make a sharp. Steps outside the seven letters are drawn where they fall and
sound as the nearest letter.
-/
namespace Stave

/-- How the accidental of a pitch was written. -/
inductive AccidentalMark where
  /-- Nothing was written: the pitch takes what the bar has established. -/
  | bare
  /-- One or two accidentals were written. -/
  | explicit
  /-- An exclamation mark was written: the accidental is always drawn. -/
  | forced
deriving DecidableEq, Inhabited

/-- What is drawn in front of a head. -/
inductive AccidentalDisplay where
  | hidden
  /-- The sign of an alteration, a natural sign for zero. -/
  | shown (alteration : Int)
  /-- A natural sign if the bar to the left makes it necessary. -/
  | deferred
deriving DecidableEq, Inhabited

/-- The accidental signs. -/
inductive AccidentalGlyph where
  | doubleFlat
  | threeQuarterFlat
  | flat
  | quarterFlat
  | natural
  | quarterSharp
  | sharp
  | threeQuarterSharp
  | doubleSharp
deriving DecidableEq, Inhabited

/-- The sign of an alteration; anything past four quarter-tones has the double sign. -/
def AccidentalGlyph.ofAlteration (alteration : Int) : AccidentalGlyph :=
  if alteration ≤ -4 then .doubleFlat
  else if alteration = -3 then .threeQuarterFlat
  else if alteration = -2 then .flat
  else if alteration = -1 then .quarterFlat
  else if alteration = 0 then .natural
  else if alteration = 1 then .quarterSharp
  else if alteration = 2 then .sharp
  else if alteration = 3 then .threeQuarterSharp
  else .doubleSharp

/-- The place of a pitch on the staff, the key of the accidentals of a bar. -/
structure StaffKey where
  step : Int
  octave : Int
deriving DecidableEq, Inhabited

namespace StaffKey

instance : Ord StaffKey := ⟨compareLex (compareOn StaffKey.step) (compareOn StaffKey.octave)⟩

instance : Std.TransOrd StaffKey :=
  inferInstanceAs (Std.TransCmp (compareLex (compareOn StaffKey.step) (compareOn StaffKey.octave)))

instance : Std.LawfulEqOrd StaffKey where
  compare_self := Std.compare_self
  eq_of_compare {a b} h := by
    have h : (compareLex (compareOn StaffKey.step) (compareOn StaffKey.octave)) a b = .eq := h
    obtain ⟨hs, ho⟩ := Ordering.then_eq_eq.1 h
    have hs : a.step = b.step := Std.LawfulEqCmp.eq_of_compare hs
    have ho : a.octave = b.octave := Std.LawfulEqCmp.eq_of_compare ho
    cases a; cases b; simp_all

end StaffKey

/-- One pitch. -/
structure Pitch where
  /-- The letter, counted from c. -/
  step : Int
  /-- Quarter-tones. -/
  alteration : Int
  /-- The octave, counted from the one written without marks. -/
  octave : Int
  mark : AccidentalMark
  display : AccidentalDisplay
  /-- The staff position, seven to an octave. -/
  natural : Int
  /-- The semitones that sound; the unmarked c is 48. -/
  sounding : Float32

namespace Pitch

/-- A bound on steps: the nearest of the seven letters. -/
def letterIndex (step : Int) : Nat := min step.toNat 6

/-- The semitones of a letter above c. -/
def letterSemitones (step : Int) : Int := [0, 2, 4, 5, 7, 9, 11].getD (letterIndex step) 0

/-- The name of a letter. -/
def letterOf (step : Int) : Char := ['c', 'd', 'e', 'f', 'g', 'a', 'b'].getD (letterIndex step) 'c'

/-- Quarter-tones in semitones. -/
def semitonesOf (alteration : Int) : Float32 := Float32.ofInt alteration / 2.0

/-- The semitones that sound for a step, an alteration and an octave on an instrument
with the given transposition. -/
def soundingOf (step alteration octave transposition : Int) : Float32 :=
  Float32.ofInt (48 + letterSemitones step + 12 * octave + transposition) + semitonesOf alteration

/-- An untransposed pitch that shows no accidental yet. -/
def of (step alteration octave : Int) (mark : AccidentalMark) : Pitch where
  step := step
  alteration := alteration
  octave := octave
  mark := mark
  display := .hidden
  natural := step + 7 * octave
  sounding := soundingOf step alteration octave 0

instance : Inhabited Pitch := ⟨of 0 0 0 .bare⟩

/-- The pitch of a bare duration: the middle line of a treble staff. -/
def unpitched : Pitch := of 6 0 1 .bare

/-- The letter of the pitch. -/
def letter (pitch : Pitch) : Char := letterOf pitch.step

/-- The alteration in semitones. -/
def semitones (pitch : Pitch) : Float32 := semitonesOf pitch.alteration

/-- The place of the pitch on the staff. -/
def key (pitch : Pitch) : StaffKey := ⟨pitch.step, pitch.octave⟩

/-- The pitch as an instrument with the given transposition sounds it. -/
def transposed (pitch : Pitch) (transposition : Int) : Pitch :=
  { pitch with sounding := soundingOf pitch.step pitch.alteration pitch.octave transposition }

/-- The accidentals that spell an alteration: whole ones first, then a quarter-tone. -/
def alterationSpelling (alteration : Int) : List Char :=
  let size := alteration.natAbs
  let whole := if alteration ≥ 0 then ['i', 's'] else ['e', 's']
  let quarter := if alteration ≥ 0 then ['i', 'h'] else ['e', 'h']
  (List.replicate (size / 2) whole).flatten ++ (if size % 2 = 1 then quarter else [])

/-- The marks that spell an octave. -/
def octaveSpelling (octave : Int) : List Char :=
  List.replicate octave.natAbs (if octave ≥ 0 then '\'' else ',')

/-- The pitch as it is written. -/
def spelling (pitch : Pitch) : List Char :=
  pitch.letter :: alterationSpelling pitch.alteration ++ octaveSpelling pitch.octave

@[simp] theorem key_of (step alteration octave : Int) (mark : AccidentalMark) :
    (of step alteration octave mark).key = ⟨step, octave⟩ := rfl

@[simp] theorem key_transposed (pitch : Pitch) (transposition : Int) :
    (pitch.transposed transposition).key = pitch.key := rfl

end Pitch

end Stave
