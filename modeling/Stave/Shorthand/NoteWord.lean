import Stave.Shorthand.PostEvent

/-!
# Note words

A note word is a letter from a to g, at most two accidentals, octave marks, perhaps
an exclamation mark, and a suffix. After a and e the first flat may be written `s`
alone, unless a letter follows that does not begin another flat. Octaves stay
within the range of one signed byte, whatever the number of marks.
-/
namespace Stave.Shorthand

/-- What a note word says. -/
structure NoteWord where
  step : Int
  /-- Quarter-tones. -/
  alteration : Int
  octave : Int
  mark : AccidentalMark
  suffix : Suffix
deriving DecidableEq, Inhabited

namespace NoteWord

/-- The step of a letter. -/
def stepOf? : Char → Option Int
  | 'c' => some 0
  | 'd' => some 1
  | 'e' => some 2
  | 'f' => some 3
  | 'g' => some 4
  | 'a' => some 5
  | 'b' => some 6
  | _ => none

/-- Cut off one accidental. -/
def accidental? : List Char → Option (Int × List Char)
  | 'i' :: 's' :: rest => some (2, rest)
  | 'e' :: 's' :: rest => some (-2, rest)
  | 'i' :: 'h' :: rest => some (1, rest)
  | 'e' :: 'h' :: rest => some (-1, rest)
  | _ => none

/-- Cut off the short flat that a and e may have. -/
def shortFlat? (letter : Char) (cs : List Char) : Option (List Char) :=
  match letter = 'a' || letter = 'e', cs with
  | true, 's' :: rest =>
    match rest with
    | 'e' :: 's' :: _ => some rest
    | c :: _ => if c.isAlpha then none else some rest
    | [] => some rest
  | _, _ => none

/-- Cut off at most `allowed` accidentals, adding them up; one more is an error. The
result is the sum, the number read, and the rest. -/
def readAccidentals (allowed : Nat) (cs : List Char) :
    Except WordError (Int × Nat × List Char) :=
  match accidental? cs, allowed with
  | none, _ => .ok (0, 0, cs)
  | some _, 0 => .error .tooManyAccidentals
  | some (alteration, rest), allowed + 1 => do
    let (sum, count, rest) ← readAccidentals allowed rest
    .ok (alteration + sum, count + 1, rest)

/-- All accidentals of a note, the short flat included. -/
def readAlteration (letter : Char) (cs : List Char) :
    Except WordError (Int × Nat × List Char) :=
  match shortFlat? letter cs with
  | none => readAccidentals 2 cs
  | some rest => do
    let (sum, count, rest) ← readAccidentals 1 rest
    .ok (-2 + sum, count + 1, rest)

/-- Whether a character raises or lowers the octave. -/
def isOctaveMark (c : Char) : Bool := c = '\'' || c = ','

/-- The octave after one more mark, within the range of a signed byte. -/
def moveOctave (octave : Int) (mark : Char) : Int :=
  if mark = '\'' then min (octave + 1) 127 else max (octave - 1) (-128)

/-- The octave of a run of marks. -/
def octaveOf (marks : List Char) : Int := marks.foldl moveOctave 0

/-- Read a note word. -/
def read : List Char → Except WordError NoteWord
  | [] => .error .missingLetter
  | letter :: cs =>
    match stepOf? letter with
    | none => .error .missingLetter
    | some step => do
      let (alteration, count, cs) ← readAlteration letter cs
      let octave := octaveOf (cs.takeWhile isOctaveMark)
      let cs := cs.dropWhile isOctaveMark
      let forced := cs.head? == some '!'
      let cs := if forced then cs.drop 1 else cs
      let mark : AccidentalMark :=
        if forced then .forced else if count > 0 then .explicit else .bare
      match cs.head?.filter Char.isAlpha with
      | some c => .error (.unexpectedChar c)
      | none =>
        let suffix ← Suffix.read cs
        .ok ⟨step, alteration, octave, mark, suffix⟩

end NoteWord

end Stave.Shorthand
