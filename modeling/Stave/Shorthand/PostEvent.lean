import Stave.Music.Slot
import Stave.Text.Blank
import Stave.Text.Numeral

/-!
# Post-events and suffixes

Post-events follow a note and attach to its slot: ties, slurs, dynamics, ramps,
articulations, texts and glissandi. A run of them is read from left to right and
each takes as many characters as it can: a command takes every letter after its
backslash, and a quoted text everything up to the next quote. A suffix is an
optional length with its dots, and then a run of post-events.
-/
namespace Stave.Shorthand

/-- What can be wrong inside a word. -/
inductive WordError where
  | unexpectedChar (c : Char)
  | tooManyAccidentals
  | badDuration (digits : List Char)
  | dotWithoutDuration
  | unknownCommand (name : List Char)
  | unterminatedText
  | unknownArticulation (c : Char)
  | missingLetter
deriving DecidableEq

namespace WordError

/-- The wording of an error inside a word. -/
def message : WordError → String
  | unexpectedChar c => "unexpected '" ++ String.singleton c ++ "'"
  | tooManyAccidentals => "more than two accidental suffixes"
  | badDuration digits =>
    "'" ++ String.ofList digits ++ "' is not a duration (use 1, 2, 4 ... 128)"
  | dotWithoutDuration => "dot without a duration"
  | unknownCommand name => "unknown command '\\" ++ String.ofList name ++ "'"
  | unterminatedText => "unterminated text"
  | unknownArticulation c => "'" ++ String.singleton c ++ "' is not an articulation"
  | missingLetter => "missing note letter"

end WordError

/-- A mark that attaches to the slot before it. -/
inductive PostEvent where
  | tie
  | slurOpen
  | slurClose
  | dynamic (mark : Dynamic)
  | rampStart (direction : RampDirection)
  | rampStop
  | articulation (mark : Articulation)
  | text (staffText : StaffText)
  | glissando
deriving DecidableEq, Inhabited

namespace PostEvent

/-- The commands that are words, dynamics left out. -/
def commands : List (String × PostEvent) :=
  [("glissando", glissando), ("gliss", glissando), ("cresc", rampStart .crescendo),
   ("dim", rampStart .diminuendo), ("decresc", rampStart .diminuendo)]

/-- The post-event of a command word. -/
def ofCommand? (name : String) : Option PostEvent :=
  match commands.lookup name with
  | some event => some event
  | none => (Dynamic.named? name).map dynamic

/-- Read what follows a backslash. -/
def readCommand : List Char → Except WordError (PostEvent × List Char)
  | '<' :: rest => .ok (rampStart .crescendo, rest)
  | '>' :: rest => .ok (rampStart .diminuendo, rest)
  | '!' :: rest => .ok (rampStop, rest)
  | cs =>
    match ofCommand? (String.ofList (cs.takeWhile Char.isAlpha)) with
    | some event => .ok (event, cs.dropWhile Char.isAlpha)
    | none => .error (.unknownCommand (cs.takeWhile Char.isAlpha))

/-- Read a text up to its closing quote; the opening one has been read. -/
def readQuoted (placement : Placement) (cs : List Char) :
    Except WordError (PostEvent × List Char) :=
  match Text.splitAtFirst? '"' cs with
  | some (inside, rest) => .ok (text ⟨String.ofList inside, placement⟩, rest)
  | none => .error .unterminatedText

/-- Read what follows a direction sign: a quoted text or an articulation. -/
def readAttached (sign : Char) : List Char → Except WordError (PostEvent × List Char)
  | [] => .error (.unexpectedChar sign)
  | c :: rest =>
    if c = '"' then readQuoted (if sign = '_' then .below else .above) rest
    else
      match Articulation.ofSymbol? c with
      | some mark => .ok (articulation mark, rest)
      | none => .error (.unknownArticulation c)

/-- Read one post-event, given its first character and the rest. -/
def readOne (first : Char) (rest : List Char) : Except WordError (PostEvent × List Char) :=
  match first with
  | '~' => .ok (tie, rest)
  | '(' => .ok (slurOpen, rest)
  | ')' => .ok (slurClose, rest)
  | '\\' => readCommand rest
  | '-' => readAttached first rest
  | '^' => readAttached first rest
  | '_' => readAttached first rest
  | _ => .error (.unexpectedChar first)

theorem length_readCommand_le {cs rest : List Char} {event : PostEvent}
    (h : readCommand cs = .ok (event, rest)) : rest.length ≤ cs.length := by
  unfold readCommand at h
  split at h
  · cases h; simp
  · cases h; simp
  · cases h; simp
  · split at h
    · cases h
      exact (List.dropWhile_sublist _).length_le
    · cases h

theorem length_readAttached_le {sign : Char} {cs rest : List Char} {event : PostEvent}
    (h : readAttached sign cs = .ok (event, rest)) : rest.length ≤ cs.length := by
  unfold readAttached readQuoted at h
  split at h
  · cases h
  · split at h
    · split at h
      case h_1 heq =>
        cases h
        have := congrArg List.length (Text.eq_append_of_splitAtFirst? heq)
        simp only [List.length_append, List.length_cons] at this ⊢
        omega
      · cases h
    · split at h
      · cases h; simp
      · cases h

theorem length_readOne_le {first : Char} {cs rest : List Char} {event : PostEvent}
    (h : readOne first cs = .ok (event, rest)) : rest.length ≤ cs.length := by
  unfold readOne at h
  split at h
  · cases h; simp
  · cases h; simp
  · cases h; simp
  · exact length_readCommand_le h
  · exact length_readAttached_le h
  · exact length_readAttached_le h
  · exact length_readAttached_le h
  · cases h

/-- Read a run of post-events that fills the whole text. -/
def readRun : List Char → Except WordError (List PostEvent)
  | [] => .ok []
  | first :: rest =>
    match _read : readOne first rest with
    | .error error => .error error
    | .ok (event, after) =>
      match readRun after with
      | .error error => .error error
      | .ok events => .ok (event :: events)
termination_by cs => cs.length
decreasing_by
  have := length_readOne_le ‹_›
  simp only [List.length_cons]
  omega

end PostEvent

/-- An optional length and the post-events after it. -/
structure Suffix where
  length : Option NoteLength
  post : List PostEvent
deriving DecidableEq, Inhabited

namespace Suffix

/-- The length of a run of digits with dots; no digits is no length, and then there
may be no dots. -/
def lengthOf (digits : List Char) (dots : Nat) : Except WordError (Option NoteLength) :=
  if digits.isEmpty then
    if dots = 0 then .ok none else .error .dotWithoutDuration
  else
    match (Text.natural? Text.largestCount digits).bind digitUnits? with
    | some base => .ok (some ⟨base, min dots NoteLength.mostDots⟩)
    | none => .error (.badDuration digits)

/-- Read a suffix that fills the whole text. -/
def read (cs : List Char) : Except WordError Suffix := do
  let afterDigits := cs.dropWhile Char.isDigit
  let length ← lengthOf (cs.takeWhile Char.isDigit) (afterDigits.takeWhile (· = '.')).length
  let post ← PostEvent.readRun (afterDigits.dropWhile (· = '.'))
  .ok ⟨length, post⟩

end Suffix

end Stave.Shorthand
