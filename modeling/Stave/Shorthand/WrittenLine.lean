import Stave.Music.Accidental
import Stave.Music.Loudness
import Stave.Music.Tuplet
import Stave.Shorthand.Draft.Reading
import Stave.Shorthand.TupletGroup

/-!
# Written lines

A written line is the melodic line of a list of tokens, with the meter and tempo it
leaves. Its times must fit, and its slots must fill the bar exactly. Tokens without a slot
make a full rest, which counts as written. On an error nothing is returned.
-/
namespace Stave.Shorthand

/-- A line and what its directives changed. -/
structure WrittenLine where
  line : Line
  /-- The meter and tempo after the directives of the line. -/
  frame : Frame
  /-- The byte of the last meter directive, if there is one. -/
  timeOffset : Option Nat
  tempoChanged : Bool
deriving Inhabited

/-- A link between tokens as a link between slots. -/
def rebaseLink (ledger : Ledger) (link : Link) : Link :=
  ⟨link.start.map ledger.rebase, link.stop.map ledger.rebase⟩

/-- A ramp between tokens as a ramp between slots. -/
def rebaseRamp (ledger : Ledger) (ramp : Ramp) : Ramp :=
  { ramp with start := ramp.start.map ledger.rebase, stop := ramp.stop.map ledger.rebase }

/-- The ties of a list of slots, each to the slot after or out of the bar. -/
def tiesOf (slots : List Slot) : List Link :=
  (slots.zipIdx.filter (·.1.tied)).map fun (_, index) =>
    ⟨some index, if index + 1 < slots.length then some (index + 1) else none⟩

namespace Draft

/-- The line of a draft without slots: a full rest, but a written one. -/
def restLine (draft : Draft) (instrument : Instrument) : Line :=
  { Line.fullRest draft.frame.meter instrument with
    clef := draft.clef
    closing := draft.closing
    filler := false }

/-- The slots of a draft with accidentals resolved, in order. -/
def resolvedSlots (draft : Draft) (instrument : Instrument) : List Slot :=
  resolveAccidentals instrument.transposition (draft.slots.reverse.map DraftSlot.slot)

/-- The slots of a draft with accidentals resolved and tuplets scaled. -/
def timedSlots (draft : Draft) (instrument : Instrument) (tuplets : List TupletRange) :
    List Slot :=
  scaleTuplets tuplets (draft.resolvedSlots instrument)

/-- The line of a draft with slots, whose durations have been checked. `before` is the
level the line starts at. -/
def slotLine (draft : Draft) (instrument : Instrument) (ledger : Ledger) (before : Level)
    (tuplets : List TupletRange) : Line :=
  let slots := draft.timedSlots instrument tuplets
  let ramps := draft.allRamps.map (rebaseRamp ledger)
  { Line.blank instrument with
    slots := setLoudness ramps before slots
    tuplets := tuplets
    slurs := draft.allSlurs.map (rebaseLink ledger)
    ties := tiesOf slots
    ramps := ramps
    clef := draft.clef
    closing := draft.closing }

/-- Check that the tuplets lie within the slots of a draft. -/
def checkTuplets (draft : Draft) (groups : List TupletGroup) : Except BuildError Unit :=
  match groups.find? fun group =>
      group.range.stop ≥ draft.slots.length || group.range.start > group.range.stop with
  | some group => .error ⟨.tupletOutOfRange, group.origin⟩
  | none => .ok ()

/-- The byte of the last token. -/
def lastOffset (tokens : List Token) : Nat := (tokens.getLast?.map Token.origin).getD 0

/-- Check that the times of slots and their tuplets fit; a byte is given for the error. -/
def checkTimes (offset : Nat) (tuplets : List TupletRange) (slots : List Slot) :
    Except BuildError Unit :=
  if TimesFit tuplets slots then .ok () else .error ⟨.overflow, offset⟩

/-- Check that slots fill a bar; a byte is given for the error. -/
def checkLength (meter : Meter) (offset : Nat) (slots : List Slot) : Except BuildError Unit :=
  let actual := sumOf (slots.map Slot.duration)
  if actual = meter.barUnits then .ok ()
  else .error ⟨.barLength meter.barUnits actual, offset⟩

/-- Finish a draft once every token has been taken in. -/
def finish (draft : Draft) (instrument : Instrument) (prior : Carry) (tokens : List Token)
    (ledger : Ledger) (groups : List TupletGroup) : Except BuildError WrittenLine :=
  let written (line : Line) : WrittenLine :=
    ⟨line, draft.frame, draft.timeOffset, draft.tempoChanged⟩
  match draft.chord with
  | some chord => .error ⟨.unterminatedChord, chord.offset⟩
  | none =>
    if draft.slots.isEmpty then .ok (written (draft.restLine instrument))
    else do
      let tuplets := groups.map TupletGroup.range
      draft.checkTuplets groups
      checkTimes (lastOffset tokens) tuplets (draft.resolvedSlots instrument)
      checkLength draft.frame.meter (lastOffset tokens) (draft.timedSlots instrument tuplets)
      .ok (written (draft.slotLine instrument ledger prior.level tuplets))

end Draft

/-- Build the line of a list of tokens. -/
def buildLine (tokens : List Token) (instrument : Instrument) (prior : Carry) (frame : Frame) :
    Except BuildError WrittenLine := do
  let ledger := Ledger.scan tokens
  let groups ← TupletGroup.scan tokens ledger
  let draft ← (Draft.start instrument prior frame).acceptAll instrument 0 tokens
  draft.finish instrument prior tokens ledger groups

end Stave.Shorthand
