import Stave.Data.Sum
import Stave.Data.Table
import Stave.Music.Instrument
import Stave.Music.Meter
import Stave.Music.Slot

/-!
# Melodic lines

A line is what one instrument plays in one bar: its slots, and the tuplets, slurs,
ties and ramps that join them by slot index. A link without a start comes in from the
bar before and one without a stop goes on into the bar after.
-/
namespace Stave

/-- What a bar of an instrument leaves to its next bar. -/
structure Carry where
  /-- The length a first slot without one takes. -/
  lastLength : Option NoteLength
  /-- The level in force. -/
  level : Level
  /-- The slurs still waiting for their close. -/
  openSlurs : Nat
  /-- The ramp still going on. -/
  openRamp : Option RampDirection
deriving DecidableEq

namespace Carry

/-- What the first bar of a piece starts from. -/
def initial : Carry := ⟨none, initialLevel, 0, none⟩

instance : Inhabited Carry := ⟨initial⟩

end Carry

/-- Neighbouring slots played in the ratio `actual` in the time of `normal`. -/
structure TupletRange where
  start : Nat
  stop : Nat
  actual : Nat
  normal : Nat
deriving DecidableEq, Inhabited

namespace TupletRange

/-- Whether a slot is in the range, whose ends both belong to it. -/
def contains (range : TupletRange) (slot : Nat) : Bool := range.start ≤ slot && slot ≤ range.stop

/-- The numeral printed on the bracket. -/
def numeral (range : TupletRange) : String := toString range.actual

end TupletRange

/-- A slur or tie between two slots. -/
structure Link where
  start : Option Nat
  stop : Option Nat
deriving DecidableEq, Inhabited

/-- Whether the link leaves the bar on either side. -/
def Link.isOpenEnded (link : Link) : Bool := link.start.isNone || link.stop.isNone

/-- A crescendo or diminuendo between two slots. -/
structure Ramp where
  start : Option Nat
  stop : Option Nat
  direction : RampDirection
  fromLevel : Level
  toLevel : Level
deriving DecidableEq, Inhabited

/-- The alterations standing at some point of a bar, by staff position. -/
abbrev Alterations : Type := Table StaffKey Int

/-- What one instrument plays in one bar. -/
structure Line where
  slots : List Slot
  tuplets : List TupletRange
  slurs : List Link
  ties : List Link
  ramps : List Ramp
  clef : Clef
  rhythm : Bool
  closing : Carry
  /-- The line is a rest put in because nothing was written. -/
  filler : Bool
deriving Inhabited

namespace Line

/-- A line with nothing in it. -/
def blank (instrument : Instrument) : Line where
  slots := []
  tuplets := []
  slurs := []
  ties := []
  ramps := []
  clef := instrument.clef
  rhythm := instrument.rhythm
  closing := .initial
  filler := false

/-- One rest that lasts the whole bar. -/
def fullRest (meter : Meter) (instrument : Instrument) : Line :=
  { blank instrument with
    slots := [.of .rest ⟨meter.barUnits, 0⟩ 0]
    filler := true }

/-- Whether the line has no slots. -/
def isEmpty (line : Line) : Bool := line.slots.isEmpty

/-- The units of all slots together. -/
def totalDuration (line : Line) : Nat := sumOf (line.slots.map Slot.duration)

/-- The onsets of a list of slots that starts at a given time. -/
def onsetsFrom (time : Nat) : List Slot → List Nat
  | [] => []
  | slot :: rest => time :: onsetsFrom (time + slot.duration) rest

/-- The onset of every slot, in units from the start of the bar. -/
def onsets (line : Line) : List Nat := onsetsFrom 0 line.slots

/-- The first tuplet a slot belongs to. -/
def tupletAt? (line : Line) (slot : Nat) : Option TupletRange :=
  line.tuplets.find? (·.contains slot)

/-- The pitches of the line, slots from left to right and heads as written. -/
def pitches (line : Line) : List Pitch := line.slots.flatMap Slot.pitches

/-- The alteration of the last pitch of every staff position. -/
def finalAlterations (line : Line) : Alterations :=
  .ofList (line.pitches.map fun pitch => (pitch.key, pitch.alteration))

@[simp] theorem length_onsetsFrom (time : Nat) (slots : List Slot) :
    (onsetsFrom time slots).length = slots.length := by
  induction slots generalizing time with
  | nil => rfl
  | cons slot rest ih => simp [onsetsFrom, ih]

@[simp] theorem totalDuration_fullRest (meter : Meter) (instrument : Instrument) :
    (fullRest meter instrument).totalDuration = meter.barUnits := by
  simp [fullRest, totalDuration, Slot.of]

end Line

end Stave
