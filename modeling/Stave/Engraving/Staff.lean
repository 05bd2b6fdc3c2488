import Stave.Engraving.Config
import Stave.Engraving.Ink
import Stave.Music.Line

/-!
# Heads on the staff

Slots stand in proportion to their onsets within the bar, and heads at the height of
their staff position. On a rhythm staff every head is on the middle line; elsewhere
an octave shift is taken out of the position that is drawn.
-/
namespace Stave.Engraving

/-- The side of its heads a stem is on. -/
inductive StemDirection where
  | up
  | down
deriving DecidableEq, Inhabited

/-- Minus one for up and one for down. -/
def StemDirection.sign : StemDirection → Float32
  | up => -1.0
  | down => 1.0

/-- A head. -/
structure Head where
  y : Float32
  /-- The staff position that is drawn. -/
  index : Int
  /-- The accidental in front of the head. -/
  accidental : Option AccidentalGlyph
deriving Inhabited

/-- A slot with its place and what is drawn at it. -/
structure PlacedSlot where
  x : Float32
  /-- The heads as written; a rest has none. -/
  heads : List Head
  /-- The middle of a rest. -/
  restY : Option Float32
  stem : Option StemDirection
  stemTip : Option Float32
  /-- The beams or flags of the stem. -/
  beamCount : Nat
  ledgerAbove : Nat
  ledgerBelow : Nat
  ink : Ink
deriving Inhabited

namespace PlacedSlot

/-- Extend the ink of the slot to a height. -/
def extend (slot : PlacedSlot) (y : Float32) : PlacedSlot :=
  { slot with ink := slot.ink.extend y }

/-- Whether the slot has no heads. -/
def isRest (slot : PlacedSlot) : Bool := slot.heads.isEmpty

end PlacedSlot

/-- The heights of the highest and lowest of a list of heads. -/
def headSpan? (heads : List Head) : Option (Float32 × Float32) :=
  match heads with
  | [] => none
  | head :: rest =>
    let top := rest.foldl (fun y other => lesser y other.y) head.y
    some (top, heads.foldl (fun y other => greater y other.y) top)

/-- The height of a staff position, given the position of the middle line. -/
def staffY (config : Config) (middle index : Int) : Float32 :=
  config.middleY - Float32.ofInt (index - middle) * config.stepHeight

/-- The place of an onset within the bar. -/
def onsetX (config : Config) (meter : Meter) (onset : Nat) : Float32 :=
  let usable := config.barWidth - config.leftPadding - config.rightPadding
  config.leftPadding + usable * Float32.ofNat onset / Float32.ofNat (max meter.barUnits 1)

/-- The ledger lines a position needs above and below the staff, each count kept in one
byte. -/
def ledgerLines (middle index : Int) : Nat × Nat :=
  ((index - (middle + 4)).toNat / 2 % 256, ((middle - 4) - index).toNat / 2 % 256)

/-- The staff position a pitch of a slot is drawn at. -/
def drawnIndex (line : Line) (slot : Slot) (pitch : Pitch) : Int :=
  if line.rhythm then line.clef.middleLine else pitch.natural - 7 * slot.ottava

/-- The heads of a slot. -/
def headsOf (config : Config) (line : Line) (slot : Slot) : List Head :=
  slot.pitches.map fun pitch =>
    let index := drawnIndex line slot pitch
    ⟨staffY config line.clef.middleLine index, index, none⟩

/-- Where a rest is drawn and the ink of a slot before anything is added. -/
def firstInk (config : Config) (heads : List Head) : Option Float32 × Ink :=
  match headSpan? heads with
  | some (top, bottom) => (none, ⟨top - config.stepHeight, bottom + config.stepHeight⟩)
  | none =>
    let y := config.middleY
    (some y, ⟨y - config.staffSpace, y + config.staffSpace⟩)

/-- A slot with its heads in place. -/
def placeSlot (config : Config) (line : Line) (meter : Meter) (onset : Nat) (slot : Slot) :
    PlacedSlot :=
  let heads := headsOf config line slot
  let ledgers := heads.map fun head => ledgerLines line.clef.middleLine head.index
  let (restY, ink) := firstInk config heads
  { x := onsetX config meter onset
    heads := heads
    restY := restY
    stem := none
    stemTip := none
    beamCount := slot.length.beamCount
    ledgerAbove := ledgers.foldl (fun most lines => max most lines.1) 0
    ledgerBelow := ledgers.foldl (fun most lines => max most lines.2) 0
    ink := ink }

/-- The slots of a line with their heads in place. -/
def placeSlots (config : Config) (line : Line) (meter : Meter) : List PlacedSlot :=
  List.zipWith (placeSlot config line meter) line.onsets line.slots

@[simp] theorem length_placeSlots (config : Config) (line : Line) (meter : Meter) :
    (placeSlots config line meter).length = line.slots.length := by
  simp [placeSlots, Line.onsets]

end Stave.Engraving
