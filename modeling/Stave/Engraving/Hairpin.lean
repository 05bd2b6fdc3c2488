import Stave.Engraving.TupletBracket

/-!
# Dynamics and hairpins

Dynamics stand below their slots, clear of all other ink. A hairpin that starts or
stops at a slot with a dynamic takes its height there; its other ends are level with
the deepest point it passes. The ink grows only when all of them are placed.
-/
namespace Stave.Engraving

/-- A dynamic below a slot. -/
structure DynamicMark where
  slot : Nat
  name : String
  x : Float32
  /-- The middle of the letters. -/
  y : Float32
deriving Inhabited

/-- A crescendo or diminuendo below the staff. -/
structure Hairpin where
  direction : RampDirection
  start : Option Nat
  stop : Option Nat
  xStart : Float32
  xStop : Float32
  yStart : Float32
  yStop : Float32
  /-- The opening at the wide end. -/
  opening : Float32
deriving Inhabited

/-- The middle height of a dynamic below some slots. -/
def dynamicY (config : Config) (slots : List PlacedSlot) : Float32 :=
  let bottom := slots.foldl (fun y slot => greater y slot.ink.bottom) config.bottomY
  bottom + config.dynamicGap + config.dynamicHeight / 2.0

/-- The dynamic of a slot, if it has one. -/
def dynamicMark? (config : Config) (index : Nat) (slot : Slot) (placed : PlacedSlot) :
    Option DynamicMark :=
  slot.dynamic.map fun dynamic => ⟨index, dynamic.name, placed.x, dynamicY config [placed]⟩

/-- The dynamics of a line. -/
def dynamicMarks (config : Config) (line : Line) (slots : List PlacedSlot) : List DynamicMark :=
  (List.zip line.slots slots).zipIdx.filterMap fun ((slot, placed), index) =>
    dynamicMark? config index slot placed

/-- The dynamic at an end of a ramp. -/
def dynamicAt? (dynamics : List DynamicMark) (slot : Option Nat) : Option DynamicMark :=
  slot.bind fun slot => dynamics.find? (·.slot = slot)

/-- Where a hairpin starts. -/
def hairpinStart (config : Config) (slots : List PlacedSlot) (ramp : Ramp)
    (dynamic : Option DynamicMark) : Float32 :=
  match ramp.start, dynamic with
  | some _, some dynamic => dynamic.x + config.dynamicWidth + config.hairpinGap
  | some slot, none => (slots[slot]?.map PlacedSlot.x).getD 0.0
  | none, _ => 0.0

/-- Where a hairpin stops. -/
def hairpinStop (config : Config) (slots : List PlacedSlot) (ramp : Ramp)
    (dynamic : Option DynamicMark) : Float32 :=
  match ramp.stop, dynamic with
  | some _, some dynamic => dynamic.x - config.hairpinGap
  | some slot, none => (slots[slot]?.map PlacedSlot.x).getD 0.0 + config.noteheadWidth
  | none, _ => config.barWidth

/-- The hairpin of a ramp, unless it stops before it starts. -/
def hairpinOf? (config : Config) (slots : List PlacedSlot) (dynamics : List DynamicMark)
    (ramp : Ramp) : Option Hairpin :=
  let farthest := slots.length - 1
  let first := min (ramp.start.getD 0) farthest
  let last := min (ramp.stop.getD farthest) farthest
  if slots.isEmpty ∨ first > last then none
  else
    let level := dynamicY config (spanOf slots first last)
    let startDynamic := dynamicAt? dynamics ramp.start
    let stopDynamic := dynamicAt? dynamics ramp.stop
    let xStart := hairpinStart config slots ramp startDynamic
    let xStop := hairpinStop config slots ramp stopDynamic
    some
      { direction := ramp.direction
        start := ramp.start
        stop := ramp.stop
        xStart := xStart
        xStop := greater xStop xStart
        yStart := (startDynamic.map DynamicMark.y).getD level
        yStop := (stopDynamic.map DynamicMark.y).getD level
        opening := config.hairpinOpening }

/-- Extend the ink to a dynamic. -/
def inkDynamic (config : Config) (slots : List PlacedSlot) (dynamic : DynamicMark) :
    List PlacedSlot :=
  slots.modify dynamic.slot (·.extend (dynamic.y + config.dynamicHeight / 2.0))

/-- Extend the ink of the slots a hairpin passes. -/
def inkHairpin (slots : List PlacedSlot) (hairpin : Hairpin) : List PlacedSlot :=
  let deepest := greater hairpin.yStart hairpin.yStop + hairpin.opening / 2.0
  slots.map fun slot =>
    if slot.x ≥ hairpin.xStart ∧ slot.x ≤ hairpin.xStop then slot.extend deepest else slot

/-- Draw the dynamics and hairpins of a line. -/
def addDynamics (config : Config) (line : Line) (slots : List PlacedSlot) :
    List PlacedSlot × List DynamicMark × List Hairpin :=
  let dynamics := dynamicMarks config line slots
  let hairpins := line.ramps.filterMap (hairpinOf? config slots dynamics)
  (hairpins.foldl inkHairpin (dynamics.foldl (inkDynamic config) slots), dynamics, hairpins)

end Stave.Engraving
