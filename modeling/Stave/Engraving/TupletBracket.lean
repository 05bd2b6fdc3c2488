import Stave.Engraving.Beam

/-!
# Tuplet brackets

A bracket stands on the side more stems of its range point to, above when there are as
many on both. It slants with the ink when the ink on that side rises or falls
steadily, lies flat otherwise, and clears every slot of the range. A range that is
one beam shows its numeral without a bracket.
-/
namespace Stave.Engraving

/-- A bracket over a tuplet. -/
structure TupletBracket where
  start : Nat
  stop : Nat
  numeral : String
  above : Bool
  /-- The bracket itself is drawn, not the numeral alone. -/
  drawn : Bool
  xStart : Float32
  xStop : Float32
  yStart : Float32
  yStop : Float32
  /-- The bracket is open between these two places. -/
  gapStart : Float32
  gapStop : Float32
  numeralX : Float32
  numeralY : Float32
deriving Inhabited

/-- A straight line between two places. -/
structure Slant where
  xStart : Float32
  xStop : Float32
  yStart : Float32
  yStop : Float32
deriving Inhabited

namespace Slant

/-- The height of the line at a place; a line without width is level. -/
def yAt (slant : Slant) (x : Float32) : Float32 :=
  if (slant.xStop - slant.xStart).abs < epsilon then slant.yStart
  else
    slant.yStart +
      (slant.yStop - slant.yStart) * (x - slant.xStart) / (slant.xStop - slant.xStart)

/-- The line at another height. -/
def shifted (slant : Slant) (shift : Float32) : Slant :=
  { slant with yStart := slant.yStart + shift, yStop := slant.yStop + shift }

end Slant

/-- Whether at least as many stems point up as down. -/
def stemsPointUp (slots : List PlacedSlot) : Bool :=
  let count (direction : StemDirection) :=
    (slots.filter fun slot => slot.stem = some direction).length
  count .up ≥ count .down

/-- The outermost of some heights. -/
def outermost (above : Bool) (heights : List Float32) : Float32 :=
  heights.foldl (outer above) (if above then largest else -largest)

/-- The line of a bracket before it is moved off the ink. -/
def firstSlant (above : Bool) (xStart xStop : Float32) (edges : List Float32) : Slant :=
  if steady edges then ⟨xStart, xStop, edges.head?.getD 0.0, edges.getLast?.getD 0.0⟩
  else
    let y := outermost above edges
    ⟨xStart, xStop, y, y⟩

/-- The line of a bracket over some slots. -/
def bracketSlant (config : Config) (above : Bool) (slots : List PlacedSlot) : Slant :=
  let xStart := (slots.head?.map PlacedSlot.x).getD 0.0
  let xStop := (slots.getLast?.map PlacedSlot.x).getD 0.0 + config.noteheadWidth
  let slant := firstSlant above xStart xStop (slots.map (·.ink.edge above))
  let shift := slots.foldl
    (fun shift slot => outer above shift (slot.ink.edge above - slant.yAt slot.x)) 0.0
  slant.shifted (shift + sideSign above * config.tupletGap)

/-- The bracket of a range over its slots. -/
def bracketOver (config : Config) (beams : List Beam) (range : TupletRange)
    (slots : List PlacedSlot) : TupletBracket × Slant :=
  let above := stemsPointUp slots
  let slant := bracketSlant config above slots
  let numeralX := (slant.xStart + slant.xStop) / 2.0
  let bracket : TupletBracket :=
    { start := range.start
      stop := range.stop
      numeral := range.numeral
      above := above
      drawn := !beams.any fun beam => beam.start = range.start && beam.stop = range.stop
      xStart := slant.xStart
      xStop := slant.xStop
      yStart := slant.yStart
      yStop := slant.yStop
      gapStart := numeralX - config.tupletNumeralWidth / 2.0
      gapStop := numeralX + config.tupletNumeralWidth / 2.0
      numeralX := numeralX
      numeralY := slant.yAt numeralX }
  (bracket, slant)

/-- Whether a range lies within a number of slots. -/
def rangeFits (count : Nat) (range : TupletRange) : Bool :=
  range.stop < count && range.start ≤ range.stop

/-- Change the slots from one index to another, both included. -/
def changeSpan (slots : List PlacedSlot) (start stop : Nat)
    (change : PlacedSlot → PlacedSlot) : List PlacedSlot :=
  slots.mapIdx fun index slot => if start ≤ index && index ≤ stop then change slot else slot

/-- The slots from one index to another, both included. -/
def spanOf (slots : List PlacedSlot) (start stop : Nat) : List PlacedSlot :=
  (slots.drop start).take (stop + 1 - start)

/-- Draw one bracket after others. -/
def addBracket (config : Config) (beams : List Beam)
    (drawn : List PlacedSlot × List TupletBracket) (range : TupletRange) :
    List PlacedSlot × List TupletBracket :=
  let (slots, brackets) := drawn
  let (bracket, slant) := bracketOver config beams range (spanOf slots range.start range.stop)
  let half := sideSign bracket.above * config.tupletNumeralHeight / 2.0
  (changeSpan slots range.start range.stop fun slot => slot.extend (slant.yAt slot.x + half),
    brackets ++ [bracket])

/-- Draw the brackets of a line. -/
def addBrackets (config : Config) (line : Line) (beams : List Beam) (slots : List PlacedSlot) :
    List PlacedSlot × List TupletBracket :=
  (line.tuplets.filter (rangeFits slots.length)).foldl (addBracket config beams) (slots, [])

end Stave.Engraving
