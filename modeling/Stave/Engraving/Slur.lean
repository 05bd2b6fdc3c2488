import Stave.Engraving.Curve
import Stave.Engraving.Staff

/-!
# Slurs

A slur goes below when both its ends have stems that point up, and above otherwise. It
clears the ink of every slot strictly inside it, and a slur that leaves the bar is
drawn level to the bar's edge.
-/
namespace Stave.Engraving

/-- The slots of a list that a link joins. -/
def linkEnds (slots : List PlacedSlot) (link : Link) : List PlacedSlot :=
  (link.start.bind (slots[·]?)).toList ++ (link.stop.bind (slots[·]?)).toList

/-- Whether a slur goes above its slots. -/
def slurAbove (slots : List PlacedSlot) (link : Link) : Bool :=
  let stems := (linkEnds slots link).filterMap PlacedSlot.stem
  stems.isEmpty || stems.any (· = .down)

/-- The middle of the heads of a slot. -/
def headMiddle (config : Config) (slot : PlacedSlot) : Float32 :=
  slot.x + config.noteheadWidth / 2.0

/-- The height a slur keeps at a slot. -/
def slurY (config : Config) (above : Bool) (slot : PlacedSlot) : Float32 :=
  slot.ink.edge above + sideSign above * config.slurGap

/-- The height of a slur that runs through the bar: clear of everything. -/
def throughY (config : Config) (above : Bool) (slots : List PlacedSlot) : Float32 :=
  if slots.isEmpty then
    if above then -config.slurGap else config.bottomY + config.slurGap
  else
    let edge := slots.foldl (fun y slot => outer above y (slot.ink.edge above))
      (if above then 0.0 else config.bottomY)
    edge + sideSign above * config.slurGap

/-- The points a slur is drawn between. -/
def slurPoints (config : Config) (above : Bool) (slots : List PlacedSlot) (link : Link) :
    Curve.Point × Curve.Point :=
  let pointAt (slot : PlacedSlot) : Curve.Point :=
    ⟨headMiddle config slot, slurY config above slot⟩
  let left := (link.start.bind (slots[·]?)).map pointAt
  let right := (link.stop.bind (slots[·]?)).map pointAt
  let through := throughY config above slots
  match left, right with
  | some a, some b => (a, b)
  | some a, none => (a, ⟨config.barWidth, a.y⟩)
  | none, some b => (⟨0.0, b.y⟩, b)
  | none, none => (⟨0.0, through⟩, ⟨config.barWidth, through⟩)

/-- How far along a place is between two others, the middle if they are one. -/
def fraction (x x0 x1 : Float32) : Float32 :=
  if (x1 - x0).abs < epsilon then 0.5
  else
    let t := (x - x0) / (x1 - x0)
    if t < 0.0 then 0.0 else if t > 1.0 then 1.0 else t

/-- The height of a chord at a fraction of its width. -/
def chordY (left right : Curve.Point) (t : Float32) : Float32 := left.y + (right.y - left.y) * t

/-- The height a slur needs so far, raised to clear one more slot. -/
def clearSlot (config : Config) (above : Bool) (link : Link) (left right : Curve.Point)
    (height : Float32) (index : Nat) (slot : PlacedSlot) : Float32 :=
  let x := headMiddle config slot
  if link.start = some index ∨ link.stop = some index ∨ x ≤ left.x ∨ x ≥ right.x then height
  else
    let t := fraction x left.x right.x
    let clearance := (slurY config above slot - chordY left right t) * sideSign above
    if clearance > 0.0 then greater height (clearance / (4.0 * t * (1.0 - t))) else height

/-- The curve of a slur. -/
def slurCurve (config : Config) (slots : List PlacedSlot) (link : Link) : Curve :=
  let above := slurAbove slots link
  let (left, right) := slurPoints config above slots link
  let height := slots.zipIdx.foldl
    (fun height (slot, index) => clearSlot config above link left right height index slot)
    config.slurMinHeight
  .arc link.start link.stop left right height above

/-- Extend the ink of a slot to a curve that passes it. -/
def inkCurve (config : Config) (curve : Curve) (slot : PlacedSlot) : PlacedSlot :=
  let x := headMiddle config slot
  if x < curve.x0 ∨ x > curve.x1 then slot
  else
    let t := fraction x curve.x0 curve.x1
    slot.extend (chordY ⟨curve.x0, curve.y0⟩ ⟨curve.x1, curve.y1⟩ t +
      sideSign curve.above * curve.bulge t)

/-- Draw one slur after others. -/
def addSlur (config : Config) (drawn : List PlacedSlot × List Curve) (link : Link) :
    List PlacedSlot × List Curve :=
  let (slots, curves) := drawn
  let curve := slurCurve config slots link
  (slots.map (inkCurve config curve), curves ++ [curve])

/-- Draw the slurs of a line. -/
def addSlurs (config : Config) (line : Line) (slots : List PlacedSlot) :
    List PlacedSlot × List Curve :=
  line.slurs.foldl (addSlur config) (slots, [])

end Stave.Engraving
