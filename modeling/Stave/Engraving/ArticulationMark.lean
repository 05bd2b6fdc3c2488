import Stave.Engraving.Staff

/-!
# Articulation marks

Marks are stacked outwards on the side away from the stem, above a slot without one.
-/
namespace Stave.Engraving

/-- An articulation at a slot. -/
structure ArticulationMark where
  slot : Nat
  articulation : Articulation
  x : Float32
  y : Float32
  above : Bool
deriving Inhabited

/-- Whether marks of a slot go above it. -/
def marksAbove (placed : PlacedSlot) : Bool := placed.stem != some .up

/-- Draw one mark at a slot, outside its ink. -/
def addMark (config : Config) (index : Nat) (drawn : PlacedSlot × List ArticulationMark)
    (articulation : Articulation) : PlacedSlot × List ArticulationMark :=
  let (placed, marks) := drawn
  let above := marksAbove placed
  let height := config.articulationHeight * Float32.ofNat articulation.glyphCount
  let y :=
    if above then placed.ink.top - config.articulationGap - height / 2.0
    else placed.ink.bottom + config.articulationGap + height / 2.0
  let ink : Ink :=
    if above then { placed.ink with top := y - height / 2.0 }
    else { placed.ink with bottom := y + height / 2.0 }
  ({ placed with ink := ink },
    marks ++ [⟨index, articulation, placed.x + config.noteheadWidth / 2.0, y, above⟩])

/-- Draw the marks of one slot. -/
def addSlotMarks (config : Config) (index : Nat) (slot : Slot) (placed : PlacedSlot) :
    PlacedSlot × List ArticulationMark :=
  slot.articulations.foldl (addMark config index) (placed, [])

/-- Draw the articulations of a line. -/
def addMarks (config : Config) (line : Line) (slots : List PlacedSlot) :
    List PlacedSlot × List ArticulationMark :=
  let drawn := (List.zip line.slots slots).mapIdx fun index (slot, placed) =>
    addSlotMarks config index slot placed
  (drawn.map (·.1), drawn.flatMap (·.2))

end Stave.Engraving
