import Stave.Engraving.Staff

/-!
# Texts

The text of a slot stands outside the staff and outside everything drawn before it.
-/
namespace Stave.Engraving

/-- A text at a slot. -/
structure TextMark where
  slot : Nat
  text : String
  placement : Placement
  x : Float32
  /-- The line the letters stand on. -/
  y : Float32
deriving Inhabited

/-- Draw a text at a slot. -/
def addText (config : Config) (index : Nat) (text : StaffText) (placed : PlacedSlot) :
    PlacedSlot × TextMark :=
  match text.placement with
  | .above =>
    let y := lesser placed.ink.top 0.0 - config.textGap
    ({ placed with ink := { placed.ink with top := y - config.textHeight } },
      ⟨index, text.text, .above, placed.x, y⟩)
  | .below =>
    let y := greater placed.ink.bottom config.bottomY + config.textGap + config.textHeight
    ({ placed with ink := { placed.ink with bottom := y } },
      ⟨index, text.text, .below, placed.x, y⟩)

/-- Draw the text of a slot, if it has one. -/
def addSlotText (config : Config) (index : Nat) (slot : Slot) (placed : PlacedSlot) :
    PlacedSlot × Option TextMark :=
  match slot.staffText with
  | none => (placed, none)
  | some text =>
    let (placed, mark) := addText config index text placed
    (placed, some mark)

/-- Draw the texts of a line. -/
def addTexts (config : Config) (line : Line) (slots : List PlacedSlot) :
    List PlacedSlot × List TextMark :=
  let drawn := (List.zip line.slots slots).mapIdx fun index (slot, placed) =>
    addSlotText config index slot placed
  (drawn.map (·.1), drawn.filterMap (·.2))

end Stave.Engraving
