import Stave.Engraving.Beam

/-!
# Stems

Slots shorter than a whole note have stems, rests have none. A stem in a beam ends at
the beam, any other reaches the middle line at least.
-/
namespace Stave.Engraving

/-- Whether a slot has a stem: it is no rest and shorter than a whole note. -/
def hasStem (slot : Slot) : Bool := !slot.isRest && slot.displayDuration < wholeUnits

/-- The stem of a slot in a beam: it ends at the beam. -/
def stemInBeam (config : Config) (beam : Beam) (slot : PlacedSlot) : PlacedSlot :=
  match anchor? beam.direction slot with
  | none => slot
  | some _ =>
    let tip := beam.yAt (stemX config beam.direction slot)
    { slot with stem := some beam.direction, stemTip := some tip }.extend
      (tip + beam.direction.sign * config.beamThickness / 2.0)

/-- The stem of a slot on its own: it reaches the middle line at least. -/
def freeStem (config : Config) (direction : StemDirection) (slot : PlacedSlot) : PlacedSlot :=
  match anchor? direction slot with
  | none => slot
  | some y =>
    let tip := outer (direction = .up) (y + direction.sign * config.stemLength) config.middleY
    { slot with stem := some direction, stemTip := some tip }.extend tip

/-- Give a slot its stem, if it has one. -/
def addStem (config : Config) (line : Line) (beams : List Beam) (index : Nat)
    (slot : Slot) (placed : PlacedSlot) : PlacedSlot :=
  match beams.find? (·.contains index) with
  | some beam => stemInBeam config beam placed
  | none =>
    if hasStem slot then
      freeStem config (directionOf line.rhythm (votes line.clef.middleLine placed.heads)) placed
    else placed

/-- Give every slot its stem. -/
def addStems (config : Config) (line : Line) (beams : List Beam) (slots : List PlacedSlot) :
    List PlacedSlot :=
  (List.zip line.slots slots).mapIdx fun index (slot, placed) =>
    addStem config line beams index slot placed

end Stave.Engraving
