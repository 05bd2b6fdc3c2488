import Stave.Engraving.BeatRun
import Stave.Engraving.Staff

/-!
# Beams

Every head votes for the stem direction that points across the middle line, an even vote
goes up, and a rhythm staff always does. A beam has one direction, voted for by all its
heads. Its line goes from the first natural tip towards the last, no steeper than
allowed, and is then shifted until no stem is shorter than natural.
-/
namespace Stave.Engraving

/-! ## Directions -/

/-- The votes of heads: one for up from each head below the middle line, one against from
each head above it. -/
def votes (middle : Int) (heads : List Head) : Int :=
  heads.countP (·.index < middle) - heads.countP (·.index > middle)

/-- The direction of stems with these votes together. -/
def directionOf (rhythm : Bool) (votes : Int) : StemDirection :=
  if rhythm || votes ≥ 0 then .up else .down

/-- Where the stem of a slot stands: right of its heads going up, left going down. -/
def stemX (config : Config) (direction : StemDirection) (slot : PlacedSlot) : Float32 :=
  match direction with
  | .up => slot.x + config.noteheadWidth
  | .down => slot.x

/-- The height of the head a stem grows from: the outermost on its side. -/
def anchor? (direction : StemDirection) (slot : PlacedSlot) : Option Float32 :=
  (headSpan? slot.heads).map fun (top, bottom) =>
    match direction with
    | .up => top
    | .down => bottom

/-! ## The line of a beam -/

/-- A beam over a range of slots. -/
structure Beam where
  start : Nat
  stop : Nat
  direction : StemDirection
  levels : Nat
  xStart : Float32
  xStop : Float32
  yStart : Float32
  yStop : Float32
deriving Inhabited

namespace Beam

/-- Whether a slot is in the range of the beam. -/
def contains (beam : Beam) (slot : Nat) : Bool := beam.start ≤ slot && slot ≤ beam.stop

/-- The height of the beam at a place. -/
def yAt (beam : Beam) (x : Float32) : Float32 :=
  if (beam.xStop - beam.xStart).abs < epsilon then beam.yStart
  else
    beam.yStart + (beam.yStop - beam.yStart) * (x - beam.xStart) / (beam.xStop - beam.xStart)

/-- Whether the beam does not slope. -/
def isFlat (beam : Beam) : Bool := (beam.yStop - beam.yStart).abs < epsilon

/-- The beam at another height. -/
def shifted (beam : Beam) (shift : Float32) : Beam :=
  { beam with yStart := beam.yStart + shift, yStop := beam.yStop + shift }

end Beam

/-- A stem as long as it is by nature. -/
structure NaturalStem where
  x : Float32
  tip : Float32
deriving Inhabited

/-- The natural stem of a slot with heads. -/
def naturalStem? (config : Config) (direction : StemDirection) (slot : PlacedSlot) :
    Option NaturalStem :=
  (anchor? direction slot).map fun y =>
    ⟨stemX config direction slot, y + direction.sign * config.stemLength⟩

/-- Whether numbers go one way throughout; one number alone does not. -/
def steady (values : List Float32) : Bool :=
  let steps := List.zipWith (fun x y => y - x) values (values.drop 1)
  !steps.isEmpty && (steps.all (· > 0.0) || steps.all (· < 0.0))

/-- How far a beam over these stems rises from its first to its last tip. -/
def beamRise (config : Config) (stems : List NaturalStem) (first last : Float32) : Float32 :=
  if steady (stems.map NaturalStem.tip) then
    signOf (last - first) *
      lesser (last - first).abs (config.beamSlopeStep * Float32.ofNat (stems.length - 1))
  else 0.0

/-- The beam of some slots, the first of which has index `start`. -/
def beamOver (config : Config) (direction : StemDirection) (start : Nat)
    (slots : List PlacedSlot) : Beam :=
  let stems := slots.filterMap (naturalStem? config direction)
  let first := (stems.head?.map NaturalStem.tip).getD config.middleY
  let last := (stems.getLast?.map NaturalStem.tip).getD first
  let edgeX (slot : Option PlacedSlot) : Float32 :=
    (slot.map (stemX config direction)).getD 0.0
  let beam : Beam :=
    { start := start
      stop := start + slots.length - 1
      direction := direction
      levels := max 1 ((slots.map PlacedSlot.beamCount).foldl max 0)
      xStart := edgeX slots.head?
      xStop := edgeX slots.getLast?
      yStart := first
      yStop := first + beamRise config stems first last }
  let above := direction = .up
  beam.shifted (stems.foldl (fun shift stem => outer above shift (stem.tip - beam.yAt stem.x)) 0.0)

/-- The beam of a run, its direction voted for by all heads of the run. -/
def beamOfRun (config : Config) (line : Line) (slots : List PlacedSlot) (run : Nat × Nat) :
    Beam :=
  let inside := (slots.drop run.1).take (run.2 + 1 - run.1)
  let total := votes line.clef.middleLine (inside.flatMap PlacedSlot.heads)
  beamOver config (directionOf line.rhythm total) run.1 inside

/-- The beams of a line. -/
def beamsOf (config : Config) (line : Line) (meter : Meter) (slots : List PlacedSlot) :
    List Beam :=
  (beamRuns line meter).map (beamOfRun config line slots)

end Stave.Engraving
