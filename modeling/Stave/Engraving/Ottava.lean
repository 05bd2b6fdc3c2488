import Stave.Engraving.TupletBracket

/-!
# Octave brackets

Neighbouring slots with the same octave shift share one bracket, above the staff for a
shift upwards and below it otherwise, outside all ink of its slots.
-/
namespace Stave.Engraving

/-- A bracket that shifts slots by octaves. -/
structure OttavaBracket where
  start : Nat
  stop : Nat
  level : Int
  label : String
  above : Bool
  xStart : Float32
  lineStart : Float32
  xStop : Float32
  y : Float32
  /-- The closing tick, which points to the staff. -/
  tick : Float32
deriving Inhabited

/-- The label of a shift. -/
def ottavaLabel (level : Int) : String :=
  if level = 2 then "15ma"
  else if level = 1 then "8va"
  else if level = -1 then "8vb"
  else if level = -2 then "15mb"
  else ""

/-- Neighbouring slots with one shift. -/
structure OttavaRun where
  start : Nat
  stop : Nat
  level : Int
deriving DecidableEq, Inhabited

/-- The runs of the slots from an index on, given the run that is still going on. -/
def ottavaRuns (index : Nat) (current : Option OttavaRun) : List Slot → List OttavaRun
  | [] => current.toList
  | slot :: rest =>
    match current with
    | some run =>
      if run.level = slot.ottava then
        ottavaRuns (index + 1) (some { run with stop := index }) rest
      else run :: ottavaRuns (index + 1) (some ⟨index, index, slot.ottava⟩) rest
    | none => ottavaRuns (index + 1) (some ⟨index, index, slot.ottava⟩) rest

/-- The middle height of a bracket over some slots. -/
def ottavaY (config : Config) (above : Bool) (slots : List PlacedSlot) : Float32 :=
  let edge := slots.foldl (fun y slot => outer above y (slot.ink.edge above))
    (if above then 0.0 else config.bottomY)
  if above then edge - config.ottavaGap - config.ottavaHeight / 2.0
  else edge + config.ottavaGap + config.ottavaHeight / 2.0

/-- Draw one bracket after others. -/
def addOttava (config : Config) (drawn : List PlacedSlot × List OttavaBracket)
    (run : OttavaRun) : List PlacedSlot × List OttavaBracket :=
  let (slots, brackets) := drawn
  let above := run.level > 0
  let inside := spanOf slots run.start run.stop
  let y := ottavaY config above inside
  let xStart := (inside.head?.map PlacedSlot.x).getD 0.0
  let bracket : OttavaBracket :=
    { start := run.start
      stop := run.stop
      level := run.level
      label := ottavaLabel run.level
      above := above
      xStart := xStart
      lineStart := xStart + config.ottavaLabelWidth
      xStop := (inside.getLast?.map PlacedSlot.x).getD 0.0 + config.noteheadWidth
      y := y
      tick := if above then config.ottavaTick else -config.ottavaTick }
  (changeSpan slots run.start run.stop fun slot =>
      (slot.extend (y - config.ottavaHeight / 2.0)).extend (y + config.ottavaHeight / 2.0),
    brackets ++ [bracket])

/-- Draw the octave brackets of a line. -/
def addOttavas (config : Config) (line : Line) (slots : List PlacedSlot) :
    List PlacedSlot × List OttavaBracket :=
  let shifted := (ottavaRuns 0 none line.slots).filter fun run =>
    run.level != 0 && run.stop < slots.length
  shifted.foldl (addOttava config) (slots, [])

end Stave.Engraving
