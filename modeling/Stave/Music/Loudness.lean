import Stave.Music.Line

/-!
# Levels and loudness along a line

A dynamic sets the level from its slot on, and so does the level a ramp reaches.
Inside a ramp the coarse level moves with the slot index and is rounded, while the
loudness moves with time. A ramp from the bar before is taken to start one slot
before the line, and one into the next bar to stop one slot after it. Where several
ramps cover a slot, the last of them counts.
-/
namespace Stave

namespace Ramp

/-- The first slot strictly inside the ramp. -/
def firstInside (ramp : Ramp) : Nat :=
  match ramp.start with
  | some slot => slot + 1
  | none => 0

/-- The slot after the last one strictly inside the ramp, in a line of `count` slots. -/
def endInside (ramp : Ramp) (count : Nat) : Nat := ramp.stop.getD count

/-- Whether a slot is strictly inside the ramp. -/
def covers (ramp : Ramp) (count slot : Nat) : Bool :=
  ramp.firstInside ≤ slot && slot < ramp.endInside count

end Ramp

/-- The times of a line: the onset of every slot, and the end of the last one. -/
structure Timeline where
  onsets : Array Nat
  total : Nat

namespace Timeline

/-- The times of a list of slots. -/
def ofSlots (slots : List Slot) : Timeline :=
  ⟨(Line.onsetsFrom 0 slots).toArray, sumOf (slots.map Slot.duration)⟩

/-- The onset of a slot. -/
def onset (times : Timeline) (slot : Nat) : Nat := times.onsets.getD slot times.total

/-- The number of slots. -/
def count (times : Timeline) : Nat := times.onsets.size

end Timeline

namespace Ramp

/-- How far along a slot is by index, from zero at the start to one at the stop. -/
def fractionByIndex (ramp : Ramp) (times : Timeline) (slot : Nat) : Float32 :=
  let start : Float32 := match ramp.start with
    | some start => Float32.ofNat start
    | none => -1.0
  let stop := Float32.ofNat (ramp.stop.getD times.count)
  (Float32.ofNat slot - start) / (stop - start)

/-- How far along a slot is by time; a ramp that takes no time goes by index. -/
def fractionByTime (ramp : Ramp) (times : Timeline) (slot : Nat) : Float32 :=
  let start := (ramp.start.map times.onset).getD 0
  let stop := (ramp.stop.map times.onset).getD times.total
  let span := stop - start
  if span = 0 then ramp.fractionByIndex times slot
  else Float32.ofNat (times.onset slot - start) / Float32.ofNat span

/-- The coarse level of a slot inside the ramp. -/
def levelAt (ramp : Ramp) (times : Timeline) (slot : Nat) : Level :=
  let start := Float32.ofNat ramp.fromLevel.val
  let stop := Float32.ofNat ramp.toLevel.val
  let level := (start + (stop - start) * ramp.fractionByIndex times slot).round
  .clamp (if level > 7.0 then (7.0 : Float32) else if level < 0.0 then 0.0 else level).toUInt8.toNat

/-- The loudness of a slot inside the ramp. -/
def loudnessAt (ramp : Ramp) (times : Timeline) (slot : Nat) : Float32 :=
  let start := loudnessOf ramp.fromLevel
  let stop := loudnessOf ramp.toLevel
  start + (stop - start) * ramp.fractionByTime times slot

end Ramp

/-- The level in force from a slot on: its dynamic, else the level a ramp that stops
there reaches, else what was in force before. -/
def levelFrom (ramps : List Ramp) (before : Level) (index : Nat) (slot : Slot) : Level :=
  match slot.dynamic with
  | some dynamic => dynamic.level
  | none =>
    match ramps.reverse.find? fun ramp => ramp.stop = some index with
    | some ramp => ramp.toLevel
    | none => before

/-- Set the level in force on every slot, whose indices start at `index`. -/
def setLevels (ramps : List Ramp) (before : Level) (index : Nat) : List Slot → List Slot
  | [] => []
  | slot :: rest =>
    let level := levelFrom ramps before index slot
    { slot with level := level, loudness := loudnessOf level } ::
      setLevels ramps level (index + 1) rest

/-- Set the level and loudness of a slot that a ramp covers. -/
def rampSlot (ramps : List Ramp) (times : Timeline) (index : Nat) (slot : Slot) : Slot :=
  match ramps.reverse.find? fun ramp => ramp.covers times.count index with
  | some ramp =>
    { slot with level := ramp.levelAt times index, loudness := ramp.loudnessAt times index }
  | none => slot

/-- Set level and loudness along a line that starts at a given level. -/
def setLoudness (ramps : List Ramp) (before : Level) (slots : List Slot) : List Slot :=
  let times := Timeline.ofSlots slots
  let covering := ramps.filter fun ramp => ramp.firstInside < ramp.endInside times.count
  (setLevels (ramps.filter (·.stop.isSome)) before 0 slots).mapIdx (rampSlot covering times)

end Stave
