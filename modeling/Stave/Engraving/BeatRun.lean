import Stave.Music.Line

/-!
# Runs of short slots

Neighbouring slots shorter than a quarter that begin in one beat form a run; rests are
cut off its ends, and two slots are needed for a beam.
-/
namespace Stave.Engraving

/-- A run of slots in one beat, from its first to its last slot. -/
structure BeatRun where
  start : Nat
  stop : Nat
  beat : Nat
deriving DecidableEq, Inhabited

/-- Whether a slot is short enough for a beam. -/
def beamable (slot : Slot) : Bool := slot.displayDuration < quarterUnits

/-- The runs of the slots from an index on, given the run that is still going on. -/
def beatRuns (beatUnits index : Nat) (current : Option BeatRun) :
    List (Nat × Slot) → List BeatRun
  | [] => current.toList
  | (onset, slot) :: rest =>
    let beat := onset / beatUnits
    if beamable slot then
      match current with
      | some run =>
        if run.beat = beat then
          beatRuns beatUnits (index + 1) (some { run with stop := index }) rest
        else run :: beatRuns beatUnits (index + 1) (some ⟨index, index, beat⟩) rest
      | none => beatRuns beatUnits (index + 1) (some ⟨index, index, beat⟩) rest
    else current.toList ++ beatRuns beatUnits (index + 1) none rest

/-- Whether the slot of an index is a rest. -/
def isRestAt (slots : Array Slot) (index : Nat) : Bool :=
  (slots[index]?.map Slot.isRest).getD false

/-- Move the start of a run past rests, at most past its end. -/
def trimRunStart (slots : Array Slot) (start stop : Nat) : Nat :=
  if start ≤ stop ∧ isRestAt slots start then trimRunStart slots (start + 1) stop else start
termination_by stop + 1 - start

/-- Move the end of a run before rests, at most to its start. -/
def trimRunStop (slots : Array Slot) (start : Nat) : Nat → Nat
  | 0 => 0
  | stop + 1 =>
    if stop + 1 > start ∧ isRestAt slots (stop + 1) then trimRunStop slots start stop
    else stop + 1

/-- The run without the rests at its ends, if two slots are left. -/
def trimRun? (slots : Array Slot) (run : BeatRun) : Option (Nat × Nat) :=
  let start := trimRunStart slots run.start run.stop
  let stop := trimRunStop slots start run.stop
  if stop > start then some (start, stop) else none

/-- The slots to join by beams, each run by its first and last slot. -/
def beamRuns (line : Line) (meter : Meter) : List (Nat × Nat) :=
  let slots := line.slots.toArray
  (beatRuns (max meter.beatUnits 1) 0 none (line.onsets.zip line.slots)).filterMap
    (trimRun? slots)

end Stave.Engraving
