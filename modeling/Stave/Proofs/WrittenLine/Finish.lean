import Stave.Proofs.Chain
import Stave.Proofs.Draft.Run
import Stave.Proofs.TupletGroup
import Stave.Shorthand.WrittenLine

/-!
# The ways to finish a draft

A draft without slots is finished as a full rest. One with slots has to pass three checks, one
after the other: its tuplets lie within its slots, its times fit, and they fill the bar. Each way
to finish it, and each way to be refused, is told here once, and so is where tokens can stop
before there is a draft to finish.
-/
namespace Stave.Shorthand

variable {instrument : Instrument} {prior : Carry} {tokens : List Token} {ledger : Ledger}
  {groups : List TupletGroup} {draft : Draft} {written : WrittenLine} {error : BuildError}
  {frame : Frame} {meter : Meter} {offset : Nat} {tuplets : List TupletRange} {slots : List Slot}

namespace Draft

/-! ### Checks -/

theorem checkTuplets_eq_error (h : draft.checkTuplets groups = .error error) :
    ∃ group ∈ groups, error = ⟨.tupletOutOfRange, group.origin⟩ ∧
      (draft.slots.length ≤ group.range.stop ∨ group.range.stop < group.range.start) := by
  unfold checkTuplets at h
  split at h
  case h_1 group hfind =>
    cases h
    exact ⟨group, List.mem_of_find?_eq_some hfind, rfl, by simpa using List.find?_some hfind⟩
  case h_2 => cases h

theorem checkTimes_eq_ok : checkTimes offset tuplets slots = .ok () ↔ TimesFit tuplets slots := by
  unfold checkTimes
  split <;> simp_all

theorem checkTimes_eq_error :
    checkTimes offset tuplets slots = .error error ↔
      ¬TimesFit tuplets slots ∧ error = ⟨.overflow, offset⟩ := by
  unfold checkTimes
  split <;> simp_all [eq_comm]

theorem checkLength_eq_ok :
    checkLength meter offset slots = .ok () ↔
      sumOf (slots.map Slot.duration) = meter.barUnits := by
  unfold checkLength
  dsimp only
  split <;> simp_all

theorem checkLength_eq_error :
    checkLength meter offset slots = .error error ↔
      sumOf (slots.map Slot.duration) ≠ meter.barUnits ∧
        error = ⟨.barLength meter.barUnits (sumOf (slots.map Slot.duration)), offset⟩ := by
  unfold checkLength
  dsimp only
  split <;> simp_all [eq_comm]

end Draft

/-! ### Finishes -/

/-- The two ways a draft is finished. -/
inductive Finished (draft : Draft) (instrument : Instrument) (prior : Carry) (ledger : Ledger)
    (groups : List TupletGroup) : WrittenLine → Prop where
  | rest (closed : draft.chord = none) (empty : draft.slots = []) :
      Finished draft instrument prior ledger groups
        ⟨draft.restLine instrument, draft.frame, draft.timeOffset, draft.tempoChanged⟩
  | slots (closed : draft.chord = none) (nonempty : draft.slots ≠ [])
      (inside : draft.checkTuplets groups = .ok ())
      (fills : sumOf ((draft.timedSlots instrument (groups.map TupletGroup.range)).map
        Slot.duration) = draft.frame.meter.barUnits)
      (fits : TimesFit (groups.map TupletGroup.range) (draft.resolvedSlots instrument)) :
      Finished draft instrument prior ledger groups
        ⟨draft.slotLine instrument ledger prior.level (groups.map TupletGroup.range),
          draft.frame, draft.timeOffset, draft.tempoChanged⟩

/-- The ways a draft is refused. -/
inductive Refused (draft : Draft) (instrument : Instrument) (tokens : List Token)
    (groups : List TupletGroup) : BuildError → Prop where
  | chord {chord : OpenChord} (opened : draft.chord = some chord) :
      Refused draft instrument tokens groups ⟨.unterminatedChord, chord.offset⟩
  | tuplets {group : TupletGroup} (closed : draft.chord = none) (nonempty : draft.slots ≠ [])
      (mem : group ∈ groups)
      (outside : draft.slots.length ≤ group.range.stop ∨ group.range.stop < group.range.start) :
      Refused draft instrument tokens groups ⟨.tupletOutOfRange, group.origin⟩
  | times (closed : draft.chord = none) (nonempty : draft.slots ≠ [])
      (inside : draft.checkTuplets groups = .ok ())
      (exceed : ¬TimesFit (groups.map TupletGroup.range) (draft.resolvedSlots instrument)) :
      Refused draft instrument tokens groups ⟨.overflow, Draft.lastOffset tokens⟩
  | length (closed : draft.chord = none) (nonempty : draft.slots ≠ [])
      (inside : draft.checkTuplets groups = .ok ())
      (fits : TimesFit (groups.map TupletGroup.range) (draft.resolvedSlots instrument))
      (differs : sumOf ((draft.timedSlots instrument (groups.map TupletGroup.range)).map
        Slot.duration) ≠ draft.frame.meter.barUnits) :
      Refused draft instrument tokens groups
        ⟨.barLength draft.frame.meter.barUnits (sumOf ((draft.timedSlots instrument
          (groups.map TupletGroup.range)).map Slot.duration)), Draft.lastOffset tokens⟩

theorem finished_of_finish
    (h : draft.finish instrument prior tokens ledger groups = .ok written) :
    Finished draft instrument prior ledger groups written := by
  unfold Draft.finish at h
  dsimp only at h
  split at h
  · cases h
  case h_2 closed =>
    split at h
    case isTrue empty =>
      cases h
      exact .rest closed (by simpa using empty)
    case isFalse nonempty =>
      obtain ⟨_, inside, h⟩ := bind_ok_iff.1 h
      obtain ⟨_, htimes, h⟩ := bind_ok_iff.1 h
      obtain ⟨_, hlength, h⟩ := bind_ok_iff.1 h
      cases h
      exact .slots closed (by simpa using nonempty) inside (Draft.checkLength_eq_ok.1 hlength)
        (Draft.checkTimes_eq_ok.1 htimes)

theorem refused_of_finish
    (h : draft.finish instrument prior tokens ledger groups = .error error) :
    Refused draft instrument tokens groups error := by
  unfold Draft.finish at h
  dsimp only at h
  split at h
  case h_1 chord opened =>
    cases h
    exact .chord opened
  case h_2 closed =>
    split at h
    · cases h
    case isFalse nonempty =>
      have nonempty : draft.slots ≠ [] := by simpa using nonempty
      rcases bind_error_iff.1 h with htuplets | ⟨_, inside, h⟩
      · obtain ⟨group, hmem, rfl, outside⟩ := Draft.checkTuplets_eq_error htuplets
        exact .tuplets closed nonempty hmem outside
      rcases bind_error_iff.1 h with htimes | ⟨_, htimes, h⟩
      · obtain ⟨exceed, rfl⟩ := Draft.checkTimes_eq_error.1 htimes
        exact .times closed nonempty inside exceed
      rcases bind_error_iff.1 h with hlength | ⟨_, -, h⟩
      · obtain ⟨differs, rfl⟩ := Draft.checkLength_eq_error.1 hlength
        exact .length closed nonempty inside (Draft.checkTimes_eq_ok.1 htimes) differs
      · cases h

/-! ### Stops -/

/-- Where tokens are refused: at their groups, in their run, or when their draft is finished. The
first two know each a list of faults. -/
inductive LineStops (tokens : List Token) (instrument : Instrument) (prior : Carry) (frame : Frame)
    (error : BuildError) : Prop where
  | groups (fault : error.fault ∈ TupletGroup.scanFaults)
      (refused : TupletGroup.scan tokens (Ledger.scan tokens) = .error error)
  | run {groups : List TupletGroup}
      (scanned : TupletGroup.scan tokens (Ledger.scan tokens) = .ok groups)
      (fault : error.fault ∈ Building.runFaults)
      (refused : (Draft.start instrument prior frame).acceptAll instrument 0 tokens =
        .error error)
  | finish {groups : List TupletGroup} {draft : Draft}
      (scanned : TupletGroup.scan tokens (Ledger.scan tokens) = .ok groups)
      (taken : (Draft.start instrument prior frame).acceptAll instrument 0 tokens = .ok draft)
      (refused : Refused draft instrument tokens groups error)

theorem stops_of_buildLine {error : BuildError}
    (h : buildLine tokens instrument prior frame = .error error) :
    LineStops tokens instrument prior frame error := by
  unfold buildLine at h
  rcases bind_error_iff.1 h with hscan | ⟨groups, scanned, h⟩
  · exact .groups (TupletGroup.fault_of_collect hscan) hscan
  rcases bind_error_iff.1 h with hrun | ⟨draft, taken, h⟩
  · exact .run scanned (Building.fault_of_acceptAll hrun) hrun
  · exact .finish scanned taken (refused_of_finish h)

end Stave.Shorthand
