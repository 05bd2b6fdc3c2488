import Stave.Proofs.Draft.Moved
import Stave.Proofs.WrittenLine.Built
import Stave.Proofs.WrittenLine.Unseen

/-!
# Lines typed elsewhere

Where a slot was typed goes with it through everything that finishing does to the slots of a
draft, and decides nothing. So a text typed elsewhere makes the same line with other places; a
bar that is left empty has a rest that was not typed at all.
-/
namespace Stave

variable {move : Nat → Nat}

/-! ### Finishing slots -/

theorem resolveSlots_moved (transposition : Int) (standing : Alterations) (slots : List Slot) :
    resolveSlots transposition standing (slots.map (Slot.moved move)) =
      (resolveSlots transposition standing slots).map (Slot.moved move) := by
  induction slots generalizing standing with
  | nil => rfl
  | cons slot rest ih =>
    rw [List.map_cons, resolveSlots, resolveSlots, List.map_cons, ← ih]
    rfl

/-- Where a slot was typed is not seen by what comes after its pitches are settled. -/
theorem Slot.unseen_moved (move : Nat → Nat) : Slot.Unseen (Slot.moved move) where
  duration _ := rfl
  displayDuration _ := rfl
  dynamic _ := rfl
  tied _ := rfl
  withDuration _ _ := rfl
  withLevel _ _ _ := rfl

namespace Shorthand

/-- A written line typed elsewhere. `sounded` says whether its slots were typed, and not put in
for an empty bar. -/
def WrittenLine.moved (move : Nat → Nat) (sounded : Bool) (written : WrittenLine) : WrittenLine :=
  { written with
    line := { written.line with
      slots := if sounded then written.line.slots.map (Slot.moved move) else written.line.slots }
    timeOffset := written.timeOffset.map move }

variable {draft : Draft} {instrument : Instrument} {prior : Carry} {frame : Frame}
  {tokens tokens' : List Token} {ledger : Ledger} {groups : List TupletGroup}
  {written : WrittenLine} {tuplets : List TupletRange}

namespace Draft

theorem resolvedSlots_moved :
    (draft.moved move).resolvedSlots instrument =
      (draft.resolvedSlots instrument).map (Slot.moved move) := by
  rw [resolvedSlots, resolvedSlots, resolveAccidentals, resolveAccidentals, ← resolveSlots_moved,
    moved, List.map_map, ← List.map_reverse, List.map_map]
  rfl

theorem timedSlots_moved :
    (draft.moved move).timedSlots instrument tuplets =
      (draft.timedSlots instrument tuplets).map (Slot.moved move) := by
  rw [timedSlots, timedSlots, resolvedSlots_moved, (Slot.unseen_moved move).scaleTuplets]

theorem slotLine_moved (before : Level) :
    (draft.moved move).slotLine instrument ledger before tuplets =
      { draft.slotLine instrument ledger before tuplets with
        slots :=
          (draft.slotLine instrument ledger before tuplets).slots.map (Slot.moved move) } := by
  rw [slotLine, timedSlots_moved, (Slot.unseen_moved move).tiesOf]
  simp only [(Slot.unseen_moved move).setLoudness]
  rfl

theorem checkTuplets_moved (h : draft.checkTuplets groups = .ok ()) :
    (draft.moved move).checkTuplets (groups.map (TupletGroup.moved move)) = .ok () := by
  have hlength : (draft.moved move).slots.length = draft.slots.length := by simp [moved]
  unfold checkTuplets at h ⊢
  rw [hlength, List.find?_map]
  split at h
  · cases h
  case h_2 hnone =>
    have hsame : groups.find? ((fun group : TupletGroup =>
        decide (group.range.stop ≥ draft.slots.length) ||
          decide (group.range.start > group.range.stop)) ∘ TupletGroup.moved move) = none := hnone
    rw [hsame]
    rfl

theorem checkTimes_moved {offset other : Nat} {slots : List Slot}
    (h : checkTimes offset tuplets slots = .ok ()) :
    checkTimes other tuplets (slots.map (Slot.moved move)) = .ok () :=
  checkTimes_eq_ok.2 (((Slot.unseen_moved move).timesFit tuplets slots).2 (checkTimes_eq_ok.1 h))

theorem checkLength_moved {meter : Meter} {offset other : Nat} {slots : List Slot}
    (h : checkLength meter offset slots = .ok ()) :
    checkLength meter other (slots.map (Slot.moved move)) = .ok () := by
  rw [checkLength_eq_ok, (Slot.unseen_moved move).map_duration]
  exact checkLength_eq_ok.1 h

theorem finish_moved (h : draft.finish instrument prior tokens ledger groups = .ok written) :
    (draft.moved move).finish instrument prior tokens' ledger
        (groups.map (TupletGroup.moved move)) =
      .ok (written.moved move !draft.slots.isEmpty) := by
  unfold finish at h ⊢
  cases hchord : draft.chord with
  | some chord => simp [hchord] at h
  | none =>
    have hmoved : (draft.moved move).chord = none := by
      rw [moved, hchord]
      rfl
    have hempty : (draft.moved move).slots.isEmpty = draft.slots.isEmpty := by
      simp [moved]
    simp only [hchord] at h
    simp only [hmoved, hempty]
    split at h
    case isTrue hslots =>
      cases h
      rw [if_pos hslots, hslots]
      rfl
    case isFalse hslots =>
      obtain ⟨_, hinside, h⟩ := bind_ok_iff.1 h
      obtain ⟨_, htimes, h⟩ := bind_ok_iff.1 h
      obtain ⟨_, hlength, h⟩ := bind_ok_iff.1 h
      cases h
      have hranges : (groups.map (TupletGroup.moved move)).map TupletGroup.range =
          groups.map TupletGroup.range := by
        rw [List.map_map]
        rfl
      have hframe : (draft.moved move).frame = draft.frame := rfl
      rw [if_neg hslots, checkTuplets_moved hinside, hranges, resolvedSlots_moved,
        timedSlots_moved, slotLine_moved, hframe, checkTimes_moved htimes,
        checkLength_moved hlength]
      simp only [hslots, Bool.not_false]
      rfl

end Draft

/-- A list of tokens typed elsewhere builds the same line elsewhere. -/
theorem buildLine_moved (hmoved : SameMoved move tokens tokens')
    (h : buildLine tokens instrument prior frame = .ok written) :
    ∃ draft, Building instrument (.start instrument prior frame) tokens draft [] ∧
      buildLine tokens' instrument prior frame =
        .ok (written.moved move !draft.slots.isEmpty) := by
  unfold buildLine at h ⊢
  obtain ⟨groups, hgroups, h⟩ := bind_ok_iff.1 h
  obtain ⟨draft, hdraft, h⟩ := bind_ok_iff.1 h
  refine ⟨draft, Building.start.append hdraft, ?_⟩
  rw [Ledger.scan_of_sameMoved hmoved]
  exact bind_ok_iff.2 ⟨_, TupletGroup.collect_moved hmoved hgroups,
    bind_ok_iff.2 ⟨_, Draft.acceptAll_moved hmoved hdraft, Draft.finish_moved h⟩⟩

end Shorthand

end Stave
