import Stave.Music.Tuplet
import Stave.Proofs.Ledger
import Stave.Shorthand.TupletGroup

/-!
# Where tuplet groups lie

The first and the last slot of a group are headed by tokens between its braces, so they are
slots of the line, in this order. Scaling a group therefore takes slices that are there, and
leaves the number of slots and all that is not a duration.
-/
namespace Stave

/-- The range is one of the slots of a line that has `count` of them. -/
structure TupletRange.Within (range : TupletRange) (count : Nat) : Prop where
  start_le : range.start ≤ range.stop
  stop_lt : range.stop < count

namespace Shorthand

variable {tokens rest : List Token} {tuplet : OpenTuplet} {index : Nat} {group : TupletGroup}

/-- The slots between the braces of a group are those from the first head there to the last. -/
theorem OpenTuplet.exists_of_close (hindex : index ≤ tokens.length)
    (h : tuplet.close (Ledger.scan tokens) index = .ok group) :
    ∃ i j head last, (Ledger.headsFrom 0 false tokens)[i]? = some head ∧
      (Ledger.headsFrom 0 false tokens)[j]? = some last ∧ head ≤ last ∧
      group.range = ⟨i, j, tuplet.actual, tuplet.normal⟩ ∧
      ∀ other ∈ Ledger.headsFrom 0 false tokens,
        (tuplet.directive + 1 < other ∧ other < index ↔ head ≤ other ∧ other ≤ last) := by
  unfold OpenTuplet.close at h
  dsimp only at h
  split at h
  · cases h
  case h_2 head others hheads =>
    cases h
    have hmem (token : Nat) : token ∈ head :: others ↔ token ∈ Ledger.headsFrom 0 false tokens ∧
        tuplet.directive + 1 < token ∧ token < index := by
      rw [← hheads, List.mem_filter, List.mem_range'_1, Ledger.headsFrom_eq_filter_isRemoved,
        List.mem_filter, List.mem_range]
      constructor
      · rintro ⟨⟨hle, hlt⟩, hkept⟩
        exact ⟨⟨by omega, hkept⟩, by omega, by omega⟩
      · rintro ⟨⟨-, hkept⟩, hlow, hhigh⟩
        exact ⟨⟨by omega, by omega⟩, hkept⟩
    have hsorted : (head :: others).Pairwise (· < ·) := by
      rw [← hheads]
      exact List.Pairwise.filter _ List.pairwise_lt_range'
    -- the last of a list in order is the largest
    obtain ⟨init, hlast⟩ : ∃ init, head :: others = init ++ [others.getLast?.getD head] :=
      List.getLast?_eq_some_iff.1 List.getLast?_cons
    have hlargest : ∀ token ∈ head :: others, token ≤ others.getLast?.getD head := by
      intro token htoken
      rw [hlast] at htoken hsorted
      rcases List.mem_append.1 htoken with hinit | hend
      · exact Nat.le_of_lt ((List.pairwise_append.1 hsorted).2.2 token hinit _
          List.mem_cons_self)
      · exact Nat.le_of_eq (List.mem_singleton.1 hend)
    have hleast : ∀ token ∈ head :: others, head ≤ token := by
      intro token htoken
      rcases List.mem_cons.1 htoken with rfl | hother
      · exact Nat.le_refl _
      · exact Nat.le_of_lt ((List.pairwise_cons.1 hsorted).1 token hother)
    have hfirst := (hmem head).1 List.mem_cons_self
    have hfinal := (hmem (others.getLast?.getD head)).1 (by rw [hlast]; simp)
    obtain ⟨i, hi⟩ := List.mem_iff_getElem?.1 hfirst.1
    obtain ⟨j, hj⟩ := List.mem_iff_getElem?.1 hfinal.1
    refine ⟨i, j, head, _, hi, hj, hlargest head List.mem_cons_self, ?_, fun other hother => ?_⟩
    · simp only [Ledger.rebase_of_getElem? hi, Ledger.rebase_of_getElem? hj]
    · constructor
      · intro hbetween
        have hkept := (hmem other).2 ⟨hother, hbetween⟩
        exact ⟨hleast other hkept, hlargest other hkept⟩
      · rintro ⟨hlow, hhigh⟩
        omega

/-- A group that closes inside a line lies within the slots the ledger keeps. -/
theorem OpenTuplet.within_of_close (hindex : index ≤ tokens.length)
    (h : tuplet.close (Ledger.scan tokens) index = .ok group) :
    group.range.Within (Ledger.headsFrom 0 false tokens).length := by
  obtain ⟨i, j, head, last, hi, hj, hle, hrange, -⟩ := OpenTuplet.exists_of_close hindex h
  have hlast := Ledger.lt_of_mem_headsFrom (List.mem_of_getElem? hj)
  have horder := Ledger.rebase_le_rebase hle (Nat.le_of_lt hlast)
  rw [Ledger.rebase_of_getElem? hi, Ledger.rebase_of_getElem? hj] at horder
  rw [hrange]
  exact ⟨horder, (List.getElem?_eq_some_iff.1 hj).1⟩

theorem TupletGroup.within_of_collect {opened : Option OpenTuplet}
    {found groups : List TupletGroup} (hindex : index + rest.length = tokens.length)
    (hfound : ∀ group ∈ found, group.range.Within (Ledger.headsFrom 0 false tokens).length)
    (h : collect (Ledger.scan tokens) index opened found rest = .ok groups) :
    ∀ group ∈ groups, group.range.Within (Ledger.headsFrom 0 false tokens).length := by
  induction rest generalizing index opened found with
  | nil =>
    unfold collect at h
    split at h
    · cases h
    · cases h
      simpa using hfound
  | cons token rest ih =>
    have hnext : index + 1 + rest.length = tokens.length := by
      rw [List.length_cons] at hindex
      omega
    unfold collect at h
    split at h
    case h_1 =>
      split at h
      · cases h
      split at h
      · exact ih hnext hfound h
      · cases h
    case h_2 =>
      split at h
      · split at h
        · exact ih hnext hfound h
        · cases h
      · cases h
    case h_3 =>
      split at h
      · split at h
        · cases h
        case h_2 group hclose =>
          refine ih hnext (fun other hmem => ?_) h
          rcases List.mem_cons.1 hmem with rfl | hmem
          · exact OpenTuplet.within_of_close (by omega) hclose
          · exact hfound other hmem
      · cases h
    case h_4 => exact ih hnext hfound h

/-- The groups of a line lie within the slots the ledger keeps. -/
theorem TupletGroup.within_of_scan {groups : List TupletGroup}
    (h : scan tokens (Ledger.scan tokens) = .ok groups) :
    ∀ group ∈ groups, group.range.Within (Ledger.headsFrom 0 false tokens).length :=
  within_of_collect (Nat.zero_add _) (fun _ hmem => absurd hmem List.not_mem_nil) h

/-- The faults the groups of a line are refused for. -/
def TupletGroup.scanFaults : List BuildFault :=
  [.tupletWithoutGroup, .nestedTuplet, .unterminatedTuplet, .emptyTuplet, .strayGroupOpen,
    .strayGroupClose]

theorem OpenTuplet.fault_of_close {ledger : Ledger} {error : BuildError}
    (h : tuplet.close ledger index = .error error) : error.fault = .emptyTuplet := by
  unfold close at h
  dsimp only at h
  split at h
  · cases h
    rfl
  · cases h

theorem TupletGroup.fault_of_collect {ledger : Ledger} {opened : Option OpenTuplet}
    {found : List TupletGroup} {error : BuildError}
    (h : collect ledger index opened found rest = .error error) : error.fault ∈ scanFaults := by
  induction rest generalizing index opened found with
  | nil =>
    unfold collect at h
    split at h <;> cases h
    simp [scanFaults]
  | cons token rest ih =>
    unfold collect at h
    split at h
    case h_1 =>
      split at h
      · cases h
        simp [scanFaults]
      split at h
      · exact ih h
      · cases h
        simp [scanFaults]
    case h_2 =>
      split at h
      · split at h
        · exact ih h
        · cases h
          simp [scanFaults]
      · cases h
        simp [scanFaults]
    case h_3 =>
      split at h
      · split at h
        case h_1 hclose =>
          cases h
          simp [OpenTuplet.fault_of_close hclose, scanFaults]
        case h_2 => exact ih h
      · cases h
        simp [scanFaults]
    case h_4 => exact ih h

end Shorthand

namespace TupletRange

theorem map_scaleSlots {α : Type} (range : TupletRange) (part : Slot → α)
    (hpart : ∀ (slot : Slot) (duration : Nat), part { slot with duration := duration } = part slot)
    (slots : List Slot) : (range.scaleSlots slots).map part = slots.map part := by
  cases slots with
  | nil => rfl
  | cons first rest => simp [scaleSlots, scaleSlot, hpart, Function.comp_def]

/-- A line is what stands before a range, the range, and what stands after it. -/
theorem take_slotsIn_drop {range : TupletRange} (h : range.start ≤ range.stop)
    (slots : List Slot) :
    slots.take range.start ++ range.slotsIn slots ++ slots.drop (range.stop + 1) = slots := by
  have hafter : slots.drop (range.stop + 1) =
      (slots.drop range.start).drop (range.stop + 1 - range.start) := by
    rw [List.drop_drop]
    congr 1
    omega
  rw [hafter, slotsIn, List.append_assoc, List.take_append_drop, List.take_append_drop]

/-- Scaling a range changes nothing but durations. -/
theorem map_scale {α : Type} {range : TupletRange} {slots : List Slot}
    (h : range.start ≤ range.stop) (part : Slot → α)
    (hpart : ∀ (slot : Slot) (duration : Nat), part { slot with duration := duration } = part slot) :
    (range.scale slots).map part = slots.map part := by
  simp only [scale, List.map_append, map_scaleSlots range part hpart]
  rw [← List.map_append, ← List.map_append, take_slotsIn_drop h]

end TupletRange

theorem map_scaleTuplets {α : Type} {tuplets : List TupletRange} {slots : List Slot}
    (h : ∀ range ∈ tuplets, range.start ≤ range.stop) (part : Slot → α)
    (hpart : ∀ (slot : Slot) (duration : Nat), part { slot with duration := duration } = part slot) :
    (scaleTuplets tuplets slots).map part = slots.map part := by
  unfold scaleTuplets
  induction tuplets generalizing slots with
  | nil => rfl
  | cons range rest ih =>
    rw [List.foldl_cons, ih fun other hmem => h other (List.mem_cons_of_mem _ hmem)]
    exact TupletRange.map_scale (h range List.mem_cons_self) part hpart

end Stave
