import Stave.Proofs.Tuplet.Scaled

/-!
# Times that fit

A line is refused an answer where a number formed for its times does not fit. The lengths of slots
that can be written fit on their own, and of the numbers formed for a range none is above the
product of what it is drawn with and its ratio, so all depends on these products and on the sum of
all durations. Both are small where few slots are scaled by small ratios.
-/
namespace Stave

/-! ### Dots -/

theorem addDots_le (total half dots : Nat) : addDots total half dots ≤ total + 2 * half := by
  induction dots generalizing total half with
  | zero => exact Nat.le_add_right ..
  | succ dots ih =>
    have hrest := ih (total + half) (half / 2)
    rw [addDots]
    omega

namespace NoteLength

/-- A length that can be written: its base is that of a duration digit. -/
def Legible (length : NoteLength) : Prop := ∃ digit, digitUnits? digit = some length.base

variable {length : NoteLength}

theorem Legible.base_le (h : length.Legible) : length.base ≤ wholeUnits := by
  obtain ⟨digit, hdigit⟩ := h
  unfold digitUnits? at hdigit
  split at hdigit
  case isTrue =>
    rw [← Option.some.inj hdigit]
    exact Nat.div_le_self ..
  case isFalse => cases hdigit

/-- Dots less than double a length. -/
theorem units_le (length : NoteLength) : length.units ≤ 2 * length.base := by
  have h := addDots_le length.base (length.base / 2) length.dots
  rw [units, dottedUnits]
  omega

theorem Legible.units_le (h : length.Legible) : length.units ≤ 2 * wholeUnits :=
  Nat.le_trans length.units_le (Nat.mul_le_mul_left 2 h.base_le)

theorem Legible.units_lt (h : length.Legible) : length.units < wordLimit :=
  Nat.lt_of_le_of_lt h.units_le (by decide)

end NoteLength

/-! ### Tuplets -/

variable {tuplets : List TupletRange} {range : TupletRange} {slots : List Slot}

/-- Everything fits if the product of every range and the sum of all durations do. -/
theorem timesFit_iff (hpositive : ∀ range ∈ tuplets, 0 < range.actual ∧ 0 < range.normal) :
    TimesFit tuplets slots ↔
      (∀ range ∈ tuplets,
        TupletRange.drawnUnits (range.slotsIn slots) * range.normal < wordLimit) ∧
        sumOf ((scaleTuplets tuplets slots).map Slot.duration) < wordLimit := by
  have hfits (range : TupletRange) (hmem : range ∈ tuplets) :
      range.Fits ((range.slotsIn slots).map Slot.displayDuration) ↔
        TupletRange.drawnUnits (range.slotsIn slots) * range.normal < wordLimit :=
    TupletRange.fits_iff (hpositive range hmem).1 (hpositive range hmem).2
  constructor
  · intro h
    exact ⟨fun range hmem => (hfits range hmem).1 (h.ranges range hmem), h.total⟩
  · rintro ⟨hproduct, htotal⟩
    exact ⟨fun range hmem => (hfits range hmem).2 (hproduct range hmem), htotal⟩

/-! ### Small ratios -/

/-- Up to a place the slots of a line last together no more than a number of times what they are
drawn with, and from there on every slot does. -/
structure DurationsLe (factor place : Nat) (slots : List Slot) : Prop where
  before : sumOf ((slots.take place).map Slot.duration) ≤
    TupletRange.drawnUnits (slots.take place) * factor
  after : ∀ slot ∈ slots.drop place, slot.duration ≤ slot.displayDuration * factor

namespace DurationsLe

variable {factor place : Nat}

theorem sumOf_le_of_forall (h : ∀ slot ∈ slots, slot.duration ≤ slot.displayDuration * factor) :
    sumOf (slots.map Slot.duration) ≤ TupletRange.drawnUnits slots * factor := by
  unfold TupletRange.drawnUnits
  induction slots with
  | nil => exact Nat.zero_le _
  | cons slot rest ih =>
    obtain ⟨hslot, hrest⟩ := List.forall_mem_cons.1 h
    have := ih hrest
    rw [List.map_cons, List.map_cons, sumOf_cons, sumOf_cons, Nat.add_mul]
    omega

/-- The place can be moved on. -/
theorem sumOf_take_le (h : DurationsLe factor place slots) {later : Nat} (hlater : place ≤ later) :
    sumOf ((slots.take later).map Slot.duration) ≤
      TupletRange.drawnUnits (slots.take later) * factor := by
  have hsplit : slots.take later = slots.take place ++ (slots.drop place).take (later - place) := by
    rw [← List.take_add, Nat.add_sub_cancel' hlater]
  have hmiddle : sumOf (((slots.drop place).take (later - place)).map Slot.duration) ≤
      TupletRange.drawnUnits ((slots.drop place).take (later - place)) * factor :=
    sumOf_le_of_forall fun slot hmem => h.after slot (List.mem_of_mem_take hmem)
  have hbefore := h.before
  rw [hsplit, TupletRange.drawnUnits_append, List.map_append, sumOf_append, Nat.add_mul]
  omega

/-- Scaling a range moves the place behind it. -/
theorem scale (h : DurationsLe factor place slots) (hplace : place ≤ range.start)
    (hwithin : range.Within slots.length) (hactual : 0 < range.actual)
    (hnormal : range.normal ≤ factor) :
    DurationsLe factor (range.stop + 1) (range.scale slots) := by
  have hstart := hwithin.start_le
  have hstop := hwithin.stop_lt
  have hlength : (slots.take range.start ++ range.scaleSlots (range.slotsIn slots)).length =
      range.stop + 1 := by
    rw [List.length_append, TupletRange.length_scaleSlots, TupletRange.slotsIn, List.length_take,
      List.length_take, List.length_drop]
    omega
  constructor
  · have htotal := (TupletRange.scaled_scaleSlots hactual (range.slotsIn slots)).total
    have hdrawn := range.drawnUnits_scaleSlots (range.slotsIn slots)
    have hbefore := h.sumOf_take_le hplace
    have hscaled := range.scaledUnits_le (TupletRange.drawnUnits (range.slotsIn slots))
    have hfactor := Nat.mul_le_mul_left (TupletRange.drawnUnits (range.slotsIn slots)) hnormal
    rw [hdrawn] at htotal
    rw [TupletRange.scale, List.take_left' hlength, TupletRange.drawnUnits_append,
      List.map_append, sumOf_append, htotal, hdrawn, Nat.add_mul]
    omega
  · intro slot hmem
    rw [TupletRange.scale, List.drop_left' hlength] at hmem
    exact h.after slot (List.drop_subset_drop_left slots (by omega) hmem)

end DurationsLe

/-- Tuplets that come one after the other make a line last no more than the largest ratio says. -/
theorem sumOf_scaleTuplets_le {factor place : Nat} (h : DurationsLe factor place slots)
    (hwithin : ∀ range ∈ tuplets, range.Within slots.length)
    (hplace : ∀ range ∈ tuplets, place ≤ range.start)
    (hordered : tuplets.Pairwise fun first second => first.stop < second.start)
    (hactual : ∀ range ∈ tuplets, 0 < range.actual)
    (hnormal : ∀ range ∈ tuplets, range.normal ≤ factor) :
    sumOf ((scaleTuplets tuplets slots).map Slot.duration) ≤
      TupletRange.drawnUnits slots * factor := by
  induction tuplets generalizing slots place with
  | nil =>
    have hall := h.sumOf_take_le (Nat.le_add_right place slots.length)
    rwa [List.take_of_length_le (Nat.le_add_left ..)] at hall
  | cons range tuplets ih =>
    obtain ⟨hrange, hothers⟩ := List.forall_mem_cons.1 hwithin
    obtain ⟨hfirst, -⟩ := List.forall_mem_cons.1 hplace
    obtain ⟨hafter, hrest⟩ := List.pairwise_cons.1 hordered
    obtain ⟨hone, hones⟩ := List.forall_mem_cons.1 hactual
    obtain ⟨hle, hles⟩ := List.forall_mem_cons.1 hnormal
    have hlength := TupletRange.length_scale hrange.start_le slots
    have hdrawn : TupletRange.drawnUnits (range.scale slots) = TupletRange.drawnUnits slots :=
      congrArg sumOf (TupletRange.map_scale hrange.start_le Slot.displayDuration fun _ _ => rfl)
    rw [scaleTuplets_cons, ← hdrawn]
    exact ih (h.scale hfirst hrange hone hle) (hlength ▸ hothers) hafter hrest hones hles

/-- Times fit if what is drawn does as many times over as the largest ratio says. -/
theorem timesFit_of_small {factor : Nat}
    (hdurations : ∀ slot ∈ slots, slot.duration ≤ slot.displayDuration * factor)
    (hpositive : ∀ range ∈ tuplets, 0 < range.actual ∧ 0 < range.normal)
    (hwithin : ∀ range ∈ tuplets, range.Within slots.length)
    (hordered : tuplets.Pairwise fun first second => first.stop < second.start)
    (hnormal : ∀ range ∈ tuplets, range.normal ≤ factor)
    (hsmall : TupletRange.drawnUnits slots * factor < wordLimit) : TimesFit tuplets slots := by
  have hstart : DurationsLe factor 0 slots := ⟨Nat.zero_le _, hdurations⟩
  rw [timesFit_iff hpositive]
  constructor
  · intro range hmem
    have hdrawn := TupletRange.drawnUnits_slotsIn_le (hwithin range hmem).start_le slots
    exact Nat.lt_of_le_of_lt (Nat.mul_le_mul hdrawn (hnormal range hmem)) hsmall
  · have htotal := sumOf_scaleTuplets_le hstart hwithin (fun _ _ => Nat.zero_le _) hordered
      (fun range hmem => (hpositive range hmem).1) hnormal
    exact Nat.lt_of_le_of_lt htotal hsmall

end Stave
