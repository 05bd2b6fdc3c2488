import Stave.Proofs.TupletGroup

/-!
# What scaling gives the slots of a tuplet

A range lasts its share of what is drawn, rounded down once. Every slot but the first lasts its own
share rounded down, and the first makes up for what the rounding of the others loses, which is
less than one unit a slot. None of the numbers that are formed for this is above the product of
what is drawn and the ratio, so all fit if it does. Scaling one range leaves every slot outside it
alone, so ranges that lie apart may be scaled one after the other.
-/
namespace Stave

/-! ### Rounding the parts of a sum -/

section Rounding

variable {divisor : Nat} {numbers : List Nat}

theorem sumOf_map_mul (numbers : List Nat) (factor : Nat) :
    sumOf (numbers.map (· * factor)) = sumOf numbers * factor := by
  induction numbers with
  | nil => simp
  | cons n rest ih => simp [ih, Nat.add_mul]

theorem le_sumOf_of_mem {n : Nat} (h : n ∈ numbers) : n ≤ sumOf numbers := by
  induction numbers with
  | nil => exact absurd h List.not_mem_nil
  | cons m rest ih =>
    rw [sumOf_cons]
    rcases List.mem_cons.1 h with rfl | h
    · omega
    · have := ih h
      omega

/-- Quotients and remainders of the parts make up the whole. -/
theorem mul_sumOf_div_add_mod (divisor : Nat) (numbers : List Nat) :
    divisor * sumOf (numbers.map (· / divisor)) + sumOf (numbers.map (· % divisor)) =
      sumOf numbers := by
  induction numbers with
  | nil => simp
  | cons n rest ih =>
    have hone := Nat.div_add_mod n divisor
    simp only [List.map_cons, sumOf_cons, Nat.mul_add]
    omega

/-- A remainder is less than the divisor, so the remainders of all parts leave one unit each. -/
theorem sumOf_mod_add_length_le (hpos : 0 < divisor) (numbers : List Nat) :
    sumOf (numbers.map (· % divisor)) + numbers.length ≤ divisor * numbers.length := by
  induction numbers with
  | nil => simp
  | cons n rest ih =>
    have hone := Nat.mod_lt n hpos
    simp only [List.map_cons, sumOf_cons, List.length_cons, Nat.mul_add]
    omega

/-- Rounding every part on its own does not give more than rounding the whole. -/
theorem sumOf_div_le (hpos : 0 < divisor) (numbers : List Nat) :
    sumOf (numbers.map (· / divisor)) ≤ sumOf numbers / divisor := by
  have hwhole := mul_sumOf_div_add_mod divisor numbers
  rw [Nat.le_div_iff_mul_le hpos, Nat.mul_comm]
  omega

/-- What it gives less is less than one for each part. -/
theorem div_sumOf_lt (hpos : 0 < divisor) (hne : numbers ≠ []) :
    sumOf numbers / divisor < sumOf (numbers.map (· / divisor)) + numbers.length := by
  have hwhole := mul_sumOf_div_add_mod divisor numbers
  have hmod := sumOf_mod_add_length_le hpos numbers
  have hlength := List.length_pos_iff.2 hne
  rw [Nat.div_lt_iff_lt_mul hpos, Nat.mul_comm, Nat.mul_add]
  omega

end Rounding

/-! ### One range -/

/-- The units a slot lasts and those it is drawn with. -/
def Slot.times (slot : Slot) : Nat × Nat := (slot.duration, slot.displayDuration)

namespace TupletRange

/-- The units slots are drawn with together. -/
def drawnUnits (slots : List Slot) : Nat := sumOf (slots.map Slot.displayDuration)

/-- What the slots of a range last once they are scaled. -/
structure Scaled (range : TupletRange) (slots : List Slot) : Prop where
  total : sumOf (slots.map Slot.duration) = range.scaledUnits (drawnUnits slots)
  rounded_le : sumOf (slots.map fun slot => range.scaledUnits slot.displayDuration) ≤
    range.scaledUnits (drawnUnits slots)
  later : ∀ slot ∈ slots.tail, slot.duration = range.scaledUnits slot.displayDuration
  first_ge : ∀ slot ∈ slots.head?, range.scaledUnits slot.displayDuration ≤ slot.duration
  first_lt : ∀ slot ∈ slots.head?,
    slot.duration < range.scaledUnits slot.displayDuration + slots.length

variable {range other : TupletRange} {slots : List Slot} {drawn : List Nat}

theorem scaledUnits_le (range : TupletRange) (units : Nat) :
    range.scaledUnits units ≤ units * range.normal :=
  Nat.div_le_self ..

@[simp] theorem roundedUnits_cons (range : TupletRange) (units : Nat) (rest : List Nat) :
    range.roundedUnits (units :: rest) = range.scaledUnits units + range.roundedUnits rest := rfl

theorem roundedUnits_eq (range : TupletRange) (drawn : List Nat) :
    range.roundedUnits drawn = sumOf ((drawn.map (· * range.normal)).map (· / range.actual)) := by
  rw [List.map_map]
  rfl

theorem roundedUnits_map (range : TupletRange) (slots : List Slot) :
    range.roundedUnits (slots.map Slot.displayDuration) =
      sumOf (slots.map fun slot => range.scaledUnits slot.displayDuration) := by
  rw [roundedUnits, List.map_map]
  rfl

/-- Slots that are rounded one by one come to no more than all of them rounded once. -/
theorem roundedUnits_le (hactual : 0 < range.actual) (drawn : List Nat) :
    range.roundedUnits drawn ≤ range.scaledUnits (sumOf drawn) := by
  rw [roundedUnits_eq, scaledUnits, ← sumOf_map_mul]
  exact sumOf_div_le hactual _

/-- They come to less than one unit a slot below it. -/
theorem scaledUnits_lt (hactual : 0 < range.actual) (hne : drawn ≠ []) :
    range.scaledUnits (sumOf drawn) < range.roundedUnits drawn + drawn.length := by
  have hmap : drawn.map (· * range.normal) ≠ [] := by simpa using hne
  have hlt := div_sumOf_lt hactual hmap
  rw [List.length_map] at hlt
  rwa [roundedUnits_eq, scaledUnits, ← sumOf_map_mul]

theorem map_displayDuration_scaleSlots (range : TupletRange) (slots : List Slot) :
    (range.scaleSlots slots).map Slot.displayDuration = slots.map Slot.displayDuration :=
  range.map_scaleSlots Slot.displayDuration (fun _ _ => rfl) slots

theorem drawnUnits_scaleSlots (range : TupletRange) (slots : List Slot) :
    drawnUnits (range.scaleSlots slots) = drawnUnits slots :=
  congrArg sumOf (range.map_displayDuration_scaleSlots slots)

/-- **The slots of a range last what the tuplet says.** -/
theorem scaled_scaleSlots (hactual : 0 < range.actual) (slots : List Slot) :
    range.Scaled (range.scaleSlots slots) := by
  cases slots with
  | nil => constructor <;> simp [scaleSlots, drawnUnits, scaledUnits]
  | cons first rest =>
    have hle := roundedUnits_le hactual ((first :: rest).map Slot.displayDuration)
    have hlt := scaledUnits_lt hactual
      (List.cons_ne_nil first.displayDuration (rest.map Slot.displayDuration))
    rw [List.length_cons, List.length_map, ← List.map_cons] at hlt
    rw [List.map_cons, roundedUnits_cons, ← List.map_cons] at hle hlt
    have hlost : range.lostUnits ((first :: rest).map Slot.displayDuration) =
        range.scaledUnits (sumOf ((first :: rest).map Slot.displayDuration)) -
          (range.scaledUnits first.displayDuration +
            range.roundedUnits (rest.map Slot.displayDuration)) := rfl
    constructor
    · rw [drawnUnits_scaleSlots, drawnUnits, scaleSlots, List.map_cons, List.map_cons, sumOf_cons,
        List.map_map]
      change range.scaledUnits first.displayDuration + _ +
        sumOf (rest.map fun slot => range.scaledUnits slot.displayDuration) = _
      rw [← roundedUnits_map]
      omega
    · rw [← roundedUnits_map, drawnUnits, map_displayDuration_scaleSlots]
      exact roundedUnits_le hactual _
    · intro slot hmem
      obtain ⟨drawn, -, rfl⟩ := List.mem_map.1 hmem
      rfl
    · rintro slot ⟨⟩
      exact Nat.le_add_right ..
    · rintro slot ⟨⟩
      rw [length_scaleSlots, List.length_cons]
      change range.scaledUnits first.displayDuration + _ <
        range.scaledUnits first.displayDuration + _
      omega

/-- All numbers formed for a range fit if the product of what it is drawn with and its ratio
does. -/
theorem fits_iff (hactual : 0 < range.actual) (hnormal : 0 < range.normal) :
    range.Fits drawn ↔ sumOf drawn * range.normal < wordLimit := by
  refine ⟨Fits.product, fun hproduct => ?_⟩
  have hscaled : range.scaledUnits (sumOf drawn) < wordLimit :=
    Nat.lt_of_le_of_lt (range.scaledUnits_le _) hproduct
  have hrounded := roundedUnits_le hactual drawn
  refine ⟨Nat.ne_of_gt hactual, ?_, hproduct, fun units hmem => ?_,
    Nat.lt_of_le_of_lt hrounded hscaled, hrounded, fun units hmem => ?_⟩
  · exact Nat.lt_of_le_of_lt (Nat.le_mul_of_pos_right _ hnormal) hproduct
  · have hle := le_sumOf_of_mem hmem
    exact Nat.lt_of_le_of_lt (Nat.mul_le_mul_right _ hle) hproduct
  · have hfirst : range.scaledUnits units ≤ range.roundedUnits drawn :=
      le_sumOf_of_mem (List.mem_map_of_mem (List.mem_of_head? hmem))
    rw [lostUnits]
    omega

theorem drawnUnits_append (first second : List Slot) :
    drawnUnits (first ++ second) = drawnUnits first + drawnUnits second := by
  simp only [drawnUnits, List.map_append, sumOf_append]

/-- A range is drawn with no more than the whole line. -/
theorem drawnUnits_slotsIn_le (h : range.start ≤ range.stop) (slots : List Slot) :
    drawnUnits (range.slotsIn slots) ≤ drawnUnits slots := by
  have hsum := congrArg drawnUnits (take_slotsIn_drop h slots)
  rw [drawnUnits_append, drawnUnits_append] at hsum
  omega

theorem drawnUnits_congr {slots' : List Slot}
    (htimes : slots'.map Slot.times = slots.map Slot.times) :
    drawnUnits slots' = drawnUnits slots := by
  have hdrawn := congrArg (List.map Prod.snd) htimes
  rw [List.map_map, List.map_map] at hdrawn
  exact congrArg sumOf hdrawn

/-- Nothing but times is looked at. -/
theorem Scaled.congr {slots' : List Slot} (h : range.Scaled slots)
    (htimes : slots'.map Slot.times = slots.map Slot.times) : range.Scaled slots' := by
  have hduration := congrArg (List.map Prod.fst) htimes
  have hlength := congrArg List.length htimes
  have htail := congrArg List.tail htimes
  have hhead := congrArg List.head? htimes
  rw [List.map_map, List.map_map] at hduration
  rw [List.length_map, List.length_map] at hlength
  rw [← List.map_tail, ← List.map_tail] at htail
  rw [List.head?_map, List.head?_map] at hhead
  refine ⟨?_, ?_, fun slot hmem => ?_, fun slot hmem => ?_, fun slot hmem => ?_⟩
  · rw [drawnUnits_congr htimes, ← h.total]
    exact congrArg sumOf hduration
  · have hrounded := congrArg (List.map fun times => range.scaledUnits times.2) htimes
    rw [List.map_map, List.map_map] at hrounded
    rw [drawnUnits_congr htimes]
    exact Nat.le_trans (Nat.le_of_eq (congrArg sumOf hrounded)) h.rounded_le
  · obtain ⟨same, hsame, heq⟩ := List.mem_map.1 (htail ▸ List.mem_map_of_mem hmem)
    obtain ⟨hfirst, hsecond⟩ := Prod.mk.inj heq
    rw [← hfirst, ← hsecond]
    exact h.later same hsame
  all_goals
    rw [hmem, Option.map_some] at hhead
    obtain ⟨same, hsame, heq⟩ := Option.map_eq_some_iff.1 hhead.symm
    obtain ⟨hfirst, hsecond⟩ := Prod.mk.inj heq
    rw [← hfirst, ← hsecond]
  · exact h.first_ge same hsame
  · rw [hlength]
    exact h.first_lt same hsame

/-! ### Ranges that lie apart -/

theorem getElem?_slotsIn (range : TupletRange) (slots : List Slot) (index : Nat) :
    (range.slotsIn slots)[index]? =
      if index < range.stop + 1 - range.start then slots[range.start + index]? else none := by
  rw [slotsIn, List.getElem?_take, List.getElem?_drop]

theorem map_slotsIn {α : Type} (range : TupletRange) (part : Slot → α) (slots : List Slot) :
    (range.slotsIn slots).map part =
      ((slots.map part).drop range.start).take (range.stop + 1 - range.start) := by
  rw [slotsIn, List.map_take, List.map_drop]

theorem length_scale (h : range.start ≤ range.stop) (slots : List Slot) :
    (range.scale slots).length = slots.length := by
  have hmap : (range.scale slots).map Slot.offset = slots.map Slot.offset :=
    map_scale h Slot.offset fun _ _ => rfl
  simpa using congrArg List.length hmap

/-- Scaling a range leaves every slot outside it alone. -/
theorem getElem?_scale_of_not_contains (hwithin : range.Within slots.length) {index : Nat}
    (h : ¬range.contains index = true) : (range.scale slots)[index]? = slots[index]? := by
  have hstart := hwithin.start_le
  have hstop := hwithin.stop_lt
  have hinside : (range.scaleSlots (range.slotsIn slots)).length =
      range.stop + 1 - range.start := by
    rw [length_scaleSlots, slotsIn, List.length_take, List.length_drop]
    omega
  have hbefore : (slots.take range.start).length = range.start := by
    rw [List.length_take]
    omega
  simp only [contains, Bool.and_eq_true, decide_eq_true_eq, not_and, Nat.not_le] at h
  unfold scale
  by_cases hlow : index < range.start
  · rw [List.append_assoc, List.getElem?_append_left (by omega), List.getElem?_take, if_pos hlow]
  · rw [List.getElem?_append_right (by rw [List.length_append]; omega), List.length_append,
      List.getElem?_drop]
    congr 1
    omega

/-- The slots of the range itself are scaled together. -/
theorem slotsIn_scale (hwithin : range.Within slots.length) :
    range.slotsIn (range.scale slots) = range.scaleSlots (range.slotsIn slots) := by
  have hstart := hwithin.start_le
  have hstop := hwithin.stop_lt
  have hinside : (range.scaleSlots (range.slotsIn slots)).length =
      range.stop + 1 - range.start := by
    rw [length_scaleSlots, slotsIn, List.length_take, List.length_drop]
    omega
  have hbefore : (slots.take range.start).length = range.start := by
    rw [List.length_take]
    omega
  change ((range.scale slots).drop range.start).take (range.stop + 1 - range.start) = _
  rw [scale, List.append_assoc, List.drop_left' hbefore, List.take_left' hinside]

/-- Two ranges of which one stops before the other starts. -/
def Apart (first second : TupletRange) : Prop :=
  first.stop < second.start ∨ second.stop < first.start

theorem slotsIn_scale_of_apart (hwithin : range.Within slots.length)
    (h : range.Apart other) : other.slotsIn (range.scale slots) = other.slotsIn slots := by
  apply List.ext_getElem?
  intro index
  rw [getElem?_slotsIn, getElem?_slotsIn]
  split
  case isTrue hindex =>
    refine getElem?_scale_of_not_contains hwithin ?_
    simp only [contains, Bool.and_eq_true, decide_eq_true_eq]
    unfold Apart at h
    omega
  case isFalse => rfl

end TupletRange

section Tuplets

variable {tuplets : List TupletRange} {range : TupletRange} {slots : List Slot}

theorem scaleTuplets_cons (range : TupletRange) (tuplets : List TupletRange)
    (slots : List Slot) :
    scaleTuplets (range :: tuplets) slots = scaleTuplets tuplets (range.scale slots) := rfl

theorem slotsIn_scaleTuplets_of_apart (hwithin : ∀ other ∈ tuplets, other.Within slots.length)
    (h : ∀ other ∈ tuplets, other.Apart range) :
    range.slotsIn (scaleTuplets tuplets slots) = range.slotsIn slots := by
  induction tuplets generalizing slots with
  | nil => rfl
  | cons other tuplets ih =>
    obtain ⟨hother, hrest⟩ := List.forall_mem_cons.1 hwithin
    obtain ⟨hfirst, hothers⟩ := List.forall_mem_cons.1 h
    have hlength := TupletRange.length_scale hother.start_le slots
    rw [scaleTuplets_cons, ih (hlength ▸ hrest) hothers,
      TupletRange.slotsIn_scale_of_apart hother hfirst]

/-- In a line whose tuplets lie apart each of them is scaled as if it were alone. -/
theorem slotsIn_scaleTuplets (hwithin : ∀ other ∈ tuplets, other.Within slots.length)
    (happart : tuplets.Pairwise TupletRange.Apart) (hmem : range ∈ tuplets) :
    range.slotsIn (scaleTuplets tuplets slots) = range.scaleSlots (range.slotsIn slots) := by
  induction tuplets generalizing slots with
  | nil => exact absurd hmem List.not_mem_nil
  | cons first tuplets ih =>
    obtain ⟨hfirst, hrest⟩ := List.forall_mem_cons.1 hwithin
    obtain ⟨hafter, hothers⟩ := List.pairwise_cons.1 happart
    have hlength := TupletRange.length_scale hfirst.start_le slots
    rw [scaleTuplets_cons]
    rcases List.mem_cons.1 hmem with rfl | hmem
    · rw [slotsIn_scaleTuplets_of_apart (hlength ▸ hrest) fun other h => (hafter other h).symm,
        TupletRange.slotsIn_scale hfirst]
    · rw [ih (hlength ▸ hrest) hothers hmem,
        TupletRange.slotsIn_scale_of_apart hfirst (hafter range hmem)]

/-- A slot outside all tuplets is left alone. -/
theorem getElem?_scaleTuplets_of_not_contains
    (hwithin : ∀ other ∈ tuplets, other.Within slots.length) {index : Nat}
    (h : ∀ other ∈ tuplets, ¬other.contains index = true) :
    (scaleTuplets tuplets slots)[index]? = slots[index]? := by
  induction tuplets generalizing slots with
  | nil => rfl
  | cons first tuplets ih =>
    obtain ⟨hfirst, hrest⟩ := List.forall_mem_cons.1 hwithin
    obtain ⟨hnot, hothers⟩ := List.forall_mem_cons.1 h
    have hlength := TupletRange.length_scale hfirst.start_le slots
    rw [scaleTuplets_cons, ih (hlength ▸ hrest) hothers,
      TupletRange.getElem?_scale_of_not_contains hfirst hnot]

end Tuplets

end Stave
