import Stave.Engraving.Beam
import Stave.Engraving.Ottava

/-!
# Runs of slots

Beams and octave brackets go over runs of neighbouring slots, found by one walk that carries
the run it is in. A run that is found starts no later than it stops and stops at a slot of the
line, also once the rests are cut off its ends. The runs of one octave shift leave no slot
out: they are the slots cut into pieces, so that a slot is in one of them, which has its level.
-/
namespace Stave.Engraving

/-! ## Beams -/

/-- A run that starts no later than it stops, and stops before an index. -/
def BeatRun.Before (run : BeatRun) (index : Nat) : Prop :=
  run.start ≤ run.stop ∧ run.stop < index

/-- If the run a walk starts in lies before it, the runs it finds stop in what it walks over. -/
theorem before_of_mem_beatRuns {units index : Nat} {current : Option BeatRun}
    {timed : List (Nat × Slot)} {run : BeatRun} (h : run ∈ beatRuns units index current timed)
    (hcurrent : ∀ run ∈ current, run.Before index) : run.Before (index + timed.length) := by
  -- a short slot goes on with the run or starts one at its own index
  have hstarts (index beat : Nat) :
      ∀ run ∈ some (⟨index, index, beat⟩ : BeatRun), run.Before (index + 1) := by
    rintro run ⟨⟩
    exact ⟨Nat.le_refl index, Nat.lt_succ_self index⟩
  have hfinished {index : Nat} (rest : List (Nat × Slot)) (h : run.Before index) :
      run.Before (index + 1 + rest.length) := ⟨h.1, Nat.lt_of_lt_of_le h.2 (by omega)⟩
  have hcons (index : Nat) (pair : Nat × Slot) (rest : List (Nat × Slot)) :
      index + (pair :: rest).length = index + 1 + rest.length := by
    simp only [List.length_cons]
    omega
  fun_induction beatRuns units index current timed with
  | case1 index current => exact hcurrent run (by simpa using h)
  | case2 index onset slot rest beat short opened same ih =>
    rw [hcons]
    refine ih h ?_
    rintro run ⟨⟩
    obtain ⟨hordered, hbefore⟩ := hcurrent opened rfl
    exact ⟨Nat.le_trans hordered (Nat.le_of_lt hbefore), Nat.lt_succ_self index⟩
  | case3 index onset slot rest beat short opened other ih =>
    rw [hcons]
    rcases List.mem_cons.1 h with rfl | h
    · exact hfinished rest (hcurrent run rfl)
    · exact ih h (hstarts index beat)
  | case4 index onset slot rest beat short ih =>
    rw [hcons]
    exact ih h (hstarts index beat)
  | case5 index current onset slot rest long ih =>
    rw [hcons]
    rcases List.mem_append.1 h with h | h
    · exact hfinished rest (hcurrent run (Option.mem_toList.1 h))
    · exact ih h nofun

theorem le_trimRunStart (slots : Array Slot) (start stop : Nat) :
    start ≤ trimRunStart slots start stop := by
  fun_induction trimRunStart slots start stop <;> omega

theorem trimRunStop_le (slots : Array Slot) (start stop : Nat) :
    trimRunStop slots start stop ≤ stop := by
  fun_induction trimRunStop slots start stop <;> omega

/-- A beam goes over two slots at least, all of them in its run. -/
theorem bounds_of_trimRun? {slots : Array Slot} {run : BeatRun} {first last : Nat}
    (h : trimRun? slots run = some (first, last)) :
    run.start ≤ first ∧ first < last ∧ last ≤ run.stop := by
  simp only [trimRun?, Option.ite_none_right_eq_some, Option.some.injEq, Prod.mk.injEq] at h
  obtain ⟨hlt, rfl, rfl⟩ := h
  exact ⟨le_trimRunStart _ _ _, hlt, trimRunStop_le _ _ _⟩

/-- The runs that beams are looked for in are runs of slots of the line. -/
theorem before_of_mem_runs {line : Line} {units : Nat} {run : BeatRun}
    (h : run ∈ beatRuns units 0 none (line.onsets.zip line.slots)) :
    run.Before line.slots.length := by
  have hnone : ∀ run ∈ (none : Option BeatRun), run.Before 0 :=
    fun run hmem => absurd hmem (Option.not_mem_none run)
  simpa [Line.onsets] using before_of_mem_beatRuns h hnone

theorem bounds_of_mem_beamRuns {line : Line} {meter : Meter} {first last : Nat}
    (h : (first, last) ∈ beamRuns line meter) : first < last ∧ last < line.slots.length := by
  obtain ⟨run, hrun, htrim⟩ := List.mem_filterMap.1 h
  obtain ⟨-, hlt, hlast⟩ := bounds_of_trimRun? htrim
  exact ⟨hlt, Nat.lt_of_le_of_lt hlast (before_of_mem_runs hrun).2⟩

/-! ## Octave brackets -/

/-- Whether a slot is in the run. -/
def OttavaRun.contains (run : OttavaRun) (slot : Nat) : Bool :=
  run.start ≤ slot && slot ≤ run.stop

theorem OttavaRun.contains_iff {run : OttavaRun} {slot : Nat} :
    run.contains slot ↔ run.start ≤ slot ∧ slot ≤ run.stop := by
  simp [contains]

/-- Slots cut into runs of one level each, the first of which starts at an index. -/
inductive Tiled : Nat → List Slot → List OttavaRun → Prop
  | nil (start : Nat) : Tiled start [] []
  | cons {run : OttavaRun} {inside rest : List Slot} {runs : List OttavaRun}
      (stop : run.stop + 1 = run.start + inside.length)
      (nonempty : inside ≠ [])
      (level : ∀ slot ∈ inside, slot.ottava = run.level)
      (tiled : Tiled (run.stop + 1) rest runs) :
      Tiled run.start (inside ++ rest) (run :: runs)

variable {start : Nat} {slots : List Slot} {runs : List OttavaRun}

/-- A walk that is in a run cuts the slots of that run and those still to come. -/
theorem tiled_ottavaRuns_some (run : OttavaRun) (inside : List Slot)
    (stop : run.stop + 1 = run.start + inside.length) (nonempty : inside ≠ [])
    (level : ∀ slot ∈ inside, slot.ottava = run.level) :
    Tiled run.start (inside ++ slots) (ottavaRuns (run.stop + 1) (some run) slots) := by
  induction slots generalizing run inside with
  | nil => exact .cons stop nonempty level (.nil _)
  | cons slot rest ih =>
    unfold ottavaRuns
    dsimp only
    split
    case isTrue same =>
      have hlonger := ih { run with stop := run.stop + 1 } (inside ++ [slot])
        (by simp only [List.length_append, List.length_singleton]; omega) (by simp) ?_
      · simpa using hlonger
      · simpa [or_imp, forall_and, same] using level
    case isFalse =>
      refine .cons stop nonempty level ?_
      exact ih ⟨run.stop + 1, run.stop + 1, slot.ottava⟩ [slot] rfl (by simp) (by simp)

theorem tiled_ottavaRuns (slots : List Slot) : Tiled 0 slots (ottavaRuns 0 none slots) := by
  cases slots with
  | nil => exact .nil 0
  | cons slot rest =>
    exact tiled_ottavaRuns_some ⟨0, 0, slot.ottava⟩ [slot] rfl (by simp) (by simp)

theorem Tiled.bounds (h : Tiled start slots runs) : ∀ run ∈ runs,
    start ≤ run.start ∧ run.start ≤ run.stop ∧ run.stop < start + slots.length := by
  induction h with
  | nil => exact nofun
  | @cons run inside rest runs stop nonempty level tiled ih =>
    have hpos := List.length_pos_iff.2 nonempty
    intro other hmem
    rw [List.length_append]
    rcases List.mem_cons.1 hmem with rfl | hmem
    · omega
    · have := ih other hmem
      omega

/-- A slot is in one of the runs, which has its level. -/
theorem Tiled.levels (h : Tiled start slots runs) {index : Nat} {slot : Slot}
    (hslot : slots[index]? = some slot) :
    (runs.filter (·.contains (start + index))).map OttavaRun.level = [slot.ottava] := by
  induction h generalizing index with
  | nil => simp at hslot
  | @cons run inside rest runs stop nonempty level tiled ih =>
    rcases Nat.lt_or_ge index inside.length with hin | hout
    · have hthis : run.contains (run.start + index) := OttavaRun.contains_iff.2 (by omega)
      have hothers : runs.filter (·.contains (run.start + index)) = [] := by
        refine List.filter_eq_nil_iff.2 fun other hmem => ?_
        have := tiled.bounds other hmem
        rw [OttavaRun.contains_iff]
        omega
      rw [List.getElem?_append_left hin] at hslot
      simp [hthis, hothers, level slot (List.mem_of_getElem? hslot)]
    · have hthis : ¬run.contains (run.start + index) := by
        rw [OttavaRun.contains_iff]
        omega
      have hindex : run.start + index = run.stop + 1 + (index - inside.length) := by omega
      rw [List.getElem?_append_right hout] at hslot
      rw [List.filter_cons, if_neg hthis, hindex]
      exact ih hslot

end Stave.Engraving
