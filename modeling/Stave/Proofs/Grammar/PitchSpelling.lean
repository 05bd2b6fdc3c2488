import Mathlib.Data.List.GetD
import Stave.Proofs.Grammar.NoteWord

/-!
# The spelling of a pitch is read as the pitch

A pitch is spelled by its letter, whole accidentals and at most one quarter-tone, and its octave
marks. This is one of the ways in which the grammar writes it, the one without short flats, so it
is read back: the accidentals add up to the alteration, and since no octave on the way leaves the
range of a signed byte, the marks count to the octave. What begins a suffix belongs to none of these
parts, so a suffix may follow and is read as if it stood alone.

## Main statements

* `NoteWord.read_spelling_append`: a spelling with a suffix is read as the pitch and the suffix.
-/
namespace Stave.Shorthand

namespace Accidental

/-- The accidentals of a spelling: whole ones first, then a quarter-tone. -/
def spelling (alteration : Int) : List Accidental :=
  List.replicate (alteration.natAbs / 2) (if alteration ≥ 0 then sharp else flat) ++
    if alteration.natAbs % 2 = 1 then [if alteration ≥ 0 then quarterSharp else quarterFlat]
    else []

theorem flatMap_letters_spelling (alteration : Int) :
    (spelling alteration).flatMap letters = Pitch.alterationSpelling alteration := by
  unfold spelling Pitch.alterationSpelling
  rw [List.flatMap_append, List.flatMap_def, List.map_replicate]
  by_cases raised : alteration ≥ 0 <;> by_cases odd : alteration.natAbs % 2 = 1 <;>
    simp [raised, odd, letters]

theorem length_spelling (alteration : Int) :
    (spelling alteration).length = alteration.natAbs / 2 + alteration.natAbs % 2 := by
  unfold spelling
  rw [List.length_append, List.length_replicate]
  split
  case isTrue odd => simp [odd]
  case isFalse even =>
    rw [List.length_nil]
    omega

/-- The accidentals of a spelling add up to the alteration. -/
theorem alterationOf_spelling (alteration : Int) :
    alterationOf (spelling alteration) = alteration := by
  unfold alterationOf spelling
  rw [List.map_append, List.map_replicate, List.sum_append, List.sum_replicate_int]
  by_cases raised : alteration ≥ 0 <;> by_cases odd : alteration.natAbs % 2 = 1 <;>
    simp only [raised, odd, if_true, if_false, Accidental.alteration, List.map_cons, List.map_nil,
      List.sum_cons, List.sum_nil] <;> omega

end Accidental

namespace NoteWord

/-- Marks of one kind count one octave each, as long as the octave stays in its range. -/
theorem foldl_clampOctave_replicate {mark : Char} {count : Nat} {octave : Int} (step : Int)
    (hstep : step = if mark = '\'' then 1 else -1) (hlow : -128 ≤ octave) (hhigh : octave ≤ 127)
    (hlast : -128 ≤ octave + count * step ∧ octave + count * step ≤ 127) :
    (List.replicate count mark).foldl
        (fun octave mark => clampOctave (octave + if mark = '\'' then 1 else -1)) octave =
      octave + count * step := by
  have hunit : step = 1 ∨ step = -1 := by
    rw [hstep]
    split
    · exact .inl rfl
    · exact .inr rfl
  induction count generalizing octave with
  | zero => simp
  | succ count ih =>
    have hnext : clampOctave (octave + if mark = '\'' then 1 else -1) = octave + step := by
      rw [← hstep]
      unfold clampOctave
      rcases hunit with rfl | rfl <;> omega
    rw [List.replicate_succ, List.foldl_cons, hnext]
    -- the next octave lies between this one and the last
    refine (ih ?_ ?_ ?_).trans ?_ <;> rcases hunit with rfl | rfl <;> omega

theorem clampedOctave_octaveSpelling {octave : Int} (hlow : -128 ≤ octave) (hhigh : octave ≤ 127) :
    clampedOctave (Pitch.octaveSpelling octave) = octave := by
  unfold clampedOctave Pitch.octaveSpelling
  by_cases hup : octave ≥ 0
  · rw [if_pos hup, foldl_clampOctave_replicate 1 (by decide) (by decide) (by decide)]
    · omega
    · omega
  · rw [if_neg hup, foldl_clampOctave_replicate (-1) (by decide) (by decide) (by decide)]
    · omega
    · omega

theorem letters_letter {pitch : Pitch} (hstep : 0 ≤ pitch.step ∧ pitch.step ≤ 6) :
    letters[pitch.step.toNat]? = some pitch.letter := by
  have hlt : pitch.step.toNat < 7 := by omega
  have hindex : Pitch.letterIndex pitch.step = pitch.step.toNat := by
    unfold Pitch.letterIndex
    omega
  rw [Pitch.letter, Pitch.letterOf, hindex, List.getElem?_eq_getElem hlt]
  exact congrArg some (List.getD_eq_getElem letters 'c' hlt).symm

/-- **A pitch that is spelled, with a suffix after it, is read back**: its letter, alteration and
octave, an accidental if it has one, and the suffix. -/
theorem read_spelling_append {pitch : Pitch} {text : List Char} {suffix : Suffix}
    (hstep : 0 ≤ pitch.step ∧ pitch.step ≤ 6)
    (halteration : -4 ≤ pitch.alteration ∧ pitch.alteration ≤ 4)
    (hoctave : -128 ≤ pitch.octave ∧ pitch.octave ≤ 127) (hsuffix : Suffix.read text = .ok suffix) :
    NoteWord.read (pitch.spelling ++ text) = .ok
      { step := pitch.step
        alteration := pitch.alteration
        octave := pitch.octave
        mark := if pitch.alteration = 0 then .bare else .explicit
        suffix := suffix } := by
  have few : (Accidental.spelling pitch.alteration).length ≤ 2 := by
    rw [Accidental.length_spelling]
    omega
  have octaves : ∀ mark ∈ Pitch.octaveSpelling pitch.octave, mark = '\'' ∨ mark = ',' := by
    intro mark hmem
    rw [List.eq_of_mem_replicate hmem]
    split
    · exact .inl rfl
    · exact .inr rfl
  have hnone : Accidental.spelling pitch.alteration = [] ↔ pitch.alteration = 0 := by
    rw [← List.length_eq_zero_iff, Accidental.length_spelling]
    omega
  have hwritten := WrittenAs.mk false (letters_letter hstep) few (.full _) octaves
    (Suffix.writtenAs_of_read hsuffix)
  rw [Accidental.alterationOf_spelling, clampedOctave_octaveSpelling hoctave.1 hoctave.2,
    Accidental.flatMap_letters_spelling, Int.toNat_of_nonneg hstep.1] at hwritten
  have hread := hwritten.read_eq
  simp only [hnone, Bool.false_eq_true, if_false, List.nil_append] at hread
  rw [← hread]
  simp [Pitch.spelling]

/-- Three quarter-tones down from e in the lowest octave, with a length and post-events. -/
theorem read_spelling_append_lowest :
    (Pitch.of 2 (-3) (-128) .bare).spelling = ['e', 'e', 's', 'e', 'h'] ++ List.replicate 128 ',' ∧
      Suffix.read "8.~\\f".toList = .ok ⟨some ⟨32, 1⟩, [.tie, .dynamic ⟨"f", 5⟩]⟩ ∧
      NoteWord.read ((Pitch.of 2 (-3) (-128) .bare).spelling ++ "8.~\\f".toList) =
        .ok ⟨2, -3, -128, .explicit, ⟨some ⟨32, 1⟩, [.tie, .dynamic ⟨"f", 5⟩]⟩⟩ := by
  have hsuffix : Suffix.read "8.~\\f".toList =
      .ok ⟨some ⟨32, 1⟩, [.tie, .dynamic ⟨"f", 5⟩]⟩ := by decide +kernel
  exact ⟨rfl, hsuffix,
    read_spelling_append ⟨by decide, by decide⟩ ⟨by decide, by decide⟩ ⟨by decide, by decide⟩
      hsuffix⟩

end NoteWord

end Stave.Shorthand
