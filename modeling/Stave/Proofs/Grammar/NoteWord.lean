import Mathlib.Algebra.Ring.Int.Defs
import Stave.Proofs.Grammar.PostEvent
import Stave.Shorthand.NoteWord

/-!
# The grammar of note words

How a note word is written, as a relation of its own: the letter, at most two accidentals, octave
marks, perhaps an exclamation mark, and a suffix, with what they mean together. The short flat of
a and e is a second way to write a flat, and only where no letter follows that does not begin
another one. Since the parts begin with different characters, the reader finds where each of them
ends, and the words it accepts are exactly those that are written so.

## Main statements

* `NoteWord.read_iff_writtenAs`: a word is read as a note if and only if it is written as that note.
-/
namespace Stave.Shorthand

variable {letter : Char} {cs text after : List Char}

/-! ### Accidentals -/

/-- An accidental of a note. -/
inductive Accidental where
  | sharp
  | flat
  | quarterSharp
  | quarterFlat
deriving DecidableEq

namespace Accidental

/-- The two letters it is written with. -/
def letters : Accidental → List Char
  | sharp => ['i', 's']
  | flat => ['e', 's']
  | quarterSharp => ['i', 'h']
  | quarterFlat => ['e', 'h']

/-- Its quarter-tones. -/
def alteration : Accidental → Int
  | sharp => 2
  | flat => -2
  | quarterSharp => 1
  | quarterFlat => -1

/-- The quarter-tones of a list of accidentals together. -/
def alterationOf (signs : List Accidental) : Int := (signs.map alteration).sum

/-- How accidentals are written after the letter of a note. After a short flat comes another
flat, or no letter: whatever comes after the accidentals begins with none. -/
inductive WrittenAfter (letter : Char) : List Accidental → List Char → Prop where
  | full (signs : List Accidental) : WrittenAfter letter signs (signs.flatMap letters)
  | short {others : List Accidental} (vowel : letter = 'a' ∨ letter = 'e')
      (followed : ∀ next ∈ others.head?, next = .flat) :
      WrittenAfter letter (.flat :: others) ('s' :: others.flatMap letters)

end Accidental

namespace NoteWord

/-! ### The grammar -/

/-- The letters of the notes, from step 0. -/
def letters : List Char := ['c', 'd', 'e', 'f', 'g', 'a', 'b']

/-- The nearest octave that fits a signed byte. -/
def clampOctave (octave : Int) : Int := max (-128) (min octave 127)

/-- The octave of a run of marks, each of which counts one octave up or down. -/
def clampedOctave (marks : List Char) : Int :=
  marks.foldl (fun octave mark => clampOctave (octave + if mark = '\'' then 1 else -1)) 0

/-- How a note word is written. -/
inductive WrittenAs : NoteWord → List Char → Prop where
  | mk {letter : Char} {step : Nat} {signs : List Accidental} {accidentals marks ending : List Char}
      {suffix : Suffix} (forced : Bool) (lettered : letters[step]? = some letter)
      (few : signs.length ≤ 2) (signed : Accidental.WrittenAfter letter signs accidentals)
      (octaves : ∀ mark ∈ marks, mark = '\'' ∨ mark = ',') (ended : suffix.WrittenAs ending) :
      WrittenAs
        { step := step
          alteration := Accidental.alterationOf signs
          octave := clampedOctave marks
          mark := if forced then .forced else if signs = [] then .bare else .explicit
          suffix := suffix }
        (letter :: (accidentals ++ (marks ++ ((if forced then ['!'] else []) ++ ending))))

/-! ### Letters and octave marks -/

theorem stepOf?_eq_some_iff {step : Int} :
    stepOf? letter = some step ↔ ∃ place : Nat, letters[place]? = some letter ∧ step = place := by
  constructor
  · intro h
    unfold stepOf? at h
    split at h
    all_goals cases h
    · exact ⟨0, rfl, rfl⟩
    · exact ⟨1, rfl, rfl⟩
    · exact ⟨2, rfl, rfl⟩
    · exact ⟨3, rfl, rfl⟩
    · exact ⟨4, rfl, rfl⟩
    · exact ⟨5, rfl, rfl⟩
    · exact ⟨6, rfl, rfl⟩
  · rintro ⟨place, hplace, rfl⟩
    have hlt : place < 7 := (List.getElem?_eq_some_iff.1 hplace).1
    have hcases : place = 0 ∨ place = 1 ∨ place = 2 ∨ place = 3 ∨ place = 4 ∨ place = 5 ∨
        place = 6 := by omega
    rcases hcases with rfl | rfl | rfl | rfl | rfl | rfl | rfl
    all_goals
      cases hplace
      rfl

/-- Stopping at the ends of the range is staying within it. -/
theorem octaveOf_eq_clampedOctave (marks : List Char) :
    octaveOf marks = clampedOctave marks := by
  have hfold (octave : Int) (hlow : -128 ≤ octave) (hhigh : octave ≤ 127) :
      marks.foldl moveOctave octave =
        marks.foldl (fun octave mark => clampOctave (octave + if mark = '\'' then 1 else -1))
          octave := by
    induction marks generalizing octave with
    | nil => rfl
    | cons mark marks ih =>
      have hstep : moveOctave octave mark =
          clampOctave (octave + if mark = '\'' then 1 else -1) := by
        unfold moveOctave clampOctave
        split <;> omega
      rw [List.foldl_cons, List.foldl_cons, hstep]
      refine ih _ ?_ ?_
      · unfold clampOctave
        omega
      · unfold clampOctave
        omega
  exact hfold 0 (by decide) (by decide)

theorem isOctaveMark_iff {mark : Char} : isOctaveMark mark = true ↔ mark = '\'' ∨ mark = ',' := by
  simp [isOctaveMark]

/-! ### Accidentals are read as they are written -/

theorem accidental?_letters (sign : Accidental) (after : List Char) :
    accidental? (sign.letters ++ after) = some (sign.alteration, after) := by
  cases sign <;> rfl

theorem exists_of_accidental? {alteration : Int} (h : accidental? cs = some (alteration, after)) :
    ∃ sign : Accidental, alteration = sign.alteration ∧ cs = sign.letters ++ after := by
  unfold accidental? at h
  split at h
  all_goals cases h
  · exact ⟨.sharp, rfl, rfl⟩
  · exact ⟨.flat, rfl, rfl⟩
  · exact ⟨.quarterSharp, rfl, rfl⟩
  · exact ⟨.quarterFlat, rfl, rfl⟩

/-- An accidental begins with a letter. -/
theorem accidental?_eq_none (h : ∀ c ∈ cs.head?, c.isAlpha = false) : accidental? cs = none := by
  refine Option.eq_none_iff_forall_not_mem.2 fun ⟨alteration, after⟩ hsome => ?_
  obtain ⟨sign, -, rfl⟩ := exists_of_accidental? hsome
  cases sign <;> exact absurd (h _ rfl) (by decide)

theorem readAccidentals_letters {signs : List Accidental} {allowed : Nat}
    (few : signs.length ≤ allowed) (hafter : ∀ c ∈ after.head?, c.isAlpha = false) :
    readAccidentals allowed (signs.flatMap Accidental.letters ++ after) =
      .ok (Accidental.alterationOf signs, signs.length, after) := by
  induction signs generalizing allowed with
  | nil =>
    unfold readAccidentals
    rw [List.flatMap_nil, List.nil_append, accidental?_eq_none hafter]
    rfl
  | cons sign signs ih =>
    cases allowed with
    | zero => exact absurd few (by simp)
    | succ allowed =>
      unfold readAccidentals
      rw [List.flatMap_cons, List.append_assoc, accidental?_letters]
      dsimp only
      rw [ih (Nat.le_of_succ_le_succ few)]
      rfl

theorem exists_of_readAccidentals {allowed count : Nat} {sum : Int}
    (h : readAccidentals allowed cs = .ok (sum, count, after)) :
    ∃ signs : List Accidental, cs = signs.flatMap Accidental.letters ++ after ∧
      signs.length ≤ allowed ∧ count = signs.length ∧ sum = Accidental.alterationOf signs := by
  fun_induction readAccidentals allowed cs generalizing sum count with
  | case1 =>
    cases h
    exact ⟨[], rfl, Nat.zero_le _, rfl, rfl⟩
  | case2 => cases h
  | case3 cs alteration rest allowed hsign ih =>
    obtain ⟨⟨_, _, _⟩, hrest, h⟩ := bind_ok_iff.1 h
    cases h
    obtain ⟨sign, rfl, rfl⟩ := exists_of_accidental? hsign
    obtain ⟨signs, rfl, few, rfl, rfl⟩ := ih hrest
    exact ⟨sign :: signs, (List.append_assoc ..).symm, Nat.succ_le_succ few, rfl, rfl⟩

/-- A short flat begins with its letter. -/
theorem shortFlat?_eq_none (h : ∀ c ∈ cs.head?, c ≠ 's') : shortFlat? letter cs = none := by
  unfold shortFlat?
  split
  case h_1 => exact absurd rfl (h 's' rfl)
  case h_2 => rfl

theorem shortFlat?_cons (vowel : letter = 'a' ∨ letter = 'e')
    (h : (∃ rest, cs = 'e' :: 's' :: rest) ∨ ∀ c ∈ cs.head?, c.isAlpha = false) :
    shortFlat? letter ('s' :: cs) = some cs := by
  have hvowel : (letter = 'a' || letter = 'e') = true := by simpa using vowel
  unfold shortFlat?
  rw [hvowel]
  rcases h with ⟨rest, rfl⟩ | h
  · rfl
  · split
    case h_1 rest _ heq =>
      cases heq
      split
      case h_1 => rfl
      case h_2 c tail _ => rw [h c rfl, if_neg Bool.false_ne_true]
      case h_3 => rfl
    case h_2 hnot => exact absurd rfl (hnot cs rfl)

theorem exists_of_shortFlat? (h : shortFlat? letter cs = some after) :
    (letter = 'a' ∨ letter = 'e') ∧ cs = 's' :: after ∧
      ((∃ rest, after = 'e' :: 's' :: rest) ∨ ∀ c ∈ after.head?, c.isAlpha = false) := by
  unfold shortFlat? at h
  split at h
  case h_1 rest hvowel =>
    refine ⟨by simpa using hvowel, ?_⟩
    split at h
    case h_1 others =>
      cases h
      exact ⟨rfl, .inl ⟨others, rfl⟩⟩
    case h_2 c others hnot =>
      by_cases hletter : c.isAlpha = true
      · rw [if_pos hletter] at h
        cases h
      · rw [if_neg hletter] at h
        cases h
        refine ⟨rfl, .inr ?_⟩
        rintro _ ⟨⟩
        simpa using hletter
    case h_3 =>
      cases h
      exact ⟨rfl, .inr nofun⟩
  case h_2 => cases h

theorem readAlteration_eq {signs : List Accidental} (few : signs.length ≤ 2)
    (signed : Accidental.WrittenAfter letter signs text)
    (hafter : ∀ c ∈ after.head?, c.isAlpha = false) :
    readAlteration letter (text ++ after) =
      .ok (Accidental.alterationOf signs, signs.length, after) := by
  cases signed with
  | full signs =>
    have hhead : ∀ c ∈ (signs.flatMap Accidental.letters ++ after).head?, c ≠ 's' := by
      cases signs with
      | nil =>
        rintro c hc rfl
        exact absurd (hafter 's' hc) (by decide)
      | cons sign signs => cases sign <;> rintro _ ⟨⟩ <;> decide
    rw [readAlteration, shortFlat?_eq_none hhead]
    exact readAccidentals_letters few hafter
  | @short others vowel followed =>
    have hnext : (∃ rest, others.flatMap Accidental.letters ++ after = 'e' :: 's' :: rest) ∨
        ∀ c ∈ (others.flatMap Accidental.letters ++ after).head?, c.isAlpha = false := by
      cases others with
      | nil => exact .inr hafter
      | cons next others =>
        rw [followed next rfl]
        exact .inl ⟨_, rfl⟩
    rw [readAlteration, List.cons_append, shortFlat?_cons vowel hnext]
    dsimp only
    rw [readAccidentals_letters (Nat.le_of_succ_le_succ few) hafter]
    rfl

theorem exists_of_readAlteration {count : Nat} {sum : Int}
    (h : readAlteration letter cs = .ok (sum, count, after)) :
    ∃ signs text, cs = text ++ after ∧ Accidental.WrittenAfter letter signs text ∧
      signs.length ≤ 2 ∧ count = signs.length ∧ sum = Accidental.alterationOf signs := by
  unfold readAlteration at h
  split at h
  · obtain ⟨signs, rfl, few, rfl, rfl⟩ := exists_of_readAccidentals h
    exact ⟨signs, _, rfl, .full signs, few, rfl, rfl⟩
  case h_2 rest hflat =>
    obtain ⟨⟨_, _, _⟩, hrest, h⟩ := bind_ok_iff.1 h
    cases h
    obtain ⟨vowel, rfl, hnext⟩ := exists_of_shortFlat? hflat
    obtain ⟨others, rfl, few, rfl, rfl⟩ := exists_of_readAccidentals hrest
    refine ⟨.flat :: others, _, (List.cons_append ..).symm, .short vowel ?_,
      Nat.succ_le_succ few, rfl, rfl⟩
    -- the next accidental begins as the look-ahead found it to
    rintro next hmem
    obtain ⟨more, rfl⟩ := List.head?_eq_some_iff.1 hmem
    rcases hnext with ⟨tail, heq⟩ | hnone
    · cases next <;> simp_all [Accidental.letters]
    · cases next <;> exact absurd (hnone _ rfl) (by decide)

/-! ### Note words -/

variable {word : NoteWord}

/-- No letter and no octave mark begins what comes after the octave marks, and an exclamation
mark only if it is written there. -/
theorem not_class_of_mem_suffixHeads {c : Char} (h : c ∈ suffixHeads) :
    c.isAlpha = false ∧ isOctaveMark c = false ∧ c ≠ '!' := by
  have hall : ∀ d ∈ suffixHeads, d.isAlpha = false ∧ isOctaveMark d = false ∧ d ≠ '!' := by
    simp [suffixHeads, postEventHeads, isOctaveMark]
  exact hall c h

/-! An exclamation mark is there if it is the first character, and then it is cut off. -/

theorem head?_bang {forced : Bool} {ending : List Char} (h : ∀ c ∈ ending.head?, c ≠ '!') :
    (((if forced then ['!'] else []) ++ ending).head? == some '!') = forced := by
  cases forced with
  | true => rfl
  | false =>
    rw [if_neg Bool.false_ne_true, List.nil_append, beq_eq_false_iff_ne]
    exact fun hbang => h '!' hbang rfl

theorem drop_bang (forced : Bool) (ending : List Char) :
    (if forced then ((if forced then ['!'] else []) ++ ending).drop 1
      else (if forced then ['!'] else []) ++ ending) = ending := by
  cases forced <;> rfl

theorem bang_append_drop (cs : List Char) :
    (if cs.head? == some '!' then ['!'] else []) ++
      (if cs.head? == some '!' then cs.drop 1 else cs) = cs := by
  by_cases hbang : cs.head? = some '!'
  · obtain ⟨rest, rfl⟩ := List.head?_eq_some_iff.1 hbang
    rfl
  · rw [if_neg (by simpa using hbang), if_neg (by simpa using hbang), List.nil_append]

theorem markOf_eq (forced : Bool) (signs : List Accidental) :
    (if forced then AccidentalMark.forced
      else if signs.length > 0 then .explicit else .bare) =
      if forced then .forced else if signs = [] then .bare else .explicit := by
  cases signs <;> rfl

theorem WrittenAs.read_eq (h : word.WrittenAs cs) : NoteWord.read cs = .ok word := by
  obtain @⟨letter, step, signs, accidentals, marks, ending, suffix, forced, lettered, few, signed,
    octaves, ended⟩ := h
  have hmarks : ∀ mark ∈ marks, isOctaveMark mark = true :=
    fun mark hmem => isOctaveMark_iff.2 (octaves mark hmem)
  have hending : ∀ c ∈ ending.head?, c.isAlpha = false ∧ isOctaveMark c = false ∧ c ≠ '!' :=
    fun c hc => not_class_of_mem_suffixHeads (ended.head_mem c hc)
  have hbang : ∀ c ∈ ((if forced then ['!'] else []) ++ ending).head?,
      c.isAlpha = false ∧ isOctaveMark c = false := by
    cases forced with
    | true =>
      rintro _ ⟨⟩
      decide
    | false => exact fun c hc => ⟨(hending c hc).1, (hending c hc).2.1⟩
  have hletters : ∀ c ∈ (marks ++ ((if forced then ['!'] else []) ++ ending)).head?,
      c.isAlpha = false := by
    cases marks with
    | nil => exact fun c hc => (hbang c hc).1
    | cons mark marks =>
      rintro _ ⟨⟩
      rcases octaves mark List.mem_cons_self with rfl | rfl <;> decide
  have htake := takeWhile_append_of_class hmarks fun c hc => (hbang c hc).2
  have hdrop := dropWhile_append_of_class hmarks fun c hc => (hbang c hc).2
  simp only [NoteWord.read, stepOf?_eq_some_iff.2 ⟨step, lettered, rfl⟩]
  refine bind_ok_iff.2 ⟨_, readAlteration_eq few signed hletters, ?_⟩
  dsimp only
  rw [htake, hdrop, head?_bang fun c hc => (hending c hc).2.2, drop_bang]
  have hnone : ending.head?.filter Char.isAlpha = none := by
    refine Option.filter_eq_none_iff.2 fun c hc => ?_
    simp [(hending c hc).1]
  rw [hnone, octaveOf_eq_clampedOctave, markOf_eq]
  exact bind_ok_iff.2 ⟨suffix, ended.read_eq, rfl⟩

theorem writtenAs_of_read (h : NoteWord.read cs = .ok word) : word.WrittenAs cs := by
  cases cs with
  | nil => cases h
  | cons letter cs =>
    simp only [NoteWord.read] at h
    split at h
    · cases h
    case h_2 step hstep =>
      obtain ⟨⟨alteration, count, others⟩, halteration, h⟩ := bind_ok_iff.1 h
      dsimp only at h
      split at h
      · cases h
      obtain ⟨value, hsuffix, h⟩ := bind_ok_iff.1 h
      cases h
      obtain ⟨place, lettered, rfl⟩ := stepOf?_eq_some_iff.1 hstep
      obtain ⟨signs, text, rfl, signed, few, rfl, rfl⟩ := exists_of_readAlteration halteration
      have octaves : ∀ mark ∈ others.takeWhile isOctaveMark, mark = '\'' ∨ mark = ',' :=
        fun mark hmem => isOctaveMark_iff.1 (List.all_eq_true.1 List.all_takeWhile mark hmem)
      have hword := WrittenAs.mk ((others.dropWhile isOctaveMark).head? == some '!') lettered few
        signed octaves (Suffix.writtenAs_of_read hsuffix)
      rw [bang_append_drop, List.takeWhile_append_dropWhile] at hword
      rw [octaveOf_eq_clampedOctave, markOf_eq]
      exact hword

/-- **The words that are read as notes are those of the grammar**, and each is read as what it is
written for. -/
theorem read_iff_writtenAs (cs : List Char) (word : NoteWord) :
    NoteWord.read cs = .ok word ↔ word.WrittenAs cs :=
  ⟨writtenAs_of_read, WrittenAs.read_eq⟩

/-- After a short flat comes another flat, but no sharp. -/
example : (NoteWord.read ['a', 's', 'e', 's']).isOk = true ∧
    (NoteWord.read ['a', 's', 'i', 's']).isOk = false := by decide +kernel

end NoteWord

end Stave.Shorthand
