import Stave.Proofs.Symbol.Unquoted
import Stave.Shorthand.Token.Directive

/-!
# How words are spelled

A word that can be read has angle brackets only as the marks they are after a backslash or a
direction sign, and the signs of repeats and groups only in quoted texts. `Spelled` says so once,
by what a word may go on with; that a word has no chord bracket, none of those signs outside
quotes, and leaves no quotation open all follow from it. What a directive takes has neither
brackets nor quotes.
-/
namespace Stave

variable {c : Char} {cs first second : List Char}

open Shorthand (IsOrdinary isOrdinary_of_all)

theorem isOrdinary_of_digits? {n : Nat} (h : Text.digits? cs = some n) :
    ∀ c ∈ cs, IsOrdinary c := by
  unfold Text.digits? at h
  split at h
  case isTrue hdigits =>
    simp only [Bool.and_eq_true, List.all_eq_true] at hdigits
    exact fun c hmem => Shorthand.isOrdinary_of_isDigit (hdigits.2 c hmem)
  case isFalse => cases h

theorem isOrdinary_of_natural? {largest n : Nat} (h : Text.natural? largest cs = some n) :
    ∀ c ∈ cs, IsOrdinary c := by
  unfold Text.natural? at h
  have hdigits := (Option.filter_eq_some_iff.1 h).1
  split at hdigits
  · exact List.forall_mem_cons.2 ⟨by decide, isOrdinary_of_digits? hdigits⟩
  · exact isOrdinary_of_digits? hdigits

theorem isOrdinary_of_integer? {least largest n : Int}
    (h : Text.integer? least largest cs = some n) : ∀ c ∈ cs, IsOrdinary c := by
  unfold Text.integer? at h
  have hvalue := (Option.filter_eq_some_iff.1 h).1
  split at hvalue
  · obtain ⟨_, hsome, -⟩ := Option.map_eq_some_iff.1 hvalue
    obtain ⟨digits, hdigits, -⟩ := Option.bind_eq_some_iff.1 hsome
    exact List.forall_mem_cons.2 ⟨by decide, isOrdinary_of_digits? hdigits⟩
  · obtain ⟨digits, hdigits, -⟩ := Option.map_eq_some_iff.1 hvalue
    exact List.forall_mem_cons.2 ⟨by decide, isOrdinary_of_digits? hdigits⟩
  · obtain ⟨digits, hdigits, -⟩ := Option.map_eq_some_iff.1 hvalue
    exact isOrdinary_of_digits? hdigits

/-- What trimming drops is blank. -/
theorem mem_trim_or_isBlank (h : c ∈ cs) : c ∈ Text.trim cs ∨ Text.isBlank c = true := by
  have hfront (xs : List Char) (hmem : c ∈ xs) :
      c ∈ xs.dropWhile Text.isBlank ∨ Text.isBlank c = true := by
    rw [← List.takeWhile_append_dropWhile (p := Text.isBlank) (l := xs), List.mem_append] at hmem
    exact hmem.symm.imp_right (List.all_eq_true.1 List.all_takeWhile c)
  rcases hfront cs h with hmem | hblank
  · rcases hfront _ (List.mem_reverse.2 hmem) with hmem | hblank
    · exact .inl (List.mem_reverse.2 hmem)
    · exact .inr hblank
  · exact .inr hblank

theorem isOrdinary_of_trim (h : ∀ c ∈ Text.trim cs, IsOrdinary c) : ∀ c ∈ cs, IsOrdinary c := by
  intro c hmem
  rcases mem_trim_or_isBlank hmem with hmem | hblank
  · exact h c hmem
  · exact Shorthand.isOrdinary_of_isBlank hblank

theorem isOrdinary_of_splitAtFirst? {separator : Char} (hseparator : IsOrdinary separator)
    (h : Text.splitAtFirst? separator cs = some (first, second))
    (hfirst : ∀ c ∈ first, IsOrdinary c) (hsecond : ∀ c ∈ second, IsOrdinary c) :
    ∀ c ∈ cs, IsOrdinary c := by
  rw [Text.eq_append_of_splitAtFirst? h]
  exact List.forall_mem_append.2 ⟨hfirst, List.forall_mem_cons.2 ⟨hseparator, hsecond⟩⟩

theorem isOrdinary_of_meter {meter : Meter} (h : Meter.read? cs = some meter) :
    ∀ c ∈ cs, IsOrdinary c := by
  unfold Meter.read? at h
  obtain ⟨⟨above, below⟩, hsplit, h⟩ := Option.bind_eq_some_iff.1 h
  obtain ⟨numerator, hnumerator, h⟩ := Option.bind_eq_some_iff.1 h
  obtain ⟨denominator, hdenominator, -⟩ := Option.bind_eq_some_iff.1 h
  exact isOrdinary_of_splitAtFirst? (by decide) hsplit
    (isOrdinary_of_trim (isOrdinary_of_natural? hnumerator))
    (isOrdinary_of_trim (isOrdinary_of_natural? hdenominator))

theorem isOrdinary_of_tempo {tempo : Tempo} (h : Tempo.read? cs = some tempo) :
    ∀ c ∈ cs, IsOrdinary c := by
  unfold Tempo.read? at h
  obtain ⟨⟨left, right⟩, hsplit, h⟩ := Option.bind_eq_some_iff.1 h
  obtain ⟨unit, hunit, h⟩ := Option.bind_eq_some_iff.1 h
  obtain ⟨_, -, h⟩ := Option.bind_eq_some_iff.1 h
  obtain ⟨beats, hbeats, -⟩ := Option.bind_eq_some_iff.1 h
  refine isOrdinary_of_splitAtFirst? (by decide) hsplit (isOrdinary_of_trim ?_)
    (isOrdinary_of_trim (isOrdinary_of_natural? hbeats))
  split at hunit
  case isTrue hdotted =>
    have hlast : (Text.trim left).getLast? = some '.' := by simpa using hdotted
    obtain ⟨init, hinit⟩ := List.getLast?_eq_some_iff.1 hlast
    rw [hinit, List.dropLast_concat] at hunit
    rw [hinit]
    exact List.forall_mem_append.2 ⟨isOrdinary_of_natural? hunit, isOrdinary_of_all (by decide)⟩
  case isFalse => exact isOrdinary_of_natural? hunit

theorem Clef.eq_toList_of_ofKeyword? {clef : Clef}
    (h : Clef.ofKeyword? (String.ofList cs) = some clef) : cs = clef.keyword.toList := by
  have hkeyword : clef.keyword = String.ofList cs := by
    simpa [Clef.ofKeyword?] using List.find?_some h
  rw [hkeyword, String.toList_ofList]

theorem Clef.isAlpha_of_ofKeyword? {clef : Clef}
    (h : Clef.ofKeyword? (String.ofList cs) = some clef) : ∀ c ∈ cs, c.isAlpha = true := by
  rw [Clef.eq_toList_of_ofKeyword? h]
  exact List.all_eq_true.1 (by cases clef <;> decide)

namespace Shorthand

theorem Directive.isOrdinary_of_ratio? {ratio : Nat × Nat} (h : Directive.ratio? cs = some ratio) :
    ∀ c ∈ cs, IsOrdinary c := by
  unfold Directive.ratio? at h
  obtain ⟨⟨above, below⟩, hsplit, h⟩ := Option.bind_eq_some_iff.1 h
  obtain ⟨numerator, hnumerator, h⟩ := Option.bind_eq_some_iff.1 h
  obtain ⟨denominator, hdenominator, -⟩ := Option.bind_eq_some_iff.1 h
  exact isOrdinary_of_splitAtFirst? (by decide) hsplit (isOrdinary_of_natural? hnumerator)
    (isOrdinary_of_natural? hdenominator)

/-- The words a directive takes are of ordinary characters. -/
theorem Directive.isOrdinary_of_read? {directive : Directive} {arguments : List (List Char)}
    {kind : TokenKind} {used : Nat} (h : directive.read? arguments = some (kind, used)) :
    ∀ argument ∈ arguments.take used, ∀ c ∈ argument, IsOrdinary c := by
  unfold Directive.read? at h
  obtain ⟨first, hfirst, h⟩ := Option.bind_eq_some_iff.1 h
  obtain ⟨others, rfl⟩ := List.head?_eq_some_iff.1 hfirst
  have hone (hplain : ∀ c ∈ first, IsOrdinary c) :
      ∀ argument ∈ (first :: others).take 1, ∀ c ∈ argument, IsOrdinary c := by
    simpa using hplain
  cases directive <;> simp only [Option.map_eq_some_iff, Prod.mk.injEq] at h
  case tuplet =>
    obtain ⟨_, hread, -, rfl⟩ := h
    exact hone (Directive.isOrdinary_of_ratio? hread)
  case times =>
    obtain ⟨_, hread, -, rfl⟩ := h
    exact hone (Directive.isOrdinary_of_ratio? hread)
  case ottava =>
    obtain ⟨_, hread, -, rfl⟩ := h
    refine hone ?_
    rw [← List.takeWhile_append_dropWhile (p := (· = '#')) (l := first)]
    refine List.forall_mem_append.2 ⟨fun c hmem => ?_, isOrdinary_of_integer? hread⟩
    have hsharp : c = '#' := by simpa using List.all_eq_true.1 List.all_takeWhile c hmem
    rw [hsharp]
    decide
  case time =>
    obtain ⟨_, hread, -, rfl⟩ := h
    exact hone (isOrdinary_of_meter hread)
  case tempo =>
    obtain ⟨⟨mark, count⟩, hread, -, rfl⟩ := h
    obtain ⟨taken, -, hfound⟩ := List.exists_of_findSome?_eq_some hread
    obtain ⟨tempo, htempo, heq⟩ := Option.map_eq_some_iff.1 hfound
    cases heq
    exact fun argument hargument c hmem =>
      isOrdinary_of_tempo htempo c (List.mem_flatten.2 ⟨argument, hargument, hmem⟩)
  case clef =>
    obtain ⟨_, hread, -, rfl⟩ := h
    exact hone fun c hmem => isOrdinary_of_isAlpha (Clef.isAlpha_of_ofKeyword? hread c hmem)

end Shorthand

/-! ### Words that can be read -/

namespace Shorthand

/-- How a word that can be read is spelled: in ordinary characters, marks after a backslash or a
direction sign, and quoted texts after a direction sign. -/
inductive Spelled : List Char → Prop where
  | nil : Spelled []
  | cons {c : Char} {cs : List Char} (ordinary : IsOrdinary c) (rest : Spelled cs) :
      Spelled (c :: cs)
  | mark {sign c : Char} {cs : List Char} (escapes : Symbol.escapes sign = true)
      (unquoted : c ≠ '"') (unsigned : c ∉ groupSigns) (rest : Spelled cs) :
      Spelled (sign :: c :: cs)
  | text {sign : Char} {inside cs : List Char} (escapes : Symbol.escapes sign = true)
      (unquoted : '"' ∉ inside) (rest : Spelled cs) :
      Spelled (sign :: '"' :: (inside ++ '"' :: cs))

variable {escaped : Bool} {after : List Char}

/-- A sign that escapes what comes after it is ordinary. -/
theorem isOrdinary_of_escapes (h : Symbol.escapes c = true) : IsOrdinary c :=
  isOrdinary_of_class Symbol.escapes (by decide) h

/-- A character after a mark is no bracket. -/
theorem chordBrackets_cons_of_escaped (h : c ≠ '"') :
    chordBrackets true false (c :: cs) = chordBrackets (Symbol.escapes c) false cs := by
  have hsame : (false != (c == '"')) = false := by simp [h]
  simp [chordBrackets, hsame]

/-- Nothing is a bracket up to the closing quote. -/
theorem chordBrackets_of_quoted (h : '"' ∉ first) :
    chordBrackets escaped true (first ++ '"' :: after) = chordBrackets false false after := by
  induction first generalizing escaped with
  | nil => rfl
  | cons c first ih =>
    rw [List.mem_cons, not_or] at h
    obtain ⟨hc, hfirst⟩ := h
    have hsame : (true != (c == '"')) = true := by simp [Ne.symm hc]
    rw [List.cons_append, chordBrackets]
    simpa [hsame] using ih hfirst

theorem quotedChars_cons (quoted : Bool) (c : Char) (cs : List Char) :
    quotedChars quoted (c :: cs) = quotedChars (quoted != (c == '"')) cs := rfl

theorem unquoted_cons (quoted : Bool) (c : Char) (cs : List Char) :
    unquoted quoted (c :: cs) =
      if c == '"' || quoted then unquoted (quoted != (c == '"')) cs
      else c :: unquoted (quoted != (c == '"')) cs := rfl

theorem quotedChars_cons_of_ne (h : c ≠ '"') :
    quotedChars escaped (c :: cs) = quotedChars escaped cs := by
  rw [quotedChars_cons, beq_eq_false_iff_ne.2 h, Bool.bne_false]

theorem unquoted_cons_of_ne (h : c ≠ '"') :
    unquoted false (c :: cs) = c :: unquoted false cs := by
  rw [unquoted_cons, beq_eq_false_iff_ne.2 h]
  rfl

/-- A quotation ends at the next quote. -/
theorem quotedChars_of_quoted (h : '"' ∉ first) :
    quotedChars true (first ++ '"' :: after) = quotedChars false after := by
  induction first with
  | nil => rfl
  | cons c first ih =>
    rw [List.mem_cons, not_or] at h
    rw [List.cons_append, quotedChars_cons_of_ne (Ne.symm h.1), ih h.2]

/-- Nothing stands outside quotes up to the closing quote. -/
theorem unquoted_of_quoted (h : '"' ∉ first) :
    unquoted true (first ++ '"' :: after) = unquoted false after := by
  induction first with
  | nil => rfl
  | cons c first ih =>
    rw [List.mem_cons, not_or] at h
    rw [List.cons_append, unquoted_cons, Bool.or_true, if_pos rfl,
      beq_eq_false_iff_ne.2 (Ne.symm h.1), Bool.bne_false, ih h.2]

namespace Spelled

theorem of_isOrdinary (hfirst : ∀ c ∈ first, IsOrdinary c) (hsecond : Spelled second) :
    Spelled (first ++ second) := by
  induction first with
  | nil => exact hsecond
  | cons c first ih =>
    obtain ⟨hc, hfirst⟩ := List.forall_mem_cons.1 hfirst
    exact .cons hc (ih hfirst)

/-- A word has no chord bracket. -/
theorem chordBrackets_eq (h : Spelled cs) (escaped : Bool) :
    chordBrackets escaped false cs = [] := by
  induction h generalizing escaped with
  | nil => rfl
  | cons ordinary _ ih =>
    rw [chordBrackets_cons_of_isPlain ordinary.isPlain]
    exact ih _
  | mark escapes unquoted _ _ ih =>
    rw [chordBrackets_cons_of_isPlain (isOrdinary_of_escapes escapes).isPlain, escapes,
      chordBrackets_cons_of_escaped unquoted]
    exact ih _
  | text escapes unquoted _ ih =>
    rw [chordBrackets_cons_of_isPlain (isOrdinary_of_escapes escapes).isPlain, escapes]
    exact (chordBrackets_of_quoted unquoted).trans (ih _)

/-- A word leaves no quotation open. -/
theorem quotedChars_eq (h : Spelled cs) : quotedChars false cs = false := by
  induction h with
  | nil => rfl
  | cons ordinary _ ih => rwa [quotedChars_cons_of_ne ordinary.isPlain.2.2]
  | mark escapes unquoted _ _ ih =>
    rwa [quotedChars_cons_of_ne (isOrdinary_of_escapes escapes).isPlain.2.2,
      quotedChars_cons_of_ne unquoted]
  | text escapes unquoted _ ih =>
    rw [quotedChars_cons_of_ne (isOrdinary_of_escapes escapes).isPlain.2.2]
    exact (quotedChars_of_quoted unquoted).trans ih

/-- A word has no sign of a repeat or a group outside quotes. -/
theorem not_mem_groupSigns (h : Spelled cs) : ∀ c ∈ unquoted false cs, c ∉ groupSigns := by
  induction h with
  | nil => exact List.forall_mem_nil _
  | cons ordinary _ ih =>
    rw [unquoted_cons_of_ne ordinary.isPlain.2.2]
    exact List.forall_mem_cons.2 ⟨ordinary.not_mem_groupSigns, ih⟩
  | mark escapes unquoted unsigned _ ih =>
    have hsign := isOrdinary_of_escapes escapes
    rw [unquoted_cons_of_ne hsign.isPlain.2.2, unquoted_cons_of_ne unquoted]
    exact List.forall_mem_cons.2
      ⟨hsign.not_mem_groupSigns, List.forall_mem_cons.2 ⟨unsigned, ih⟩⟩
  | text escapes unquoted _ ih =>
    have hsign := isOrdinary_of_escapes escapes
    rw [unquoted_cons_of_ne hsign.isPlain.2.2]
    refine List.forall_mem_cons.2 ⟨hsign.not_mem_groupSigns, fun c hmem => ih c ?_⟩
    rwa [← unquoted_of_quoted unquoted]

theorem head_isOrdinary (h : Spelled cs) : ∀ c ∈ cs.head?, IsOrdinary c := by
  rintro c hhead
  cases h with
  | nil => cases hhead
  | cons ordinary _ =>
    cases hhead
    exact ordinary
  | mark escapes _ _ _ =>
    cases hhead
    exact isOrdinary_of_escapes escapes
  | text escapes _ _ =>
    cases hhead
    exact isOrdinary_of_escapes escapes

/-- Nor does a word end with such a sign. -/
theorem last_not_mem_groupSigns (h : Spelled (cs ++ [c])) : c ∉ groupSigns := by
  intro hsign
  have hquote : c ≠ '"' := by
    rintro rfl
    exact absurd hsign (by decide)
  have hclosed := h.quotedChars_eq
  rw [quotedChars, List.foldl_append] at hclosed
  change quotedChars (quotedChars false cs) [c] = false at hclosed
  rw [quotedChars_cons_of_ne hquote] at hclosed
  have hmem : c ∈ unquoted false (cs ++ [c]) := by
    rw [unquoted_append, show quotedChars false cs = false from hclosed,
      unquoted_cons_of_ne hquote]
    exact List.mem_append_right _ List.mem_cons_self
  exact h.not_mem_groupSigns c hmem hsign

end Spelled

end Shorthand

end Stave
