import Stave.Proofs.Repeat.Kept
import Stave.Proofs.Symbol.Unquoted

/-!
# Repeats and what stands outside quotes

A pass copies what it is given unless something stands outside quotes that it looks for: brackets
for the groups, stars for the chords and the words. Copies have nothing outside quotes but what the
unit has, spaces apart, and the pass over groups leaves no bracket. A later pass that meets a star
outside quotes writes something else in its place: the line is the same up to the star, and there
a copy ends.
-/
namespace Stave.Shorthand.Repeat

variable {size count used offset : Nat} {quoted : Bool} {c : Char}
  {symbols unit digits chord tail text word written raw rest out before after line : List Symbol}
  {star symbol bracket close : Symbol} {groups : List OpenGroup}

/-! ### What is not there is not written out -/

/-- A star is found exactly if one stands outside quotes. -/
theorem isSome_splitLastStar_iff :
    (splitLastStar quoted symbols).isSome ↔ '*' ∈ unquoted quoted (Symbol.chars symbols) := by
  induction symbols generalizing quoted with
  | nil => simp [splitLastStar, Symbol.chars]
  | cons symbol rest ih =>
    rw [splitLastStar, unquoted_chars_cons]
    cases hrest : splitLastStar (symbol.quotedAfter quoted) rest with
    | some found =>
      have hmem : '*' ∈ unquoted (symbol.quotedAfter quoted) (Symbol.chars rest) :=
        ih.1 (by rw [hrest]; rfl)
      refine iff_of_true rfl ?_
      split
      · exact hmem
      · exact List.mem_cons_of_mem _ hmem
    | none =>
      have hnot : '*' ∉ unquoted (symbol.quotedAfter quoted) (Symbol.chars rest) := fun hmem => by
        simpa [hrest] using ih.2 hmem
      by_cases hquoted : (symbol.isQuote || quoted) = true
      · have hstar : ¬(symbol.char = '*' ∧ quoted = false) := by
          rintro ⟨hchar, rfl⟩
          simp [Symbol.isQuote, hchar] at hquoted
        simp [hquoted, hnot, hstar]
      · simp only [Bool.or_eq_true, not_or, Bool.not_eq_true] at hquoted
        rw [hquoted.2] at hnot
        simp [hquoted, hnot, @eq_comm _ '*']

theorem splitLastStar_eq_none_iff :
    splitLastStar quoted symbols = none ↔ '*' ∉ unquoted quoted (Symbol.chars symbols) := by
  rw [← isSome_splitLastStar_iff, Option.not_isSome_iff_eq_none]

/-- The last star is found if none stands outside quotes after it. -/
theorem splitLastStar_append (hbefore : quotedAfterAll quoted before = false)
    (hstar : star.char = '*') (hafter : '*' ∉ unquoted false (Symbol.chars after)) :
    splitLastStar quoted (before ++ star :: after) = some (before, star, after) := by
  induction before generalizing quoted with
  | nil =>
    rw [quotedAfterAll_nil] at hbefore
    subst hbefore
    have hsame : star.quotedAfter false = false := by
      simp [Symbol.quotedAfter, Symbol.isQuote, hstar]
    rw [List.nil_append, splitLastStar, hsame, splitLastStar_eq_none_iff.2 hafter]
    simp [hstar]
  | cons symbol before ih =>
    rw [List.cons_append, splitLastStar, ih hbefore]

theorem chordStar_eq_none (h : '*' ∉ unquoted false (Symbol.chars tail)) :
    chordStar tail = none := by
  rw [chordStar, splitLastStar_eq_none_iff.2 h]
  rfl

/-- Without brackets outside quotes there are no groups. -/
theorem writeGroups_eq_of_unquoted (hopen : '[' ∉ unquoted quoted (Symbol.chars symbols))
    (hclose : ']' ∉ unquoted quoted (Symbol.chars symbols)) :
    writeGroups size [] written quoted symbols = .ok (written.reverse ++ symbols) := by
  induction symbols generalizing written quoted with
  | nil => rw [writeGroups, List.append_nil]
  | cons symbol rest ih =>
    rw [writeGroups_cons]
    split
    · rw [ih (mt mem_unquoted_cons hopen) (mt mem_unquoted_cons hclose)]
      simp
    case isFalse hplain =>
      rw [unquoted_chars_cons, if_neg hplain, List.mem_cons, not_or] at hopen hclose
      rw [if_neg (Ne.symm hopen.1), if_neg (Ne.symm hclose.1)]
      have hsame : symbol.quotedAfter quoted = false := by
        simp only [Bool.or_eq_true, not_or, Bool.not_eq_true] at hplain
        simp [Symbol.quotedAfter, hplain]
      rw [hsame] at hopen hclose
      rw [ih hopen.2 hclose.2]
      simp

theorem writeChord_eq_of_unquoted (h : '*' ∉ unquoted false (Symbol.chars tail)) :
    writeChord size chord tail = .ok (size, chord ++ tail) := by
  rw [writeChord, chordStar_eq_none h]

theorem writeWord_eq_of_unquoted (h : '*' ∉ unquoted false (Symbol.chars word)) :
    writeWord size word = .ok (size, word) := by
  rw [writeWord, splitLastStar_eq_none_iff.2 h]

/-- What stands outside quotes after a chord that is found stands so in the text. -/
theorem mem_unquoted_of_chordAt? (h : chordAt? written quoted symbol rest = some (before, after))
    (hmem : c ∈ unquoted false (Symbol.chars after)) :
    c ∈ unquoted quoted (Symbol.chars (symbol :: rest)) := by
  obtain ⟨-, rfl, -, hclosed⟩ := chordAt?_opens h
  rw [chordAt?_eq_some h, ← List.cons_append, unquoted_chars_append, hclosed]
  exact List.mem_append_right _ hmem

/-- Without stars outside quotes no chord is repeated. -/
theorem writeChords_eq_of_unquoted (h : '*' ∉ unquoted quoted (Symbol.chars symbols)) :
    writeChords size written quoted symbols = .ok (written.reverse ++ symbols) := by
  fun_induction writeChords size written quoted symbols with
  | case1 => rw [List.append_nil]
  | case2 size written quoted symbol rest hfound ih =>
    rw [ih (mt mem_unquoted_cons h)]
    simp
  | case3 size written quoted symbol rest body after hfound word failure hwrite =>
    rw [writeChord_eq_of_unquoted] at hwrite
    · cases hwrite
    · exact fun hmem => h (mem_unquoted_of_chordAt? hfound (mem_unquoted_word hmem))
  | case4 size written quoted symbol rest body after hfound word size' text hwrite ih =>
    rw [writeChord_eq_of_unquoted] at hwrite
    · cases hwrite
      rw [ih (fun hmem => h (mem_unquoted_of_chordAt? hfound (mem_unquoted_after_word hmem))),
        chordAt?_eq_some hfound, List.reverse_append, List.reverse_reverse, List.append_assoc,
        List.append_assoc, Symbol.splitWord_append false after, List.cons_append]
    · exact fun hmem => h (mem_unquoted_of_chordAt? hfound (mem_unquoted_word hmem))

/-- Without chord brackets there are no chords. -/
theorem writeChords_eq_of_chordBrackets
    (h : chordBrackets (escapedBy written) quoted (Symbol.chars symbols) = []) :
    writeChords size written quoted symbols = .ok (written.reverse ++ symbols) := by
  fun_induction writeChords size written quoted symbols with
  | case1 => rw [List.append_nil]
  | case2 size written quoted symbol rest hfound ih =>
    rw [ih]
    · simp
    · rw [Symbol.chars, List.map_cons, chordBrackets] at h
      split at h
      · cases h
      · exact h
  | case3 size written quoted symbol rest body after hfound word failure hwrite =>
    obtain ⟨hchar, hquoted, hfree, -⟩ := chordAt?_opens hfound
    simp [Symbol.chars, chordBrackets, hchar, hquoted, hfree] at h
  | case4 size written quoted symbol rest body after hfound word size' text hwrite ih =>
    obtain ⟨hchar, hquoted, hfree, -⟩ := chordAt?_opens hfound
    simp [Symbol.chars, chordBrackets, hchar, hquoted, hfree] at h

/-- Without stars outside quotes no word is repeated. -/
theorem writeWords_eq_of_unquoted (h : '*' ∉ unquoted false (Symbol.chars symbols)) :
    writeWords size written symbols = .ok (written.reverse ++ symbols) := by
  fun_induction writeWords size written symbols with
  | case1 => rw [List.append_nil]
  | case2 size written symbol rest hblank ih =>
    have hsame : symbol.quotedAfter false = false := by
      rw [Symbol.quotedAfter, not_isQuote_of_isBlank hblank]
      rfl
    rw [ih fun hmem => h (mem_unquoted_cons (by rwa [hsame]))]
    simp
  | case3 size written symbol rest hblank tail failure hwrite =>
    rw [writeWord_eq_of_unquoted fun hmem => h (mem_unquoted_head_word hblank hmem)] at hwrite
    cases hwrite
  | case4 size written symbol rest hblank tail size' text hwrite ih =>
    rw [writeWord_eq_of_unquoted fun hmem => h (mem_unquoted_head_word hblank hmem)] at hwrite
    cases hwrite
    have hword := Symbol.splitWord_append (symbol.quotedAfter false) rest
    rw [ih fun hmem => h (mem_unquoted_after_head_word hblank hmem), List.reverse_append,
      List.reverse_reverse, List.append_assoc, List.cons_append, hword]

/-! ### What is written was there before -/

/-- What stands outside quotes in copies joins them or stands so in the unit. -/
theorem outside_of_copies (hunit : quotedAfterAll false unit = false)
    (h : Outside false (copies unit count offset) symbol) :
    symbol = ⟨' ', offset⟩ ∨ Outside false unit symbol := by
  cases count with
  | zero => exact absurd h.mem List.not_mem_nil
  | succ count =>
    rw [copies_succ, outside_append, hunit] at h
    rcases h with h | h
    · exact .inr h
    induction count with
    | zero => exact absurd h.mem List.not_mem_nil
    | succ count ih =>
      rw [List.replicate_succ, List.flatten_cons, List.cons_append, outside_cons] at h
      rcases h with ⟨hspace, -⟩ | h
      · exact .inl hspace
      rw [show Symbol.quotedAfter false ⟨' ', offset⟩ = false from rfl, outside_append, hunit] at h
      exact h.elim .inr ih

theorem outside_of_trimOne (h : Outside quoted (trimOne raw) symbol) :
    Outside quoted raw symbol := by
  obtain ⟨front, back, heq, hfront, -⟩ := exists_trimOne_eq raw
  rw [heq, outside_append, outside_append, quotedAfterAll_of_isBlank hfront]
  exact .inr (.inl h)

theorem mem_unquoted_trimOne (h : c ∈ unquoted quoted (Symbol.chars (trimOne symbols))) :
    c ∈ unquoted quoted (Symbol.chars symbols) := by
  obtain ⟨symbol, hout, hsymbol⟩ := mem_unquoted_iff.1 h
  exact mem_unquoted_iff.2 ⟨symbol, outside_of_trimOne hout, hsymbol⟩

/-- Copies have nothing outside quotes but what the unit has, and spaces. -/
theorem mem_unquoted_copies (hunit : quotedAfterAll false unit = false)
    (h : c ∈ unquoted false (Symbol.chars (copies unit count offset))) :
    c = ' ' ∨ c ∈ unquoted false (Symbol.chars unit) := by
  obtain ⟨symbol, hout, hquote, rfl⟩ := mem_unquoted_iff.1 h
  rcases outside_of_copies hunit hout with rfl | hunit
  · exact .inl rfl
  · exact .inr (mem_unquoted_iff.2 ⟨symbol, hunit, hquote, rfl⟩)

/-- Nothing outside quotes is a bracket. -/
def Ungrouped (symbols : List Symbol) : Prop :=
  '[' ∉ unquoted false (Symbol.chars symbols) ∧ ']' ∉ unquoted false (Symbol.chars symbols)

theorem ungrouped_nil : Ungrouped [] := ⟨List.not_mem_nil, List.not_mem_nil⟩

theorem ungrouped_append (hclosed : quotedAfterAll false before = false) :
    Ungrouped (before ++ after) ↔ Ungrouped before ∧ Ungrouped after := by
  simp only [Ungrouped, unquoted_chars_append, hclosed, List.mem_append, not_or]
  exact and_and_and_comm

/-- Adding a symbol that is quoted, or a plain one that is no bracket, adds no bracket. -/
theorem ungrouped_concat (h : Ungrouped symbols)
    (hsymbol : symbol.isQuote = true ∨ quotedAfterAll false symbols = true ∨
      symbol.char ≠ '[' ∧ symbol.char ≠ ']') :
    Ungrouped (symbols ++ [symbol]) := by
  have hlast {c : Char} (hc : c ∈ unquoted (quotedAfterAll false symbols) (Symbol.chars [symbol])) :
      c = symbol.char ∧ symbol.char ≠ '[' ∧ symbol.char ≠ ']' := by
    rw [unquoted_chars_cons] at hc
    split at hc
    · cases hc
    case isFalse hplain =>
      simp only [Bool.or_eq_true, not_or] at hplain
      exact ⟨List.mem_singleton.1 hc, (hsymbol.resolve_left hplain.1).resolve_left hplain.2⟩
  simp only [Ungrouped, unquoted_chars_append, List.mem_append, not_or]
  exact ⟨⟨h.1, fun hc => (hlast hc).2.1 (hlast hc).1.symm⟩,
    h.2, fun hc => (hlast hc).2.2 (hlast hc).1.symm⟩

theorem Ungrouped.copies (hunit : quotedAfterAll false unit = false) (h : Ungrouped unit) :
    Ungrouped (copies unit count offset) :=
  ⟨fun hmem => h.1 ((mem_unquoted_copies hunit hmem).resolve_left (by decide)),
    fun hmem => h.2 ((mem_unquoted_copies hunit hmem).resolve_left (by decide))⟩

theorem Ungrouped.trimOne (h : Ungrouped symbols) : Ungrouped (trimOne symbols) :=
  ⟨mt mem_unquoted_trimOne h.1, mt mem_unquoted_trimOne h.2⟩

/-- What the pass over groups has come to: before every open bracket, and in the text of the
innermost group, last symbol first, there is no bracket outside quotes. A bracket opens outside
quotes; `quoted` tells whether the text leaves a quotation open. -/
structure GroupsOpen (groups : List OpenGroup) (written : List Symbol) (quoted : Bool) : Prop where
  before : ∀ group ∈ groups, group.bracket.char = '[' ∧
    quotedAfterAll false group.before.reverse = false ∧ Ungrouped group.before.reverse
  quoted_eq : quotedAfterAll false written.reverse = quoted
  ungrouped : Ungrouped written.reverse

theorem groupsOpen_nil : GroupsOpen [] [] false := ⟨List.forall_mem_nil _, rfl, ungrouped_nil⟩

/-- A symbol that is quoted, or no bracket, is added to the text. -/
theorem GroupsOpen.cons (h : GroupsOpen groups written quoted)
    (hsymbol : symbol.isQuote = true ∨ quoted = true ∨ symbol.char ≠ '[' ∧ symbol.char ≠ ']') :
    GroupsOpen groups (symbol :: written) (symbol.quotedAfter quoted) := by
  refine ⟨h.before, ?_, ?_⟩
  · rw [List.reverse_cons, quotedAfterAll_append, h.quoted_eq]
    rfl
  · rw [List.reverse_cons]
    exact ungrouped_concat h.ungrouped (by rwa [h.quoted_eq])

/-- Before the innermost group stands the text of the one around it. -/
theorem GroupsOpen.outer {group : OpenGroup} (h : GroupsOpen (group :: groups) written quoted) :
    GroupsOpen groups group.before false := by
  obtain ⟨⟨-, hbefore⟩, houter⟩ := List.forall_mem_cons.1 h.before
  exact ⟨houter, hbefore.1, hbefore.2⟩

theorem GroupsOpen.isSign {group : OpenGroup} (h : GroupsOpen (group :: groups) written quoted) :
    IsSign group.bracket := by
  simp [IsSign, (List.forall_mem_cons.1 h.before).1.1]

/-- A bracket opens a group without a text. -/
theorem GroupsOpen.push (h : GroupsOpen groups written false) (hopen : bracket.char = '[') :
    GroupsOpen (⟨bracket, written⟩ :: groups) [] false :=
  ⟨List.forall_mem_cons.2 ⟨⟨hopen, h.quoted_eq, h.ungrouped⟩, h.before⟩, rfl, ungrouped_nil⟩

/-- A group that closes leaves its copies to the text around it. -/
theorem GroupsOpen.pop {group : OpenGroup} {size' : Nat}
    (h : GroupsOpen (group :: groups) written false)
    (hgroup : closeGroup size group.bracket close written.reverse rest =
      .ok (size', text, used)) :
    GroupsOpen groups (text.reverse ++ group.before) false := by
  obtain ⟨-, count, -, rfl⟩ := closeGroup_eq_ok hgroup
  have hunit : quotedAfterAll false (trimOne written.reverse) = false := by
    rw [quotedAfterAll_trimOne, h.quoted_eq]
  refine ⟨h.outer.before, ?_, ?_⟩
  · rw [List.reverse_append, List.reverse_reverse, quotedAfterAll_append, h.outer.quoted_eq,
      quotedAfterAll_copies hunit]
  · rw [List.reverse_append, List.reverse_reverse, ungrouped_append h.outer.quoted_eq]
    exact ⟨h.outer.ungrouped, h.ungrouped.trimOne.copies hunit⟩

/-- The pass over groups leaves no bracket. -/
theorem ungrouped_of_writeGroups (hopened : GroupsOpen groups written quoted)
    (h : writeGroups size groups written quoted symbols = .ok out) : Ungrouped out := by
  fun_induction writeGroups size groups written quoted symbols with
  | case1 =>
    cases h
    exact hopened.ungrouped
  | case2 => cases h
  | case3 size groups written quoted symbol rest hquote ih =>
    simp only [Bool.or_eq_true] at hquote
    exact ih (hopened.cons (hquote.imp_right .inl)) h
  | case4 size groups written quoted symbol rest hquote hopen ih =>
    obtain ⟨-, rfl⟩ : symbol.isQuote = false ∧ quoted = false := by simpa using hquote
    exact ih (hopened.push hopen) h
  | case5 => cases h
  | case6 size written quoted symbol rest hquote hopen hclose group outer error hgroup =>
    rw [List.unattach_reverse, List.unattach_attach] at hgroup
    simp [hgroup] at h
  | case7 size written quoted symbol rest hquote hopen hclose group outer size' text used hgroup
      ih =>
    rw [List.unattach_reverse, List.unattach_attach] at hgroup
    simp only [hgroup] at h
    obtain ⟨-, rfl⟩ : symbol.isQuote = false ∧ quoted = false := by simpa using hquote
    exact ih (hopened.pop hgroup) h
  | case8 size groups written quoted symbol rest hquote hopen hclose ih =>
    obtain ⟨hplain, rfl⟩ : symbol.isQuote = false ∧ quoted = false := by simpa using hquote
    have hnext := hopened.cons (.inr (.inr ⟨hopen, hclose⟩))
    rw [Symbol.quotedAfter, hplain] at hnext
    exact ih hnext h

/-! ### A star that is left -/

/-- A line is written out as it is up to a star outside quotes, where a copy ends. -/
def StopsAtStar (quoted : Bool) (line out : List Symbol) : Prop :=
  ∃ before star after rest, line = before ++ star :: after ∧ star.char = '*' ∧
    quotedAfterAll quoted before = false ∧ out = before ++ rest ∧ BlankNext rest

theorem StopsAtStar.chars_ne (h : StopsAtStar quoted line out) :
    Symbol.chars out ≠ Symbol.chars line := by
  obtain ⟨before, star, after, rest, rfl, hstar, -, rfl, hrest⟩ := h
  intro hsame
  rw [Symbol.chars_append, Symbol.chars_append] at hsame
  cases rest with
  | nil => cases List.append_cancel_left hsame
  | cons symbol rest =>
    have hchar : symbol.char = star.char :=
      (List.cons.inj (List.append_cancel_left hsame)).1
    have hblank : Text.isBlank symbol.char = true := hrest symbol rfl
    rw [hchar, hstar] at hblank
    cases hblank

theorem StopsAtStar.append_left (before : List Symbol)
    (h : StopsAtStar (quotedAfterAll quoted before) line out) :
    StopsAtStar quoted (before ++ line) (before ++ out) := by
  obtain ⟨front, star, after, rest, rfl, hstar, hquoted, rfl, hrest⟩ := h
  refine ⟨before ++ front, star, after, rest, by simp, hstar, ?_, by simp, hrest⟩
  rw [quotedAfterAll_append, hquoted]

theorem StopsAtStar.ne_nil (h : StopsAtStar quoted line out) : line ≠ [] := by
  obtain ⟨before, star, after, rest, rfl, -⟩ := h
  simp

/-- What is written out twice stops at the star where one of the two stops. -/
theorem StopsAtStar.trans (hfirst : StopsAtStar quoted line out)
    (hsecond : StopsAtStar quoted out text) : StopsAtStar quoted line text := by
  obtain ⟨before, star, after, rest, rfl, hstar, hquoted, rfl, hrest⟩ := hfirst
  obtain ⟨front, other, back, outRest, heq, hother, hfront, rfl, hnext⟩ := hsecond
  rcases List.append_eq_append_iff.1 heq with ⟨more, rfl, rfl⟩ | ⟨more, rfl, hmore⟩
  · refine ⟨before, star, after, more ++ outRest, rfl, hstar, hquoted, by simp, ?_⟩
    cases more with
    | nil => exact hnext
    | cons symbol more => exact hrest
  · cases more with
    | nil => exact ⟨front, star, after, outRest, by simp, hstar, hfront, rfl, hnext⟩
    | cons symbol more =>
      obtain ⟨rfl, -⟩ := List.cons.inj hmore
      exact ⟨front, other, more ++ star :: after, outRest, by simp, hother, hfront, rfl, hnext⟩

/-- The copies of what stands before a star end where the star was. -/
theorem stopsAtStar_copies (hstar : star.char = '*') (hunit : quotedAfterAll false unit = false)
    (hcount : 0 < count) (hrest : BlankNext rest) :
    StopsAtStar false (unit ++ star :: after) (copies unit count offset ++ rest) := by
  obtain ⟨count, rfl⟩ : ∃ n, count = n + 1 := ⟨count - 1, by omega⟩
  rw [copies_succ, List.append_assoc]
  refine ⟨unit, star, after, _, rfl, hstar, hunit, rfl, ?_⟩
  cases count with
  | zero => exact hrest
  | succ count => exact blankNext_cons rfl

/-- The pass over chords copies its line or stops at a star. -/
theorem writeChords_cases (h : writeChords size written quoted symbols = .ok out) :
    out = written.reverse ++ symbols ∨
      ∃ rest, out = written.reverse ++ rest ∧ StopsAtStar quoted symbols rest := by
  fun_induction writeChords size written quoted symbols with
  | case1 =>
    cases h
    exact .inl (List.append_nil _).symm
  | case2 size written quoted symbol rest hfound ih =>
    rcases ih h with rfl | ⟨outRest, rfl, hstops⟩
    · exact .inl (by simp)
    · exact .inr ⟨symbol :: outRest, by simp, hstops.append_left [symbol]⟩
  | case3 => cases h
  | case4 size written quoted symbol rest body after hfound word size' text hwrite ih =>
    obtain ⟨-, rfl, -, hbody⟩ := chordAt?_opens hfound
    have hline : symbol :: rest = (symbol :: body ++ word.1) ++ word.2 := by
      rw [List.append_assoc, Symbol.splitWord_append, chordAt?_eq_some hfound, List.cons_append]
    rcases writeChord_eq_ok hwrite with
      ⟨-, rfl⟩ | ⟨suffix, star, digits, count, hstar, hcount, rfl⟩
    · rcases ih h with rfl | ⟨outRest, rfl, hstops⟩
      · exact .inl (by rw [hline]; simp)
      · have hclosed : quotedAfterAll false (symbol :: body ++ word.1) = false := by
          rw [quotedAfterAll_append, hbody]
          exact ((splitWord_rest false after).resolve_left hstops.ne_nil).1
        refine .inr ⟨symbol :: body ++ word.1 ++ outRest, by simp, ?_⟩
        rw [hline]
        exact StopsAtStar.append_left _ (by rwa [hclosed])
    · obtain ⟨hword, hchar⟩ := chordStar_eq_some hstar
      obtain ⟨outRest, rfl, hkept⟩ := kept_writeChords h
      have hsuffix := quotedAfterAll_of_splitLastStar (Option.filter_eq_some_iff.1 hstar).1
      have hunit : quotedAfterAll false (symbol :: body ++ suffix) = false := by
        rw [quotedAfterAll_append, hbody, hsuffix]
      refine .inr ⟨copies (symbol :: body ++ suffix) count star.origin ++ outRest, by simp, ?_⟩
      rw [hline, hword, ← List.append_assoc, List.append_assoc, List.cons_append]
      exact stopsAtStar_copies hchar hunit (readCount_eq_ok (readWordCount_eq_ok hcount)).1
        (hkept.blankNext (blankNext_splitWord _ _))

/-- The pass over words stops at a star if there is one. -/
theorem stopsAtStar_of_writeWords (hstar : '*' ∈ unquoted false (Symbol.chars symbols))
    (h : writeWords size written symbols = .ok out) :
    ∃ rest, out = written.reverse ++ rest ∧ StopsAtStar false symbols rest := by
  fun_induction writeWords size written symbols with
  | case1 => cases hstar
  | case2 size written symbol rest hblank ih =>
    have hsame : symbol.quotedAfter false = false := by
      rw [Symbol.quotedAfter, not_isQuote_of_isBlank hblank]
      rfl
    have hrest : '*' ∈ unquoted false (Symbol.chars rest) := by
      rw [unquoted_chars_cons, if_neg (by simp [not_isQuote_of_isBlank hblank]), hsame,
        List.mem_cons] at hstar
      refine hstar.resolve_left fun hchar => ?_
      rw [Symbol.isBlank, ← hchar] at hblank
      cases hblank
    obtain ⟨outRest, rfl, hstops⟩ := ih hrest h
    exact ⟨symbol :: outRest, by simp, StopsAtStar.append_left [symbol] (by simpa [hsame])⟩
  | case3 => cases h
  | case4 size written symbol rest hblank tail size' text hwrite ih =>
    have hline : symbol :: rest = (symbol :: tail.1) ++ tail.2 := by
      rw [List.cons_append, Symbol.splitWord_append]
    rw [hline] at hstar ⊢
    rcases writeWord_eq_ok hwrite with
      ⟨hnone, rfl⟩ | ⟨unit, star, digits, count, hfound, -, hcount, rfl⟩
    · have hleft : '*' ∈ unquoted (quotedAfterAll false (symbol :: tail.1))
          (Symbol.chars tail.2) := by
        rw [unquoted_chars_append, List.mem_append] at hstar
        exact hstar.resolve_left (splitLastStar_eq_none_iff.1 hnone)
      rcases splitWord_rest (symbol.quotedAfter false) rest with hnil | ⟨hclosed, -⟩
      · rw [show tail.2 = [] from hnil] at hleft
        cases hleft
      · rw [← quotedAfterAll_cons] at hclosed
        obtain ⟨outRest, rfl, hstops⟩ := ih (hclosed ▸ hleft) h
        exact ⟨symbol :: tail.1 ++ outRest, by simp, .append_left _ (by rwa [hclosed])⟩
    · obtain ⟨hword, hchar⟩ := splitLastStar_eq_some hfound
      obtain ⟨outRest, rfl, hkept⟩ := kept_writeWords h
      refine ⟨copies unit count star.origin ++ outRest, by simp, ?_⟩
      rw [hword, List.append_assoc, List.cons_append]
      exact stopsAtStar_copies hchar (quotedAfterAll_of_splitLastStar hfound)
        (readCount_eq_ok (readWordCount_eq_ok hcount)).1
        (hkept.blankNext (blankNext_splitWord _ _))

end Stave.Shorthand.Repeat
