import Stave.Proofs.Brace.Pieces
import Stave.Proofs.Token.Placed

/-!
# Words of music

A word that one of the readers of music accepts is read as what that reader says: by their first
characters notes, rests, lengths and post-events are told apart, and none of them names a clef or
a directive. In a line such a word keeps together. A closing bracket in it has its sign before it
or is quoted, so the first bracket that is neither is the one that closes the chord.
-/
namespace Stave.Shorthand

variable {c : Char} {cs word suffix : List Char} {kind : TokenKind} {value : Suffix}
  {symbols front body run rest tail init : List Symbol} {symbol close : Symbol}

/-! ### What words are read as -/

/-- No clef is named by a word that begins with another character. -/
theorem ofKeyword?_eq_none_of_head (h : c ∉ ['a', 'b', 'p', 't']) :
    Clef.ofKeyword? (String.ofList (c :: cs)) = none := by
  refine Option.eq_none_iff_forall_not_mem.2 fun clef hclef => h ?_
  have hhead : clef.keyword.toList.head?.all ['a', 'b', 'p', 't'].contains = true := by
    cases clef <;> decide
  rw [← Clef.eq_toList_of_ofKeyword? hclef] at hhead
  exact List.contains_iff_mem.1 hhead

/-- Nor by a note word. -/
theorem ofKeyword?_eq_none_of_read {spelled : NoteWord} (h : NoteWord.read word = .ok spelled) :
    Clef.ofKeyword? (String.ofList word) = none := by
  refine Option.eq_none_iff_forall_not_mem.2 fun clef hclef => ?_
  have hfails : (NoteWord.read clef.keyword.toList).toOption = none := by
    cases clef <;> decide +kernel
  rw [← Clef.eq_toList_of_ofKeyword? hclef, h] at hfails
  cases hfails

/-- What begins a suffix begins no clef, no note and no rest, and is no letter. -/
theorem not_other_of_mem_suffixHeads (h : c ∈ suffixHeads) :
    c ∉ ['a', 'b', 'p', 't'] ∧ ¬('a' ≤ c && c ≤ 'g') = true ∧ c ≠ 'r' ∧ c.isAlpha = false := by
  have hall : suffixHeads.all (fun d => decide (d ∉ ['a', 'b', 'p', 't'] ∧
      ¬('a' ≤ d && d ≤ 'g') = true ∧ d ≠ 'r' ∧ d.isAlpha = false)) = true := by decide
  exact of_decide_eq_true (List.all_eq_true.1 hall c h)

namespace TokenKind

theorem ofWord_note {spelled : NoteWord} (h : NoteWord.read word = .ok spelled) :
    ofWord word = .ok (.note spelled) := by
  cases word with
  | nil => cases h
  | cons c cs =>
    have hletter : ('a' ≤ c && c ≤ 'g') = true := by
      have hstep := NoteWord.stepOf?_of_read h
      unfold NoteWord.stepOf? at hstep
      split at hstep <;> first | rfl | cases hstep
    rw [ofWord, ofKeyword?_eq_none_of_read h]
    dsimp only
    rw [if_pos hletter, ofNoteWord, h]

theorem ofWord_rest (h : Suffix.read suffix = .ok value) :
    ofWord ('r' :: suffix) = .ok (.rest value) := by
  have hhead : (suffix.head?.map Char.isAlpha).getD false = false := by
    cases suffix with
    | nil => rfl
    | cons c cs =>
      have hc := (Suffix.writtenAs_of_read h).head_mem c rfl
      exact (not_other_of_mem_suffixHeads hc).2.2.2
  rw [ofWord, ofKeyword?_eq_none_of_head (by decide)]
  dsimp only
  rw [if_neg (by decide), if_pos rfl, hhead, if_neg Bool.false_ne_true, ofSuffix, h]

theorem ofWord_duration (hdigit : c.isDigit = true) (h : Suffix.read (c :: cs) = .ok value) :
    ofWord (c :: cs) = .ok (.duration value) := by
  obtain ⟨hclef, hnote, hrest, -⟩ :=
    not_other_of_mem_suffixHeads ((Suffix.writtenAs_of_read h).head_mem c rfl)
  rw [ofWord, ofKeyword?_eq_none_of_head hclef]
  dsimp only
  rw [if_neg hnote, if_neg hrest, if_pos hdigit, ofSuffix, h]

theorem ofWord_postEvents {events : List PostEvent} (hne : word ≠ [])
    (h : PostEvent.readRun word = .ok events) : ofWord word = .ok (.postEvents events) := by
  obtain ⟨c, cs, rfl⟩ := List.exists_cons_of_ne_nil hne
  have hhead := (PostEvent.runWrittenAs_of_readRun h).head_mem c rfl
  obtain ⟨hclef, hnote, hrest, -⟩ :=
    not_other_of_mem_suffixHeads (List.mem_append_right _ hhead)
  have hall : postEventHeads.all (fun d => decide (¬d.isDigit = true ∧ d ≠ '|')) = true := by
    decide
  obtain ⟨hdigit, hbar⟩ := of_decide_eq_true (List.all_eq_true.1 hall c hhead)
  have hbegins : beginsPostEvents c = true := List.contains_iff_mem.2 hhead
  rw [ofWord, ofKeyword?_eq_none_of_head hclef]
  dsimp only
  rw [if_neg hnote, if_neg hrest, if_neg hdigit, if_neg (by simp [hbar]), if_pos hbegins,
    ofPostEvents, h]

end TokenKind

/-- A word that can be read names no directive. -/
theorem Directive.ofWord?_eq_none_of_ofWord (h : TokenKind.ofWord word = .ok kind) :
    Directive.ofWord? (String.ofList word) = none := by
  refine Option.eq_none_iff_forall_not_mem.2 fun directive hdirective => ?_
  have hfails : ∀ name ∈ Directive.names, (TokenKind.ofWord name.1.toList).toOption = none := by
    decide +kernel
  obtain ⟨before, after, heq, -⟩ := List.lookup_eq_some_iff.1 hdirective
  have hname := hfails (String.ofList word, directive) (by rw [heq]; simp)
  rw [String.toList_ofList, h] at hname
  cases hname

/-! ### Parts of words -/

namespace Word

theorem spanChar_append (hrun : ∀ symbol ∈ run, symbol.char = c)
    (hrest : ∀ symbol ∈ rest.head?, symbol.char ≠ c) : spanChar c (run ++ rest) = (run, rest) := by
  induction run with
  | nil =>
    cases rest with
    | nil => rfl
    | cons symbol rest =>
      have hchar := hrest symbol rfl
      simp [spanChar, hchar]
  | cons symbol run ih =>
    obtain ⟨hsymbol, hrun⟩ := List.forall_mem_cons.1 hrun
    obtain ⟨htake, hdrop⟩ := Prod.mk.inj (ih hrun)
    rw [spanChar, List.cons_append, List.takeWhile_cons_of_pos (by simp [hsymbol]), htake,
      List.dropWhile_cons_of_pos (by simp [hsymbol]), hdrop]

/-- A word is cut where its chord ends, if nothing before is a chord bracket. -/
theorem spanChordEnd_append_of_clean {previous : Option Char} {quoted : Bool}
    (hclean : chordBrackets ((previous.map Symbol.escapes).getD false) quoted
      (Symbol.chars symbols) = [])
    (htail : ∀ close ∈ tail.head?, close.char = '>' ∧ quotedAfterAll quoted symbols = false ∧
      escapedAfter ((previous.map Symbol.escapes).getD false) (Symbol.chars symbols) = false) :
    spanChordEnd previous quoted (symbols ++ tail) = (symbols, tail) := by
  induction symbols generalizing previous quoted with
  | nil =>
    cases tail with
    | nil => rfl
    | cons close rest =>
      obtain ⟨hchar, hquoted, hescaped⟩ := htail close rfl
      rw [quotedAfterAll_nil] at hquoted
      have hprevious : (previous.map Symbol.escapes).getD false = false := hescaped
      simp [spanChordEnd, hchar, hquoted, hprevious]
  | cons symbol rest ih =>
    rw [Symbol.chars, List.map_cons, chordBrackets] at hclean
    split at hclean
    · cases hclean
    case isFalse hnone =>
      have hopen : ¬(symbol.char = '>' && !quoted &&
          !(previous.map Symbol.escapes).getD false) = true := by
        intro hclose
        simp only [Bool.and_eq_true, decide_eq_true_eq] at hclose
        simp [hclose.1.1, hclose.1.2, hclose.2] at hnone
      have hspan : spanChordEnd (some symbol.char) (symbol.quotedAfter quoted) (rest ++ tail) =
          (rest, tail) := ih hclean htail
      rw [List.cons_append, spanChordEnd]
      dsimp only
      rw [if_neg hopen, hspan]

/-- A spelled word keeps together between the bracket that opens a chord and the one that closes
it. -/
theorem parts_of_spelled (hfront : ∀ bracket ∈ front, bracket.char = '<')
    (hbody : Spelled (Symbol.chars body)) (hne : body ≠ [])
    (hspan : spanChordEnd none false (body ++ tail) = (body, tail))
    (hlast : body ++ tail = init ++ [symbol]) (hunsigned : symbol.char ∉ groupSigns) :
    parts (front ++ (body ++ tail)) =
      eachAs .chordStart front ++ (wholeAs .word body ++ wholeAs .chordEnd tail) := by
  have hhead : ∀ first ∈ (body ++ tail).head?, IsOrdinary first.char := by
    obtain ⟨first, others, rfl⟩ := List.exists_cons_of_ne_nil hne
    rintro _ ⟨⟩
    exact hbody.head_isOrdinary first.char rfl
  -- neither the bracket nor the head of the word is a brace
  have hopens : spanChar '\x7b' (front ++ (body ++ tail)) = ([], front ++ (body ++ tail)) := by
    refine spanChar_append (List.forall_mem_nil _) fun first hmem hbrace => ?_
    cases front with
    | nil => exact (hhead first hmem).not_mem_groupSigns (by rw [hbrace]; decide)
    | cons bracket front =>
      obtain rfl : bracket = first := by simpa using hmem
      rw [hfront bracket List.mem_cons_self] at hbrace
      cases hbrace
  have hstarts : spanChar '<' (front ++ (body ++ tail)) = (front, body ++ tail) :=
    spanChar_append hfront fun symbol hmem hless => (hhead symbol hmem).isPlain.1 hless
  have hwhole : front ++ (body ++ tail) = (front ++ init) ++ [symbol] := by
    rw [hlast, List.append_assoc]
  have hcloses : spanCharEnd '\x7d' (front ++ (body ++ tail)) = (front ++ (body ++ tail), []) := by
    rw [hwhole]
    exact spanCharEnd_concat_of_ne (fun hchar => hunsigned (by rw [hchar]; decide)) _
  have hlate : spanCharEnd '\x7b' (front ++ (body ++ tail)) = (front ++ (body ++ tail), []) := by
    rw [hwhole]
    exact spanCharEnd_concat_of_ne (fun hchar => hunsigned (by rw [hchar]; decide)) _
  simp only [parts, hopens, hcloses, hlate, hstarts, hspan]
  simp [eachAs]

end Word

/-! ### Words of a line -/

theorem Compact.isWord (h : Compact (Symbol.chars symbols)) (hne : symbols ≠ []) :
    IsWord symbols where
  nonempty := hne
  blanks := h.blanksQuoted
  closed := by rw [quotedAfterAll_eq_quotedChars, h.spelled.quotedChars_eq]

/-- A symbol that is no blank and no quote makes a word with what comes after it. -/
theorem isWord_cons (hink : symbol.isBlank = false) (hquote : symbol.isQuote = false)
    (hblanks : BlanksQuoted false rest) (hclosed : quotedAfterAll false rest = false) :
    IsWord (symbol :: rest) where
  nonempty := List.cons_ne_nil _ _
  blanks := blanksQuoted_cons hink hquote hblanks
  closed := by rw [quotedAfterAll_cons, Symbol.quotedAfter, hquote, Bool.bne_false, hclosed]

theorem isWord_front_append (hfront : ∀ bracket ∈ front, bracket.char = '<') (h : IsWord rest) :
    IsWord (front ++ rest) := by
  induction front with
  | nil => exact h
  | cons bracket front ih =>
    obtain ⟨hbracket, hfront⟩ := List.forall_mem_cons.1 hfront
    have hrest := ih hfront
    exact isWord_cons (Word.isBlank_of_char hbracket (by decide))
      (Word.not_isQuote_of_char hbracket (by decide)) hrest.blanks hrest.closed

theorem Compact.exists_concat (h : Compact (Symbol.chars symbols)) (hne : symbols ≠ []) :
    ∃ init last, symbols = init ++ [last] ∧ last.char ∉ groupSigns := by
  obtain ⟨init, last, rfl⟩ := (List.eq_nil_or_concat symbols).resolve_left hne
  rw [List.concat_eq_append, Symbol.chars_append] at h
  exact ⟨init, last, List.concat_eq_append, h.spelled.last_not_mem_groupSigns⟩

/-- Nothing is escaped after a word that does not end with a direction sign. -/
theorem Compact.escapedAfter_eq (h : Compact cs)
    (hunsigned : ∀ c ∈ cs.getLast?, c ∉ ['-', '^', '_']) : escapedAfter false cs = false := by
  rcases List.eq_nil_or_concat cs with rfl | ⟨init, c, rfl⟩
  · rfl
  · rw [List.concat_eq_append] at h hunsigned ⊢
    have hbackslash : c ≠ '\\' := by simpa using h.getLastD_ne (c := 'a') (by decide)
    have hsigns : c ∉ ['-', '^', '_'] := hunsigned c List.getLast?_concat
    simpa [escapedAfter, Symbol.escapes, hbackslash] using hsigns

theorem ne_nil_of_read {spelled : NoteWord} (h : NoteWord.read (Symbol.chars body) = .ok spelled) :
    body ≠ [] := by
  rintro rfl
  cases h

/-- A word is all of its piece, with the bracket of a chord before it or without. -/
theorem contents_front_append (hfront : ∀ bracket ∈ front, bracket.char = '<')
    (h : Compact (Symbol.chars body)) (hne : body ≠ []) :
    IsWord (front ++ body) ∧
      contents (front ++ body) = Word.eachAs .chordStart front ++ [(.word, body)] := by
  have hword : IsWord (front ++ body) := isWord_front_append hfront (h.isWord hne)
  have hspan : Word.spanChordEnd none false (body ++ []) = (body, []) :=
    Word.spanChordEnd_append_of_clean (h.spelled.chordBrackets_eq false) nofun
  obtain ⟨init, last, hlast, hunsigned⟩ := h.exists_concat hne
  have hparts := Word.parts_of_spelled hfront h.spelled hne hspan
    (by rw [List.append_nil, hlast]) hunsigned
  rw [List.append_nil] at hparts
  refine ⟨hword, ?_⟩
  rw [contents_of_isWord hword, hparts]
  simp [Word.wholeAs, hne]

/-- So is the last word of a chord up to the bracket that closes it. -/
theorem contents_front_append_close (hfront : ∀ bracket ∈ front, bracket.char = '<')
    (h : Compact (Symbol.chars body)) (hne : body ≠ [])
    (hunsigned : ∀ c ∈ (Symbol.chars body).getLast?, c ∉ ['-', '^', '_'])
    (hclose : close.char = '>') (hsuffix : Compact (Symbol.chars rest)) :
    IsWord (front ++ (body ++ close :: rest)) ∧
      contents (front ++ (body ++ close :: rest)) =
        Word.eachAs .chordStart front ++ [(.word, body), (.chordEnd, close :: rest)] := by
  have hclosed : IsWord (close :: rest) :=
    isWord_cons (Word.isBlank_of_char hclose (by decide))
      (Word.not_isQuote_of_char hclose (by decide)) hsuffix.blanksQuoted
      (by rw [quotedAfterAll_eq_quotedChars, hsuffix.spelled.quotedChars_eq])
  have hword : IsWord (front ++ (body ++ close :: rest)) :=
    isWord_front_append hfront (Gap.isWord_append (h.isWord hne) hclosed)
  have hspan : Word.spanChordEnd none false (body ++ close :: rest) = (body, close :: rest) :=
    Word.spanChordEnd_append_of_clean (h.spelled.chordBrackets_eq false) (by
      rintro _ ⟨⟩
      exact ⟨hclose, (h.isWord hne).closed, h.escapedAfter_eq hunsigned⟩)
  obtain ⟨init, last, hlast, hsign⟩ : ∃ init last, body ++ close :: rest = init ++ [last] ∧
      last.char ∉ groupSigns := by
    by_cases hnone : rest = []
    · exact ⟨body, close, by rw [hnone], by rw [hclose]; decide⟩
    · obtain ⟨init, last, rfl, hsign⟩ := hsuffix.exists_concat hnone
      exact ⟨body ++ close :: init, last, by simp, hsign⟩
  have hparts := Word.parts_of_spelled hfront h.spelled hne hspan hlast hsign
  refine ⟨hword, ?_⟩
  rw [contents_of_isWord hword, hparts]
  simp [Word.wholeAs, hne]

end Stave.Shorthand
