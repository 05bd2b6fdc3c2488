import Stave.Proofs.Repeat.Requoted

/-!
# Repeated chords and quotes

The pass over chords takes the last star of a word for its own even if that one is quoted, and
then leaves alone a star before it that is not; where the quoted text has no star, it reads a
count after the first one. But a quote stands between the two, so that count does not end its
word: there the pass fails, or it leaves a star at which the pass over words must fail. So the two
passes together write out requoted lines alike.
-/
namespace Stave.Shorthand

namespace Repeat

variable {paired : Symbol → Symbol → Prop} {quoted : Bool} {size count : Nat}
  {symbols symbols' unit rest rest' written written' word tail tail' digits chord chord' line
    line' before text : List Symbol}
  {symbol symbol' star star' : Symbol} {previous previous' : Char}

/-! ### Chords -/

/-- A chord is cut off at the same place. -/
def SameChord (paired : Symbol → Symbol → Prop) (quoted : Bool)
    (cut cut' : List Symbol × List Symbol) : Prop :=
  Requoted paired quoted cut.1 cut'.1 ∧ Requoted paired false cut.2 cut'.2

theorem rel_splitChord (h : Requoted paired quoted symbols symbols')
    (hprevious : quoted = false → Symbol.escapes previous' = Symbol.escapes previous) :
    Option.Rel (SameChord paired quoted) (splitChord previous quoted symbols)
      (splitChord previous' quoted symbols') := by
  induction h generalizing previous previous' with
  | nil => exact .none
  | @cons quoted symbol symbol' rest rest' pair quote plain h ih =>
    have hquoted := quotedAfter_eq_of_isQuote quote quoted
    have hbracket (c : Char) : (!quoted && !Symbol.escapes previous' && symbol'.char = c) =
        (!quoted && !Symbol.escapes previous && symbol.char = c) := by
      cases quoted with
      | true => rfl
      | false => rw [hprevious rfl, plain rfl]
    rw [splitChord, splitChord, hquoted]
    simp only [hbracket]
    split
    · exact .none
    split
    case isTrue hcloses =>
      simp only [Bool.and_eq_true, Bool.not_eq_true', decide_eq_true_eq] at hcloses
      obtain ⟨⟨rfl, -⟩, hchar⟩ := hcloses
      have hplain := quotedAfter_of_char false hchar (by decide)
      exact .some ⟨.cons pair quote plain .nil, hplain ▸ h⟩
    case isFalse =>
      -- the bracket that closes is looked for after the symbol, which escapes it or not
      have hcut := @ih symbol.char symbol'.char fun hclosed =>
        congrArg Symbol.escapes (Requoted.char_eq_of_quotedAfter quote plain hclosed)
      generalize splitChord symbol.char (symbol.quotedAfter quoted) rest = found at hcut ⊢
      generalize splitChord symbol'.char (symbol.quotedAfter quoted) rest' = found' at hcut ⊢
      cases hcut with
      | none => exact .none
      | some hsame => exact .some ⟨.cons pair quote plain hsame.1, hsame.2⟩

/-- A text that leaves no quotation open escapes what comes next in both lines, or in neither. -/
theorem escapedBy_eq (hwritten : Requoted paired false written.reverse written'.reverse)
    (hclosed : quotedAfterAll false written.reverse = false) :
    escapedBy written' = escapedBy written := by
  have hlast := hwritten.getLast?_eq hclosed
  rw [List.getLast?_reverse, List.getLast?_reverse] at hlast
  have hescapes (text : List Symbol) :
      escapedBy text = ((text.head?.map Symbol.char).map Symbol.escapes).getD false := by
    rw [escapedBy, Option.map_map]
    rfl
  rw [hescapes, hescapes, hlast]

theorem rel_chordAt? (plain : quoted = false → symbol'.char = symbol.char)
    (hwritten : Requoted paired false written.reverse written'.reverse)
    (hquoted : quotedAfterAll false written.reverse = quoted)
    (h : Requoted paired (symbol.quotedAfter quoted) rest rest') :
    Option.Rel (SameChord paired false) (chordAt? written quoted symbol rest)
      (chordAt? written' quoted symbol' rest') := by
  have hopens : (symbol'.char = '<' && !quoted && !escapedBy written') =
      (symbol.char = '<' && !quoted && !escapedBy written) := by
    cases quoted with
    | true => simp
    | false => rw [plain rfl, escapedBy_eq hwritten hquoted]
  unfold chordAt?
  dsimp only
  rw [← escapedBy, ← escapedBy, hopens]
  split
  case isFalse => exact .none
  case isTrue hstart =>
    simp only [Bool.and_eq_true, Bool.not_eq_true', decide_eq_true_eq] at hstart
    obtain ⟨⟨hchar, rfl⟩, -⟩ := hstart
    have hplain := quotedAfter_of_char false hchar (by decide)
    exact rel_splitChord (hplain ▸ h) fun _ => congrArg Symbol.escapes (plain rfl)

/-- No quote stands after the last star of a text that is outside quotes. -/
def CountUnquoted (tail : List Symbol) : Prop :=
  ∀ suffix star digits, splitLastStar false tail = some (suffix, star, digits) →
    ∀ digit ∈ digits, digit.isQuote = false

theorem countUnquoted_of_requoted (h : Requoted paired false tail tail')
    (hcount : CountUnquoted tail') : CountUnquoted tail := by
  intro suffix star digits hsplit digit hmem
  have hrel := rel_splitLastStar h
  rw [hsplit] at hrel
  generalize hsplit' : splitLastStar false tail' = found' at hrel
  cases hrel with
  | @some _ cut' hcut =>
    have hnone := hcount _ _ _ hsplit'
    rw [Bool.eq_false_iff]
    intro hquote
    obtain ⟨digit', hmem', hquote'⟩ := hcut.2.2.exists_isQuote_iff.2 ⟨digit, hmem, hquote⟩
    rw [hnone digit' hmem'] at hquote'
    cases hquote'

theorem rel_chordStar (h : Requoted paired false tail tail') (hcount : CountUnquoted tail) :
    Option.Rel (SameStar paired false) (chordStar tail) (chordStar tail') := by
  have hcut := rel_splitLastStar h
  unfold CountUnquoted at hcount
  unfold chordStar
  generalize splitLastStar false tail = found at hcut hcount ⊢
  generalize splitLastStar false tail' = found' at hcut ⊢
  cases hcut with
  | none => exact .none
  | @some cut cut' hsame =>
    obtain ⟨suffix, star, digits⟩ := cut
    obtain ⟨suffix', star', digits'⟩ := cut'
    have hchars := hsame.2.2.chars_eq (hcount suffix star digits rfl)
    have hall (symbols : List Symbol) :
        symbols.all (·.char != '*') = (Symbol.chars symbols).all (· != '*') := by
      rw [Symbol.chars, List.all_map]
      rfl
    dsimp only at hchars
    simp only [Option.filter_some, hall, hchars]
    split
    · exact .some hsame
    · exact .none

theorem agree_writeChord (size : Nat) (hjoints : PairsJoints paired)
    (hchord : Requoted paired false chord chord') (hclosed : quotedAfterAll false chord = false)
    (h : Requoted paired false tail tail') (hcount : CountUnquoted tail) :
    Agree (SameWritten paired) (writeChord size chord tail) (writeChord size chord' tail') := by
  have hcut := rel_chordStar h hcount
  have hsuffix (suffix star digits) (hstar : chordStar tail = some (suffix, star, digits)) :=
    quotedAfterAll_of_splitLastStar (Option.filter_eq_some_iff.1 hstar).1
  unfold writeChord
  generalize chordStar tail = found at hcut hsuffix ⊢
  generalize chordStar tail' = found' at hcut ⊢
  cases hcut with
  | none => exact .ok ⟨rfl, hchord.append (by rwa [hclosed])⟩
  | @some cut cut' hsame =>
    obtain ⟨suffix, star, digits⟩ := cut
    obtain ⟨suffix', star', digits'⟩ := cut'
    obtain ⟨hunit, hstar, hdigits⟩ := hsame
    dsimp only at hunit hstar hdigits ⊢
    have hcopied : Requoted paired false (chord ++ suffix) (chord' ++ suffix') :=
      hchord.append (by rwa [hclosed])
    rw [hchord.length_eq, h.length_eq, hcopied.length_eq]
    refine (agree_readWordCount star star' hdigits).bind ?_
    rintro count - rfl
    refine (agree_grow ..).bind ?_
    rintro grown - rfl
    refine .ok ⟨rfl, requoted_copies hjoints hstar hcopied ?_ count⟩
    rw [quotedAfterAll_append, hclosed, hsuffix suffix star digits rfl]

/-! ### Chords and then words -/

/-- No star stands outside quotes after the last one. -/
theorem not_mem_of_splitLastStar (h : splitLastStar quoted symbols = some (before, star, digits)) :
    '*' ∉ unquoted false (Symbol.chars digits) := by
  induction symbols generalizing quoted before with
  | nil => cases h
  | cons symbol rest ih =>
    unfold splitLastStar at h
    split at h
    case h_1 found =>
      cases h
      exact ih found
    case h_2 hnone =>
      split at h
      case isTrue hstar =>
        cases h
        simp only [Bool.and_eq_true, decide_eq_true_eq, Bool.not_eq_true'] at hstar
        obtain ⟨hchar, rfl⟩ := hstar
        rw [quotedAfter_of_char false hchar (by decide)] at hnone
        exact splitLastStar_eq_none_iff.1 hnone
      case isFalse => cases h

/-- A star whose word goes on with no other star outside quotes, but with a quote, before what
comes after the word. -/
structure QuotedCount (star : Symbol) (digits rest : List Symbol) : Prop where
  star_eq : star.char = '*'
  last : '*' ∉ unquoted false (Symbol.chars digits)
  quote : ∃ digit ∈ digits, digit.isQuote = true
  blanksQuoted : BlanksQuoted false digits
  ends : rest = [] ∨ quotedAfterAll false digits = false
  blankNext : BlankNext rest

/-- A line has such a star outside quotes. -/
def HasQuotedCount (line : List Symbol) : Prop :=
  ∃ before star digits rest, line = before ++ star :: (digits ++ rest) ∧
    quotedAfterAll false before = false ∧ QuotedCount star digits rest

/-- A count with a quote is not read. -/
theorem not_isQuote_of_readWordCount (h : readWordCount star digits = .ok count) :
    ¬∃ digit ∈ digits, digit.isQuote = true := by
  rintro ⟨digit, hmem, hquote⟩
  rw [not_isQuote_of_mark (mark_of_readWordCount h digit hmem)] at hquote
  cases hquote

/-- A word goes on with such a star up to where the count ends. -/
theorem QuotedCount.splitWord (h : QuotedCount star digits rest)
    (hbefore : BlanksQuoted false before) (hclosed : quotedAfterAll false before = false) :
    Symbol.splitWord false (before ++ star :: (digits ++ rest)) =
      (before ++ star :: digits, rest) := by
  have hplain := quotedAfter_of_char false h.star_eq (by decide)
  have hquoted : quotedAfterAll false (before ++ star :: digits) = quotedAfterAll false digits := by
    rw [quotedAfterAll_append, hclosed, quotedAfterAll_cons, hplain]
  have hwhole : BlanksQuoted false (before ++ star :: digits) := by
    refine blanksQuoted_append.2 ⟨hbefore, ?_⟩
    rw [hclosed]
    refine ⟨fun hblank => ?_, by rw [hplain]; exact h.blanksQuoted⟩
    rw [Symbol.isBlank, h.star_eq] at hblank
    cases hblank
  have hends := h.ends
  rw [← hquoted] at hends
  have hcut := splitWord_append_of_blanksQuoted hwhole hends h.blankNext
  rwa [List.append_assoc, List.cons_append] at hcut

/-- A word with such a star is not written out. -/
theorem QuotedCount.writeWord_ne_ok (h : QuotedCount star digits rest)
    (hclosed : quotedAfterAll false before = false) (result : Nat × List Symbol) :
    writeWord size (before ++ star :: digits) ≠ .ok result := by
  intro hwrite
  have hfound := splitLastStar_append hclosed h.star_eq h.last
  rcases writeWord_eq_ok hwrite with ⟨hnone, -⟩ | ⟨unit, star', digits', count, hsome, -, hread, -⟩
  · rw [hfound] at hnone
    cases hnone
  · rw [hfound] at hsome
    cases hsome
    exact not_isQuote_of_readWordCount hread h.quote

/-- So the pass over words fails where there is one. -/
theorem writeWords_ne_ok (h : HasQuotedCount symbols) :
    writeWords size written symbols ≠ .ok text := by
  intro hwritten
  fun_induction writeWords size written symbols with
  | case1 =>
    obtain ⟨before, star, digits, rest, heq, -⟩ := h
    simp at heq
  | case2 size written symbol rest hblank ih =>
    obtain ⟨before, star, digits, after, heq, hclosed, hcount⟩ := h
    cases before with
    | nil =>
      obtain ⟨rfl, -⟩ := List.cons.inj heq
      rw [Symbol.isBlank, hcount.star_eq] at hblank
      cases hblank
    | cons first before =>
      obtain ⟨rfl, rfl⟩ := List.cons.inj heq
      refine ih ⟨before, star, digits, after, rfl, ?_, hcount⟩ hwritten
      rwa [quotedAfterAll_cons, Symbol.quotedAfter, not_isQuote_of_isBlank hblank] at hclosed
  | case3 => cases hwritten
  | case4 size written symbol rest hblank tail size' text =>
    rename_i hwrite ih
    obtain ⟨before, star, digits, after, heq, hclosed, hcount⟩ := h
    have hrest := splitWord_rest (symbol.quotedAfter false) rest
    have hsplit := Symbol.splitWord_append (symbol.quotedAfter false) rest
    rw [← hsplit, ← List.cons_append] at heq
    rcases List.append_eq_append_iff.1 heq with ⟨more, rfl, hmore⟩ | ⟨more, hbefore, hmore⟩
    · -- the star stands after this word
      refine ih ⟨more, star, digits, after, hmore, ?_, hcount⟩ hwritten
      have hends : quotedAfterAll false (symbol :: tail.1) = false :=
        (hrest.resolve_left (by rw [hmore]; simp)).1
      rwa [quotedAfterAll_append, hends] at hclosed
    cases more with
    | nil =>
      rw [List.nil_append] at hmore
      obtain ⟨-, blank, others, hcons, hblank⟩ := hrest.resolve_left (by rw [← hmore]; simp)
      rw [← hmore] at hcons
      obtain ⟨rfl, -⟩ := List.cons.inj hcons
      rw [Symbol.isBlank, hcount.star_eq] at hblank
      cases hblank
    | cons other more =>
      -- all before the star is in this word, so the word goes on as far as the count does
      rw [List.cons_append, hsplit] at heq
      have hwhole := blanksQuoted_splitWord false (symbol :: rest)
      rw [splitWord_cons hblank, hbefore, blanksQuoted_append] at hwhole
      have hcut := hcount.splitWord hwhole.1 hclosed
      rw [← heq, splitWord_cons hblank] at hcut
      rw [show symbol :: tail.1 = before ++ star :: digits from congrArg Prod.fst hcut] at hwrite
      exact hcount.writeWord_ne_ok hclosed _ hwrite

/-- So a chord whose count has a quote is not written out: the pass over chords fails, or it leaves
the star for the pass over words to fail at. -/
theorem writeChords_bind_ne_ok {body after : List Symbol}
    (hclosed : quotedAfterAll false written.reverse = false)
    (hfound : chordAt? written quoted symbol rest = some (body, after))
    (hcount : ¬CountUnquoted (Symbol.splitWord false after).1) :
    (writeChords size written quoted (symbol :: rest) >>= expandWords) ≠ .ok text := by
  intro h
  obtain ⟨chorded, hchords, hwords⟩ := bind_ok_iff.1 h
  rw [writeChords_some hfound] at hchords
  obtain ⟨⟨size', copied⟩, hwrite, hchords⟩ := bind_ok_iff.1 hchords
  obtain ⟨-, rfl, -, hbody⟩ := chordAt?_opens hfound
  unfold CountUnquoted at hcount
  push Not at hcount
  obtain ⟨suffix, star, digits, hsplit, digit, hmem, hquote⟩ := hcount
  have hquote : ∃ digit ∈ digits, digit.isQuote = true := ⟨digit, hmem, by simpa using hquote⟩
  rcases writeChord_eq_ok hwrite with ⟨-, rfl⟩ | ⟨unit, star', digits', count, hstar, hread, -⟩
  · obtain ⟨others, rfl, hkept⟩ := kept_writeChords hchords
    obtain ⟨hword, hchar⟩ := splitLastStar_eq_some hsplit
    have hsuffix := quotedAfterAll_of_splitLastStar hsplit
    have hplain := quotedAfter_of_char false hchar (by decide)
    have hblanks := blanksQuoted_splitWord false after
    have hends := splitWord_rest false after
    rw [hword, quotedAfterAll_append, hsuffix, quotedAfterAll_cons, hplain] at hends
    rw [hword, blanksQuoted_append, hsuffix, BlanksQuoted, hplain] at hblanks
    have hquoted : QuotedCount star digits others :=
      ⟨hchar, not_mem_of_splitLastStar hsplit, hquote, hblanks.2.2, hends.imp hkept.nil And.left,
        hkept.blankNext (blankNext_splitWord false after)⟩
    refine writeWords_ne_ok
      ⟨written.reverse ++ (symbol :: body ++ suffix), star, digits, others, ?_, ?_, hquoted⟩ hwords
    · rw [hword]
      simp
    · rw [quotedAfterAll_append, hclosed, quotedAfterAll_append, hbody, hsuffix]
  · have hsame := (Option.filter_eq_some_iff.1 hstar).1
    rw [hsplit] at hsame
    cases hsame
    exact not_isQuote_of_readWordCount hread hquote

/-- A chord and its word are written out alike, if what comes after them is. -/
theorem agree_chord {body after : List Symbol} (hjoints : PairsJoints paired)
    (hwritten : Requoted paired false written.reverse written'.reverse)
    (hclosed : quotedAfterAll false written.reverse = quoted)
    (hfound : chordAt? written quoted symbol rest = some (body, after))
    (h : Requoted paired quoted (symbol :: rest) symbols')
    (hnext : ∀ size' text text' others,
      writeChord size (symbol :: body) (Symbol.splitWord false after).1 = .ok (size', text) →
      Requoted paired false text text' →
      Requoted paired false (Symbol.splitWord false after).2 others →
      Agree (Requoted paired false)
        (writeChords size' (text.reverse ++ written) false (Symbol.splitWord false after).2 >>=
          expandWords)
        (writeChords size' (text'.reverse ++ written') false others >>= expandWords)) :
    Agree (Requoted paired false) (writeChords size written quoted (symbol :: rest) >>= expandWords)
      (writeChords size written' quoted symbols' >>= expandWords) := by
  obtain ⟨hchar, rfl, -, hbody⟩ := chordAt?_opens hfound
  cases h with
  | @cons _ _ symbol' _ rest' pair quote plain hrest =>
    have hrel := rel_chordAt? plain hwritten hclosed hrest
    rw [hfound] at hrel
    generalize hfound' : chordAt? written' false symbol' rest' = found' at hrel
    cases hrel with
    | @some _ cut' hcut =>
      obtain ⟨body', after'⟩ := cut'
      have hplain := quotedAfter_of_char false hchar (by decide)
      have hchord : Requoted paired false (symbol :: body) (symbol' :: body') :=
        .cons pair quote plain (by rw [hplain]; exact hcut.1)
      have hword := hcut.2.splitWord
      by_cases hcount : CountUnquoted (Symbol.splitWord false after).1
      · rw [writeChords_some hfound, writeChords_some hfound', bind_assoc, bind_assoc]
        have hwrite := agree_writeChord size hjoints hchord hbody hword.1 hcount
        generalize writeChord size (symbol :: body) _ = result at hwrite hnext ⊢
        generalize writeChord size (symbol' :: body') _ = result' at hwrite ⊢
        cases hwrite with
        | error => exact .error
        | @ok copied copied' hsame =>
          obtain ⟨grown, text⟩ := copied
          obtain ⟨grown', text'⟩ := copied'
          obtain ⟨rfl, htext⟩ := hsame
          exact hnext _ text text' _ rfl htext hword.2
      · refine .of_ne_ok (fun _ => writeChords_bind_ne_ok hclosed hfound hcount) fun _ =>
          writeChords_bind_ne_ok ?_ hfound' (mt (countUnquoted_of_requoted hword.1) hcount)
        rw [hwritten.quotedAfterAll_eq, hclosed]

/-- The passes over chords and words write out requoted lines alike. -/
theorem agree_writeChords (hjoints : PairsJoints paired)
    (hwritten : Requoted paired false written.reverse written'.reverse)
    (hclosed : symbols ≠ [] → quotedAfterAll false written.reverse = quoted)
    (h : Requoted paired quoted symbols symbols') :
    Agree (Requoted paired false) (writeChords size written quoted symbols >>= expandWords)
      (writeChords size written' quoted symbols' >>= expandWords) := by
  induction size, written, quoted, symbols using writeChords.induct generalizing written'
    symbols' with
  | case1 =>
    cases h
    rw [writeChords, writeChords]
    exact agree_expandWords hjoints hwritten
  | case2 size written quoted symbol rest hfound ih =>
    have hopen := hclosed (List.cons_ne_nil _ _)
    cases h with
    | @cons _ _ symbol' _ rest' pair quote plain hrest =>
      have hsame := quotedAfter_eq_of_isQuote quote quoted
      have hrel := rel_chordAt? plain hwritten hopen hrest
      rw [hfound] at hrel
      generalize hfound' : chordAt? written' quoted symbol' rest' = found' at hrel
      cases hrel
      rw [writeChords_none hfound, writeChords_none hfound', hsame]
      refine ih ?_ (fun _ => ?_) hrest
      · rw [List.reverse_cons, List.reverse_cons]
        refine hwritten.append (.cons pair quote ?_ .nil)
        rwa [hopen]
      · rw [List.reverse_cons, quotedAfterAll_append, hopen]
        rfl
  | case3 size written quoted symbol rest body after hfound word failure =>
    rename_i hwrite
    refine agree_chord hjoints hwritten (hclosed (List.cons_ne_nil _ _)) hfound h ?_
    intro size' text text' others hok
    rw [hwrite] at hok
    cases hok
  | case4 size written quoted symbol rest body after hfound word size' text =>
    rename_i hwrite ih
    have hopen := hclosed (List.cons_ne_nil _ _)
    refine agree_chord hjoints hwritten hopen hfound h ?_
    intro grown copied copied' others hok hcopied hothers
    rw [hwrite] at hok
    cases hok
    obtain ⟨-, rfl, -, hbody⟩ := chordAt?_opens hfound
    refine ih ?_ (fun hne => ?_) hothers
    · rw [List.reverse_append, List.reverse_append, List.reverse_reverse, List.reverse_reverse]
      refine hwritten.append ?_
      rwa [hopen]
    · rw [List.reverse_append, List.reverse_reverse, quotedAfterAll_append, hopen,
        (kept_writeChord hbody hwrite).1, quotedAfterAll_append, hbody]
      exact ((splitWord_rest false after).resolve_left hne).1

end Repeat

/-- Requoted lines are expanded alike. -/
theorem agree_expandSymbols {paired : Symbol → Symbol → Prop} {line line' : List Symbol}
    (hjoints : Repeat.PairsJoints paired) (h : Requoted paired false line line') :
    Agree (Requoted paired false) (expandSymbols line) (expandSymbols line') := by
  unfold expandSymbols Repeat.expandGroups
  rw [h.length_eq]
  refine (Repeat.agree_writeGroups line.length hjoints .nil Repeat.groupsOpen_nil .nil h).bind ?_
  intro grouped grouped' hgrouped
  rw [Repeat.expandChords, Repeat.expandChords, hgrouped.length_eq]
  exact Repeat.agree_writeChords hjoints .nil (fun _ => rfl) hgrouped

end Stave.Shorthand
