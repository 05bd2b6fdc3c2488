import Stave.Proofs.Repeat.Joined

/-!
# What repeats leave of quotes and chord brackets

A unit that is copied leaves no quotation open, so its copies leave none open either, and they
end with the same chord bracket as the unit, since what comes before a copy does not escape
it. Whether a line leaves a quotation open, and whether it leaves a chord open, can then be
told from the line after the passes as well as from the line before.
-/
namespace Stave.Shorthand

/-- A line that is written out keeps the quotation and the last chord bracket, from a given
state on. -/
structure Kept (escaped quoted : Bool) (line out : List Symbol) : Prop where
  quoted_eq : quotedAfterAll quoted out = quotedAfterAll quoted line
  last_eq : lastBracket escaped quoted out = lastBracket escaped quoted line
  blankNext : BlankNext line → BlankNext out
  nil : line = [] → out = []

variable {escaped escaped' quoted : Bool} {line out word text rest outRest : List Symbol}
  {symbol : Symbol}

theorem Kept.refl (escaped quoted : Bool) (line : List Symbol) : Kept escaped quoted line line :=
  ⟨rfl, rfl, id, id⟩

/-- A symbol that is copied keeps what the rest keeps. -/
theorem Kept.cons (h : Kept (Symbol.escapes symbol.char) (symbol.quotedAfter quoted) rest outRest) :
    Kept escaped quoted (symbol :: rest) (symbol :: outRest) := by
  refine ⟨h.quoted_eq, ?_, id, nofun⟩
  have hsplit (tail : List Symbol) : lastBracket escaped quoted (symbol :: tail) =
      (lastBracket (Symbol.escapes symbol.char) (symbol.quotedAfter quoted) tail).or
        (lastBracket escaped quoted [symbol]) :=
    lastBracket_append escaped quoted [symbol] tail
  rw [hsplit outRest, hsplit rest, h.last_eq]

/-- A word that is written out keeps what the rest keeps. -/
theorem Kept.append (hquoted : quotedAfterAll quoted text = quotedAfterAll quoted word)
    (hlast : lastBracket escaped quoted text = lastBracket escaped quoted word)
    (hword : ¬BlankNext word) (hrest : Kept escaped' false rest outRest)
    (hnext : BlankNext rest) (hend : rest = [] ∨ quotedAfterAll quoted word = false) :
    Kept escaped quoted (word ++ rest) (text ++ outRest) := by
  have hne : word ≠ [] := by
    rintro rfl
    exact hword blankNext_nil
  obtain ⟨head, tail, rfl⟩ := List.exists_cons_of_ne_nil hne
  refine ⟨?_, ?_, fun hblank => absurd hblank hword, nofun⟩
  · rcases hend with rfl | hclosed
    · rw [hrest.nil rfl, List.append_nil, List.append_nil, hquoted]
    · rw [quotedAfterAll_append, quotedAfterAll_append, hquoted, hclosed, hrest.quoted_eq]
  · rcases hend with rfl | hclosed
    · rw [hrest.nil rfl, List.append_nil, List.append_nil, hlast]
    · rw [lastBracket_append, lastBracket_append, hquoted, hclosed, hlast,
        lastBracket_of_blankNext (hrest.blankNext hnext) _ escaped',
        lastBracket_of_blankNext hnext _ escaped', hrest.last_eq]

namespace Repeat

variable {size count used offset : Nat} {unit digits chord tail suffix written symbols : List Symbol}
  {star : Symbol} {groups : List OpenGroup}

/-! ### Copies -/

theorem quotedAfterAll_space (offset : Nat) (symbols : List Symbol) :
    quotedAfterAll false (⟨' ', offset⟩ :: symbols) = quotedAfterAll false symbols := rfl

theorem quotedAfterAll_copies (hunit : quotedAfterAll false unit = false) :
    quotedAfterAll false (copies unit count offset) = false := by
  cases count with
  | zero => rfl
  | succ count =>
    rw [copies_succ, quotedAfterAll_append, hunit]
    induction count with
    | zero => rfl
    | succ count ih =>
      rw [List.replicate_succ, List.flatten_cons, List.cons_append, quotedAfterAll_space,
        quotedAfterAll_append, hunit, ih]

/-- Copies end with the last bracket of the unit. -/
theorem lastBracket_copies (hunit : quotedAfterAll false unit = false) (hcount : 0 < count) :
    lastBracket false false (copies unit count offset) = lastBracket false false unit := by
  obtain ⟨count, rfl⟩ : ∃ n, count = n + 1 := ⟨count - 1, by omega⟩
  have hor (found : Option Char) : found.or found = found := by cases found <;> rfl
  have hcopies (escaped : Bool) :
      (lastBracket escaped false
        (List.replicate count (⟨' ', offset⟩ :: unit)).flatten).or
          (lastBracket false false unit) = lastBracket false false unit := by
    induction count generalizing escaped with
    | zero => rfl
    | succ count ih =>
      rw [List.replicate_succ, List.flatten_cons, List.cons_append,
        lastBracket_cons_of_isBlank rfl, lastBracket_append, hunit, Option.or_assoc, hor]
      exact ih (by omega) _
  rw [copies_succ, lastBracket_append, hunit, hcopies]

/-- A star is found outside quotes. -/
theorem quotedAfterAll_of_splitLastStar
    (h : splitLastStar quoted symbols = some (unit, star, digits)) :
    quotedAfterAll quoted unit = false := by
  induction symbols generalizing quoted unit with
  | nil => cases h
  | cons symbol rest ih =>
    unfold splitLastStar at h
    split at h
    case h_1 found =>
      cases h
      rw [quotedAfterAll_cons]
      exact ih found
    case h_2 =>
      split at h
      case isTrue hstar =>
        cases h
        simp only [Bool.and_eq_true, Bool.not_eq_true'] at hstar
        exact hstar.2
      case isFalse => cases h

/-- The copies of a unit keep what the unit with its star and count has. -/
theorem kept_copies (hunit : quotedAfterAll false unit = false) (hstar : star.char = '*')
    (hcount : readWordCount star digits = .ok count) :
    quotedAfterAll false (copies unit count offset) =
        quotedAfterAll false (unit ++ star :: digits) ∧
      lastBracket false false (copies unit count offset) =
        lastBracket false false (unit ++ star :: digits) := by
  have hpos := (readCount_eq_ok (readWordCount_eq_ok hcount)).1
  have hall := mark_of_readWordCount hcount
  have hplain : ∀ c ∈ Symbol.chars (star :: digits), IsPlain c := by
    intro c hmem
    obtain ⟨mark, hmark, rfl⟩ := List.mem_map.1 hmem
    have hkind : mark.char = '*' ∨ mark.char.isDigit = true := by
      rcases List.mem_cons.1 hmark with rfl | hmark
      · exact .inl hstar
      · exact hall mark hmark
    refine ⟨?_, ?_, ?_⟩ <;> exact char_ne_of_mark hkind (by decide) (by decide)
  have hquotes : ∀ mark ∈ star :: digits, mark.isQuote = false := fun mark hmem =>
    beq_eq_false_iff_ne.2 (hplain mark.char (List.mem_map_of_mem hmem)).2.2
  constructor
  · rw [quotedAfterAll_copies hunit, quotedAfterAll_append, hunit,
      quotedAfterAll_of_not_isQuote hquotes]
  · have hnone (escaped : Bool) : lastBracket escaped false (star :: digits) = none := by
      rw [lastBracket, chordBrackets_eq_nil_of_isPlain hplain]
      rfl
    rw [lastBracket_copies hunit hpos, lastBracket_append, hunit, hnone, Option.none_or]

/-! ### The passes -/

theorem kept_writeWord {size' : Nat} (h : writeWord size word = .ok (size', text)) :
    quotedAfterAll false text = quotedAfterAll false word ∧
      lastBracket false false text = lastBracket false false word := by
  rcases writeWord_eq_ok h with
    ⟨-, rfl⟩ | ⟨unit, star, digits, count, hstar, -, hcount, rfl⟩
  · exact ⟨rfl, rfl⟩
  · obtain ⟨rfl, hchar⟩ := splitLastStar_eq_some hstar
    exact kept_copies (quotedAfterAll_of_splitLastStar hstar) hchar hcount

theorem kept_writeChord {size' : Nat} (hchord : quotedAfterAll false chord = false)
    (h : writeChord size chord tail = .ok (size', text)) :
    quotedAfterAll false text = quotedAfterAll false (chord ++ tail) ∧
      lastBracket false false text = lastBracket false false (chord ++ tail) := by
  rcases writeChord_eq_ok h with
    ⟨-, rfl⟩ | ⟨suffix, star, digits, count, hstar, hcount, rfl⟩
  · exact ⟨rfl, rfl⟩
  · obtain ⟨rfl, hchar⟩ := chordStar_eq_some hstar
    have hsuffix := quotedAfterAll_of_splitLastStar (Option.filter_eq_some_iff.1 hstar).1
    have hunit : quotedAfterAll false (chord ++ suffix) = false := by
      rw [quotedAfterAll_append, hchord, hsuffix]
    rw [← List.append_assoc]
    exact kept_copies hunit hchar hcount

theorem kept_writeWords (h : writeWords size written symbols = .ok out) :
    ∃ rest, out = written.reverse ++ rest ∧ Kept false false symbols rest := by
  fun_induction writeWords size written symbols with
  | case1 =>
    cases h
    exact ⟨[], (List.append_nil _).symm, Kept.refl _ _ _⟩
  | case2 size written symbol rest hblank ih =>
    obtain ⟨outRest, rfl, hkept⟩ := ih h
    refine ⟨symbol :: outRest, by simp, Kept.cons ?_⟩
    rwa [escapes_of_isBlank hblank, Symbol.quotedAfter, not_isQuote_of_isBlank hblank]
  | case3 => cases h
  | case4 size written symbol rest hblank tail size' text hwrite ih =>
    obtain ⟨outRest, rfl, hkept⟩ := ih h
    refine ⟨text ++ outRest, by simp, ?_⟩
    obtain ⟨hquoted, hlast⟩ := kept_writeWord hwrite
    have hend : tail.2 = [] ∨ quotedAfterAll false (symbol :: tail.1) = false :=
      (splitWord_rest (symbol.quotedAfter false) rest).imp_right And.left
    rw [← Symbol.splitWord_append (symbol.quotedAfter false) rest, ← List.cons_append]
    exact Kept.append hquoted hlast (fun hnext => hblank (hnext symbol rfl)) hkept
      (blankNext_splitWord _ _) hend

theorem kept_writeChords (h : writeChords size written quoted symbols = .ok out) :
    ∃ rest, out = written.reverse ++ rest ∧ Kept (escapedBy written) quoted symbols rest := by
  fun_induction writeChords size written quoted symbols with
  | case1 =>
    cases h
    exact ⟨[], (List.append_nil _).symm, Kept.refl _ _ _⟩
  | case2 size written quoted symbol rest hfound ih =>
    obtain ⟨outRest, rfl, hkept⟩ := ih h
    exact ⟨symbol :: outRest, by simp, Kept.cons hkept⟩
  | case3 => cases h
  | case4 size written quoted symbol rest body after hfound word size' text hwrite ih =>
    obtain ⟨outRest, rfl, hkept⟩ := ih h
    refine ⟨text ++ outRest, by simp, ?_⟩
    obtain ⟨hchar, hquoted, hfree, hbody⟩ := chordAt?_opens hfound
    obtain rfl := chordAt?_eq_some hfound
    subst hquoted
    obtain ⟨hsame, hlast⟩ := kept_writeChord hbody hwrite
    rw [← Symbol.splitWord_append false after, ← List.append_assoc, ← List.cons_append,
      ← List.cons_append, hfree]
    refine Kept.append hsame hlast ?_ hkept (blankNext_splitWord _ _) ?_
    · intro hnext
      have hblank : Text.isBlank symbol.char = true := hnext symbol rfl
      rw [hchar] at hblank
      cases hblank
    · rw [List.cons_append, ← List.cons_append, quotedAfterAll_append, hbody]
      exact (splitWord_rest false after).imp_right And.left

theorem quotedAfterAll_trimOne (symbols : List Symbol) :
    quotedAfterAll quoted (trimOne symbols) = quotedAfterAll quoted symbols := by
  obtain ⟨front, back, heq, hfront, hback⟩ := exists_trimOne_eq symbols
  have hsame := congrArg (quotedAfterAll quoted) heq
  rw [quotedAfterAll_append, quotedAfterAll_append, quotedAfterAll_of_isBlank hfront,
    quotedAfterAll_of_isBlank hback] at hsame
  exact hsame.symm

/-- A group opens and closes outside quotes, so the quotation is that of the line. -/
theorem quotedAfterAll_of_writeGroups
    (hgroups : ∀ group ∈ groups, quotedAfterAll false group.before.reverse = false)
    (hwritten : quotedAfterAll false written.reverse = quoted)
    (h : writeGroups size groups written quoted symbols = .ok out) :
    quotedAfterAll false out = quotedAfterAll quoted symbols := by
  have hcons (symbol : Symbol) (written : List Symbol) :
      quotedAfterAll false (symbol :: written).reverse =
        symbol.quotedAfter (quotedAfterAll false written.reverse) := by
    rw [List.reverse_cons, quotedAfterAll_append]
    rfl
  fun_induction writeGroups size groups written quoted symbols with
  | case1 =>
    cases h
    exact hwritten
  | case2 => cases h
  | case3 size groups written quoted symbol rest hquote ih =>
    exact ih hgroups (by rw [hcons, hwritten]) h
  | case4 size groups written quoted symbol rest hquote hopen ih =>
    have hplain : symbol.isQuote = false ∧ quoted = false := by simpa using hquote
    rw [quotedAfterAll_cons, Symbol.quotedAfter, hplain.1, hplain.2]
    exact ih (List.forall_mem_cons.2 ⟨hwritten.trans hplain.2, hgroups⟩) rfl h
  | case5 => cases h
  | case6 size written quoted symbol rest hquote hopen hclose group outer error hgroup =>
    rw [List.unattach_reverse, List.unattach_attach] at hgroup
    simp [hgroup] at h
  | case7 size written quoted symbol rest hquote hopen hclose group outer size' text used hgroup ih =>
    rw [List.unattach_reverse, List.unattach_attach] at hgroup
    simp only [hgroup] at h
    have hplain : symbol.isQuote = false ∧ quoted = false := by simpa using hquote
    obtain ⟨hbefore, houter⟩ := List.forall_mem_cons.1 hgroups
    obtain ⟨-, count, hcount, rfl⟩ := closeGroup_eq_ok hgroup
    have hunit : quotedAfterAll false (trimOne written.reverse) = false := by
      rw [quotedAfterAll_trimOne, hwritten, hplain.2]
    have hnext := ih houter (by
      rw [List.reverse_append, List.reverse_reverse, quotedAfterAll_append, hbefore,
        quotedAfterAll_copies hunit]) h
    rw [hnext, quotedAfterAll_drop_of_readCount hcount, quotedAfterAll_cons, Symbol.quotedAfter,
      hplain.1, hplain.2]
    rfl
  | case8 size groups written quoted symbol rest hquote hopen hclose ih =>
    have hplain : symbol.isQuote = false ∧ quoted = false := by simpa using hquote
    rw [quotedAfterAll_cons, Symbol.quotedAfter, hplain.1, hplain.2]
    exact ih hgroups (by rw [hcons, hwritten, Symbol.quotedAfter, hplain.1, hplain.2]; rfl) h

end Repeat

end Stave.Shorthand
