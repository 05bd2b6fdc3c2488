import Mathlib.Data.Option.Defs
import Stave.Proofs.Repeat.Unquoted
import Stave.Proofs.Symbol.Requoted

/-!
# Repeats do not look into quotes

A pass looks for its signs outside quotes only, so it writes out requoted lines alike: from the
same places, and if it fails on one it fails on the other. So it is for the passes over groups and
words; chords are a matter of their own.
-/
namespace Stave.Shorthand

namespace Repeat

variable {paired : Symbol → Symbol → Prop} {quoted : Bool} {size count : Nat}
  {symbols symbols' unit unit' raw raw' rest rest' written written' word digits digits'
    line line' before text : List Symbol}
  {bracket bracket' close close' symbol symbol' star star' : Symbol}
  {groups groups' : List OpenGroup}

/-- The spaces that join copies are paired if the signs that ask for them are. -/
def PairsJoints (paired : Symbol → Symbol → Prop) : Prop :=
  ∀ sign sign', paired sign sign' → paired ⟨' ', sign.origin⟩ ⟨' ', sign'.origin⟩

/-! ### Counts and copies -/

/-- A count is read off stars and digits that are not quoted. -/
theorem agree_readCount (h : Requoted paired false symbols symbols') (offset offset' : Nat) :
    Agree Eq (readCount offset symbols) (readCount offset' symbols') := by
  have hstarred : (symbols'.head?.map (·.char == '*')).getD false =
      (symbols.head?.map (·.char == '*')).getD false := by
    cases h with
    | nil => rfl
    | cons pair quote plain rest => simp [plain rfl]
  have hafter : Requoted paired false
      (if (symbols.head?.map (·.char == '*')).getD false = true then symbols.drop 1 else symbols)
      (if (symbols.head?.map (·.char == '*')).getD false = true then symbols'.drop 1
        else symbols') := by
    split
    case isFalse => exact h
    case isTrue hstar =>
      cases h with
      | nil => exact .nil
      | @cons _ symbol symbol' _ _ pair quote plain rest =>
        have hplain : symbol.quotedAfter false = false := by
          have hchar : symbol.char = '*' := by simpa using hstar
          simp [Symbol.quotedAfter, Symbol.isQuote, hchar]
        rwa [hplain] at rest
  have hdigits := hafter.takeWhile (p := Char.isDigit) rfl
  unfold readCount
  dsimp only
  rw [hstarred]
  generalize (symbols.head?.map (·.char == '*')).getD false = starred at hafter hdigits ⊢
  generalize (if starred = true then symbols.drop 1 else symbols).takeWhile (·.char.isDigit) =
    digits at hdigits ⊢
  generalize (if starred = true then symbols'.drop 1 else symbols').takeWhile (·.char.isDigit) =
    digits' at hdigits ⊢
  have hlength : digits'.length = digits.length := by
    simpa [Symbol.chars] using congrArg List.length hdigits
  have hempty : digits'.isEmpty = digits.isEmpty := by
    rw [Bool.eq_iff_iff, List.isEmpty_iff_length_eq_zero, hlength, List.isEmpty_iff_length_eq_zero]
  rw [hdigits, hlength, hempty]
  repeat' split
  all_goals first | exact .error | exact .ok rfl

theorem agree_grow (kept unit count offset offset' : Nat) :
    Agree Eq (grow kept unit count offset) (grow kept unit count offset') := by
  unfold grow
  dsimp only
  split
  · exact .error
  · exact .ok rfl

/-- A count that ends a word is read in both lines, or in neither. -/
theorem agree_readWordCount (star star' : Symbol) (h : Requoted paired false digits digits') :
    Agree Eq (readWordCount star digits) (readWordCount star' digits') := by
  refine (agree_readCount h _ _).bind ?_
  rintro ⟨count, used⟩ - rfl
  dsimp only
  rw [h.length_eq]
  split
  · exact .ok rfl
  · exact .error

theorem requoted_trimFront (h : Requoted paired false line line') :
    Requoted paired false (trimFront line) (trimFront line') := by
  cases h with
  | nil => exact .nil
  | @cons _ symbol symbol' _ _ pair quote plain rest =>
    have hsame : symbol'.isBlank = symbol.isBlank := congrArg Text.isBlank (plain rfl)
    rw [trimFront, trimFront, hsame]
    split
    case isTrue hblank =>
      rwa [Symbol.quotedAfter, not_isQuote_of_isBlank hblank] at rest
    case isFalse => exact .cons pair quote plain rest

theorem quotedAfterAll_trimFront (line : List Symbol) :
    quotedAfterAll quoted (trimFront line) = quotedAfterAll quoted line := by
  cases line with
  | nil => rfl
  | cons symbol rest =>
    rw [trimFront]
    split
    case isTrue hblank =>
      rw [quotedAfterAll_cons, Symbol.quotedAfter, not_isQuote_of_isBlank hblank, Bool.bne_false]
    case isFalse => rfl

theorem requoted_trimBack (h : Requoted paired quoted line line')
    (hclosed : quotedAfterAll quoted line = false) :
    Requoted paired quoted (trimBack line) (trimBack line') := by
  have hlast := h.getLast?_eq hclosed
  rcases List.eq_nil_or_concat line with rfl | ⟨init, last, rfl⟩
  · cases h
    exact .nil
  rw [List.concat_eq_append] at h hclosed hlast ⊢
  obtain ⟨before, after, rfl, hbefore, hafter⟩ := h.exists_of_append
  cases hafter with
  | @cons _ _ last' _ _ pair quote plain rest =>
    cases rest
    have hsame : last'.isBlank = last.isBlank := congrArg Text.isBlank (by simpa using hlast)
    rw [trimBack_concat, trimBack_concat, hsame]
    split
    · exact hbefore
    · exact h

/-- Dropping a blank at each end drops the same. -/
theorem requoted_trimOne (h : Requoted paired false line line')
    (hclosed : quotedAfterAll false line = false) :
    Requoted paired false (trimOne line) (trimOne line') := by
  rw [trimOne_eq, trimOne_eq]
  exact requoted_trimBack (requoted_trimFront h) (by rwa [quotedAfterAll_trimFront])

theorem requoted_copies (hjoints : PairsJoints paired) (hstar : paired star star')
    (hunit : Requoted paired false unit unit') (hclosed : quotedAfterAll false unit = false)
    (count : Nat) :
    Requoted paired false (copies unit count star.origin) (copies unit' count star'.origin) := by
  cases count with
  | zero => exact .nil
  | succ count =>
    rw [copies_succ, copies_succ]
    refine hunit.append ?_
    rw [hclosed]
    induction count with
    | zero => exact .nil
    | succ count ih =>
      rw [List.replicate_succ, List.replicate_succ, List.flatten_cons, List.flatten_cons,
        List.cons_append, List.cons_append]
      refine .cons (hjoints star star' hstar) rfl (fun _ => rfl) (hunit.append ?_)
      rwa [hclosed]

/-! ### Groups -/

/-- Two groups that close come to the same length of the line, to requoted copies, and to counts
of the same length. -/
def SameGroup (paired : Symbol → Symbol → Prop) (closed closed' : Nat × List Symbol × Nat) : Prop :=
  closed'.1 = closed.1 ∧ Requoted paired false closed.2.1 closed'.2.1 ∧ closed'.2.2 = closed.2.2

theorem agree_closeGroup (size : Nat) (bracket bracket' : Symbol) (hjoints : PairsJoints paired)
    (hclose : paired close close')
    (hraw : Requoted paired false raw raw') (hclosed : quotedAfterAll false raw = false)
    (hrest : Requoted paired false rest rest') :
    Agree (SameGroup paired) (closeGroup size bracket close raw rest)
      (closeGroup size bracket' close' raw' rest') := by
  have hunit := requoted_trimOne hraw hclosed
  refine (agree_readCount hrest _ _).bind ?_
  rintro ⟨count, used⟩ - rfl
  dsimp only
  rw [hunit.all_isBlank_eq, hunit.length_eq, hraw.length_eq]
  split
  · exact .error
  · refine (agree_grow ..).bind ?_
    rintro grown - rfl
    refine .ok ⟨rfl, requoted_copies hjoints hclose hunit ?_ count, rfl⟩
    rwa [quotedAfterAll_trimOne]

/-- The texts before the open groups are requoted. -/
def SameOpened (paired : Symbol → Symbol → Prop) (group group' : OpenGroup) : Prop :=
  Requoted paired false group.before.reverse group'.before.reverse

/-- A group that closes is written out alike, if what comes after its count is. -/
theorem agree_group {group group' : OpenGroup} {outer outer' : List OpenGroup}
    (hjoints : PairsJoints paired) (hchar : close.char = ']')
    (hwritten : Requoted paired false written.reverse written'.reverse)
    (hclosed : quotedAfterAll false written.reverse = false)
    (h : Requoted paired false (close :: rest) symbols')
    (hnext : ∀ grown text text' used others,
      closeGroup size group.bracket close written.reverse rest = .ok (grown, text, used) →
      Requoted paired false text text' → Requoted paired false (rest.drop used) others →
      Agree (Requoted paired false)
        (writeGroups grown outer (text.reverse ++ group.before) false (rest.drop used))
        (writeGroups grown outer' (text'.reverse ++ group'.before) false others)) :
    Agree (Requoted paired false) (writeGroups size (group :: outer) written false (close :: rest))
      (writeGroups size (group' :: outer') written' false symbols') := by
  cases h with
  | @cons _ _ close' _ rest' pair quote plain hrest =>
    rw [quotedAfter_of_char false hchar (by decide)] at hrest
    have hagree := agree_closeGroup size group.bracket group'.bracket hjoints pair hwritten
      hclosed hrest
    rw [writeGroups_close hchar, writeGroups_close ((plain rfl).trans hchar)]
    generalize hresult : closeGroup size group.bracket close written.reverse rest = result
      at hagree hnext ⊢
    generalize closeGroup size group'.bracket close' written'.reverse rest' = result' at hagree ⊢
    cases hagree with
    | error => exact .error
    | @ok closed closed' hsame =>
      obtain ⟨grown, text, used⟩ := closed
      obtain ⟨grown', text', used'⟩ := closed'
      obtain ⟨rfl, htext, rfl⟩ := hsame
      have hdrop := hrest.drop used'
      obtain ⟨-, count, hcount, -⟩ := closeGroup_eq_ok hresult
      obtain ⟨-, marks, after, rfl, rfl, hmarks⟩ := readCount_eq_ok hcount
      rw [List.take_left, quotedAfterAll_of_not_isQuote fun mark hmem =>
        not_isQuote_of_mark (hmarks mark hmem)] at hdrop
      exact hnext _ text text' _ _ rfl htext hdrop

theorem agree_writeGroups (size : Nat) (hjoints : PairsJoints paired)
    (hgroups : List.Forall₂ (SameOpened paired) groups groups')
    (hopened : GroupsOpen groups written quoted)
    (hwritten : Requoted paired false written.reverse written'.reverse)
    (h : Requoted paired quoted symbols symbols') :
    Agree (Requoted paired false) (writeGroups size groups written quoted symbols)
      (writeGroups size groups' written' quoted symbols') := by
  induction size, groups, written, quoted, symbols using writeGroups.induct generalizing groups'
    written' symbols' with
  | case1 size written quoted =>
    cases h
    cases hgroups
    rw [writeGroups, writeGroups]
    exact .ok hwritten
  | case2 size written quoted group outer =>
    cases h
    cases hgroups
    rw [writeGroups, writeGroups]
    exact .error
  | case3 size groups written quoted symbol rest hquote ih =>
    cases h with
    | @cons _ _ symbol' _ tail' pair quote plain hrest =>
      have hsame := quotedAfter_eq_of_isQuote quote quoted
      rw [writeGroups_quoted hquote, writeGroups_quoted (by rwa [quote]), hsame]
      simp only [Bool.or_eq_true] at hquote
      refine ih hgroups (hopened.cons (hquote.imp_right .inl)) ?_ hrest
      rw [List.reverse_cons, List.reverse_cons]
      refine hwritten.append (.cons pair quote (fun hopen => plain ?_) .nil)
      exact hopened.quoted_eq.symm.trans hopen
  | case4 size groups written quoted symbol rest hquote hopen ih =>
    obtain ⟨hplain, rfl⟩ : symbol.isQuote = false ∧ quoted = false := by simpa using hquote
    cases h with
    | @cons _ _ symbol' _ tail' pair quote plain hrest =>
      rw [writeGroups_open hopen, writeGroups_open ((plain rfl).trans hopen)]
      rw [Symbol.quotedAfter, hplain] at hrest
      exact ih (.cons hwritten hgroups) (hopened.push hopen) .nil hrest
  | case5 size written quoted symbol rest hquote hopen hclose =>
    cases hgroups
    obtain ⟨-, rfl⟩ : symbol.isQuote = false ∧ quoted = false := by simpa using hquote
    cases h with
    | cons pair quote plain hrest =>
      rw [writeGroups_stray hclose, writeGroups_stray ((plain rfl).trans hclose)]
      exact .error
  | case6 size written quoted symbol rest hquote hopen hclose group outer error hgroup =>
    rw [List.unattach_reverse, List.unattach_attach] at hgroup
    obtain ⟨-, rfl⟩ : symbol.isQuote = false ∧ quoted = false := by simpa using hquote
    cases hgroups with
    | cons hgroup' houter =>
      refine agree_group hjoints hclose hwritten hopened.quoted_eq h ?_
      intro grown text text' used others hok
      rw [hgroup] at hok
      cases hok
  | case7 size written quoted symbol rest hquote hopen hclose group outer size' text used hgroup
      ih =>
    rw [List.unattach_reverse, List.unattach_attach] at hgroup
    obtain ⟨-, rfl⟩ : symbol.isQuote = false ∧ quoted = false := by simpa using hquote
    cases hgroups with
    | cons hgroup' houter =>
      refine agree_group hjoints hclose hwritten hopened.quoted_eq h ?_
      intro grown copied copied' count others hok hcopied hothers
      rw [hgroup] at hok
      cases hok
      refine ih houter (hopened.pop hgroup) ?_ hothers
      rw [List.reverse_append, List.reverse_append, List.reverse_reverse, List.reverse_reverse]
      refine hgroup'.append ?_
      rwa [hopened.outer.quoted_eq]
  | case8 size groups written quoted symbol rest hquote hopen hclose ih =>
    obtain ⟨hplain, rfl⟩ : symbol.isQuote = false ∧ quoted = false := by simpa using hquote
    cases h with
    | @cons _ _ symbol' _ tail' pair quote plain hrest =>
      rw [writeGroups_cons, if_neg hquote, if_neg hopen, if_neg hclose, writeGroups_cons, quote,
        if_neg hquote, plain rfl, if_neg hopen, if_neg hclose]
      have hnext := hopened.cons (.inr (.inr ⟨hopen, hclose⟩))
      rw [Symbol.quotedAfter, hplain] at hnext hrest
      refine ih hgroups hnext ?_ hrest
      rw [List.reverse_cons, List.reverse_cons]
      exact hwritten.append (.cons pair quote (fun _ => plain rfl) .nil)

/-! ### Words -/

/-- A line is cut at its last star outside quotes in the same way. -/
def SameStar (paired : Symbol → Symbol → Prop) (quoted : Bool)
    (cut cut' : List Symbol × Symbol × List Symbol) : Prop :=
  Requoted paired quoted cut.1 cut'.1 ∧ paired cut.2.1 cut'.2.1 ∧
    Requoted paired false cut.2.2 cut'.2.2

theorem rel_splitLastStar (h : Requoted paired quoted symbols symbols') :
    Option.Rel (SameStar paired quoted) (splitLastStar quoted symbols)
      (splitLastStar quoted symbols') := by
  induction h with
  | nil => exact .none
  | @cons quoted symbol symbol' rest rest' pair quote plain h ih =>
    have hsame := quotedAfter_eq_of_isQuote quote quoted
    rw [splitLastStar, splitLastStar, hsame]
    generalize splitLastStar (symbol.quotedAfter quoted) rest = found at ih ⊢
    generalize splitLastStar (symbol.quotedAfter quoted) rest' = found' at ih ⊢
    cases ih with
    | some hcut => exact .some ⟨.cons pair quote plain hcut.1, hcut.2⟩
    | none =>
      have hstar : (symbol'.char = '*' && !quoted) = (symbol.char = '*' && !quoted) := by
        cases quoted with
        | true => simp
        | false => rw [plain rfl]
      simp only [hstar]
      split
      case isTrue hfound =>
        simp only [Bool.and_eq_true, decide_eq_true_eq, Bool.not_eq_true'] at hfound
        obtain ⟨hchar, rfl⟩ := hfound
        refine .some ⟨.nil, pair, ?_⟩
        have hplain := quotedAfter_of_char false hchar (by decide)
        rwa [hplain] at h
      case isFalse => exact .none

/-- What is written for a word: the same length of the line, and requoted texts. -/
def SameWritten (paired : Symbol → Symbol → Prop) (result result' : Nat × List Symbol) : Prop :=
  result'.1 = result.1 ∧ Requoted paired false result.2 result'.2

theorem agree_writeWord (size : Nat) (hjoints : PairsJoints paired)
    (h : Requoted paired false word line') :
    Agree (SameWritten paired) (writeWord size word) (writeWord size line') := by
  have hcut := rel_splitLastStar h
  have hclosed (unit star digits) (hsplit : splitLastStar false word = some (unit, star, digits)) :=
    quotedAfterAll_of_splitLastStar hsplit
  unfold writeWord
  generalize splitLastStar false word = found at hcut hclosed ⊢
  generalize splitLastStar false line' = found' at hcut ⊢
  cases hcut with
  | none => exact .ok ⟨rfl, h⟩
  | @some cut cut' hcut =>
    obtain ⟨unit, star, digits⟩ := cut
    obtain ⟨unit', star', digits'⟩ := cut'
    obtain ⟨hunit, hstar, hdigits⟩ := hcut
    have hempty : unit'.isEmpty = unit.isEmpty := by
      rw [Bool.eq_iff_iff, List.isEmpty_iff_length_eq_zero, hunit.length_eq,
        List.isEmpty_iff_length_eq_zero]
    dsimp only at hunit hstar hdigits ⊢
    rw [hempty, h.length_eq, hunit.length_eq]
    split
    · exact .error
    refine (agree_readWordCount star star' hdigits).bind ?_
    rintro count - rfl
    refine (agree_grow ..).bind ?_
    rintro grown - rfl
    exact .ok ⟨rfl, requoted_copies hjoints hstar hunit (hclosed unit star digits rfl) count⟩

/-- A word is written out alike, if what comes after it is. -/
theorem agree_word (hjoints : PairsJoints paired) (hblank : ¬symbol.isBlank = true)
    (h : Requoted paired false (symbol :: rest) symbols')
    (hnext : ∀ grown text text' others,
      writeWord size (symbol :: (Symbol.splitWord (symbol.quotedAfter false) rest).1) =
        .ok (grown, text) →
      Requoted paired false text text' →
      Requoted paired false (Symbol.splitWord (symbol.quotedAfter false) rest).2 others →
      Agree (Requoted paired false)
        (writeWords grown (text.reverse ++ written)
          (Symbol.splitWord (symbol.quotedAfter false) rest).2)
        (writeWords grown (text'.reverse ++ written') others)) :
    Agree (Requoted paired false) (writeWords size written (symbol :: rest))
      (writeWords size written' symbols') := by
  cases h with
  | @cons _ _ symbol' _ rest' pair quote plain hrest =>
    have hsame : symbol'.isBlank = symbol.isBlank := congrArg Text.isBlank (plain rfl)
    have hagree := agree_writeWord size hjoints (.cons pair quote plain hrest.splitWord.1)
    rw [writeWords_cons hblank, writeWords_cons (by rwa [hsame]),
      quotedAfter_eq_of_isQuote quote false]
    generalize writeWord size (symbol :: _) = result at hagree hnext ⊢
    generalize writeWord size (symbol' :: _) = result' at hagree ⊢
    cases hagree with
    | error => exact .error
    | @ok copied copied' hsame =>
      obtain ⟨grown, text⟩ := copied
      obtain ⟨grown', text'⟩ := copied'
      obtain ⟨rfl, htext⟩ := hsame
      exact hnext _ text text' _ rfl htext hrest.splitWord.2

/-- The pass over words writes out requoted lines alike. -/
theorem agree_writeWords (hjoints : PairsJoints paired)
    (hwritten : Requoted paired false written.reverse written'.reverse)
    (hclosed : symbols ≠ [] → quotedAfterAll false written.reverse = false)
    (h : Requoted paired false symbols symbols') :
    Agree (Requoted paired false) (writeWords size written symbols)
      (writeWords size written' symbols') := by
  induction size, written, symbols using writeWords.induct generalizing written' symbols' with
  | case1 =>
    cases h
    rw [writeWords, writeWords]
    exact .ok hwritten
  | case2 size written symbol rest hblank ih =>
    cases h with
    | @cons _ _ symbol' _ _ pair quote plain hrest =>
      have hsame : symbol'.isBlank = symbol.isBlank := congrArg Text.isBlank (plain rfl)
      have hplain : symbol.quotedAfter false = false := by
        rw [Symbol.quotedAfter, not_isQuote_of_isBlank hblank]
        rfl
      rw [writeWords, if_pos hblank, writeWords, if_pos (hsame.trans hblank)]
      rw [hplain] at hrest
      have hopen := hclosed (List.cons_ne_nil _ _)
      refine ih ?_ (fun _ => ?_) hrest
      · rw [List.reverse_cons, List.reverse_cons]
        exact hwritten.append (.cons pair quote (fun _ => plain rfl) .nil)
      · rw [List.reverse_cons, quotedAfterAll_append, hopen, quotedAfterAll_cons, hplain]
        rfl
  | case3 size written symbol rest hblank tail failure =>
    rename_i hwrite
    refine agree_word hjoints hblank h ?_
    intro grown text text' others hok
    rw [hwrite] at hok
    cases hok
  | case4 size written symbol rest hblank tail size' text =>
    rename_i hwrite ih
    have hopen := hclosed (List.cons_ne_nil _ _)
    refine agree_word hjoints hblank h ?_
    intro grown copied copied' others hok hcopied hothers
    rw [hwrite] at hok
    cases hok
    refine ih ?_ (fun hne => ?_) hothers
    · rw [List.reverse_append, List.reverse_append, List.reverse_reverse, List.reverse_reverse]
      refine hwritten.append ?_
      rwa [hopen]
    · rw [List.reverse_append, List.reverse_reverse, quotedAfterAll_append, hopen,
        (kept_writeWord hwrite).1]
      exact ((splitWord_rest (symbol.quotedAfter false) rest).resolve_left hne).1

theorem agree_expandWords (hjoints : PairsJoints paired) (h : Requoted paired false line line') :
    Agree (Requoted paired false) (expandWords line) (expandWords line') := by
  rw [expandWords, expandWords, h.length_eq]
  exact agree_writeWords hjoints .nil (fun _ => rfl) h

end Repeat

end Stave.Shorthand
