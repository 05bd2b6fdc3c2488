import Stave.Proofs.Brace.Loosened

/-!
# Groups of a loosened line

The pass over groups does to a loose line what it does to the tight one: it finds the same
brackets and counts, and its copies are loosened alike. The loose line is the longer one at every
step, so it alone may get too long.
-/
namespace Stave.Shorthand

/-- What becomes of a loose line follows from what becomes of the tight one, unless it gets too
long: both come to related values, or both fail. -/
inductive Follows {α β : Type} (related : α → β → Prop) :
    Except RepeatFailure α → Except RepeatFailure β → Prop where
  | ok {tight : α} {loose : β} (values : related tight loose) :
      Follows related (.ok tight) (.ok loose)
  | error {failure failure' : RepeatFailure} : Follows related (.error failure) (.error failure')
  | tooLong {tight : Except RepeatFailure α} {offset : Nat} :
      Follows related tight (.error ⟨.tooLong, offset⟩)

theorem Follows.bind {α β γ δ : Type} {related : α → β → Prop} {related' : γ → δ → Prop}
    {tight : Except RepeatFailure α} {loose : Except RepeatFailure β}
    {next : α → Except RepeatFailure γ} {next' : β → Except RepeatFailure δ}
    (h : Follows related tight loose)
    (hnext : ∀ a b, related a b → Follows related' (next a) (next' b)) :
    Follows related' (tight >>= next) (loose >>= next') := by
  cases h with
  | ok values => exact hnext _ _ values
  | error => exact .error
  | tooLong => exact .tooLong

/-- What the loose line comes to is related to what the tight one comes to. -/
theorem Follows.with_ok {α β : Type} {related : α → β → Prop}
    {tight : Except RepeatFailure α} {loose : Except RepeatFailure β}
    (h : Follows related tight loose) :
    Follows (fun a b => tight = .ok a ∧ related a b) tight loose := by
  cases h with
  | ok values => exact .ok ⟨rfl, values⟩
  | error => exact .error
  | tooLong => exact .tooLong

theorem Follows.imp {α β : Type} {related related' : α → β → Prop}
    {tight : Except RepeatFailure α} {loose : Except RepeatFailure β}
    (h : Follows related tight loose) (himp : ∀ a b, related a b → related' a b) :
    Follows related' tight loose := by
  cases h with
  | ok values => exact .ok (himp _ _ values)
  | error => exact .error
  | tooLong => exact .tooLong

namespace Repeat

variable {gap : Gap} {quoted : Bool} {size size' kept kept' count offset offset' : Nat}
  {tight loose unit unit' raw raw' rest rest' written written' digits : List Symbol}
  {bracket close : Symbol} {groups groups' : List OpenGroup}

theorem follows_grow (h : kept' ≤ kept) (hunit : unit'.length ≤ unit.length) :
    Follows (fun grown' grown => grown' = kept' + copiedLength unit'.length count ∧
        grown = kept + copiedLength unit.length count)
      (grow kept' unit'.length count offset') (grow kept unit.length count offset) := by
  have hcopies : copiedLength unit'.length count ≤ copiedLength unit.length count :=
    Nat.sub_le_sub_right (Nat.mul_le_mul_right _ (Nat.add_le_add_right hunit 1)) 1
  unfold grow
  dsimp only
  split
  case isTrue hlong =>
    rw [if_pos (by omega)]
    exact .tooLong
  case isFalse =>
    split
    · exact .tooLong
    · exact .ok ⟨rfl, rfl⟩

/-! ### Trimming and copying -/

theorem loosened_trimFront (h : gap.Loosened false tight loose) :
    gap.Loosened false (trimFront tight) (trimFront loose) := by
  cases h with
  | nil => exact .nil
  | @keep _ symbol tight loose typed rest =>
    by_cases hblank : symbol.isBlank = true
    · have hopen : symbol.quotedAfter false = false := by
        rw [Symbol.quotedAfter, not_isQuote_of_isBlank hblank]
        rfl
      rw [hopen] at rest
      simpa [trimFront, hblank] using rest
    · simpa [trimFront, hblank] using Gap.Loosened.keep typed rest
  | @brace brace blanks tight loose isBrace blank rest =>
    have htight : trimFront (brace :: tight) = brace :: tight := by
      simp [trimFront, isBrace.not_blank]
    have hloose : ∃ others, (∀ symbol ∈ others, symbol.isBlank = true) ∧
        trimFront (gap.spread (brace.moved gap.move) blanks ++ loose) =
          gap.spread (brace.moved gap.move) others ++ loose := by
      unfold Gap.spread
      cases gap.side with
      | following => exact ⟨blanks, blank, by simp [trimFront, isBrace.not_blank]⟩
      | preceding =>
        cases blanks with
        | nil => exact ⟨[], blank, by simp [trimFront, isBrace.not_blank]⟩
        | cons symbol others =>
          obtain ⟨hsymbol, hothers⟩ := List.forall_mem_cons.1 blank
          exact ⟨others, hothers, by simp [trimFront, hsymbol]⟩
    obtain ⟨others, hothers, hsame⟩ := hloose
    rw [htight, hsame]
    exact .brace isBrace hothers rest

theorem loosened_trimBack (h : gap.Loosened quoted tight loose) :
    gap.Loosened quoted (trimBack tight) (trimBack loose) := by
  rcases List.eq_nil_or_concat tight with rfl | ⟨init, last, rfl⟩
  · cases h
    exact .nil
  rw [List.concat_eq_append] at h ⊢
  obtain ⟨before, after, rfl, hbefore, hafter⟩ := h.exists_of_append
  generalize hstate : quotedAfterAll quoted init = state at hafter
  cases hafter with
  | keep typed rest =>
    rw [rest.eq_nil, trimBack_concat, trimBack_concat, Symbol.isBlank_moved]
    split
    · exact hbefore
    · exact hbefore.append (.keep typed .nil)
  | @brace _ blanks _ _ isBrace blank rest =>
    rw [rest.eq_nil]
    have hloose : ∃ others, (∀ symbol ∈ others, symbol.isBlank = true) ∧
        trimBack (before ++ (gap.spread (last.moved gap.move) blanks ++ [])) =
          before ++ (gap.spread (last.moved gap.move) others ++ []) := by
      simp only [List.append_nil]
      unfold Gap.spread
      cases gap.side with
      | following =>
        rcases List.eq_nil_or_concat blanks with rfl | ⟨others, symbol, rfl⟩
        · refine ⟨[], blank, ?_⟩
          dsimp only
          rw [trimBack_concat, Symbol.isBlank_moved, isBrace.not_blank]
          rfl
        · rw [List.concat_eq_append] at blank ⊢
          obtain ⟨hothers, hsymbol⟩ := List.forall_mem_append.1 blank
          refine ⟨others, hothers, ?_⟩
          dsimp only
          rw [← List.cons_append, ← List.append_assoc, trimBack_concat,
            if_pos (hsymbol symbol List.mem_cons_self)]
      | preceding =>
        refine ⟨blanks, blank, ?_⟩
        dsimp only
        rw [← List.append_assoc, trimBack_concat, Symbol.isBlank_moved, isBrace.not_blank]
        rfl
    obtain ⟨others, hothers, hsame⟩ := hloose
    rw [trimBack_concat, isBrace.not_blank, hsame]
    refine hbefore.append ?_
    rw [hstate]
    exact .brace isBrace hothers .nil

theorem loosened_trimOne (h : gap.Loosened false tight loose) :
    gap.Loosened false (trimOne tight) (trimOne loose) := by
  rw [trimOne_eq, trimOne_eq]
  exact loosened_trimBack (loosened_trimFront h)

theorem loosened_copies (hunit : gap.Loosened false unit' unit)
    (hclosed : quotedAfterAll false unit' = false) (htyped : offset ≠ gap.place) (count : Nat) :
    gap.Loosened false (copies unit' count offset) (copies unit count (gap.move offset)) := by
  cases count with
  | zero => exact .nil
  | succ count =>
    rw [copies_succ, copies_succ]
    refine hunit.append ?_
    rw [hclosed]
    induction count with
    | zero => exact .nil
    | succ count ih =>
      rw [List.replicate_succ, List.replicate_succ, List.flatten_cons, List.flatten_cons]
      refine Gap.Loosened.append (.keep htyped hunit) ?_
      rwa [quotedAfterAll_space, hclosed]

/-! ### Counts -/

/-- What is no digit and no star in the tight line is none in the loose line either. -/
theorem exists_spread_cons {brace : Symbol} {blanks : List Symbol} (hbrace : gap.IsBrace brace)
    (hblanks : ∀ symbol ∈ blanks, symbol.isBlank = true) :
    ∃ head others, gap.spread (brace.moved gap.move) blanks = head :: others ∧
      head.char.isDigit = false ∧ head.char ≠ '*' := by
  unfold Gap.spread
  cases gap.side with
  | following => exact ⟨_, blanks, rfl, hbrace.not_digit, hbrace.ne.2.2.1⟩
  | preceding =>
    cases blanks with
    | nil => exact ⟨_, [], rfl, hbrace.not_digit, hbrace.ne.2.2.1⟩
    | cons symbol others =>
      have hblank := hblanks symbol List.mem_cons_self
      refine ⟨symbol, _, rfl, Text.not_isDigit_of_isBlank hblank, fun hchar => ?_⟩
      rw [Symbol.isBlank, hchar] at hblank
      cases hblank

theorem loosened_digits (h : gap.Loosened quoted tight loose) :
    loose.takeWhile (·.char.isDigit) =
        (tight.takeWhile (·.char.isDigit)).map (Symbol.moved gap.move) ∧
      gap.Loosened quoted (tight.dropWhile (·.char.isDigit))
        (loose.dropWhile (·.char.isDigit)) := by
  induction h with
  | nil => exact ⟨rfl, .nil⟩
  | @keep quoted symbol tight loose typed rest ih =>
    by_cases hdigit : symbol.char.isDigit = true
    · have hplain : symbol.quotedAfter quoted = quoted := by
        rw [Symbol.quotedAfter, Symbol.isQuote, beq_eq_false_iff_ne.2, Bool.bne_false]
        rintro hquote
        rw [hquote] at hdigit
        cases hdigit
      rw [hplain] at ih
      simpa [List.takeWhile_cons, List.dropWhile_cons, hdigit] using ih
    · simpa [List.takeWhile_cons, List.dropWhile_cons, hdigit] using
        Gap.Loosened.keep typed rest
  | @brace brace blanks tight loose isBrace blank rest ih =>
    have hkeep := Gap.Loosened.brace isBrace blank rest
    obtain ⟨head, others, hspread, hdigit, -⟩ := exists_spread_cons isBrace blank
    rw [hspread] at hkeep ⊢
    simpa [List.takeWhile_cons, List.dropWhile_cons, hdigit, isBrace.not_digit] using hkeep

/-- The star before a count stands in both lines, or in neither. -/
theorem exists_starred (h : gap.Loosened quoted tight loose) :
    ∃ starred, (tight.head?.map (·.char == '*')).getD false = starred ∧
      (loose.head?.map (·.char == '*')).getD false = starred ∧
      gap.Loosened quoted (if starred then tight.drop 1 else tight)
        (if starred then loose.drop 1 else loose) ∧ (starred = true → 1 ≤ tight.length) := by
  cases h with
  | nil => exact ⟨false, rfl, rfl, .nil, nofun⟩
  | @keep _ symbol tight loose typed rest =>
    by_cases hstar : symbol.char = '*'
    · refine ⟨true, by simp [hstar], by simp [hstar], ?_, by simp⟩
      rwa [Symbol.quotedAfter, Symbol.isQuote, hstar,
        show ('*' == '"') = false by decide, Bool.bne_false] at rest
    · exact ⟨false, by simp [hstar], by simp [hstar], .keep typed rest, nofun⟩
  | @brace brace blanks tight loose isBrace blank rest =>
    have hkeep := Gap.Loosened.brace isBrace blank rest
    obtain ⟨head, others, hspread, -, hstar⟩ := exists_spread_cons isBrace blank
    rw [hspread] at hkeep ⊢
    exact ⟨false, by simp [isBrace.ne.2.2.1], by simp [hstar], hkeep, nofun⟩

/-- A count is read in both lines, or in neither. -/
theorem follows_readCount (h : gap.Loosened quoted tight loose) (offset' offset : Nat) :
    Follows (fun found' found => found' = found ∧ 0 < found.1 ∧ found.2 ≤ tight.length ∧
        found.2 ≤ loose.length ∧ gap.Loosened quoted (tight.drop found.2) (loose.drop found.2))
      (readCount offset' tight) (readCount offset loose) := by
  obtain ⟨starred, htight, hloose, hmarks, hlength⟩ := exists_starred h
  obtain ⟨hdigits, hdrop⟩ := loosened_digits hmarks
  have hread (marks : List Symbol) : (marks.takeWhile (·.char.isDigit)).length ≤ marks.length ∧
      marks.drop (marks.takeWhile (·.char.isDigit)).length = marks.dropWhile (·.char.isDigit) := by
    refine ⟨(List.takeWhile_prefix _).length_le, ?_⟩
    have hleft := @List.drop_left _ (marks.takeWhile (·.char.isDigit))
      (marks.dropWhile (·.char.isDigit))
    rwa [List.takeWhile_append_dropWhile] at hleft
  obtain ⟨htightLength, htightDrop⟩ := hread (if starred = true then tight.drop 1 else tight)
  obtain ⟨hlooseLength, hlooseDrop⟩ := hread (if starred = true then loose.drop 1 else loose)
  have hle := h.length_le
  rw [← htightDrop, ← hlooseDrop] at hdrop
  unfold readCount
  rw [htight, hloose]
  dsimp only
  rw [hdigits] at hdrop hlooseLength ⊢
  rw [List.isEmpty_map, Symbol.chars_map_moved, List.length_map]
  rw [List.length_map] at hdrop hlooseLength
  generalize (if starred = true then tight.drop 1 else tight).takeWhile (·.char.isDigit) =
    digits at *
  split
  · exact .error
  split
  · exact .error
  split
  · exact .error
  case isFalse hzero =>
  split
  · exact .error
  refine .ok ⟨rfl, Nat.pos_of_ne_zero hzero, ?_, ?_, ?_⟩
  · cases starred with
    | true => simp at htightLength hlength ⊢; omega
    | false => simpa using htightLength
  · cases starred with
    | true => simp at hlooseLength hlength ⊢; omega
    | false => simpa using hlooseLength
  · cases starred with
    | true => simpa [Nat.add_comm] using hdrop
    | false => simpa using hdrop

/-! ### Groups -/

/-- A group that closes in both lines: the copies are loosened alike, and the lengths are those of
what is kept, the copies and what comes after the count. -/
structure Closed (gap : Gap) (quoted : Bool) (kept' kept : Nat) (rest' rest : List Symbol)
    (closed' closed : Nat × List Symbol × Nat) : Prop where
  used : closed'.2.2 = closed.2.2
  text : gap.Loosened false closed'.2.1 closed.2.1
  shut : quotedAfterAll false closed'.2.1 = false
  after : gap.Loosened quoted (rest'.drop closed.2.2) (rest.drop closed.2.2)
  size' : closed'.1 = kept' + closed'.2.1.length + (rest'.drop closed.2.2).length
  size : closed.1 = kept + closed.2.1.length + (rest.drop closed.2.2).length

theorem follows_closeGroup (hraw : gap.Loosened false raw' raw)
    (hclosed : quotedAfterAll false raw' = false) (hrest : gap.Loosened quoted rest' rest)
    (htyped : close.origin ≠ gap.place) (hkept : kept' ≤ kept)
    (hsize' : size' = kept' + (raw'.length + 2 + rest'.length))
    (hsize : size = kept + (raw.length + 2 + rest.length)) (bracket' bracket : Symbol) :
    Follows (Closed gap quoted kept' kept rest' rest) (closeGroup size' bracket' close raw' rest')
      (closeGroup size bracket (close.moved gap.move) raw rest) := by
  unfold closeGroup
  refine (follows_readCount hrest _ _).bind ?_
  rintro ⟨count, used⟩ _ ⟨rfl, hpos, hused', hused, hafter⟩
  dsimp only at hpos hused' hused hafter ⊢
  have hunit := loosened_trimOne hraw
  have hunitClosed : quotedAfterAll false (trimOne raw') = false := by
    rw [quotedAfterAll_trimOne, hclosed]
  rw [hunit.all_isBlank]
  split
  · exact .error
  have hkeeps : size' - (raw'.length + 2 + used) ≤ size - (raw.length + 2 + used) := by
    have := hrest.length_le
    omega
  refine (follows_grow hkeeps hunit.length_le).bind ?_
  rintro grown' grown ⟨rfl, rfl⟩
  refine .ok ⟨rfl, loosened_copies hunit hunitClosed htyped count,
    quotedAfterAll_copies hunitClosed, hafter, ?_, ?_⟩
  · dsimp only
    rw [length_copies hpos, List.length_drop]
    omega
  · dsimp only
    rw [length_copies hpos, List.length_drop]
    omega

/-- Groups that are open in both lines, with what was written before them. -/
inductive Opened (gap : Gap) : List OpenGroup → List OpenGroup → Prop where
  | nil : Opened gap [] []
  | cons {bracket' bracket : Symbol} {before' before : List Symbol}
      {groups' groups : List OpenGroup}
      (written : gap.Loosened false before'.reverse before.reverse)
      (closed : quotedAfterAll false before'.reverse = false) (outer : Opened gap groups' groups) :
      Opened gap (⟨bracket', before'⟩ :: groups') (⟨bracket, before⟩ :: groups)

theorem Opened.exists_cons {group' : OpenGroup} (h : Opened gap (group' :: groups') groups) :
    ∃ group outer, groups = group :: outer := by
  cases h
  exact ⟨_, _, rfl⟩

/-- The length of the open groups, with what was written before them. -/
def outerLength (groups : List OpenGroup) : Nat :=
  sumOf (groups.map fun group => group.before.length + 1)

theorem Opened.outerLength_le (h : Opened gap groups' groups) :
    outerLength groups' ≤ outerLength groups := by
  induction h with
  | nil => exact Nat.le_refl 0
  | @cons _ _ before' before _ _ written closed outer ih =>
    have hbefore : before'.length ≤ before.length := by simpa using written.length_le
    simp only [outerLength, List.map_cons, sumOf_cons] at ih ⊢
    omega

/-- The innermost group closes in both lines, or in neither. -/
theorem Opened.follows_closeGroup {group' group : OpenGroup}
    (h : Opened gap (group' :: groups') (group :: groups))
    (hwritten : gap.Loosened false written'.reverse written.reverse)
    (hquoted : quotedAfterAll false written'.reverse = false)
    (hrest : gap.Loosened false rest' rest) (htyped : close.origin ≠ gap.place)
    (hsize' : size' = outerLength (group' :: groups') + written'.length + (rest'.length + 1))
    (hsize : size = outerLength (group :: groups) + written.length + (rest.length + 1)) :
    Follows (Closed gap false (outerLength groups' + group'.before.length)
        (outerLength groups + group.before.length) rest' rest)
      (closeGroup size' group'.bracket close written'.reverse rest')
      (closeGroup size group.bracket (close.moved gap.move) written.reverse rest) := by
  cases h with
  | @cons _ _ before' before _ _ hbefore hshut houter =>
    have hkept := houter.outerLength_le
    have hlength : before'.length ≤ before.length := by simpa using hbefore.length_le
    simp only [outerLength, List.map_cons, sumOf_cons] at hsize' hsize hkept ⊢
    refine Repeat.follows_closeGroup hwritten hquoted hrest htyped (by omega) ?_ ?_ _ _
    · rw [List.length_reverse]
      omega
    · rw [List.length_reverse]
      omega

/-! ### The pass, symbol by symbol -/

/-- The pass over groups copies what is neither a quote nor a bracket. -/
theorem writeGroups_append {text : List Symbol}
    (h : ∀ symbol ∈ text, symbol.isQuote = false ∧ symbol.char ≠ '[' ∧ symbol.char ≠ ']') :
    writeGroups size groups written false (text ++ rest) =
      writeGroups size groups (text.reverse ++ written) false rest := by
  induction text generalizing written with
  | nil => rfl
  | cons symbol text ih =>
    obtain ⟨⟨hquote, hopen, hclose⟩, htext⟩ := List.forall_mem_cons.1 h
    rw [List.cons_append, writeGroups_cons, if_neg (by simp [hquote]), if_neg hopen,
      if_neg hclose, ih htext, List.reverse_cons, List.append_assoc]
    rfl

/-- What stands beside a brace is copied. -/
theorem plain_of_mem_spread {brace symbol : Symbol} {blanks : List Symbol}
    (hbrace : gap.IsBrace brace) (hblanks : ∀ symbol ∈ blanks, symbol.isBlank = true)
    (h : symbol ∈ gap.spread (brace.moved gap.move) blanks) :
    symbol.isQuote = false ∧ symbol.char ∉ ['[', ']', '*', '<', '>'] ∧
      Symbol.escapes symbol.char = false := by
  rcases Gap.mem_spread.1 h with rfl | hmem
  · obtain ⟨hopen, hclose, hstar, hless, hgreater⟩ := hbrace.ne
    refine ⟨hbrace.not_quote, ?_, hbrace.not_escapes⟩
    simp [hopen, hclose, hstar, hless, hgreater]
  · have hblank := hblanks symbol hmem
    have hplain := isOrdinary_of_isBlank hblank
    refine ⟨not_isQuote_of_isBlank hblank, fun hsign => ?_, escapes_of_isBlank hblank⟩
    simp only [IsOrdinary, groupSigns, repeatSigns, List.mem_append, List.mem_cons,
      List.not_mem_nil, or_false, not_or] at hplain hsign
    simp [hplain] at hsign

theorem loosened_reverse_cons {symbol : Symbol} (typed : symbol.origin ≠ gap.place)
    (h : gap.Loosened false written'.reverse written.reverse) :
    gap.Loosened false (symbol :: written').reverse
      (symbol.moved gap.move :: written).reverse := by
  rw [List.reverse_cons, List.reverse_cons]
  exact h.append (.keep typed .nil)

theorem quotedAfterAll_reverse_cons (symbol : Symbol) (written : List Symbol) :
    quotedAfterAll false (symbol :: written).reverse =
      symbol.quotedAfter (quotedAfterAll false written.reverse) := by
  rw [List.reverse_cons, quotedAfterAll_append]
  rfl

/-- The pass over groups, from related places of the two lines on. The lengths it carries are those
of the whole lines. -/
theorem follows_writeGroups (hrest : gap.Loosened quoted rest' rest)
    (hwritten : gap.Loosened false written'.reverse written.reverse)
    (hquoted : quotedAfterAll false written'.reverse = quoted) (hgroups : Opened gap groups' groups)
    (hsize' : size' = outerLength groups' + written'.length + rest'.length)
    (hsize : size = outerLength groups + written.length + rest.length) :
    Follows (gap.Loosened false) (writeGroups size' groups' written' quoted rest')
      (writeGroups size groups written quoted rest) := by
  -- on the length, for a closing bracket is taken off with its count
  induction hlength : rest'.length using Nat.strongRecOn generalizing quoted size' size
    groups' groups written' written rest' rest with
  | _ length ih => ?_
  subst hlength
  cases hrest with
  | nil =>
    cases hgroups with
    | nil =>
      rw [writeGroups, writeGroups]
      exact .ok hwritten
    | cons =>
      rw [writeGroups, writeGroups]
      exact .error
  | @keep _ symbol rest' rest typed hrest =>
    have hwritten' := loosened_reverse_cons typed hwritten
    have hquoted' := quotedAfterAll_reverse_cons symbol written'
    rw [hquoted] at hquoted'
    rw [List.length_cons] at hsize' hsize
    by_cases hquote : (symbol.isQuote || quoted) = true
    · have hmoved : ((symbol.moved gap.move).isQuote || quoted) = true := hquote
      rw [writeGroups_quoted hquote, writeGroups_quoted hmoved]
      refine ih _ (Nat.lt_succ_self _) hrest hwritten' hquoted' hgroups ?_ ?_ rfl
      all_goals rw [List.length_cons]; omega
    obtain ⟨hplain, rfl⟩ : symbol.isQuote = false ∧ quoted = false := by simpa using hquote
    have hopen : symbol.quotedAfter false = false := by rw [Symbol.quotedAfter, hplain]; rfl
    rw [hopen] at hrest hquoted'
    by_cases hbracket : symbol.char = '['
    · have hmoved : (symbol.moved gap.move).char = '[' := hbracket
      rw [writeGroups_open hbracket, writeGroups_open hmoved]
      refine ih _ (Nat.lt_succ_self _) hrest .nil rfl (.cons hwritten hquoted hgroups) ?_ ?_ rfl
      all_goals
        simp only [outerLength, List.map_cons, sumOf_cons, List.length_nil] at *
        omega
    by_cases hclose : symbol.char = ']'
    · have hmoved : (symbol.moved gap.move).char = ']' := hclose
      cases groups' with
      | nil =>
        cases hgroups
        rw [writeGroups_stray hclose, writeGroups_stray hmoved]
        exact .error
      | cons group' groups' =>
        obtain ⟨group, groups, rfl⟩ := hgroups.exists_cons
        rw [writeGroups_close hclose, writeGroups_close hmoved]
        refine (hgroups.follows_closeGroup hwritten hquoted hrest typed hsize' hsize).bind ?_
        rintro ⟨grown', text', used⟩ ⟨grown, text, _⟩ ⟨rfl, htext, hshut, hafter, hgrown', hgrown⟩
        dsimp only at htext hshut hafter hgrown' hgrown ⊢
        cases hgroups with
        | cons hbefore hbeforeShut houter =>
          have hshorter : (rest'.drop used).length < (symbol :: rest').length := by
            rw [List.length_cons, List.length_drop]
            omega
          refine ih _ hshorter hafter ?_ ?_ houter ?_ ?_ rfl
          · simp only [List.reverse_append, List.reverse_reverse]
            refine hbefore.append ?_
            rwa [hbeforeShut]
          · rw [List.reverse_append, List.reverse_reverse, quotedAfterAll_append, hbeforeShut,
              hshut]
          all_goals rw [List.length_append, List.length_reverse]; omega
    · have hsymbol : ∀ other ∈ [symbol], other.isQuote = false ∧ other.char ≠ '[' ∧
          other.char ≠ ']' := by
        simpa using ⟨hplain, hbracket, hclose⟩
      have hmoved : ∀ other ∈ [symbol.moved gap.move], other.isQuote = false ∧
          other.char ≠ '[' ∧ other.char ≠ ']' := by
        simpa using ⟨hplain, hbracket, hclose⟩
      rw [show symbol :: rest' = [symbol] ++ rest' from rfl, writeGroups_append hsymbol,
        show symbol.moved gap.move :: rest = [symbol.moved gap.move] ++ rest from rfl,
        writeGroups_append hmoved]
      refine ih _ (Nat.lt_succ_self _) hrest hwritten' hquoted' hgroups ?_ ?_ rfl
      all_goals simp only [List.reverse_singleton, List.singleton_append, List.length_cons]; omega
  | @brace brace blanks rest' rest isBrace blank hrest =>
    have hplain (symbol : Symbol) (hmem : symbol ∈ gap.spread (brace.moved gap.move) blanks) :
        symbol.isQuote = false ∧ symbol.char ≠ '[' ∧ symbol.char ≠ ']' := by
      obtain ⟨hquote, hsigns, -⟩ := plain_of_mem_spread isBrace blank hmem
      simp only [List.mem_cons, not_or] at hsigns
      exact ⟨hquote, hsigns.1, hsigns.2.1⟩
    have hbrace : ∀ symbol ∈ [brace], symbol.isQuote = false ∧ symbol.char ≠ '[' ∧
        symbol.char ≠ ']' := by
      simpa using ⟨isBrace.not_quote, isBrace.ne.1, isBrace.ne.2.1⟩
    rw [writeGroups_append hplain, show brace :: rest' = [brace] ++ rest' from rfl,
      writeGroups_append hbrace]
    refine ih _ (Nat.lt_succ_self _) hrest ?_ ?_ hgroups ?_ ?_ rfl
    · rw [List.reverse_append, List.reverse_append, List.reverse_reverse, List.reverse_reverse]
      refine hwritten.append ?_
      rw [hquoted]
      simpa using Gap.Loosened.brace isBrace blank .nil
    · rw [List.reverse_append, List.reverse_reverse, quotedAfterAll_append, hquoted]
      exact isBrace.quotedAfter false
    all_goals
      simp only [List.length_append, List.length_reverse, List.length_cons, List.length_nil] at *
      omega

/-- Writing out the groups leaves a loose line loosened alike. -/
theorem follows_expandGroups (h : gap.Loosened false tight loose) :
    Follows (gap.Loosened false) (expandGroups tight) (expandGroups loose) :=
  follows_writeGroups h .nil rfl .nil (by simp [outerLength]) (by simp [outerLength])

end Repeat

end Stave.Shorthand
