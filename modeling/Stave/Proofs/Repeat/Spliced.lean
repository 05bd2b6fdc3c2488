import Stave.Proofs.Repeat.Unquoted

/-!
# Groups written out one splice at a time

One may write out the groups of a line without keeping what has been written: look through the
line for the first bracket that closes, splice the copies in its group's place, and begin again at
the start of the line. Each splice takes one closing bracket out, so this comes to an end. What has
been looked through holds no bracket but those still open, and copies hold none, so every new look
comes to where the last splice was made, with the same groups open. The single pass, which goes
on from there, comes to the same line, or to the same fault at the same place.
-/
namespace Stave.Shorthand.Repeat

/-- A bracket of a line and its place there. -/
structure Bracket where
  sign : Symbol
  place : Nat

/-- Look for the first bracket outside quotes that closes: the brackets that are open before it,
the last one first, and the bracket itself, if there is one. -/
def firstClose (opened : List Bracket) (quoted : Bool) (place : Nat) :
    List Symbol → List Bracket × Option Bracket
  | [] => (opened, none)
  | symbol :: rest =>
    if symbol.isQuote || quoted then
      firstClose opened (symbol.quotedAfter quoted) (place + 1) rest
    else if symbol.char = '[' then firstClose (⟨symbol, place⟩ :: opened) false (place + 1) rest
    else if symbol.char = ']' then (opened, some ⟨symbol, place⟩)
    else firstClose opened false (place + 1) rest

/-- Put copies of what stands between two brackets in the place of both, of all between, and of the
count behind. -/
def splice (line : List Symbol) (opening closing : Bracket) :
    Except RepeatFailure (List Symbol) := do
  let (count, used) ← readCount closing.sign.origin (line.drop (closing.place + 1))
  let unit := trimOne ((line.take closing.place).drop (opening.place + 1))
  if unit.all Symbol.isBlank then .error ⟨.emptyGroup, opening.sign.origin⟩
  else do
    let removed := closing.place + 1 + used - opening.place
    let _ ← grow (line.length - removed) unit.length count closing.sign.origin
    .ok (line.take opening.place ++
      (copies unit count closing.sign.origin ++ line.drop (closing.place + 1 + used)))

/-- Look through a line from the start, and write out the first group that closes, if one does. -/
def spliceFirst (line : List Symbol) : Except RepeatFailure (Option (List Symbol)) :=
  match firstClose [] false 0 line with
  | ([], none) => .ok none
  | (opening :: _, none) => .error ⟨.unbalancedOpen, opening.sign.origin⟩
  | ([], some closing) => .error ⟨.unbalancedClose, closing.sign.origin⟩
  | (opening :: _, some closing) => (splice line opening closing).map some

variable {quoted : Bool} {place size used count : Nat} {opened stack : List Bracket}
  {opening closing : Bracket} {line spliced symbols before raw rest written : List Symbol}
  {symbol bracket close : Symbol} {groups : List OpenGroup}

/-! ### Looking through a line -/

theorem not_mem_unquoted_cons {c : Char} {symbol : Symbol}
    (hsymbol : symbol.isQuote || quoted || symbol.char != c)
    (h : c ∉ unquoted (symbol.quotedAfter quoted) (Symbol.chars symbols)) :
    c ∉ unquoted quoted (Symbol.chars (symbol :: symbols)) := by
  rw [unquoted_chars_cons]
  split
  · exact h
  case isFalse hplain =>
    have hother : symbol.char ≠ c := by simpa [hplain] using hsymbol
    exact fun hmem => (List.mem_cons.1 hmem).elim (fun heq => hother heq.symm) h

/-- Text without brackets is passed over. -/
theorem firstClose_append (hopen : '[' ∉ unquoted quoted (Symbol.chars before))
    (hclose : ']' ∉ unquoted quoted (Symbol.chars before)) (opened : List Bracket) (place : Nat)
    (rest : List Symbol) :
    firstClose opened quoted place (before ++ rest) =
      firstClose opened (quotedAfterAll quoted before) (place + before.length) rest := by
  induction before generalizing quoted place with
  | nil => rfl
  | cons symbol before ih =>
    have ih := ih (mt mem_unquoted_cons hopen) (mt mem_unquoted_cons hclose) (place + 1)
    rw [List.cons_append, firstClose, quotedAfterAll_cons, List.length_cons]
    rw [Nat.add_assoc, Nat.add_comm 1] at ih
    split
    · exact ih
    case isFalse hplain =>
      rw [unquoted_chars_cons, if_neg hplain, List.mem_cons, not_or] at hopen hclose
      have hsame : symbol.quotedAfter quoted = false := by
        simp only [Bool.or_eq_true, not_or, Bool.not_eq_true] at hplain
        simp [Symbol.quotedAfter, hplain]
      rw [hsame] at ih ⊢
      rw [if_neg (Ne.symm hopen.1), if_neg (Ne.symm hclose.1), ih]

/-- A closing bracket is found in a text: none like it stands before it, and the group opened last,
if one was opened on the way, has no bracket in it. -/
def FoundClose (opened : List Bracket) (quoted : Bool) (place : Nat) (symbols : List Symbol)
    (stack : List Bracket) (closing : Bracket) : Prop :=
  ∃ before rest, symbols = before ++ closing.sign :: rest ∧
    closing.place = place + before.length ∧ closing.sign.char = ']' ∧
    quotedAfterAll quoted before = false ∧ ']' ∉ unquoted quoted (Symbol.chars before) ∧
    (stack = opened ∧ '[' ∉ unquoted quoted (Symbol.chars before) ∨
      ∃ front bracket raw outer, before = front ++ bracket :: raw ∧
        stack = ⟨bracket, place + front.length⟩ :: outer ∧ bracket.char = '[' ∧
        quotedAfterAll quoted front = false ∧ '[' ∉ unquoted false (Symbol.chars raw))

/-- A symbol that is quoted, or no bracket, may stand before. -/
theorem FoundClose.cons (hopen : symbol.isQuote || quoted || symbol.char != '[')
    (hclose : symbol.isQuote || quoted || symbol.char != ']')
    (h : FoundClose opened (symbol.quotedAfter quoted) (place + 1) symbols stack closing) :
    FoundClose opened quoted place (symbol :: symbols) stack closing := by
  obtain ⟨before, rest, rfl, hplace, hchar, hquoted, hnone, hstack⟩ := h
  refine ⟨symbol :: before, rest, rfl, ?_, hchar, hquoted, not_mem_unquoted_cons hclose hnone, ?_⟩
  · rw [hplace, List.length_cons]
    omega
  · rcases hstack with ⟨hsame, hbefore⟩ | ⟨front, bracket, raw, outer, rfl, hsame, hrest⟩
    · exact .inl ⟨hsame, not_mem_unquoted_cons hopen hbefore⟩
    · refine .inr ⟨symbol :: front, bracket, raw, outer, rfl, ?_, hrest⟩
      rw [hsame, List.length_cons, Nat.add_assoc, Nat.add_comm 1]

theorem foundClose_of_firstClose
    (h : firstClose opened quoted place symbols = (stack, some closing)) :
    FoundClose opened quoted place symbols stack closing := by
  fun_induction firstClose opened quoted place symbols with
  | case1 => cases h
  | case2 opened quoted place symbol symbols hquote ih =>
    exact (ih h).cons (by rw [hquote, Bool.true_or]) (by rw [hquote, Bool.true_or])
  | case3 opened quoted place symbol symbols hquote hopen ih =>
    obtain ⟨before, rest, rfl, hplace, hchar, hclosed, hnone, hstack⟩ := ih h
    have hplain : symbol.isQuote = false ∧ quoted = false := by simpa using hquote
    have hsame : symbol.quotedAfter quoted = false := by
      simp [Symbol.quotedAfter, hplain]
    refine ⟨symbol :: before, rest, rfl, ?_, hchar, by rwa [quotedAfterAll_cons, hsame], ?_,
      .inr ?_⟩
    · rw [hplace, List.length_cons]
      omega
    · exact not_mem_unquoted_cons (by rw [hopen]; simp) (by rwa [hsame])
    · rcases hstack with ⟨rfl, hbefore⟩ | ⟨front, bracket, raw, outer, rfl, rfl, hfront⟩
      · exact ⟨[], symbol, before, opened, rfl, rfl, hopen, hplain.2, hbefore⟩
      · refine ⟨symbol :: front, bracket, raw, outer, rfl, ?_, hfront.1, ?_, hfront.2.2⟩
        · rw [List.length_cons, Nat.add_assoc, Nat.add_comm 1]
        · rw [quotedAfterAll_cons, hsame]
          exact hfront.2.1
  | case4 opened quoted place symbol symbols hquote hopen hclose =>
    cases h
    have hplain : symbol.isQuote = false ∧ quoted = false := by simpa using hquote
    exact ⟨[], symbols, rfl, rfl, hclose, hplain.2, List.not_mem_nil, .inl ⟨rfl, List.not_mem_nil⟩⟩
  | case5 opened quoted place symbol symbols hquote hopen hclose ih =>
    have hplain : symbol.isQuote = false ∧ quoted = false := by simpa using hquote
    have hsame : symbol.quotedAfter quoted = false := by
      simp [Symbol.quotedAfter, hplain]
    exact .cons (by simp [hopen]) (by simp [hclose]) (hsame ▸ ih h)

/-! ### One splice -/

/-- A splice puts in the place of a group what the single pass writes for it. -/
theorem splice_append (before raw rest : List Symbol) (bracket close : Symbol) :
    splice (before ++ bracket :: (raw ++ close :: rest)) ⟨bracket, before.length⟩
        ⟨close, before.length + 1 + raw.length⟩ =
      (closeGroup (before ++ bracket :: (raw ++ close :: rest)).length bracket close raw rest).map
        fun (_, text, used) => before ++ (text ++ rest.drop used) := by
  have hdrop (used : Nat) :
      (before ++ bracket :: (raw ++ close :: rest)).drop
        (before.length + 1 + raw.length + 1 + used) = rest.drop used := by
    rw [show before ++ bracket :: (raw ++ close :: rest) =
      (before ++ bracket :: (raw ++ [close])) ++ rest by simp]
    rw [List.drop_append, List.drop_eq_nil_of_le (by simp; omega), List.nil_append]
    congr 1
    simp only [List.length_append, List.length_cons, List.length_nil]
    omega
  have hraw : ((before ++ bracket :: (raw ++ close :: rest)).take
      (before.length + 1 + raw.length)).drop (before.length + 1) = raw := by
    rw [show before ++ bracket :: (raw ++ close :: rest) =
      (before ++ [bracket]) ++ (raw ++ close :: rest) by simp, List.take_append, List.drop_append]
    simp
  have hremoved (used : Nat) :
      before.length + 1 + raw.length + 1 + used - before.length = raw.length + 2 + used := by
    omega
  have hrest := hdrop 0
  rw [Nat.add_zero, List.drop_zero] at hrest
  simp only [splice, closeGroup, hrest, hraw, hdrop, hremoved, List.take_left, map_bind]
  refine bind_congr fun (count, used) => ?_
  split
  · rfl
  · rw [map_bind]
    rfl

theorem unquoted_chars_of_isSign (h : IsSign symbol) :
    unquoted false (Symbol.chars (symbol :: symbols)) =
      symbol.char :: unquoted false (Symbol.chars symbols) := by
  rw [unquoted_chars_cons, quotedAfter_of_isSign h, not_isQuote_of_isSign h]
  rfl

theorem count_unquoted_eq_zero {c : Char} (hc : c = '[' ∨ c = ']') (h : Ungrouped symbols) :
    (unquoted false (Symbol.chars symbols)).count c = 0 := by
  rw [List.count_eq_zero]
  rcases hc with rfl | rfl
  · exact h.1
  · exact h.2

/-- A count has no brackets. -/
theorem count_unquoted_drop_of_readCount {c : Char} {offset : Nat} (hc : c = '[' ∨ c = ']')
    (h : readCount offset symbols = .ok (count, used)) :
    (unquoted quoted (Symbol.chars (symbols.drop used))).count c =
      (unquoted quoted (Symbol.chars symbols)).count c := by
  obtain ⟨-, marks, after, rfl, rfl, hmarks⟩ := readCount_eq_ok h
  have hnone : c ∉ unquoted quoted (Symbol.chars marks) := by
    intro hmem
    obtain ⟨mark, hmark, hchar⟩ := List.mem_map.1 (mem_of_mem_unquoted hmem)
    have hdigit : c ≠ '*' ∧ c.isDigit = false := by rcases hc with rfl | rfl <;> decide
    exact char_ne_of_mark (hmarks mark hmark) hdigit.1 hdigit.2 hchar
  have hquotes : quotedAfterAll quoted marks = quoted := quotedAfterAll_of_not_isQuote
    fun mark hmem => not_isQuote_of_mark (hmarks mark hmem)
  rw [List.drop_left, unquoted_chars_append, hquotes, List.count_append,
    List.count_eq_zero.2 hnone, Nat.zero_add]

/-- The first group that closes has no bracket in it, and opens and closes outside quotes. -/
theorem exists_of_spliceFirst (h : spliceFirst line = .ok (some spliced)) :
    ∃ before bracket raw close rest size text used,
      line = before ++ bracket :: (raw ++ close :: rest) ∧
      bracket.char = '[' ∧ close.char = ']' ∧ quotedAfterAll false before = false ∧
      quotedAfterAll false raw = false ∧ Ungrouped raw ∧
      closeGroup line.length bracket close raw rest = .ok (size, text, used) ∧
      spliced = before ++ (text ++ rest.drop used) := by
  unfold spliceFirst at h
  split at h
  case h_1 => cases h
  case h_2 => cases h
  case h_3 => cases h
  case h_4 opening outer closing hfound =>
    obtain ⟨_, rest, rfl, hplace, hclose, hquoted, hnone, hstack⟩ := foundClose_of_firstClose hfound
    rcases hstack with ⟨hnil, -⟩ | ⟨before, bracket, raw, others, rfl, hstack, hopen, hbefore, hraw⟩
    · cases hnil
    obtain ⟨rfl, rfl⟩ := List.cons.inj hstack
    obtain ⟨close, place⟩ := closing
    rw [quotedAfterAll_append, hbefore, quotedAfterAll_cons,
      quotedAfter_of_isSign (by simp [IsSign, hopen])] at hquoted
    rw [unquoted_chars_append, hbefore, List.mem_append, not_or,
      unquoted_chars_of_isSign (by simp [IsSign, hopen]), List.mem_cons, not_or] at hnone
    obtain rfl : place = before.length + 1 + raw.length := by
      refine hplace.trans ?_
      rw [List.length_append, List.length_cons]
      omega
    rw [List.append_assoc, List.cons_append, Nat.zero_add, splice_append] at h
    obtain ⟨_, h, hsome⟩ := map_ok_iff.1 h
    obtain ⟨⟨size, text, used⟩, hgroup, rfl⟩ := map_ok_iff.1 h
    refine ⟨before, bracket, raw, close, rest, size, text, used, ?_, hopen, hclose, hbefore,
      hquoted, ⟨hraw, hnone.2.2⟩, ?_, (Option.some.inj hsome).symm⟩
    · rw [List.append_assoc, List.cons_append]
    · rwa [List.append_assoc, List.cons_append]

/-- A splice takes out one pair of brackets outside quotes. -/
theorem count_unquoted_of_spliceFirst {c : Char} (hc : c = '[' ∨ c = ']')
    (h : spliceFirst line = .ok (some spliced)) :
    (unquoted false (Symbol.chars spliced)).count c + 1 =
      (unquoted false (Symbol.chars line)).count c := by
  obtain ⟨before, bracket, raw, close, rest, size, text, used, rfl, hopen, hclose, hbefore, hraw,
    hungrouped, hgroup, rfl⟩ := exists_of_spliceFirst h
  obtain ⟨-, count, hcount, rfl⟩ := closeGroup_eq_ok hgroup
  have hunit : quotedAfterAll false (trimOne raw) = false := by
    rw [quotedAfterAll_trimOne, hraw]
  have hcopies :
      (unquoted false (Symbol.chars (copies (trimOne raw) count close.origin))).count c = 0 :=
    count_unquoted_eq_zero hc (hungrouped.trimOne.copies hunit)
  rw [unquoted_chars_append, unquoted_chars_append, hbefore, quotedAfterAll_copies hunit,
    unquoted_chars_append, hbefore, unquoted_chars_of_isSign (by simp [IsSign, hopen]),
    unquoted_chars_append, hraw, unquoted_chars_of_isSign (by simp [IsSign, hclose])]
  simp only [List.count_append, List.count_cons, hcopies, count_unquoted_eq_zero hc hungrouped,
    count_unquoted_drop_of_readCount hc hcount, hopen, hclose]
  rcases hc with rfl | rfl <;> simp <;> omega

/-- Write out the groups of a line one at a time, from the start of the line each time. A line that
is spliced may grow, but it has one closing bracket less outside quotes. -/
def spliceAll (line : List Symbol) : Except RepeatFailure (List Symbol) :=
  match _found : spliceFirst line with
  | .error failure => .error failure
  | .ok none => .ok line
  | .ok (some spliced) => spliceAll spliced
termination_by (unquoted false (Symbol.chars line)).count ']'
decreasing_by
  have := count_unquoted_of_spliceFirst (.inr rfl) _found
  omega

theorem spliceAll_of_error {failure : RepeatFailure} (h : spliceFirst line = .error failure) :
    spliceAll line = .error failure := by
  unfold spliceAll
  split <;> simp_all

theorem spliceAll_of_none (h : spliceFirst line = .ok none) : spliceAll line = .ok line := by
  unfold spliceAll
  split <;> simp_all

theorem spliceAll_of_some (h : spliceFirst line = .ok (some spliced)) :
    spliceAll line = spliceAll spliced := by
  rw [spliceAll]
  split <;> simp_all

/-! ### The single pass -/

/-- The brackets of the open groups, at their places in the line. -/
def brackets : List OpenGroup → List Bracket
  | [] => []
  | group :: outer =>
    ⟨group.bracket, (enclose outer group.before.reverse).length⟩ :: brackets outer

theorem length_enclose_cons (group : OpenGroup) (outer : List OpenGroup) (inner : List Symbol) :
    (enclose (group :: outer) inner).length =
      (enclose outer group.before.reverse).length + 1 + inner.length := by
  rw [enclose_cons, List.length_append, List.length_cons]
  omega

/-- Looking through a line comes to where the single pass is, with the same groups open. -/
theorem firstClose_enclose (h : GroupsOpen groups written quoted) (symbols : List Symbol) :
    firstClose [] false 0 (enclose groups (written.reverse ++ symbols)) =
      firstClose (brackets groups) quoted (enclose groups written.reverse).length symbols := by
  induction groups generalizing written quoted symbols with
  | nil =>
    have hpast := firstClose_append h.ungrouped.1 h.ungrouped.2 [] 0 symbols
    rwa [Nat.zero_add, h.quoted_eq] at hpast
  | cons group outer ih =>
    have hopen := (List.forall_mem_cons.1 h.before).1.1
    have houtside := ih h.outer (group.bracket :: (written.reverse ++ symbols))
    have hplain : group.bracket.isQuote = false := by simp [Symbol.isQuote, hopen]
    have hpast := firstClose_append h.ungrouped.1 h.ungrouped.2 (brackets (group :: outer))
      ((enclose outer group.before.reverse).length + 1) symbols
    rw [h.quoted_eq] at hpast
    rw [length_enclose_cons, ← hpast]
    refine houtside.trans ?_
    rw [firstClose, if_neg (by simp [hplain]), if_pos hopen]
    rfl

theorem grow_eq_ok {kept unit offset : Nat} (h : grow kept unit count offset = .ok size) :
    size = kept + copiedLength unit count ∧ size ≤ longestLine := by
  unfold grow at h
  dsimp only at h
  split at h
  · cases h
  case isFalse hfits =>
    cases h
    exact ⟨rfl, Nat.le_of_not_lt hfits⟩

/-- A group that closes makes room for its copies. -/
theorem size_closeGroup {size' : Nat} {text : List Symbol}
    (h : closeGroup size bracket close raw rest = .ok (size', text, used)) :
    size' = size - (raw.length + 2 + used) + text.length := by
  unfold closeGroup at h
  obtain ⟨⟨count, read⟩, hcount, h⟩ := bind_ok_iff.1 h
  dsimp only at h
  split at h
  · cases h
  · obtain ⟨grown, hgrow, h⟩ := bind_ok_iff.1 h
    cases h
    rw [length_copies (readCount_eq_ok hcount).1]
    exact (grow_eq_ok hgrow).1

/-- Where the single pass comes to the end of a group, that group is the first to be spliced. -/
theorem spliceFirst_enclose {group : OpenGroup} (h : GroupsOpen (group :: groups) written false)
    (hclose : close.char = ']') (rest : List Symbol) :
    spliceFirst (enclose (group :: groups) (written.reverse ++ close :: rest)) =
      (closeGroup (enclose (group :: groups) (written.reverse ++ close :: rest)).length
        group.bracket close written.reverse rest).map fun (_, text, used) =>
          some (enclose groups (group.before.reverse ++ (text ++ rest.drop used))) := by
  have hplain : close.isQuote = false := by simp [Symbol.isQuote, hclose]
  have hother : close.char ≠ '[' := by
    rw [hclose]
    decide
  have hfirst := firstClose_enclose h (close :: rest)
  rw [firstClose, if_neg (by simp [hplain]), if_neg hother, if_pos hclose,
    length_enclose_cons] at hfirst
  rw [spliceFirst, hfirst, enclose_cons]
  change (splice _ _ _).map some = _
  rw [splice_append]
  cases closeGroup _ group.bracket close written.reverse rest with
  | error failure => rfl
  | ok closed => exact congrArg (Except.ok ∘ some) (enclose_append groups _ _).symm

/-- The single pass comes to what comes of starting over after every splice: the line it stands
for is the one that is looked through. -/
theorem writeGroups_eq_spliceAll (h : GroupsOpen groups written quoted)
    (hsize : size = (enclose groups (written.reverse ++ symbols)).length) :
    writeGroups size groups written quoted symbols =
      spliceAll (enclose groups (written.reverse ++ symbols)) := by
  fun_induction writeGroups size groups written quoted symbols with
  | case1 size written quoted =>
    have hfirst := firstClose_enclose h []
    rw [spliceAll_of_none (by rw [spliceFirst, hfirst]; rfl), List.append_nil]
    rfl
  | case2 size written quoted group outer =>
    have hfirst := firstClose_enclose h []
    rw [spliceAll_of_error (by rw [spliceFirst, hfirst]; rfl)]
  | case3 size groups written quoted symbol rest hquote ih =>
    simp only [Bool.or_eq_true] at hquote
    have hnext := h.cons (hquote.imp_right .inl)
    have hline : written.reverse ++ symbol :: rest = (symbol :: written).reverse ++ rest := by simp
    rw [hline] at hsize ⊢
    exact ih hnext hsize
  | case4 size groups written quoted symbol rest hquote hopen ih =>
    obtain ⟨-, rfl⟩ : symbol.isQuote = false ∧ quoted = false := by simpa using hquote
    have hnext := h.push hopen
    exact ih hnext hsize
  | case5 size written quoted symbol rest hquote hopen hclose =>
    have hfirst := firstClose_enclose h (symbol :: rest)
    rw [firstClose, if_neg hquote, if_neg hopen, if_pos hclose] at hfirst
    rw [spliceAll_of_error (by rw [spliceFirst, hfirst]; rfl)]
  | case6 size written quoted symbol rest hquote hopen hclose group outer error hgroup =>
    rw [List.unattach_reverse, List.unattach_attach] at hgroup
    obtain ⟨-, rfl⟩ : symbol.isQuote = false ∧ quoted = false := by simpa using hquote
    have hfirst := spliceFirst_enclose h hclose rest
    rw [← hsize, hgroup] at hfirst
    simp only [hgroup]
    exact (spliceAll_of_error hfirst).symm
  | case7 size written quoted symbol rest hquote hopen hclose group outer size' text used hgroup
      ih =>
    rw [List.unattach_reverse, List.unattach_attach] at hgroup
    obtain ⟨-, rfl⟩ : symbol.isQuote = false ∧ quoted = false := by simpa using hquote
    -- the single pass goes on behind the copies; a new look passes over them to the same place
    have hfirst := spliceFirst_enclose h hclose rest
    rw [← hsize, hgroup] at hfirst
    simp only [hgroup]
    have hline : group.before.reverse ++ (text ++ rest.drop used) =
        (text.reverse ++ group.before).reverse ++ rest.drop used := by
      simp
    rw [spliceAll_of_some hfirst, hline]
    refine ih (h.pop hgroup) ?_
    obtain ⟨-, count, hcount, -⟩ := closeGroup_eq_ok hgroup
    obtain ⟨-, marks, after, hrest, hused, -⟩ := readCount_eq_ok hcount
    rw [size_closeGroup hgroup, hsize, enclose_cons, ← hline, enclose_append, hrest, hused,
      List.drop_left]
    simp only [List.length_append, List.length_cons]
    omega
  | case8 size groups written quoted symbol rest hquote hopen hclose ih =>
    obtain ⟨hplain, rfl⟩ : symbol.isQuote = false ∧ quoted = false := by simpa using hquote
    have hnext := h.cons (.inr (.inr ⟨hopen, hclose⟩))
    rw [Symbol.quotedAfter, hplain] at hnext
    have hline : written.reverse ++ symbol :: rest = (symbol :: written).reverse ++ rest := by simp
    rw [hline] at hsize ⊢
    exact ih hnext hsize

/-- Writing out one group at a time, from the start of the line each time, comes to the same line
as the single pass, or to the same fault at the same place. -/
theorem spliceAll_eq_expandGroups (line : List Symbol) : spliceAll line = expandGroups line :=
  (writeGroups_eq_spliceAll groupsOpen_nil rfl).symm

end Stave.Shorthand.Repeat
