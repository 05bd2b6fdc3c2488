import Stave.Proofs.Loop
import Stave.Proofs.Repeat.Spliced

/-!
# The passes end within bounds

A splice over a group takes out one pair of brackets and puts none in, so as many looks from the
start of the line are enough as there are closing brackets outside quotes. The passes over chords
and words go through the line by turns. A turn copies what it visits or splices copies in its
place, and goes on behind: what is still to be visited is always the end of the line as it was
given. The line that is worked on stays as it is or is spliced, and after a splice it is never too
long.
-/
namespace Stave.Shorthand.Repeat

/-- A line gives way to another by one splice: a repeat is written out, and the line is not too
long then. -/
structure Splices (line next : List Symbol) : Prop where
  step : Step line next
  length_le : next.length ≤ longestLine

/-- The brackets of groups that stand outside quotes. -/
def groupBrackets (line : List Symbol) : List Char :=
  (unquoted false (Symbol.chars line)).filter fun c => c = '[' || c = ']'

/-- One pair of brackets outside quotes is taken out, which has no other one in it, and all others
stay. -/
def PairTaken (line next : List Symbol) : Prop :=
  ∃ front back, groupBrackets line = front ++ '[' :: ']' :: back ∧
    groupBrackets next = front ++ back

/-- The pass over groups, splice by splice: each takes out one pair of brackets, so there are no
more splices than closing brackets outside quotes. -/
structure GroupRun (line : List Symbol) (lines : List (List Symbol))
    (result : Except RepeatFailure (List Symbol)) : Prop where
  loop : Loop spliceFirst id line lines result
  pairTaken : (line :: lines).IsChain PairTaken
  splices : (line :: lines).IsChain Splices
  length_le : lines.length ≤ (unquoted false (Symbol.chars line)).count ']'

/-- Where a pass is in its line. -/
structure Working where
  /-- What it has gone past or has spliced, last symbol first. -/
  written : List Symbol
  /-- Whether that leaves a quotation open. -/
  quoted : Bool
  /-- What it has still to visit. -/
  ahead : List Symbol

/-- The line as it stands. -/
def Working.text (state : Working) : List Symbol := state.written.reverse ++ state.ahead

/-- A turn of the pass over chords: a symbol is gone past, or a chord and the rest of its word. -/
def chordTurn (state : Working) : Except RepeatFailure (Option Working) :=
  match state.ahead with
  | [] => .ok none
  | symbol :: rest =>
    match chordAt? state.written state.quoted symbol rest with
    | none => .ok (some ⟨symbol :: state.written, symbol.quotedAfter state.quoted, rest⟩)
    | some (body, after) => do
      let word := Symbol.splitWord false after
      let (_, text) ← writeChord state.text.length (symbol :: body) word.1
      .ok (some ⟨text.reverse ++ state.written, false, word.2⟩)

/-- A turn of the pass over words: a blank is gone past, or a word. -/
def wordTurn (state : Working) : Except RepeatFailure (Option Working) :=
  match state.ahead with
  | [] => .ok none
  | symbol :: rest =>
    if symbol.isBlank then .ok (some ⟨symbol :: state.written, false, rest⟩)
    else do
      let tail := Symbol.splitWord (symbol.quotedAfter false) rest
      let (_, text) ← writeWord state.text.length (symbol :: tail.1)
      .ok (some ⟨text.reverse ++ state.written, false, tail.2⟩)

/-- A turn goes past symbols that were still to be visited, and it leaves the line or splices
it. -/
structure Turned (state next : Working) : Prop where
  ahead : ∃ visited, visited ≠ [] ∧ state.ahead = visited ++ next.ahead
  text : next.text = state.text ∨ Splices state.text next.text

/-- A pass over a line, turn by turn: it visits only what the line had from the start, so there are
no more turns than symbols. -/
structure PassRun (turn : Working → Except RepeatFailure (Option Working)) (line : List Symbol)
    (states : List Working) (result : Except RepeatFailure (List Symbol)) : Prop where
  loop : Loop turn Working.text ⟨[], false, line⟩ states result
  turned : ((⟨[], false, line⟩ : Working) :: states).IsChain Turned
  ahead : ∀ state ∈ states, state.ahead <:+ line
  length_le : states.length ≤ line.length

variable {line next before after raw rest text unit chord tail word written symbols out :
    List Symbol} {lines : List (List Symbol)} {bracket close symbol star : Symbol}
  {size used count : Nat} {quoted : Bool}

/-! ### Groups -/

theorem groupBrackets_of_ungrouped (h : Ungrouped line) : groupBrackets line = [] := by
  refine List.filter_eq_nil_iff.2 fun c hmem => ?_
  simp only [Bool.or_eq_true, decide_eq_true_eq, not_or]
  exact ⟨fun hopen => h.1 (hopen ▸ hmem), fun hclose => h.2 (hclose ▸ hmem)⟩

theorem groupBrackets_append (hclosed : quotedAfterAll false before = false) :
    groupBrackets (before ++ after) = groupBrackets before ++ groupBrackets after := by
  rw [groupBrackets, unquoted_chars_append, hclosed, List.filter_append]
  rfl

theorem groupBrackets_cons (h : symbol.char = '[' ∨ symbol.char = ']') :
    groupBrackets (symbol :: after) = symbol.char :: groupBrackets after := by
  have hsign : IsSign symbol := by rcases h with h | h <;> simp [IsSign, h]
  rw [groupBrackets, unquoted_chars_of_isSign hsign, List.filter_cons, if_pos (by simpa using h)]
  rfl

/-- A count has no brackets and no quotes. -/
theorem ungrouped_of_marks
    (h : ∀ mark ∈ symbols, mark.char = '*' ∨ mark.char.isDigit = true) :
    Ungrouped symbols ∧ quotedAfterAll false symbols = false := by
  have hnone {c : Char} (hstar : c ≠ '*') (hdigit : c.isDigit = false) :
      c ∉ unquoted false (Symbol.chars symbols) := by
    intro hmem
    obtain ⟨mark, hmark, hchar⟩ := List.mem_map.1 (mem_of_mem_unquoted hmem)
    exact char_ne_of_mark (h mark hmark) hstar hdigit hchar
  exact ⟨⟨hnone (by decide) (by decide), hnone (by decide) (by decide)⟩,
    quotedAfterAll_of_not_isQuote fun mark hmem => not_isQuote_of_mark (h mark hmem)⟩

theorem size_le_of_closeGroup {size' : Nat}
    (h : closeGroup size bracket close raw rest = .ok (size', text, used)) :
    size' ≤ longestLine := by
  unfold closeGroup at h
  obtain ⟨⟨count, read⟩, -, h⟩ := bind_ok_iff.1 h
  dsimp only at h
  split at h
  · cases h
  · obtain ⟨grown, hgrow, h⟩ := bind_ok_iff.1 h
    cases h
    exact (grow_eq_ok hgrow).2

/-- A splice over a group takes out its brackets, and the line is not too long after it. -/
theorem pairTaken_of_spliceFirst (h : spliceFirst line = .ok (some next)) :
    PairTaken line next ∧ Splices line next := by
  obtain ⟨before, bracket, raw, close, rest, size, text, used, rfl, hopen, hclose, hbefore, hraw,
    hungrouped, hgroup, rfl⟩ := exists_of_spliceFirst h
  have hsize := size_closeGroup hgroup
  have hbound := size_le_of_closeGroup hgroup
  obtain ⟨-, count, hcount, rfl⟩ := closeGroup_eq_ok hgroup
  obtain ⟨-, marks, after, rfl, rfl, hmarks⟩ := readCount_eq_ok hcount
  obtain ⟨hcounted, hquotes⟩ := ungrouped_of_marks hmarks
  have hunit : quotedAfterAll false (trimOne raw) = false := by
    rw [quotedAfterAll_trimOne, hraw]
  have hcopies : groupBrackets (copies (trimOne raw) count close.origin) = [] :=
    groupBrackets_of_ungrouped (hungrouped.trimOne.copies hunit)
  rw [List.drop_left]
  refine ⟨⟨groupBrackets before, groupBrackets after, ?_, ?_⟩, .group hopen hclose hcount, ?_⟩
  · rw [groupBrackets_append hbefore, groupBrackets_cons (.inl hopen), groupBrackets_append hraw,
      groupBrackets_of_ungrouped hungrouped, groupBrackets_cons (.inr hclose),
      groupBrackets_append hquotes, groupBrackets_of_ungrouped hcounted, hopen, hclose]
    rfl
  · rw [groupBrackets_append hbefore, groupBrackets_append (quotedAfterAll_copies hunit), hcopies]
    rfl
  · rw [hsize] at hbound
    simp only [List.length_append, List.length_cons] at hbound ⊢
    omega

theorem exists_loop_spliceAll (line : List Symbol) :
    ∃ lines, Loop spliceFirst id line lines (spliceAll line) := by
  induction line using spliceAll.induct with
  | case1 line failure hfound =>
    rw [spliceAll_of_error hfound]
    exact ⟨[], .fails hfound⟩
  | case2 line hfound =>
    rw [spliceAll_of_none hfound]
    exact ⟨[], .ends hfound⟩
  | case3 line next hfound ih =>
    rw [spliceAll_of_some hfound]
    obtain ⟨lines, hloop⟩ := ih
    exact ⟨next :: lines, .turns hfound hloop⟩

theorem exists_groupRun (line : List Symbol) :
    ∃ lines, GroupRun line lines (expandGroups line) := by
  obtain ⟨lines, hloop⟩ := exists_loop_spliceAll line
  rw [spliceAll_eq_expandGroups] at hloop
  refine ⟨lines, hloop, hloop.isChain fun _ _ h => (pairTaken_of_spliceFirst h).1,
    hloop.isChain fun _ _ h => (pairTaken_of_spliceFirst h).2, ?_⟩
  refine hloop.length_le (fun line => (unquoted false (Symbol.chars line)).count ']') ?_
  intro line next h
  have hcount := count_unquoted_of_spliceFirst (.inr rfl) h
  omega

/-! ### Chords and words -/

/-- What comes in the place of a stretch of a line, with the length of the line then: the stretch
as it is, or copies if they are not too many. -/
inductive Replaced (kept : Nat) (word : List Symbol) : Nat × List Symbol → Prop where
  | same : Replaced kept word (kept + word.length, word)
  | copied {unit digits : List Symbol} {star : Symbol} {count : Nat}
      (split : word = unit ++ star :: digits)
      (starred : star.char = '*') (counted : readWordCount star digits = .ok count)
      (fits : kept + (copies unit count star.origin).length ≤ longestLine) :
      Replaced kept word
        (kept + (copies unit count star.origin).length, copies unit count star.origin)

variable {state : Working} {kept : Nat} {result : Nat × List Symbol}

theorem Replaced.size_eq (h : Replaced kept word result) : result.1 = kept + result.2.length := by
  cases h <;> rfl

/-- The line with a stretch replaced. -/
theorem Replaced.splices (h : Replaced (before.length + after.length) word result) :
    before ++ (result.2 ++ after) = before ++ (word ++ after) ∨
      Splices (before ++ (word ++ after)) (before ++ (result.2 ++ after)) := by
  cases h with
  | same => exact .inl rfl
  | @copied unit digits star count split starred counted fits =>
    subst split
    refine .inr ⟨?_, ?_⟩
    · rw [List.append_assoc, List.cons_append]
      exact .starred starred counted
    · simp only [List.length_append] at fits ⊢
      omega

theorem replaced_of_grow {digits : List Symbol} {offset : Nat}
    (hsplit : word = unit ++ star :: digits) (hstar : star.char = '*')
    (hcount : readWordCount star digits = .ok count)
    (hgrow : grow kept unit.length count offset = .ok size) :
    Replaced kept word (size, copies unit count star.origin) := by
  obtain ⟨hsize, hbound⟩ := grow_eq_ok hgrow
  have hpos := (readCount_eq_ok (readWordCount_eq_ok hcount)).1
  have hlength : (copies unit count star.origin).length = copiedLength unit.length count :=
    length_copies hpos
  rw [← hlength] at hsize
  subst hsize
  exact .copied hsplit hstar hcount hbound

theorem replaced_of_writeWord (h : writeWord (kept + word.length) word = .ok result) :
    Replaced kept word result := by
  unfold writeWord at h
  split at h
  · cases h
    exact .same
  case h_2 unit star digits hfound =>
    obtain ⟨hsplit, hstar⟩ := splitLastStar_eq_some hfound
    split at h
    · cases h
    obtain ⟨count, hcount, h⟩ := bind_ok_iff.1 h
    obtain ⟨grown, hgrow, h⟩ := bind_ok_iff.1 h
    cases h
    rw [Nat.add_sub_cancel_right] at hgrow
    exact replaced_of_grow hsplit hstar hcount hgrow

theorem replaced_of_writeChord
    (h : writeChord (kept + (chord ++ tail).length) chord tail = .ok result) :
    Replaced kept (chord ++ tail) result := by
  unfold writeChord at h
  split at h
  · cases h
    exact .same
  case h_2 suffix star digits hfound =>
    obtain ⟨rfl, hstar⟩ := chordStar_eq_some hfound
    obtain ⟨count, hcount, h⟩ := bind_ok_iff.1 h
    obtain ⟨grown, hgrow, h⟩ := bind_ok_iff.1 h
    cases h
    rw [← List.length_append, Nat.add_sub_cancel_right] at hgrow
    exact replaced_of_grow (List.append_assoc ..).symm hstar hcount hgrow

theorem turned_past (quoted : Bool) (h : state.ahead = symbol :: rest) :
    Turned state ⟨symbol :: state.written, quoted, rest⟩ := by
  refine ⟨⟨[symbol], List.cons_ne_nil _ _, h⟩, .inl ?_⟩
  simp [Working.text, h]

theorem Replaced.turned (hahead : state.ahead = word ++ rest) (hne : word ≠ [])
    (h : Replaced (state.written.length + rest.length) word result) (quoted : Bool) :
    Turned state ⟨result.2.reverse ++ state.written, quoted, rest⟩ := by
  refine ⟨⟨word, hne, hahead⟩, ?_⟩
  rw [← List.length_reverse] at h
  have hline := h.splices
  simpa [Working.text, hahead] using hline

theorem Replaced.length_eq (h : Replaced (written.length + rest.length) word (size, text))
    (quoted : Bool) : size = (⟨text.reverse ++ written, quoted, rest⟩ : Working).text.length := by
  have hsize : size = written.length + rest.length + text.length := h.size_eq
  rw [Working.text]
  simp only [List.length_append, List.length_reverse]
  omega

/-- The length of a line that is worked on. -/
theorem length_text (state : Working) (hahead : state.ahead = word ++ rest) :
    state.text.length = state.written.length + rest.length + word.length := by
  rw [Working.text, hahead]
  simp only [List.length_append, List.length_reverse]
  omega

theorem chordTurn_none (h : chordAt? written quoted symbol rest = none) :
    chordTurn ⟨written, quoted, symbol :: rest⟩ =
      .ok (some ⟨symbol :: written, symbol.quotedAfter quoted, rest⟩) := by
  simp only [chordTurn, h]

theorem chordTurn_some {body after : List Symbol}
    (h : chordAt? written quoted symbol rest = some (body, after)) :
    chordTurn ⟨written, quoted, symbol :: rest⟩ =
      writeChord (⟨written, quoted, symbol :: rest⟩ : Working).text.length (symbol :: body)
          (Symbol.splitWord false after).1 >>= fun result =>
        .ok (some ⟨result.2.reverse ++ written, false, (Symbol.splitWord false after).2⟩) := by
  simp only [chordTurn, h]

/-- What a chord and its word give way to. -/
theorem replaced_of_chordAt? {body after : List Symbol}
    (hfound : chordAt? written quoted symbol rest = some (body, after))
    (h : writeChord (⟨written, quoted, symbol :: rest⟩ : Working).text.length (symbol :: body)
      (Symbol.splitWord false after).1 = .ok result) :
    symbol :: rest = (symbol :: body ++ (Symbol.splitWord false after).1) ++
        (Symbol.splitWord false after).2 ∧
      Replaced (written.length + (Symbol.splitWord false after).2.length)
        (symbol :: body ++ (Symbol.splitWord false after).1) result := by
  have hahead : symbol :: rest = (symbol :: body ++ (Symbol.splitWord false after).1) ++
      (Symbol.splitWord false after).2 := by
    rw [List.append_assoc, Symbol.splitWord_append, chordAt?_eq_some hfound, List.cons_append]
  rw [length_text ⟨written, quoted, symbol :: rest⟩ hahead] at h
  exact ⟨hahead, replaced_of_writeChord h⟩

theorem turned_chordTurn {next : Working} (h : chordTurn state = .ok (some next)) :
    Turned state next := by
  obtain ⟨written, quoted, ahead⟩ := state
  cases ahead with
  | nil => cases h
  | cons symbol rest =>
    cases hfound : chordAt? written quoted symbol rest with
    | none =>
      rw [chordTurn_none hfound] at h
      cases h
      exact turned_past _ rfl
    | some found =>
      obtain ⟨body, after⟩ := found
      rw [chordTurn_some hfound] at h
      obtain ⟨result, hwrite, h⟩ := bind_ok_iff.1 h
      cases h
      obtain ⟨hahead, hreplaced⟩ := replaced_of_chordAt? hfound hwrite
      exact hreplaced.turned hahead (by simp) _

theorem exists_loop_writeChords (written : List Symbol) (quoted : Bool) (symbols : List Symbol)
    (hsize : size = (⟨written, quoted, symbols⟩ : Working).text.length) :
    ∃ states, Loop chordTurn Working.text ⟨written, quoted, symbols⟩ states
      (writeChords size written quoted symbols) := by
  fun_induction writeChords size written quoted symbols with
  | case1 size written quoted =>
    have hend : Loop chordTurn Working.text ⟨written, quoted, []⟩ [] (.ok _) := .ends rfl
    rw [Working.text, List.append_nil] at hend
    exact ⟨[], hend⟩
  | case2 size written quoted symbol rest hfound ih =>
    have hnext := chordTurn_none hfound
    obtain ⟨states, hloop⟩ := ih (by rw [hsize]; simp [Working.text])
    exact ⟨_, .turns hnext hloop⟩
  | case3 size written quoted symbol rest body after hfound word failure hwrite =>
    subst hsize
    have hturn := chordTurn_some hfound
    rw [hwrite] at hturn
    exact ⟨[], .fails hturn⟩
  | case4 size written quoted symbol rest body after hfound word size' text hwrite ih =>
    subst hsize
    have hturn := chordTurn_some hfound
    rw [hwrite] at hturn
    obtain ⟨hahead, hreplaced⟩ := replaced_of_chordAt? hfound hwrite
    obtain ⟨states, hloop⟩ := ih (hreplaced.length_eq false)
    exact ⟨_, .turns hturn hloop⟩

/-! ### Words -/

theorem wordTurn_blank (written rest : List Symbol) (quoted : Bool) (h : symbol.isBlank = true) :
    wordTurn ⟨written, quoted, symbol :: rest⟩ = .ok (some ⟨symbol :: written, false, rest⟩) := by
  simp only [wordTurn, if_pos h]

theorem wordTurn_word (written rest : List Symbol) (quoted : Bool) (h : ¬symbol.isBlank = true) :
    wordTurn ⟨written, quoted, symbol :: rest⟩ =
      writeWord (⟨written, quoted, symbol :: rest⟩ : Working).text.length
          (symbol :: (Symbol.splitWord (symbol.quotedAfter false) rest).1) >>= fun result =>
        .ok (some ⟨result.2.reverse ++ written, false,
          (Symbol.splitWord (symbol.quotedAfter false) rest).2⟩) := by
  simp only [wordTurn, if_neg h]

/-- What a word gives way to. -/
theorem replaced_of_splitWord
    (h : writeWord (⟨written, quoted, symbol :: rest⟩ : Working).text.length
      (symbol :: (Symbol.splitWord (symbol.quotedAfter false) rest).1) = .ok result) :
    symbol :: rest = (symbol :: (Symbol.splitWord (symbol.quotedAfter false) rest).1) ++
        (Symbol.splitWord (symbol.quotedAfter false) rest).2 ∧
      Replaced (written.length + (Symbol.splitWord (symbol.quotedAfter false) rest).2.length)
        (symbol :: (Symbol.splitWord (symbol.quotedAfter false) rest).1) result := by
  have hahead : symbol :: rest = (symbol :: (Symbol.splitWord (symbol.quotedAfter false) rest).1) ++
      (Symbol.splitWord (symbol.quotedAfter false) rest).2 := by
    rw [List.cons_append, Symbol.splitWord_append]
  rw [length_text ⟨written, quoted, symbol :: rest⟩ hahead] at h
  exact ⟨hahead, replaced_of_writeWord h⟩

theorem turned_wordTurn {next : Working} (h : wordTurn state = .ok (some next)) :
    Turned state next := by
  obtain ⟨written, quoted, ahead⟩ := state
  cases ahead with
  | nil => cases h
  | cons symbol rest =>
    by_cases hblank : symbol.isBlank = true
    · rw [wordTurn_blank written rest quoted hblank] at h
      cases h
      exact turned_past _ rfl
    · rw [wordTurn_word written rest quoted hblank] at h
      obtain ⟨result, hwrite, h⟩ := bind_ok_iff.1 h
      cases h
      obtain ⟨hahead, hreplaced⟩ := replaced_of_splitWord hwrite
      exact hreplaced.turned hahead (List.cons_ne_nil _ _) _

theorem exists_loop_writeWords (written symbols : List Symbol)
    (hsize : size = (⟨written, false, symbols⟩ : Working).text.length) :
    ∃ states, Loop wordTurn Working.text ⟨written, false, symbols⟩ states
      (writeWords size written symbols) := by
  fun_induction writeWords size written symbols with
  | case1 size written =>
    have hend : Loop wordTurn Working.text ⟨written, false, []⟩ [] (.ok _) := .ends rfl
    rw [Working.text, List.append_nil] at hend
    exact ⟨[], hend⟩
  | case2 size written symbol rest hblank ih =>
    obtain ⟨states, hloop⟩ := ih (by rw [hsize]; simp [Working.text])
    exact ⟨_, .turns (wordTurn_blank written rest false hblank) hloop⟩
  | case3 size written symbol rest hblank tail failure hwrite =>
    subst hsize
    have hturn := wordTurn_word written rest false hblank
    rw [hwrite] at hturn
    exact ⟨[], .fails hturn⟩
  | case4 size written symbol rest hblank tail size' text hwrite ih =>
    subst hsize
    have hturn := wordTurn_word written rest false hblank
    rw [hwrite] at hturn
    obtain ⟨hahead, hreplaced⟩ := replaced_of_splitWord hwrite
    obtain ⟨states, hloop⟩ := ih (hreplaced.length_eq false)
    exact ⟨_, .turns hturn hloop⟩

/-! ### Runs -/

variable {turn : Working → Except RepeatFailure (Option Working)} {states : List Working}

theorem passRun_of_loop {result : Except RepeatFailure (List Symbol)}
    (hturn : ∀ state next, turn state = .ok (some next) → Turned state next)
    (h : Loop turn Working.text ⟨[], false, line⟩ states result) :
    PassRun turn line states result where
  loop := h
  turned := h.isChain hturn
  ahead := by
    refine h.forall_mem (fun state => state.ahead <:+ line) ?_ (List.suffix_refl line)
    intro state next hahead hnext
    obtain ⟨visited, -, hvisited⟩ := (hturn state next hnext).ahead
    exact .trans ⟨visited, hvisited.symm⟩ hahead
  length_le := by
    refine h.length_le (fun state => state.ahead.length) fun state next hnext => ?_
    obtain ⟨visited, hne, hvisited⟩ := (hturn state next hnext).ahead
    have hpos := List.length_pos_of_ne_nil hne
    rw [hvisited, List.length_append]
    omega

theorem exists_chordRun (line : List Symbol) :
    ∃ states, PassRun chordTurn line states (expandChords line) := by
  obtain ⟨states, hloop⟩ := exists_loop_writeChords [] false line rfl
  exact ⟨states, passRun_of_loop (fun _ _ => turned_chordTurn) hloop⟩

theorem exists_wordRun (line : List Symbol) :
    ∃ states, PassRun wordTurn line states (expandWords line) := by
  obtain ⟨states, hloop⟩ := exists_loop_writeWords [] line rfl
  exact ⟨states, passRun_of_loop (fun _ _ => turned_wordTurn) hloop⟩

/-- What a pass comes to is its line, or it was spliced last and is not too long. -/
def Within (line out : List Symbol) : Prop := out = line ∨ out.length ≤ longestLine

theorem Within.trans (hfirst : Within line next) (hsecond : Within next out) : Within line out := by
  rcases hsecond with rfl | hlength
  · exact hfirst
  · exact .inr hlength

theorem within_expandGroups (h : expandGroups line = .ok out) : Within line out := by
  obtain ⟨lines, hrun⟩ := exists_groupRun line
  rw [h] at hrun
  obtain ⟨last, hlast, -, rfl⟩ := hrun.loop.exists_last (Within line)
    (fun _ _ _ hnext => .inr (pairTaken_of_spliceFirst hnext).2.length_le) (.inl rfl)
  exact hlast

theorem within_of_loop
    (hturn : ∀ state next, turn state = .ok (some next) → Turned state next)
    (h : Loop turn Working.text ⟨[], false, line⟩ states (.ok out)) : Within line out := by
  have hkept (state next) (hstate : Within line state.text) (hnext : turn state = .ok (some next)) :
      Within line next.text :=
    hstate.trans ((hturn state next hnext).text.imp_right Splices.length_le)
  obtain ⟨last, hlast, -, rfl⟩ :=
    h.exists_last (fun state => Within line state.text) hkept (.inl rfl)
  exact hlast

theorem within_expandChords (h : expandChords line = .ok out) : Within line out := by
  obtain ⟨states, hrun⟩ := exists_chordRun line
  rw [h] at hrun
  exact within_of_loop (fun _ _ => turned_chordTurn) hrun.loop

theorem within_expandWords (h : expandWords line = .ok out) : Within line out := by
  obtain ⟨states, hrun⟩ := exists_wordRun line
  rw [h] at hrun
  exact within_of_loop (fun _ _ => turned_wordTurn) hrun.loop

end Stave.Shorthand.Repeat
