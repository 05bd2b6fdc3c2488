import Stave.Proofs.Repeat.Moved
import Stave.Proofs.Symbol.Brackets

/-!
# Repeats of joined texts

A pass over a line that is joined of texts at blanks writes out each of them as it would alone:
wherever the text stands in the line, whatever was written before it, and however long the
whole is, as long as that is not too long. What this takes of a text is that it leaves no
quotation open and, for the chords, that its last chord bracket is a closing one. The induction
is on the pass over the text alone, with what follows the text as a hypothesis.
-/
namespace Stave.Shorthand

/-- A step of a pass comes to a value unless the line gets too long. -/
def Fits {α : Type} (result : Except RepeatFailure α) (value : α) : Prop :=
  result = .ok value ∨ ∃ offset, result = .error ⟨.tooLong, offset⟩

/-- A pass takes the length of the line, the text written so far, last symbol first, and the
rest of the line. -/
abbrev Pass := Nat → List Symbol → List Symbol → Except RepeatFailure (List Symbol)

/-- Whether what comes next is escaped by a text, given last symbol first. -/
def escapedBy (written : List Symbol) : Bool :=
  (written.head?.map (Symbol.escapes ·.char)).getD false

namespace Pass

/-- A pass writes out a line as a text of its own, wherever it stands. -/
def Writes (pass : Pass) (line out : List Symbol) : Prop :=
  ∀ size before, escapedBy before = false → Fits (pass size before line) (before.reverse ++ out)

/-- A pass writes out what follows a text: nothing, or a blank and more. -/
structure GoesOn (pass : Pass) (rest out : List Symbol) : Prop where
  blankNext : BlankNext rest
  fits : ∀ size before, Fits (pass size before rest) (before.reverse ++ out)

/-- A pass copies blanks. -/
structure CopiesBlanks (pass : Pass) : Prop where
  nil : ∀ size before, pass size before [] = .ok before.reverse
  blank : ∀ size before symbol rest, symbol.isBlank = true →
    pass size before (symbol :: rest) = pass size (symbol :: before) rest

variable {pass : Pass} {line out : List Symbol} {symbol : Symbol}

theorem CopiesBlanks.goesOn_nil (h : pass.CopiesBlanks) : pass.GoesOn [] [] :=
  ⟨blankNext_nil, fun size before => .inl (by rw [h.nil, List.append_nil])⟩

theorem CopiesBlanks.goesOn_cons (h : pass.CopiesBlanks) (hblank : symbol.isBlank = true)
    (hline : pass.Writes line out) : pass.GoesOn (symbol :: line) (symbol :: out) := by
  refine ⟨blankNext_cons hblank, fun size before => ?_⟩
  rw [h.blank size before symbol line hblank]
  have hfree : escapedBy (symbol :: before) = false := escapes_of_isBlank hblank
  simpa using hline size (symbol :: before) hfree

theorem CopiesBlanks.writes_cons (h : pass.CopiesBlanks) (hblank : symbol.isBlank = true)
    (hline : pass.Writes line out) : pass.Writes (symbol :: line) (symbol :: out) :=
  fun size before _ => (h.goesOn_cons hblank hline).fits size before

end Pass

namespace Repeat

variable {move : Nat → Nat} {size count used offset : Nat} {quoted : Bool}
  {symbols written raw rest more word chord tail text out outMore before : List Symbol}
  {bracket close symbol : Symbol} {groups : List OpenGroup}

theorem grow_cases (kept unit count offset : Nat) :
    (∃ size, grow kept unit count offset = .ok size) ∨
      grow kept unit count offset = .error ⟨.tooLong, offset⟩ := by
  unfold grow
  dsimp only
  split
  · exact .inr rfl
  · exact .inl ⟨_, rfl⟩

theorem quotedAfterAll_map_moved (quoted : Bool) (symbols : List Symbol) :
    quotedAfterAll quoted (symbols.map (Symbol.moved move)) = quotedAfterAll quoted symbols := by
  rw [quotedAfterAll_eq_quotedChars, quotedAfterAll_eq_quotedChars, Symbol.chars_map_moved]

/-- The first word of a text, moved, in a line that goes on after the text. -/
theorem splitWord_append_map_moved (move : Nat → Nat)
    (hclosed : quotedAfterAll quoted symbols = false) (hmore : BlankNext more) :
    Symbol.splitWord quoted (symbols.map (Symbol.moved move) ++ more) =
      ((Symbol.splitWord quoted symbols).1.map (Symbol.moved move),
        (Symbol.splitWord quoted symbols).2.map (Symbol.moved move) ++ more) := by
  rw [splitWord_append_of_blankNext (by rwa [quotedAfterAll_map_moved]) hmore,
    Symbol.splitWord_map_moved]

/-! ### Groups -/

/-- A line does not go on with a digit. -/
def NoDigitNext (rest : List Symbol) : Prop := ∀ symbol ∈ rest.head?, symbol.char.isDigit = false

theorem noDigitNext_of_blankNext (h : BlankNext rest) : NoDigitNext rest :=
  fun symbol hmem => Text.not_isDigit_of_isBlank (h symbol hmem)

theorem takeWhile_append_of_noDigitNext (symbols : List Symbol) (hmore : NoDigitNext more) :
    (symbols ++ more).takeWhile (·.char.isDigit) = symbols.takeWhile (·.char.isDigit) := by
  induction symbols with
  | nil =>
    cases more with
    | nil => rfl
    | cons symbol more =>
      have hdigit : symbol.char.isDigit = false := hmore symbol rfl
      rw [List.nil_append, List.takeWhile_cons, hdigit]
      rfl
  | cons symbol symbols ih =>
    rw [List.cons_append, List.takeWhile_cons, List.takeWhile_cons, ih]

/-- A count is read the same whatever comes after it, if that is no digit. -/
theorem readCount_append (hmore : NoDigitNext more)
    (h : readCount offset symbols = .ok (count, used)) :
    readCount offset (symbols ++ more) = .ok (count, used) := by
  cases symbols with
  | nil => cases h
  | cons first symbols =>
    rw [← h]
    have hdigits := takeWhile_append_of_noDigitNext symbols hmore
    have hall := takeWhile_append_of_noDigitNext (first :: symbols) hmore
    rw [List.cons_append] at hall ⊢
    simp only [readCount, List.head?_cons, Option.map_some, Option.getD_some,
      List.drop_succ_cons, List.drop_zero]
    by_cases hstar : (first.char == '*') = true
    · simp only [hstar, if_true, hdigits]
    · simp only [hstar, Bool.false_eq_true, if_false, hall]

/-- A group closes the same way in a longer line. -/
theorem fits_closeGroup (move : Nat → Nat) {size' : Nat} (hmore : NoDigitNext more)
    (h : closeGroup size bracket close raw rest = .ok (size', text, used)) (length : Nat) :
    (∃ length', closeGroup length (bracket.moved move) (close.moved move)
        (raw.map (Symbol.moved move)) (rest.map (Symbol.moved move) ++ more) =
          .ok (length', text.map (Symbol.moved move), used)) ∨
      ∃ offset, closeGroup length (bracket.moved move) (close.moved move)
        (raw.map (Symbol.moved move)) (rest.map (Symbol.moved move) ++ more) =
          .error ⟨.tooLong, offset⟩ := by
  obtain ⟨hunit, count, hcount, rfl⟩ := closeGroup_eq_ok h
  have hmoved := readCount_append hmore
    (readCount_map_moved move (close.moved move).origin hcount)
  have hkept : ((trimOne raw).map (Symbol.moved move)).all Symbol.isBlank = false := by
    rw [List.all_map]
    exact hunit
  unfold closeGroup
  rw [hmoved, trimOne_map_moved, copies_map_moved _ _ _ rfl]
  dsimp only [bind, Except.bind]
  rw [if_neg (by simp [hkept])]
  rcases grow_cases (length - ((raw.map (Symbol.moved move)).length + 2 + used))
      ((trimOne raw).map (Symbol.moved move)).length count (close.moved move).origin with
    ⟨grown, hgrow⟩ | hgrow
  · rw [hgrow]
    exact .inl ⟨grown, rfl⟩
  · rw [hgrow]
    exact .inr ⟨_, rfl⟩

/-- The symbols of a count are no quotes. -/
theorem quotedAfterAll_drop_of_readCount (h : readCount offset symbols = .ok (count, used)) :
    quotedAfterAll quoted (symbols.drop used) = quotedAfterAll quoted symbols := by
  obtain ⟨-, marks, after, rfl, rfl, hmarks⟩ := readCount_eq_ok h
  rw [List.drop_left, quotedAfterAll_append,
    quotedAfterAll_of_not_isQuote fun mark hmem => not_isQuote_of_mark (hmarks mark hmem)]

/-- A text of an open group, moved, with the line before under the outermost one. -/
def textOn (move : Nat → Nat) (before : List Symbol) (groups : List OpenGroup)
    (written : List Symbol) : List Symbol :=
  match groups with
  | [] => written.map (Symbol.moved move) ++ before
  | _ :: _ => written.map (Symbol.moved move)

/-- Open groups, moved, with the line before under the outermost one. -/
def groupsOn (move : Nat → Nat) (before : List Symbol) : List OpenGroup → List OpenGroup
  | [] => []
  | group :: outer =>
    ⟨group.bracket.moved move, textOn move before outer group.before⟩ ::
      groupsOn move before outer

theorem textOn_append (first second : List Symbol) :
    textOn move before groups (first ++ second) =
      first.map (Symbol.moved move) ++ textOn move before groups second := by
  cases groups <;> simp [textOn]

theorem writeGroups_cons (size : Nat) (groups : List OpenGroup) (written : List Symbol)
    (quoted : Bool) (symbol : Symbol) (rest : List Symbol) :
    writeGroups size groups written quoted (symbol :: rest) =
      if symbol.isQuote || quoted then
        writeGroups size groups (symbol :: written) (symbol.quotedAfter quoted) rest
      else if symbol.char = '[' then
        writeGroups size (⟨symbol, written⟩ :: groups) [] false rest
      else if symbol.char = ']' then
        match groups with
        | [] => .error ⟨.unbalancedClose, symbol.origin⟩
        | group :: outer =>
          match closeGroup size group.bracket symbol written.reverse rest with
          | .error failure => .error failure
          | .ok (size, text, used) =>
            writeGroups size outer (text.reverse ++ group.before) false (rest.drop used)
      else writeGroups size groups (symbol :: written) false rest :=
  writeGroups.eq_def size groups written quoted (symbol :: rest)

theorem writeGroups_quoted {symbol : Symbol} (h : (symbol.isQuote || quoted) = true) :
    writeGroups size groups written quoted (symbol :: rest) =
      writeGroups size groups (symbol :: written) (symbol.quotedAfter quoted) rest := by
  rw [writeGroups_cons, if_pos h]

theorem writeGroups_open (h : bracket.char = '[') :
    writeGroups size groups written false (bracket :: rest) =
      writeGroups size (⟨bracket, written⟩ :: groups) [] false rest := by
  rw [writeGroups_cons, if_neg (by simp [Symbol.isQuote, h]), if_pos h]

theorem writeGroups_stray (h : close.char = ']') :
    writeGroups size [] written false (close :: rest) =
      .error ⟨.unbalancedClose, close.origin⟩ := by
  rw [writeGroups_cons, if_neg (by simp [Symbol.isQuote, h]), if_neg (by simp [h]), if_pos h]

theorem writeGroups_close {group : OpenGroup} (h : close.char = ']') :
    writeGroups size (group :: groups) written false (close :: rest) =
      closeGroup size group.bracket close written.reverse rest >>= fun closed =>
        writeGroups closed.1 groups (closed.2.1.reverse ++ group.before) false
          (rest.drop closed.2.2) := by
  rw [writeGroups_cons, if_neg (by simp [Symbol.isQuote, h]), if_neg (by simp [h]), if_pos h]
  dsimp only
  cases closeGroup size group.bracket close written.reverse rest with
  | error failure => rfl
  | ok closed => rfl

theorem textOn_cons (symbol : Symbol) (written : List Symbol) :
    textOn move before groups (symbol :: written) =
      symbol.moved move :: textOn move before groups written :=
  textOn_append [symbol] written

/-- The pass over groups. -/
def groupPass : Pass := fun size before line => writeGroups size [] before false line

/-- The pass over a text that stands in open groups, as far as the text goes. -/
theorem fits_writeGroups_inside {outer : List OpenGroup} (before : List Symbol)
    (hmore : NoDigitNext more)
    (hrest : ∀ length, Fits (writeGroups length outer
      ((out.map (Symbol.moved move)).reverse ++ before) false more) outMore)
    (hclosed : quotedAfterAll quoted symbols = false)
    (h : writeGroups size groups written quoted symbols = .ok out) (length : Nat) :
    Fits (writeGroups length (groupsOn move before groups ++ outer)
        (textOn move before groups written) quoted (symbols.map (Symbol.moved move) ++ more))
      outMore := by
  fun_induction writeGroups size groups written quoted symbols generalizing length with
  | case1 size written quoted =>
    cases h
    rw [quotedAfterAll_nil] at hclosed
    subst hclosed
    simpa [textOn, groupsOn] using hrest length
  | case2 => cases h
  | case3 size groups written quoted symbol rest hquote ih =>
    rw [List.map_cons, List.cons_append, writeGroups_cons,
      if_pos (by simpa using hquote)]
    rw [← textOn_cons]
    exact ih hclosed h length
  | case4 size groups written quoted symbol rest hquote hopen ih =>
    have hplain : symbol.isQuote = false ∧ quoted = false := by simpa using hquote
    rw [List.map_cons, List.cons_append, writeGroups_cons, if_neg (by simp [hplain]),
      Symbol.char_moved, if_pos hopen]
    rw [quotedAfterAll_cons, Symbol.quotedAfter, hplain.1, hplain.2] at hclosed
    exact ih hclosed h length
  | case5 => cases h
  | case6 size written quoted symbol rest hquote hopen hclose group outer error hgroup =>
    rw [List.unattach_reverse, List.unattach_attach] at hgroup
    simp [hgroup] at h
  | case7 size written quoted symbol rest hquote hopen hclose group outer size' text used hgroup ih =>
    rw [List.unattach_reverse, List.unattach_attach] at hgroup
    simp only [hgroup] at h
    have hplain : symbol.isQuote = false ∧ quoted = false := by simpa using hquote
    rw [quotedAfterAll_cons, Symbol.quotedAfter, hplain.1, hplain.2] at hclosed
    obtain ⟨-, count, hcount, -⟩ := closeGroup_eq_ok hgroup
    have hrest : quotedAfterAll false (rest.drop used) = quotedAfterAll false rest :=
      quotedAfterAll_drop_of_readCount hcount
    obtain ⟨-, marks, after, hmarks, rfl, -⟩ := readCount_eq_ok hcount
    rw [List.map_cons, List.cons_append, writeGroups_cons, if_neg (by simp [hplain]),
      Symbol.char_moved, if_neg hopen, if_pos hclose]
    simp only [groupsOn, List.cons_append]
    have hreverse : (textOn move before (group :: outer) written).reverse =
        written.reverse.map (Symbol.moved move) := by simp [textOn]
    rw [hreverse]
    rcases fits_closeGroup move hmore hgroup length with
      ⟨length', hwritten⟩ | ⟨offset, hlong⟩
    · rw [hwritten]
      have hnext := ih (hrest.trans hclosed) h length'
      rw [textOn_append, List.map_reverse] at hnext
      have hdrop : (rest.map (Symbol.moved move) ++ more).drop marks.length =
          (rest.drop marks.length).map (Symbol.moved move) ++ more := by
        rw [hmarks, List.drop_left, List.map_append, List.append_assoc]
        exact List.drop_left' (List.length_map _)
      simpa only [hdrop] using hnext
    · rw [hlong]
      exact .inr ⟨offset, rfl⟩
  | case8 size groups written quoted symbol rest hquote hopen hclose ih =>
    have hplain : symbol.isQuote = false ∧ quoted = false := by simpa using hquote
    rw [quotedAfterAll_cons, Symbol.quotedAfter, hplain.1, hplain.2] at hclosed
    rw [List.map_cons, List.cons_append, writeGroups_cons, if_neg (by simp [hplain]),
      Symbol.char_moved, if_neg hopen, if_neg hclose]
    rw [← textOn_cons]
    exact ih hclosed h length

theorem fits_writeGroups (before : List Symbol) (hmore : groupPass.GoesOn more outMore)
    (hclosed : quotedAfterAll false symbols = false)
    (h : writeGroups size [] [] false symbols = .ok out) (length : Nat) :
    Fits (groupPass length before (symbols.map (Symbol.moved move) ++ more))
      (before.reverse ++ (out.map (Symbol.moved move) ++ outMore)) := by
  refine fits_writeGroups_inside before (noDigitNext_of_blankNext hmore.blankNext) (fun length => ?_) hclosed h
    length
  have hrest := hmore.fits length ((out.map (Symbol.moved move)).reverse ++ before)
  rwa [List.reverse_append, List.reverse_reverse, List.append_assoc] at hrest

/-! ### Chords -/

theorem fits_writeChord (move : Nat → Nat) {size' : Nat}
    (h : writeChord size chord tail = .ok (size', text)) (length : Nat) :
    (∃ length', writeChord length (chord.map (Symbol.moved move))
        (tail.map (Symbol.moved move)) = .ok (length', text.map (Symbol.moved move))) ∨
      ∃ offset, writeChord length (chord.map (Symbol.moved move))
        (tail.map (Symbol.moved move)) = .error ⟨.tooLong, offset⟩ := by
  unfold writeChord
  rcases writeChord_eq_ok h with
    ⟨hstar, rfl⟩ | ⟨suffix, star, digits, count, hstar, hcount, rfl⟩
  · rw [chordStar_map_moved, hstar]
    exact .inl ⟨length, by simp⟩
  · rw [chordStar_map_moved, hstar]
    dsimp only [Option.map_some]
    rw [readWordCount_map_moved hcount, copies_map_moved _ _ _ rfl, List.map_append]
    dsimp only [bind, Except.bind]
    rcases grow_cases (length - ((chord.map (Symbol.moved move)).length +
        (tail.map (Symbol.moved move)).length))
        (chord.map (Symbol.moved move) ++ suffix.map (Symbol.moved move)).length count
        (star.moved move).origin with ⟨grown, hgrow⟩ | hgrow
    · rw [hgrow]
      exact .inl ⟨grown, rfl⟩
    · rw [hgrow]
      exact .inr ⟨_, rfl⟩

theorem escapedBy_map_append (move : Nat → Nat) (hbefore : escapedBy before = false)
    (written : List Symbol) :
    escapedBy (written.map (Symbol.moved move) ++ before) = escapedBy written := by
  cases written with
  | nil => exact hbefore
  | cons symbol written => rfl

/-- A chord is found where it is found in the text alone, if a chord that is opened last is
closed. -/
theorem chordAt?_joined (move : Nat → Nat) (more : List Symbol)
    (hbefore : escapedBy before = false)
    (hlast : lastBracket (escapedBy written) quoted (symbol :: rest) ≠ some '<') :
    chordAt? (written.map (Symbol.moved move) ++ before) quoted (symbol.moved move)
        (rest.map (Symbol.moved move) ++ more) =
      (chordAt? written quoted symbol rest).map fun (body, after) =>
        (body.map (Symbol.moved move), after.map (Symbol.moved move) ++ more) := by
  have hescaped := escapedBy_map_append move hbefore written
  unfold escapedBy at hescaped
  unfold chordAt?
  dsimp only
  rw [hescaped, Symbol.char_moved]
  split
  case isFalse => rfl
  case isTrue hstart =>
    simp only [Bool.and_eq_true, Bool.not_eq_true', decide_eq_true_eq] at hstart
    obtain ⟨⟨hchar, hquoted⟩, hfree⟩ := hstart
    have hmoved := splitChord_map_moved move symbol.char false rest
    cases hsplit : splitChord symbol.char false rest with
    | some found =>
      rw [hsplit] at hmoved
      exact splitChord_append_of_some more hmoved
    | none =>
      rw [hsplit] at hmoved
      refine splitChord_append_of_none more ?_ hmoved
      -- were there no bracket after it, the opening one would be the last of the text
      intro hnone
      rw [Symbol.chars_map_moved] at hnone
      apply hlast
      have hquote : (quoted != (symbol.char == '"')) = false := by
        rw [hquoted, hchar]
        rfl
      rw [lastBracket, Symbol.chars, List.map_cons, chordBrackets, hquote]
      simp only [Symbol.chars] at hnone
      rw [hnone, escapedBy, hfree, hquoted, hchar]
      rfl

/-- A chord that is found opens outside quotes and unescaped, and closes outside quotes. -/
theorem chordAt?_opens {body after : List Symbol}
    (h : chordAt? written quoted symbol rest = some (body, after)) :
    symbol.char = '<' ∧ quoted = false ∧ escapedBy written = false ∧
      quotedAfterAll false (symbol :: body) = false := by
  unfold chordAt? at h
  dsimp only at h
  split at h
  case isTrue hstart =>
    simp only [Bool.and_eq_true, Bool.not_eq_true', decide_eq_true_eq] at hstart
    obtain ⟨⟨hchar, hquoted⟩, hfree⟩ := hstart
    refine ⟨hchar, hquoted, hfree, ?_⟩
    rw [quotedAfterAll_cons, Symbol.quotedAfter, Symbol.isQuote, hchar]
    exact quotedAfterAll_of_splitChord h
  case isFalse => cases h

theorem writeChords_none (h : chordAt? written quoted symbol rest = none) :
    writeChords size written quoted (symbol :: rest) =
      writeChords size (symbol :: written) (symbol.quotedAfter quoted) rest := by
  rw [writeChords]
  split
  · rfl
  case h_2 hsome =>
    rw [h] at hsome
    cases hsome

theorem writeChords_some {body after : List Symbol}
    (h : chordAt? written quoted symbol rest = some (body, after)) :
    writeChords size written quoted (symbol :: rest) =
      writeChord size (symbol :: body) (Symbol.splitWord false after).1 >>= fun result =>
        writeChords result.1 (result.2.reverse ++ written) false
          (Symbol.splitWord false after).2 := by
  rw [writeChords]
  split
  case h_1 hnone =>
    rw [h] at hnone
    cases hnone
  case h_2 hsome =>
    rw [h] at hsome
    cases hsome
    dsimp only
    cases writeChord size (symbol :: body) (Symbol.splitWord false after).1 with
    | error failure => rfl
    | ok result => rfl

/-- The pass over chords. -/
def chordPass : Pass := fun size before line => writeChords size before false line

theorem fits_writeChords (hmore : chordPass.GoesOn more outMore)
    (hclosed : quotedAfterAll quoted symbols = false)
    (hlast : lastBracket (escapedBy written) quoted symbols ≠ some '<')
    (hbefore : escapedBy before = false)
    (h : writeChords size written quoted symbols = .ok out) (length : Nat) :
    Fits (writeChords length (written.map (Symbol.moved move) ++ before) quoted
        (symbols.map (Symbol.moved move) ++ more))
      (before.reverse ++ (out.map (Symbol.moved move) ++ outMore)) := by
  fun_induction writeChords size written quoted symbols generalizing length with
  | case1 size written quoted =>
    cases h
    rw [quotedAfterAll_nil] at hclosed
    subst hclosed
    simpa [chordPass] using hmore.fits length (written.map (Symbol.moved move) ++ before)
  | case2 size written quoted symbol rest hfound ih =>
    have hjoined := chordAt?_joined move more hbefore hlast
    rw [hfound] at hjoined
    rw [List.map_cons, List.cons_append, writeChords_none hjoined]
    refine ih hclosed ?_ h length
    exact lastBracket_ne_of_append [symbol] hlast
  | case3 => cases h
  | case4 size written quoted symbol rest body after hfound word size' text hwrite ih =>
    have hjoined := chordAt?_joined move more hbefore hlast
    rw [hfound] at hjoined
    obtain ⟨-, hquoted, -, hbody⟩ := chordAt?_opens hfound
    obtain rfl := chordAt?_eq_some hfound
    rw [hquoted] at hclosed hlast
    rw [← List.cons_append, quotedAfterAll_append, hbody] at hclosed
    have hafter := lastBracket_ne_of_append (symbol :: body) hlast
    rw [hbody] at hafter
    have hsplit := splitWord_append_map_moved move hclosed hmore.blankNext
    rw [List.map_cons, List.cons_append, writeChords_some hjoined, hsplit, ← List.map_cons]
    rcases fits_writeChord move hwrite length with ⟨length', hwritten⟩ | ⟨offset, hlong⟩
    · rw [hwritten]
      have hnext := ih (quotedAfterAll_splitWord_eq hclosed)
        (lastBracket_splitWord_ne hafter _) h length'
      rwa [List.map_append, List.map_reverse, List.append_assoc] at hnext
    · rw [hlong]
      exact .inr ⟨offset, rfl⟩

/-! ### Words -/

theorem writeWords_cons (h : ¬symbol.isBlank = true) :
    writeWords size written (symbol :: rest) =
      writeWord size (symbol :: (Symbol.splitWord (symbol.quotedAfter false) rest).1) >>=
        fun result => writeWords result.1 (result.2.reverse ++ written)
          (Symbol.splitWord (symbol.quotedAfter false) rest).2 := by
  rw [writeWords, if_neg h]
  dsimp only
  cases writeWord size (symbol :: (Symbol.splitWord (symbol.quotedAfter false) rest).1) with
  | error failure => rfl
  | ok result => rfl

theorem fits_writeWord (move : Nat → Nat) {size' : Nat}
    (h : writeWord size word = .ok (size', text)) (length : Nat) :
    (∃ length', writeWord length (word.map (Symbol.moved move)) =
        .ok (length', text.map (Symbol.moved move))) ∨
      ∃ offset, writeWord length (word.map (Symbol.moved move)) = .error ⟨.tooLong, offset⟩ := by
  unfold writeWord
  rcases writeWord_eq_ok h with
    ⟨hstar, rfl⟩ | ⟨unit, star, digits, count, hstar, hunit, hcount, rfl⟩
  · rw [splitLastStar_map_moved, hstar]
    exact .inl ⟨length, rfl⟩
  · rw [splitLastStar_map_moved, hstar]
    dsimp only [Option.map_some]
    rw [if_neg (by simpa using hunit), readWordCount_map_moved hcount, copies_map_moved _ _ _ rfl]
    dsimp only [bind, Except.bind]
    rcases grow_cases (length - (word.map (Symbol.moved move)).length)
        (unit.map (Symbol.moved move)).length count (star.moved move).origin with
      ⟨grown, hgrow⟩ | hgrow
    · rw [hgrow]
      exact .inl ⟨grown, rfl⟩
    · rw [hgrow]
      exact .inr ⟨_, rfl⟩

theorem fits_writeWords (before : List Symbol) (hmore : Pass.GoesOn writeWords more outMore)
    (hclosed : quotedAfterAll false symbols = false)
    (h : writeWords size written symbols = .ok out) (length : Nat) :
    Fits (writeWords length (written.map (Symbol.moved move) ++ before)
        (symbols.map (Symbol.moved move) ++ more))
      (before.reverse ++ (out.map (Symbol.moved move) ++ outMore)) := by
  fun_induction writeWords size written symbols generalizing length with
  | case1 size written =>
    cases h
    simpa using hmore.fits length (written.map (Symbol.moved move) ++ before)
  | case2 size written symbol rest hblank ih =>
    have hquote := not_isQuote_of_isBlank hblank
    rw [quotedAfterAll_cons, Symbol.quotedAfter, hquote] at hclosed
    rw [List.map_cons, List.cons_append, writeWords, if_pos (by simpa using hblank)]
    exact ih hclosed h length
  | case3 => cases h
  | case4 size written symbol rest hblank tail size' text hwrite ih =>
    rw [quotedAfterAll_cons] at hclosed
    have hsplit := splitWord_append_map_moved move hclosed hmore.blankNext
    rw [List.map_cons, List.cons_append, writeWords, if_neg (by simpa using hblank)]
    dsimp only
    rw [Symbol.quotedAfter_moved, hsplit, ← List.map_cons]
    rcases fits_writeWord move hwrite length with ⟨length', hwritten⟩ | ⟨offset, hlong⟩
    · rw [hwritten]
      have hnext := ih (quotedAfterAll_splitWord_eq hclosed) h length'
      rwa [List.map_append, List.map_reverse, List.append_assoc] at hnext
    · rw [hlong]
      exact .inr ⟨offset, rfl⟩

/-! ### Blanks -/

theorem copiesBlanks_groupPass : groupPass.CopiesBlanks where
  nil size before := by rw [groupPass, writeGroups]
  blank size before symbol rest hblank := by
    have hquote := not_isQuote_of_isBlank hblank
    have hchar {c : Char} (hc : Text.isBlank c = false) : ¬symbol.char = c := by
      rintro rfl
      exact Bool.false_ne_true (hc.symm.trans hblank)
    rw [groupPass, writeGroups_cons, if_neg (by simp [hquote]), if_neg (hchar (by decide)),
      if_neg (hchar (by decide))]
    rfl

theorem copiesBlanks_chordPass : chordPass.CopiesBlanks where
  nil size before := by rw [chordPass, writeChords]
  blank size before symbol rest hblank := by
    have hnone : chordAt? before false symbol rest = none := by
      cases hfound : chordAt? before false symbol rest with
      | none => rfl
      | some found =>
        obtain ⟨body, after⟩ := found
        have hchar := (chordAt?_opens hfound).1
        have hsame : Text.isBlank symbol.char = true := hblank
        rw [hchar] at hsame
        cases hsame
    rw [chordPass, writeChords]
    split
    case h_1 =>
      rw [Symbol.quotedAfter, not_isQuote_of_isBlank hblank]
      rfl
    case h_2 hsome => simp [hnone] at hsome

theorem copiesBlanks_writeWords : Pass.CopiesBlanks writeWords where
  nil size before := by rw [writeWords]
  blank size before symbol rest hblank := by rw [writeWords, if_pos hblank]

end Repeat

end Stave.Shorthand
