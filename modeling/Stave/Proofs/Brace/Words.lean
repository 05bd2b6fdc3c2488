import Stave.Proofs.Brace.Chords

/-!
# Words of a loosened line

Once the chords are written out, a tight line and a loose one are the same word for word, but that
a word with the brace glued to it is two words in the loose line. Such a word has no star, so the
pass over words leaves it as it is, and it writes all other words the same in both lines.
-/
namespace Stave.Shorthand

/-- A word of its own: some symbols whose blanks are quoted and that leave no quotation open. -/
structure IsWord (word : List Symbol) : Prop where
  nonempty : word ≠ []
  blanks : BlanksQuoted false word
  closed : quotedAfterAll false word = false

namespace Gap

/-- A word with the brace glued to it. -/
def glue (gap : Gap) (brace : Symbol) (word : List Symbol) : List Symbol :=
  match gap.side with
  | .following => brace :: word
  | .preceding => word ++ [brace]

/-- The brace and the word with blanks between them. -/
def part (gap : Gap) (brace : Symbol) (blanks word : List Symbol) : List Symbol :=
  match gap.side with
  | .following => brace :: (blanks ++ word)
  | .preceding => word ++ (blanks ++ [brace])

/-- Two lines of the same words and blanks, but for blanks between the brace and the word it is
glued to in the tight line, and blanks that only the loose line has. -/
inductive Reworded (gap : Gap) : List Symbol → List Symbol → Prop where
  | nil : Reworded gap [] []
  | blank {symbol : Symbol} {tight loose : List Symbol} (isBlank : symbol.isBlank = true)
      (rest : Reworded gap tight loose) :
      Reworded gap (symbol :: tight) (symbol.moved gap.move :: loose)
  | fill {symbol : Symbol} {tight loose : List Symbol} (isBlank : symbol.isBlank = true)
      (rest : Reworded gap tight loose) : Reworded gap tight (symbol :: loose)
  | word {word tight loose : List Symbol} (isWord : IsWord word) (next' : BlankNext tight)
      (next : BlankNext loose) (rest : Reworded gap tight loose) :
      Reworded gap (word ++ tight) (word.map (Symbol.moved gap.move) ++ loose)
  | glued {brace : Symbol} {word blanks tight loose : List Symbol} (isBrace : gap.IsBrace brace)
      (isWord : IsWord word) (blank : ∀ symbol ∈ blanks, symbol.isBlank = true)
      (nonempty : blanks ≠ []) (free : '*' ∉ unquoted false (Symbol.chars word))
      (next' : BlankNext tight) (next : BlankNext loose) (rest : Reworded gap tight loose) :
      Reworded gap (gap.glue brace word ++ tight)
        (gap.part (brace.moved gap.move) blanks (word.map (Symbol.moved gap.move)) ++ loose)

variable {gap : Gap} {inside starred quoted : Bool}
  {tight loose word blanks first second : List Symbol} {brace symbol : Symbol}

theorem IsBrace.isWord (h : gap.IsBrace brace) : IsWord [brace] where
  nonempty := List.cons_ne_nil _ _
  blanks := blanksQuoted_of_not_isBlank (by simpa using h.not_blank)
  closed := h.quotedAfter false

theorem isWord_append (hfirst : IsWord first) (hsecond : IsWord second) :
    IsWord (first ++ second) where
  nonempty := List.append_ne_nil_of_left_ne_nil hfirst.nonempty _
  blanks := blanksQuoted_append.2 ⟨hfirst.blanks, by rw [hfirst.closed]; exact hsecond.blanks⟩
  closed := by rw [quotedAfterAll_append, hfirst.closed, hsecond.closed]

theorem Reworded.fills (h : gap.Reworded tight loose)
    (hblanks : ∀ symbol ∈ blanks, symbol.isBlank = true) :
    gap.Reworded tight (blanks ++ loose) := by
  induction blanks with
  | nil => exact h
  | cons symbol blanks ih =>
    obtain ⟨hblank, hblanks⟩ := List.forall_mem_cons.1 hblanks
    exact .fill hblank (ih hblanks)

theorem blankNext_append (hblanks : ∀ symbol ∈ blanks, symbol.isBlank = true)
    (hnext : BlankNext loose) : BlankNext (blanks ++ loose) := by
  cases blanks with
  | nil => exact hnext
  | cons symbol blanks => exact blankNext_cons (hblanks symbol List.mem_cons_self)

theorem isWord_of_splitWord (hink : symbol.isBlank = false)
    (hclosed : quotedAfterAll false (symbol :: tight) = false) :
    IsWord (symbol :: (Symbol.splitWord (symbol.quotedAfter false) tight).1) where
  nonempty := List.cons_ne_nil _ _
  blanks := ⟨fun hblank => absurd (hink.symm.trans hblank) Bool.false_ne_true,
    blanksQuoted_splitWord _ _⟩
  closed := by
    rw [quotedAfterAll_cons] at hclosed ⊢
    exact closed_splitWord hclosed

/-- After the first word, a seated line is seated as from outside a word. -/
theorem Seated.after_word {chorded : Bool}
    (hseat : gap.Seated chorded inside starred quoted tight)
    (hclosed : quotedAfterAll quoted tight = false) :
    gap.Seated chorded false false false (Symbol.splitWord quoted tight).2 := by
  rw [← Symbol.splitWord_append quoted tight] at hseat
  obtain ⟨inside', starred', hafter⟩ := hseat.exists_of_append
  rw [closed_splitWord hclosed] at hafter
  exact hafter.of_blankNext (blankNext_splitWord _ _) _ _

/-- A word that begins with a symbol of its own, and what follows it. -/
theorem reworded_word (hink : symbol.isBlank = false)
    (h : gap.Loosened (symbol.quotedAfter false) tight loose)
    (hclosed : quotedAfterAll false (symbol :: tight) = false)
    (hseat : gap.Seated true false false false (symbol :: tight))
    (hrest : ∀ after,
      gap.Loosened false (Symbol.splitWord (symbol.quotedAfter false) tight).2 after →
        gap.Reworded (Symbol.splitWord (symbol.quotedAfter false) tight).2 after) :
    gap.Reworded (symbol :: tight) (symbol.moved gap.move :: loose) := by
  have hword := isWord_of_splitWord hink hclosed
  have hnext := blankNext_splitWord (symbol.quotedAfter false) tight
  have hnextLoose := blankNext_splitWord (symbol.quotedAfter false) loose
  have hinside := hseat.2
  rw [hink] at hinside
  have hpair := wordPair_of_seated h hinside hclosed
  have htight := Symbol.splitWord_append (symbol.quotedAfter false) tight
  have hloose := Symbol.splitWord_append (symbol.quotedAfter false) loose
  generalize Symbol.splitWord (symbol.quotedAfter false) tight = parts' at *
  generalize Symbol.splitWord (symbol.quotedAfter false) loose = parts at *
  cases hpair with
  | @whole word more' more hwordLoosened hmore =>
    subst htight hloose
    exact .word hword hnext hnextLoose (hrest more hmore)
  | @parted word more' more blanks brace side isBrace blank nonempty unstarred free hwordLoosened
      hquotedWord hnextTight hmore =>
    subst htight hloose
    have hsplit : IsWord (symbol :: word) := by
      refine ⟨List.cons_ne_nil _ _, ?_, hquotedWord⟩
      have hall := hword.blanks
      rw [← List.cons_append, blanksQuoted_append] at hall
      exact hall.1
    have hstar : (symbol.char == '*') = false := by simpa using unstarred
    have hfree : '*' ∉ unquoted false (Symbol.chars (symbol :: word)) := by
      rw [unquoted_chars_cons]
      split
      · exact Repeat.not_mem_unquoted_of_append free
      · rw [List.mem_cons, not_or]
        exact ⟨Ne.symm (beq_eq_false_iff_ne.1 hstar), Repeat.not_mem_unquoted_of_append free⟩
    have hglued := Reworded.glued isBrace hsplit blank nonempty hfree hnextTight
      (hmore.blankNext hnextTight) (hrest more hmore)
    simpa [glue, part, side] using hglued

/-- A word that begins with the brace, and what follows it. -/
theorem reworded_brace (hbrace : gap.IsBrace brace)
    (hblanks : ∀ symbol ∈ blanks, symbol.isBlank = true) (h : gap.Loosened false tight loose)
    (hclosed : quotedAfterAll false tight = false)
    (hseat : gap.Seated true false false false (brace :: tight))
    (hrest : ∀ after, gap.Loosened false (Symbol.splitWord false tight).2 after →
      gap.Reworded (Symbol.splitWord false tight).2 after) :
    gap.Reworded (brace :: tight) (gap.spread (brace.moved gap.move) blanks ++ loose) := by
  -- on the side of what precedes the brace ends its word, on the other it begins one
  have hseatBrace := hseat.1 hbrace rfl
  have hopen := hbrace.quotedAfter false
  unfold Seat at hseatBrace
  cases hside : gap.side with
  | preceding =>
    simp only [hside, true_and] at hseatBrace
    rw [splitWord_of_blankNext hseatBrace] at hrest
    have hword := Reworded.word hbrace.isWord hseatBrace (h.blankNext hseatBrace) (hrest loose h)
    rw [spread_of_preceding hside, List.append_assoc]
    exact hword.fills hblanks
  | following =>
    simp only [hside, true_implies, true_and] at hseatBrace
    rw [spread_of_following hside]
    have hinside := hseat.2
    rw [hbrace.not_blank, hopen] at hinside
    have hpair := wordPair_of_seated h hinside hclosed
    have hwordBlanks := blanksQuoted_splitWord false tight
    have hwordClosed := closed_splitWord hclosed
    have hnext := blankNext_splitWord false tight
    have hnextLoose := blankNext_splitWord false loose
    have htight := Symbol.splitWord_append false tight
    have hloose := Symbol.splitWord_append false loose
    generalize Symbol.splitWord false tight = parts' at *
    generalize Symbol.splitWord false loose = parts at *
    cases hpair with
    | parted side => rw [hside] at side; cases side
    | @whole word more' more hword hmore =>
      subst htight hloose
      dsimp only at *
      by_cases hempty : word = []
      · subst hempty
        refine Reworded.word hbrace.isWord hnext (blankNext_append hblanks hnextLoose) ?_
        exact (hrest more hmore).fills hblanks
      have hisWord : IsWord word := ⟨hempty, hwordBlanks, hwordClosed⟩
      by_cases hnone : blanks = []
      · subst hnone
        exact Reworded.word (isWord_append hbrace.isWord hisWord) hnext hnextLoose
          (hrest more hmore)
      · have hglued := Reworded.glued hbrace hisWord hblanks hnone hseatBrace hnext hnextLoose
          (hrest more hmore)
        simpa [glue, part, hside] using hglued

/-- A loosened line whose braces are seated and whose quotations are closed is the tight line word
for word. -/
theorem reworded_of_loosened (h : gap.Loosened false tight loose)
    (hclosed : quotedAfterAll false tight = false)
    (hseat : gap.Seated true false false false tight) : gap.Reworded tight loose := by
  -- on the length, for a word is taken off whole
  induction hlength : tight.length using Nat.strongRecOn generalizing tight loose with
  | _ length ih => ?_
  subst hlength
  cases h with
  | nil => exact .nil
  | @keep _ symbol tight loose typed rest =>
    cases hblank : symbol.isBlank with
    | true =>
      have hopen : symbol.quotedAfter false = false := by
        rw [Symbol.quotedAfter, not_isQuote_of_isBlank hblank]
        rfl
      have hafter := hseat.2
      rw [hopen, hblank] at hafter
      rw [quotedAfterAll_cons, hopen] at hclosed
      rw [hopen] at rest
      exact .blank hblank (ih _ (Nat.lt_succ_self _) rest hclosed hafter rfl)
    | false =>
      refine reworded_word hblank rest hclosed hseat fun after hafter => ?_
      rw [quotedAfterAll_cons] at hclosed
      exact ih _ (Nat.lt_succ_of_le (Symbol.length_splitWord_le _ _)) hafter
        (quotedAfterAll_splitWord_eq hclosed) (hseat.2.after_word hclosed) rfl
  | @brace brace blanks tight loose isBrace blank rest =>
    rw [quotedAfterAll_cons, isBrace.quotedAfter] at hclosed
    refine reworded_brace isBrace blank rest hclosed hseat fun after hafter => ?_
    have hinside := hseat.2
    rw [isBrace.quotedAfter] at hinside
    exact ih _ (Nat.lt_succ_of_le (Symbol.length_splitWord_le _ _)) hafter
      (quotedAfterAll_splitWord_eq hclosed) (hinside.after_word hclosed) rfl

theorem blanksQuoted_map_moved (h : BlanksQuoted quoted word) :
    BlanksQuoted quoted (word.map (Symbol.moved gap.move)) := by
  induction word generalizing quoted with
  | nil => trivial
  | cons symbol word ih => exact ⟨h.1, ih h.2⟩

theorem isWord_map_moved (h : IsWord word) : IsWord (word.map (Symbol.moved gap.move)) where
  nonempty := by simpa using h.nonempty
  blanks := blanksQuoted_map_moved h.blanks
  closed := by rw [Repeat.quotedAfterAll_map_moved, h.closed]

theorem not_blankNext_of_isWord (h : IsWord word) : ¬BlankNext (word ++ tight) := by
  obtain ⟨symbol, tail, rfl⟩ := List.exists_cons_of_ne_nil h.nonempty
  intro hnext
  have hblank : symbol.isBlank = true := hnext symbol rfl
  rw [h.blanks.head] at hblank
  cases hblank

theorem isWord_glue (hbrace : gap.IsBrace brace) (h : IsWord word) :
    IsWord (gap.glue brace word) := by
  unfold glue
  cases gap.side with
  | following => exact isWord_append hbrace.isWord h
  | preceding => exact isWord_append h hbrace.isWord

theorem not_blankNext_part (hbrace : gap.IsBrace brace) (h : IsWord word) :
    ¬BlankNext (gap.part (brace.moved gap.move) blanks (word.map (Symbol.moved gap.move)) ++
      tight) := by
  unfold part
  cases gap.side with
  | following =>
    intro hnext
    have hblank : (brace.moved gap.move).isBlank = true := hnext _ rfl
    rw [Symbol.isBlank_moved, hbrace.not_blank] at hblank
    cases hblank
  | preceding =>
    dsimp only
    rw [List.append_assoc]
    exact not_blankNext_of_isWord (isWord_map_moved h)

theorem length_glue : (gap.glue brace word).length = word.length + 1 := by
  unfold glue
  cases gap.side <;> simp

theorem length_part : (gap.part brace blanks word).length = word.length + blanks.length + 1 := by
  unfold part
  cases gap.side <;> simp <;> omega

theorem Reworded.length_le (h : gap.Reworded tight loose) : tight.length ≤ loose.length := by
  induction h with
  | nil => exact Nat.le_refl 0
  | blank isBlank rest ih => simpa using ih
  | fill isBlank rest ih =>
    rw [List.length_cons]
    omega
  | word isWord next' next rest ih => simpa using ih
  | glued isBrace isWord blank nonempty free next' next rest ih =>
    rw [List.length_append, List.length_append, length_glue, length_part, List.length_map]
    omega

end Gap

namespace Repeat

variable {gap : Gap} {size size' kept kept' count offset : Nat}
  {tight loose rest word blanks unit written written' : List Symbol} {brace : Symbol}

/-! ### The pass -/

/-- The pass over words, over a word that ends before a blank. -/
theorem writeWords_word (hword : IsWord word) (hnext : BlankNext rest) :
    writeWords size written (word ++ rest) =
      writeWord size word >>= fun result =>
        writeWords result.1 (result.2.reverse ++ written) rest := by
  obtain ⟨symbol, tail, rfl⟩ := List.exists_cons_of_ne_nil hword.nonempty
  have hink : ¬symbol.isBlank = true := by
    rw [hword.blanks.head]
    decide
  have hsplit : Symbol.splitWord (symbol.quotedAfter false) (tail ++ rest) = (tail, rest) :=
    splitWord_append_of_blanksQuoted hword.blanks.2 (.inr hword.closed) hnext
  rw [List.cons_append, writeWords_cons hink, hsplit]

/-- A word without a star is passed over. -/
theorem writeWords_free (hword : IsWord word) (hfree : '*' ∉ unquoted false (Symbol.chars word))
    (hnext : BlankNext rest) :
    writeWords size written (word ++ rest) = writeWords size (word.reverse ++ written) rest := by
  rw [writeWords_word hword hnext, writeWord_eq_of_unquoted hfree]
  rfl

theorem writeWords_blanks (hblanks : ∀ symbol ∈ blanks, symbol.isBlank = true) :
    writeWords size written (blanks ++ rest) =
      writeWords size (blanks.reverse ++ written) rest := by
  induction blanks generalizing written with
  | nil => rfl
  | cons symbol blanks ih =>
    obtain ⟨hblank, hblanks⟩ := List.forall_mem_cons.1 hblanks
    rw [List.cons_append, writeWords, if_pos hblank, ih hblanks, List.reverse_cons,
      List.append_assoc]
    rfl

theorem free_brace (hbrace : gap.IsBrace brace) : '*' ∉ unquoted false (Symbol.chars [brace]) := by
  simp [Symbol.chars, unquoted, hbrace.ne.2.2.1.symm]

/-- A word with the brace glued to it is passed over, and so are the two parted. -/
theorem writeWords_glue (hbrace : gap.IsBrace brace) (hword : IsWord word)
    (hfree : '*' ∉ unquoted false (Symbol.chars word)) (hnext : BlankNext rest) :
    writeWords size written (gap.glue brace word ++ rest) =
      writeWords size ((gap.glue brace word).reverse ++ written) rest := by
  refine writeWords_free (Gap.isWord_glue hbrace hword) ?_ hnext
  unfold Gap.glue
  cases gap.side with
  | following =>
    dsimp only
    rw [← List.singleton_append, unquoted_chars_append, hbrace.isWord.closed, List.mem_append]
    exact not_or.2 ⟨free_brace hbrace, hfree⟩
  | preceding =>
    dsimp only
    rw [unquoted_chars_append, hword.closed, List.mem_append]
    exact not_or.2 ⟨hfree, free_brace hbrace⟩

theorem writeWords_part (hbrace : gap.IsBrace brace) (hword : IsWord word)
    (hblanks : ∀ symbol ∈ blanks, symbol.isBlank = true) (hne : blanks ≠ [])
    (hfree : '*' ∉ unquoted false (Symbol.chars word)) (hnext : BlankNext rest) :
    writeWords size written (gap.part (brace.moved gap.move) blanks
        (word.map (Symbol.moved gap.move)) ++ rest) =
      writeWords size ((gap.part (brace.moved gap.move) blanks
        (word.map (Symbol.moved gap.move))).reverse ++ written) rest := by
  have hmoved : IsWord [brace.moved gap.move] := Gap.isWord_map_moved hbrace.isWord
  have hbraceFree := free_brace hbrace
  have hmovedFree : '*' ∉ unquoted false (Symbol.chars [brace.moved gap.move]) := hbraceFree
  have hwordFree : '*' ∉ unquoted false (Symbol.chars (word.map (Symbol.moved gap.move))) := by
    rwa [Symbol.chars_map_moved]
  have hblankNext (more : List Symbol) : BlankNext (blanks ++ more) := by
    obtain ⟨symbol, others, rfl⟩ := List.exists_cons_of_ne_nil hne
    exact blankNext_cons (hblanks symbol List.mem_cons_self)
  unfold Gap.part
  cases gap.side with
  | following =>
    dsimp only
    rw [← List.singleton_append, List.append_assoc, writeWords_free hmoved hmovedFree (by
      rw [List.append_assoc]; exact hblankNext _), List.append_assoc, writeWords_blanks hblanks,
      writeWords_free (Gap.isWord_map_moved hword) hwordFree hnext]
    simp
  | preceding =>
    dsimp only
    rw [List.append_assoc, writeWords_free (Gap.isWord_map_moved hword) hwordFree (by
      rw [List.append_assoc]; exact hblankNext _), List.append_assoc, writeWords_blanks hblanks,
      writeWords_free hmoved hmovedFree hnext]
    simp

/-- Copies of a word are the same words in both lines. -/
theorem reworded_copies (hunit : IsWord unit) (hpos : 0 < count) (offset : Nat)
    (hnext' : BlankNext tight) (hnext : BlankNext loose) (h : gap.Reworded tight loose) :
    gap.Reworded (copies unit count offset ++ tight)
      (copies (unit.map (Symbol.moved gap.move)) count (gap.move offset) ++ loose) := by
  obtain ⟨count, rfl⟩ : ∃ n, count = n + 1 := ⟨count - 1, by omega⟩
  have hrest : gap.Reworded
        ((List.replicate count (⟨' ', offset⟩ :: unit)).flatten ++ tight)
        ((List.replicate count
          (⟨' ', gap.move offset⟩ :: unit.map (Symbol.moved gap.move))).flatten ++ loose) ∧
      BlankNext ((List.replicate count (⟨' ', offset⟩ :: unit)).flatten ++ tight) ∧
      BlankNext ((List.replicate count
          (⟨' ', gap.move offset⟩ :: unit.map (Symbol.moved gap.move))).flatten ++ loose) := by
    clear hpos
    induction count with
    | zero => exact ⟨h, hnext', hnext⟩
    | succ count ih =>
      simp only [List.replicate_succ, List.flatten_cons, List.cons_append, List.append_assoc]
      obtain ⟨hwords, hnextTight, hnextLoose⟩ := ih
      exact ⟨.blank rfl (.word hunit hnextTight hnextLoose hwords), blankNext_cons rfl,
        blankNext_cons rfl⟩
  rw [copies_succ, copies_succ, List.append_assoc, List.append_assoc]
  exact .word hunit hrest.2.1 hrest.2.2 hrest.1

/-- What is written for a word: the same words in both lines, and the lengths of the lines with
them. -/
structure WordWritten (gap : Gap) (kept' kept : Nat) (result' result : Nat × List Symbol) :
    Prop where
  words : ∀ tight loose, BlankNext tight → BlankNext loose → gap.Reworded tight loose →
    gap.Reworded (result'.2 ++ tight) (result.2 ++ loose)
  length : result'.2.length = result.2.length
  size' : result'.1 = kept' + result'.2.length
  size : result.1 = kept + result.2.length

theorem follows_writeWord (hword : IsWord word) (hkept : kept' ≤ kept)
    (hsize' : size' = kept' + word.length) (hsize : size = kept + word.length) :
    Follows (WordWritten gap kept' kept) (writeWord size' word)
      (writeWord size (word.map (Symbol.moved gap.move))) := by
  unfold writeWord
  rw [splitLastStar_map_moved]
  cases hfound : splitLastStar false word with
  | none =>
    refine .ok ⟨fun tight loose hnext' hnext h => .word hword hnext' hnext h, ?_, hsize', ?_⟩
    · rw [List.length_map]
    · rw [List.length_map, hsize]
  | some found =>
    obtain ⟨unit, star, digits⟩ := found
    obtain ⟨rfl, -⟩ := splitLastStar_eq_some hfound
    dsimp only [Option.map_some]
    rw [List.isEmpty_map]
    split
    · exact .error
    case isFalse hempty =>
      have hunit : IsWord unit := by
        refine ⟨by simpa using hempty, (blanksQuoted_append.1 hword.blanks).1, ?_⟩
        exact quotedAfterAll_of_splitLastStar hfound
      refine (follows_readWordCount gap _ _ digits).bind ?_
      rintro count _ ⟨rfl, hpos⟩
      have hkeeps : size' - (unit ++ star :: digits).length ≤
          size - ((unit ++ star :: digits).map (Symbol.moved gap.move)).length := by
        rw [List.length_map]
        omega
      refine (follows_grow hkeeps (by simp)).bind ?_
      rintro grown' grown ⟨rfl, rfl⟩
      refine .ok ⟨fun tight loose hnext' hnext h => reworded_copies hunit hpos _ hnext' hnext h,
        ?_, ?_, ?_⟩
      · dsimp only
        rw [length_copies hpos, length_copies hpos, List.length_map]
      · dsimp only
        rw [length_copies hpos]
        omega
      · dsimp only
        rw [length_copies hpos, List.length_map]
        omega

/-- What is written after the texts so far: the same words in both lines. -/
def WordsWritten (gap : Gap) (written' tight written loose out' out : List Symbol) : Prop :=
  ∃ rest' rest, out' = written'.reverse ++ rest' ∧ out = written.reverse ++ rest ∧
    gap.Reworded rest' rest ∧ (BlankNext tight → BlankNext rest') ∧
      (BlankNext loose → BlankNext rest)

/-- A text that is written in front of the rest. -/
theorem WordsWritten.append {tight' loose' out' out : List Symbol} (text' text : List Symbol)
    (h : WordsWritten gap (text'.reverse ++ written') tight (text.reverse ++ written) loose out'
      out)
    (hwords : ∀ rest' rest, (BlankNext tight → BlankNext rest') →
      (BlankNext loose → BlankNext rest) → gap.Reworded rest' rest →
        gap.Reworded (text' ++ rest') (text ++ rest))
    (hnext' : ∀ rest', (BlankNext tight → BlankNext rest') → BlankNext tight' →
      BlankNext (text' ++ rest'))
    (hnext : ∀ rest, (BlankNext loose → BlankNext rest) → BlankNext loose' →
      BlankNext (text ++ rest)) :
    WordsWritten gap written' tight' written loose' out' out := by
  obtain ⟨rest', rest, rfl, rfl, hrest, htight, hloose⟩ := h
  refine ⟨text' ++ rest', text ++ rest, ?_, ?_, hwords rest' rest htight hloose hrest,
    hnext' rest' htight, hnext rest hloose⟩
  · rw [List.reverse_append, List.reverse_reverse, List.append_assoc]
  · rw [List.reverse_append, List.reverse_reverse, List.append_assoc]

/-- The pass over words, from related places of the two lines on. -/
theorem follows_writeWords (h : gap.Reworded tight loose)
    (hwritten : written'.length ≤ written.length)
    (hsize' : size' = written'.length + tight.length)
    (hsize : size = written.length + loose.length) :
    Follows (WordsWritten gap written' tight written loose) (writeWords size' written' tight)
      (writeWords size written loose) := by
  induction h generalizing size' size written' written with
  | nil =>
    rw [writeWords, writeWords]
    exact .ok ⟨[], [], by simp, by simp, .nil, id, id⟩
  | @blank symbol tight loose isBlank rest ih =>
    have hmoved : (symbol.moved gap.move).isBlank = true := isBlank
    rw [writeWords, writeWords, if_pos isBlank, if_pos hmoved]
    rw [List.length_cons] at hsize' hsize
    refine (ih ?_ ?_ ?_).imp fun out' out hout =>
      hout.append [symbol] [symbol.moved gap.move] (fun _ _ _ _ hrest => .blank isBlank hrest)
        (fun _ _ _ => blankNext_cons isBlank) (fun _ _ _ => blankNext_cons hmoved)
    all_goals simp only [List.length_cons]; omega
  | @fill symbol tight loose isBlank rest ih =>
    have hfill : writeWords size written (symbol :: loose) =
        writeWords size (symbol :: written) loose := by
      rw [writeWords, if_pos isBlank]
    rw [List.length_cons] at hsize
    rw [hfill]
    refine (ih ?_ hsize' ?_).imp fun out' out hout =>
      hout.append [] [symbol] (fun _ _ _ _ hrest => .fill isBlank hrest) (fun _ => id)
        (fun _ _ _ => blankNext_cons isBlank)
    all_goals simp only [List.length_cons]; omega
  | @word word tight loose isWord next' next rest ih =>
    have hlength := rest.length_le
    rw [List.length_append] at hsize' hsize
    rw [List.length_map] at hsize
    rw [writeWords_word isWord next', writeWords_word (Gap.isWord_map_moved isWord) next]
    have hkept : written'.length + tight.length ≤ written.length + loose.length := by omega
    refine (follows_writeWord isWord hkept (by omega) (by omega)).bind ?_
    rintro ⟨grown', text'⟩ ⟨grown, text⟩ ⟨hwords, hsame, hgrown', hgrown⟩
    dsimp only at hwords hsame hgrown' hgrown ⊢
    refine (ih ?_ ?_ ?_).imp fun out' out hout =>
      hout.append text' text
        (fun rest' rest hnextTight hnextLoose => hwords _ _ (hnextTight next') (hnextLoose next))
        (fun _ _ hnext => absurd hnext (Gap.not_blankNext_of_isWord isWord))
        (fun _ _ hnext => absurd hnext (Gap.not_blankNext_of_isWord (Gap.isWord_map_moved isWord)))
    all_goals simp only [List.length_append, List.length_reverse]; omega
  | @glued brace word blanks tight loose isBrace isWord blank nonempty free next' next rest ih =>
    rw [List.length_append, Gap.length_glue] at hsize'
    rw [List.length_append, Gap.length_part, List.length_map] at hsize
    rw [writeWords_glue isBrace isWord free next',
      writeWords_part isBrace isWord blank nonempty free next]
    refine (ih ?_ ?_ ?_).imp fun out' out hout =>
      hout.append _ _
        (fun rest' rest hnextTight hnextLoose => .glued isBrace isWord blank nonempty free
          (hnextTight next') (hnextLoose next))
        (fun _ _ hnext =>
          absurd hnext (Gap.not_blankNext_of_isWord (Gap.isWord_glue isBrace isWord)))
        (fun _ _ hnext => absurd hnext (Gap.not_blankNext_part isBrace isWord))
    all_goals
      simp only [List.length_append, List.length_reverse, Gap.length_glue, Gap.length_part,
        List.length_map]
      omega

/-- Writing out the words leaves a reworded line reworded. -/
theorem follows_expandWords (h : gap.Reworded tight loose) :
    Follows gap.Reworded (expandWords tight) (expandWords loose) := by
  refine (follows_writeWords h (Nat.le_refl _) (by simp) (by simp)).imp ?_
  rintro out' out ⟨rest', rest, rfl, rfl, hrest, -⟩
  exact hrest

end Repeat

end Stave.Shorthand
