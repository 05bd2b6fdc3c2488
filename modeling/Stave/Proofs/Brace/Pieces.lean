import Stave.Proofs.Brace.Words
import Stave.Proofs.Token.Joined

/-!
# Pieces of a loosened line

A brace is cut off at the edge of a word, so the word with the brace glued to it falls into the
pieces that the word and the brace have apart. The one exception is an opening brace behind a word
that ends with a closing one: glued, the closing brace stays in the word, which cannot be read
then; apart, a group opens right after another has closed, and that is no tuplet.
-/
namespace Stave.Shorthand

namespace Word

variable {c : Char} {word : List Symbol} {brace last : Symbol}

theorem spanChar_concat_of_ne (h : brace.char ≠ c) (word : List Symbol) :
    spanChar c (word ++ [brace]) = ((spanChar c word).1, (spanChar c word).2 ++ [brace]) := by
  induction word with
  | nil => simp [spanChar, h]
  | cons symbol word ih =>
    simp only [spanChar, List.cons_append, List.takeWhile_cons, List.dropWhile_cons, Prod.mk.injEq]
      at ih ⊢
    by_cases hsymbol : (symbol.char == c) = true
    · simp [hsymbol, ih]
    · simp [hsymbol]

theorem spanChar_concat_of_ne_nil (h : (spanChar c word).2 ≠ []) (symbol : Symbol) :
    spanChar c (word ++ [symbol]) = ((spanChar c word).1, (spanChar c word).2 ++ [symbol]) := by
  induction word with
  | nil => exact absurd rfl h
  | cons first word ih =>
    simp only [spanChar, List.cons_append, List.takeWhile_cons, List.dropWhile_cons, Prod.mk.injEq]
      at h ih ⊢
    by_cases hfirst : (first.char == c) = true
    · simp only [hfirst, if_true] at h ⊢
      simp [ih h]
    · simp [hfirst]

theorem spanChar_concat_of_eq_nil (h : (spanChar c word).2 = []) (hbrace : brace.char = c) :
    spanChar c word = (word, []) ∧ spanChar c (word ++ [brace]) = (word ++ [brace], []) := by
  have hspan : spanChar c word = ((spanChar c word).1, []) := by rw [← h]
  obtain ⟨hword, hall⟩ := char_of_mem_spanChar hspan
  rw [List.append_nil] at hword
  rw [hword] at hspan hall
  have hrun : ∀ symbol ∈ word ++ [brace], (symbol.char == c) = true := by
    simpa [or_imp, forall_and, hbrace] using hall
  refine ⟨hspan, ?_⟩
  rw [spanChar, ← List.append_nil (word ++ [brace]), List.takeWhile_append_of_pos hrun,
    List.dropWhile_append_of_pos hrun]
  rfl

theorem spanCharEnd_concat_of_eq (h : brace.char = c) (word : List Symbol) :
    spanCharEnd c (word ++ [brace]) =
      ((spanCharEnd c word).1, (spanCharEnd c word).2 ++ [brace]) := by
  simp [spanCharEnd, spanChar, h]

theorem spanCharEnd_concat_of_ne (h : brace.char ≠ c) (word : List Symbol) :
    spanCharEnd c (word ++ [brace]) = (word ++ [brace], []) := by
  simp [spanCharEnd, spanChar, h]

theorem eachAs_append (kind : PieceKind) (first second : List Symbol) :
    eachAs kind (first ++ second) = eachAs kind first ++ eachAs kind second := by
  simp [eachAs]

/-- An opening brace in front of a word is a piece of its own. -/
theorem parts_cons_open (h : brace.char = '\x7b') (word : List Symbol) :
    parts (brace :: word) = (.groupOpen, [brace]) :: parts word := by
  simp [parts, spanChar, h, eachAs]

/-- A closing brace behind a word is a piece of its own. -/
theorem parts_concat_close (h : brace.char = '\x7d') (word : List Symbol) :
    parts (word ++ [brace]) = parts word ++ [(.groupClose, [brace])] := by
  simp only [parts, spanChar_concat_of_ne (show brace.char ≠ '\x7b' by rw [h]; decide),
    spanCharEnd_concat_of_eq h, eachAs_append, List.append_assoc]
  rfl

/-- So is an opening brace, unless the word ends with a closing one. -/
theorem parts_concat_open (h : brace.char = '\x7b')
    (hlast : ∀ symbol ∈ word.getLast?, symbol.char ≠ '\x7d') :
    parts (word ++ [brace]) = parts word ++ [(.groupOpen, [brace])] := by
  by_cases hbody : (spanChar '\x7b' word).2 = []
  · obtain ⟨hword, hglued⟩ := spanChar_concat_of_eq_nil hbody h
    simp only [parts, hword, hglued]
    simp [spanCharEnd, spanChar, spanChordEnd, eachAs, wholeAs]
  · obtain ⟨init, last, hinit⟩ := (List.eq_nil_or_concat _).resolve_left hbody
    rw [List.concat_eq_append] at hinit
    have hclose : last.char ≠ '\x7d' := by
      refine hlast last ?_
      have hword : (spanChar '\x7b' word).1 ++ (spanChar '\x7b' word).2 = word :=
        List.takeWhile_append_dropWhile
      rw [← hword, hinit, ← List.append_assoc]
      simp
    have hne : brace.char ≠ '\x7d' := by
      rw [h]
      decide
    simp only [parts, spanChar_concat_of_ne_nil hbody, spanCharEnd_concat_of_ne hne,
      spanCharEnd_concat_of_eq h]
    rw [hinit, spanCharEnd_concat_of_ne hclose]
    simp [eachAs]

/-- No word ends with a closing brace of its own. -/
theorem not_spelled_concat (hlast : last.char = '\x7d') (word : List Symbol) :
    ¬Spelled (Symbol.chars (word ++ [last])) := by
  intro h
  rw [Symbol.chars_append] at h
  exact h.last_not_mem_groupSigns (by rw [hlast]; decide)

theorem exists_unspelled_concat (h : brace.char = '\x7b') (hlast : last.char = '\x7d')
    (word : List Symbol) :
    ∃ part ∈ parts (word ++ [last] ++ [brace]), ¬part.1.Spells part.2 := by
  have hopen : last.char ≠ '\x7b' := by rw [hlast]; decide
  have hless : last.char ≠ '<' := by rw [hlast]; decide
  have hclose : brace.char ≠ '\x7d' := by rw [h]; decide
  have hspan := spanChar_concat_of_ne hopen word
  have hbody : (spanChar '\x7b' (word ++ [last])).2 ≠ [] := by
    rw [hspan]
    exact List.append_ne_nil_of_right_ne_nil _ (List.cons_ne_nil _ _)
  have hglued := spanChar_concat_of_ne_nil hbody brace
  rw [hspan] at hglued
  generalize (spanChar '\x7b' word).2 = body at hglued
  generalize (spanChar '\x7b' word).1 = opens at hglued
  have hstarts := spanChar_concat_of_ne hless body
  generalize (spanChar '<' body).2 = tail at hstarts
  generalize (spanChar '<' body).1 = chordStarts at hstarts
  rcases hend : spanChordEnd none false (tail ++ [last]) with ⟨inner, chordEnd⟩
  have hsplit := spanChordEnd_append none false (tail ++ [last])
  rw [hend] at hsplit
  have hparts : parts (word ++ [last] ++ [brace]) =
      eachAs .groupOpen opens ++ eachAs .chordStart chordStarts ++ wholeAs .word inner ++
        wholeAs .chordEnd chordEnd ++ eachAs .groupOpen [brace] ++ eachAs .groupClose [] := by
    simp only [parts, hglued, spanCharEnd_concat_of_ne hclose, spanCharEnd_concat_of_eq h,
      spanCharEnd_concat_of_ne hopen, hstarts, hend, List.nil_append]
  rw [hparts]
  rcases List.eq_nil_or_concat chordEnd with rfl | ⟨init, symbol, rfl⟩
  · rw [List.append_nil] at hsplit
    refine ⟨(.word, tail ++ [last]), ?_, not_spelled_concat hlast tail⟩
    have hinner : inner = tail ++ [last] := hsplit
    simp [wholeAs, hinner]
  · rw [List.concat_eq_append] at hsplit hend ⊢
    rw [← List.append_assoc] at hsplit
    obtain ⟨-, hsymbol⟩ := List.append_inj' hsplit rfl
    obtain rfl := (List.cons.inj hsymbol).1
    cases init with
    | nil =>
      have hgreater := head_of_spanChordEnd hend
      rw [hlast] at hgreater
      cases hgreater
    | cons bracket init =>
      exact ⟨(.chordEnd, bracket :: init ++ [symbol]), by simp [wholeAs],
        not_spelled_concat hlast init⟩

end Word

variable {gap : Gap} {tight loose word blanks : List Symbol} {brace : Symbol}

theorem contents_of_isWord (h : IsWord word) : contents word = Word.parts word := by
  obtain ⟨symbol, tail, rfl⟩ := List.exists_cons_of_ne_nil h.nonempty
  have hink : ¬symbol.isBlank = true := by
    rw [h.blanks.head]
    decide
  rw [contents_eq, Word.texts_cons_of_not_isBlank hink, splitWord_of_blanksQuoted h.blanks.2,
    Word.texts_nil, List.flatMap_singleton]

theorem contents_append_of_isWord (h : IsWord word) (hnext : BlankNext tight) :
    contents (word ++ tight) = Word.parts word ++ contents tight := by
  rw [contents_append h.closed hnext, contents_of_isWord h]

/-- A line has a piece that is not spelled as what it would be read as. -/
def Unspelled (symbols : List Symbol) : Prop :=
  ∃ content ∈ contents symbols, ¬content.1.Spells content.2

/-- In a line, a group opens right after another has closed. -/
def Reopens (symbols : List Symbol) : Prop :=
  ∃ before close opens after, contents symbols =
    before ++ (.groupClose, close) :: (.groupOpen, opens) :: after

namespace Gap

/-- The pieces of the brace and of a word beside it, in the order they stand in. -/
def partsApart (gap : Gap) (brace : Symbol) (word : List Symbol) :
    List (PieceKind × List Symbol) :=
  match gap.side with
  | .following => Word.parts [brace] ++ Word.parts word
  | .preceding => Word.parts word ++ Word.parts [brace]

/-- A brace and a word apart have the pieces of both. -/
theorem contents_part (hbrace : gap.IsBrace brace) (hword : IsWord word)
    (hblanks : ∀ symbol ∈ blanks, symbol.isBlank = true) (hne : blanks ≠ [])
    (hnext : BlankNext loose) :
    contents (gap.part (brace.moved gap.move) blanks (word.map (Symbol.moved gap.move)) ++ loose) =
      (gap.partsApart brace word).map (Piece.movedContent gap.move) ++ contents loose := by
  have hmoved : IsWord [brace.moved gap.move] := isWord_map_moved hbrace.isWord
  have hmovedWord : IsWord (word.map (Symbol.moved gap.move)) := isWord_map_moved hword
  have hblankNext (more : List Symbol) : BlankNext (blanks ++ more) := by
    obtain ⟨symbol, others, rfl⟩ := List.exists_cons_of_ne_nil hne
    exact blankNext_cons (hblanks symbol List.mem_cons_self)
  have hbraceParts : Word.parts [brace.moved gap.move] =
      (Word.parts [brace]).map (Piece.movedContent gap.move) := Word.parts_map_moved [brace]
  unfold part partsApart
  cases gap.side with
  | following =>
    dsimp only
    rw [← List.singleton_append, List.append_assoc, List.append_assoc,
      contents_append_of_isWord hmoved (hblankNext _), contents_blanks_append hblanks,
      contents_append_of_isWord hmovedWord hnext, Word.parts_map_moved, hbraceParts,
      List.map_append, List.append_assoc]
  | preceding =>
    dsimp only
    rw [List.append_assoc, List.append_assoc, contents_append_of_isWord hmovedWord (hblankNext _),
      contents_blanks_append hblanks, contents_append_of_isWord hmoved hnext,
      Word.parts_map_moved, hbraceParts, List.map_append, List.append_assoc]

/-- A word with the brace glued to it falls into the pieces of both, or it cannot be read, and a
group would open right after another has closed. -/
theorem parts_glue (hbrace : gap.IsBrace brace) (word : List Symbol) :
    Word.parts (gap.glue brace word) = gap.partsApart brace word ∨
      (∃ part ∈ Word.parts (gap.glue brace word), ¬part.1.Spells part.2) ∧
        ∃ before close, gap.partsApart brace word =
          before ++ [(.groupClose, close), (.groupOpen, [brace])] := by
  have hnil : Word.parts [] = [] := rfl
  unfold glue partsApart
  cases hside : gap.side with
  | following =>
    refine .inl ?_
    have hopen : brace.char = '\x7b' := by
      rcases hbrace.char with hopen | ⟨-, hpreceding⟩
      · exact hopen
      · rw [hside] at hpreceding
        cases hpreceding
    dsimp only
    rw [Word.parts_cons_open hopen, Word.parts_cons_open hopen, hnil]
    rfl
  | preceding =>
    dsimp only
    rcases hbrace.char with hopen | ⟨hclose, -⟩
    · rw [Word.parts_cons_open hopen [], hnil]
      rcases List.eq_nil_or_concat word with rfl | ⟨init, last, rfl⟩
      · exact .inl (Word.parts_concat_open hopen (by simp))
      · rw [List.concat_eq_append]
        by_cases hlast : last.char = '\x7d'
        · refine .inr ⟨Word.exists_unspelled_concat hopen hlast init, Word.parts init, [last], ?_⟩
          rw [Word.parts_concat_close hlast, List.append_assoc]
          rfl
        · exact .inl (Word.parts_concat_open hopen (by simpa using hlast))
    · refine .inl ?_
      have hbraceParts : Word.parts [brace] = [(.groupClose, [brace])] :=
        Word.parts_concat_close hclose []
      rw [hbraceParts, Word.parts_concat_close hclose word]

/-- The pieces of a reworded line, moved along, are those of the tight one; or neither line can be
read. -/
theorem contents_of_reworded (h : gap.Reworded tight loose) :
    contents loose = (contents tight).map (Piece.movedContent gap.move) ∨
      Unspelled tight ∧ Reopens loose := by
  induction h with
  | nil => exact .inl (by rw [contents_nil, List.map_nil])
  | @blank symbol tight loose isBlank rest ih =>
    have hmoved : (symbol.moved gap.move).isBlank = true := isBlank
    unfold Unspelled Reopens
    rwa [contents_cons_of_isBlank isBlank, contents_cons_of_isBlank hmoved]
  | @fill symbol tight loose isBlank rest ih =>
    unfold Reopens
    rwa [contents_cons_of_isBlank isBlank]
  | @word word tight loose isWord next' next rest ih =>
    unfold Unspelled Reopens at *
    rw [contents_append_of_isWord isWord next',
      contents_append_of_isWord (isWord_map_moved isWord) next, Word.parts_map_moved]
    rcases ih with heq | ⟨⟨content, hmem, hspells⟩, before, close, opens, after, heq⟩
    · exact .inl (by rw [heq, List.map_append])
    · exact .inr ⟨⟨content, List.mem_append_right _ hmem, hspells⟩,
        (Word.parts word).map (Piece.movedContent gap.move) ++ before, close, opens, after,
        by rw [heq, List.append_assoc]⟩
  | @glued brace word blanks tight loose isBrace isWord blank nonempty free next' next rest ih =>
    unfold Unspelled Reopens at *
    rw [contents_append_of_isWord (isWord_glue isBrace isWord) next',
      contents_part isBrace isWord blank nonempty next]
    rcases ih with heq | ⟨⟨content, hmem, hspells⟩, before, close, opens, after, heq⟩
    · rcases parts_glue isBrace word with
        hsame | ⟨⟨part, hmem, hspells⟩, before, close, hparts⟩
      · exact .inl (by rw [heq, hsame, List.map_append])
      · refine .inr ⟨⟨part, List.mem_append_left _ hmem, hspells⟩, ?_⟩
        simp only [hparts, List.map_append, List.map_cons, List.map_nil, List.append_assoc,
          List.cons_append, List.nil_append]
        exact ⟨_, _, _, _, rfl⟩
    · exact .inr ⟨⟨content, List.mem_append_right _ hmem, hspells⟩, _ ++ before, close, opens,
        after, by rw [heq, List.append_assoc]⟩

/-- What was moved along is moved back. -/
theorem contents_back (gap : Gap)
    (h : contents loose = (contents tight).map (Piece.movedContent gap.move)) :
    contents tight = (contents loose).map (Piece.movedContent gap.back) := by
  rw [h, List.map_map]
  refine (List.map_id _).symm.trans (List.map_congr_left fun content _ => ?_)
  exact congrArg (Prod.mk content.1) (gap.map_back_map_move content.2).symm

end Gap

end Stave.Shorthand
