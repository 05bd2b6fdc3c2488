import Stave.Proofs.Declaration.Joined

/-!
# The keyword of a declaration

No text that can be read begins with the keyword of a declaration. Writing out repeats keeps a
beginning without brackets and stars, so the keyword would begin the first word of the expansion;
and that word would be neither a directive nor a run of post-events.
-/
namespace Stave.Shorthand

variable {front line out : List Symbol} {symbol : Symbol} {text : String} {tokens : List Token}

/-- A list that begins another one ends before a stretch that begins with what it does not have. -/
theorem prefix_of_prefix_append {α : Type} {front before after : List α}
    (h : front <+: before ++ after) (hhead : ∀ next ∈ after.head?, next ∉ front) :
    front <+: before := by
  obtain ⟨rest, hrest⟩ := h
  rcases List.append_eq_append_iff.1 hrest with ⟨inside, rfl, -⟩ | ⟨inside, rfl, rfl⟩
  · exact List.prefix_append ..
  · cases inside with
    | nil => simp
    | cons next inside => exact absurd (by simp) (hhead next rfl)

/-- A beginning without brackets and stars stays as repeats are written out. -/
theorem Repeat.Step.prefix_of_prefix (h : Repeat.Step line out)
    (hplain : ∀ symbol ∈ front, symbol.char ≠ '[' ∧ symbol.char ≠ '*') (hfront : front <+: line) :
    front <+: out := by
  cases h with
  | @group before raw marks after bracket close count opens closes counted =>
    have hbefore : front <+: before := by
      refine prefix_of_prefix_append hfront fun next hnext hmem => ?_
      obtain rfl : bracket = next := by simpa using hnext
      exact (hplain bracket hmem).1 opens
    exact hbefore.trans (List.prefix_append ..)
  | @starred before unit digits after star count isStar counted =>
    rw [← List.append_assoc] at hfront
    have hbefore : front <+: before ++ unit := by
      refine prefix_of_prefix_append hfront fun next hnext hmem => ?_
      obtain rfl : star = next := by simpa using hnext
      exact (hplain star hmem).2 isStar
    obtain ⟨count, rfl⟩ := Nat.exists_eq_add_one.2 (readCount_eq_ok (readWordCount_eq_ok counted)).1
    rw [copies_succ, List.append_assoc, ← List.append_assoc]
    exact hbefore.trans (List.prefix_append ..)

theorem Repeat.prefix_of_steps (h : Relation.ReflTransGen Repeat.Step line out)
    (hplain : ∀ symbol ∈ front, symbol.char ≠ '[' ∧ symbol.char ≠ '*') (hfront : front <+: line) :
    front <+: out := by
  induction h with
  | refl => exact hfront
  | tail _ step ih => exact step.prefix_of_prefix hplain ih

/-! ### The first piece -/

/-- Characters that stand in no place of their own in a word: no blank, quote, brace or angle
bracket. -/
def IsInner (c : Char) : Prop := Text.isBlank c = false ∧ IsPlain c ∧ c ≠ '\x7b' ∧ c ≠ '\x7d'

instance (c : Char) : Decidable (IsInner c) := inferInstanceAs (Decidable (_ ∧ _))

theorem splitWord_append_of_isInner (h : ∀ symbol ∈ front, IsInner symbol.char)
    (rest : List Symbol) :
    Symbol.splitWord false (front ++ rest) =
      (front ++ (Symbol.splitWord false rest).1, (Symbol.splitWord false rest).2) := by
  induction front with
  | nil => rfl
  | cons symbol front ih =>
    obtain ⟨hsymbol, hfront⟩ := List.forall_mem_cons.1 h
    have hblank : symbol.isBlank = false := hsymbol.1
    have hquote : symbol.isQuote = false := beq_eq_false_iff_ne.2 hsymbol.2.1.2.2
    rw [List.cons_append, Symbol.splitWord, hblank, Symbol.quotedAfter, hquote]
    simp [ih hfront]

/-- A word that begins with such characters has them in its first piece. -/
theorem Word.exists_parts_of_isInner (h : ∀ symbol ∈ front, IsInner symbol.char)
    (hne : front ≠ []) (rest : List Symbol) :
    ∃ tail others, parts (front ++ rest) = (.word, front ++ tail) :: others := by
  obtain ⟨opens, chordStarts, inner, chordEnd, lateOpens, closes, division⟩ :=
    exists_division (front ++ rest)
  have hwhole := division.whole
  obtain ⟨first, others, rfl⟩ := List.exists_cons_of_ne_nil hne
  have hfirst := h first List.mem_cons_self
  obtain rfl : opens = [] := by
    cases opens with
    | nil => rfl
    | cons open? _ =>
      obtain ⟨rfl, -⟩ := List.cons.inj hwhole
      exact absurd (division.opens_eq first List.mem_cons_self) hfirst.2.2.1
  obtain rfl : chordStarts = [] := by
    cases chordStarts with
    | nil => rfl
    | cons start _ =>
      obtain ⟨rfl, -⟩ := List.cons.inj hwhole
      exact absurd (division.chordStarts_eq first List.mem_cons_self) hfirst.2.1.1
  have hends : ∀ next ∈ (chordEnd ++ (lateOpens ++ closes)).head?, next ∉ first :: others := by
    intro next hnext hmem
    have hinner := h next hmem
    cases chordEnd with
    | cons close _ =>
      obtain rfl : close = next := by simpa using hnext
      exact hinner.2.1.2.1 (head_of_spanChordEnd division.chordEnd_eq)
    | nil =>
      rw [List.nil_append] at hnext
      rcases List.mem_append.1 (List.mem_of_mem_head? hnext) with hmem | hmem
      · exact hinner.2.2.1 (division.lateOpens_eq next hmem)
      · exact hinner.2.2.2 (division.closes_eq next hmem)
  rw [List.nil_append, List.nil_append, List.append_assoc] at hwhole
  obtain ⟨tail, rfl⟩ := prefix_of_prefix_append ⟨rest, hwhole⟩ hends
  rw [division.parts_eq]
  exact ⟨tail, _, rfl⟩

/-- The first piece of a line that begins so, after blanks. -/
theorem exists_contents_of_isInner {blanks : List Symbol}
    (hblanks : ∀ symbol ∈ blanks, symbol.isBlank = true)
    (h : ∀ symbol ∈ front, IsInner symbol.char) (hne : front ≠ []) (rest : List Symbol) :
    ∃ tail others, contents (blanks ++ (front ++ rest)) = (.word, front ++ tail) :: others := by
  induction blanks with
  | nil =>
    obtain ⟨first, others, rfl⟩ := List.exists_cons_of_ne_nil hne
    obtain ⟨hfirst, hothers⟩ := List.forall_mem_cons.1 h
    have hblank : ¬first.isBlank = true := Bool.eq_false_iff.1 hfirst.1
    have hquote : first.isQuote = false := beq_eq_false_iff_ne.2 hfirst.2.1.2.2
    obtain ⟨tail, parts, hparts⟩ :=
      Word.exists_parts_of_isInner h hne (Symbol.splitWord false rest).1
    rw [List.nil_append, contents_eq, List.cons_append, Word.texts_cons_of_not_isBlank hblank,
      Symbol.quotedAfter, hquote, Bool.bne_false, splitWord_append_of_isInner hothers,
      List.flatMap_cons, ← List.cons_append, hparts]
    exact ⟨tail, _, rfl⟩
  | cons blank blanks ih =>
    obtain ⟨hblank, hothers⟩ := List.forall_mem_cons.1 hblanks
    rw [List.cons_append, contents_cons_of_isBlank hblank]
    exact ih hothers

/-! ### The keyword -/

variable {cs : List Char}

/-- A table has no entry for a word that begins as none of its names does. -/
theorem lookup_eq_none_of_prefix {β : Type} {names : List (String × β)} {start : List Char}
    (hnames : ∀ name ∈ names, ¬start <+: name.1.toList) (h : start <+: cs) :
    names.lookup (String.ofList cs) = none := by
  rw [List.lookup_eq_none_iff]
  intro name hmem
  rw [bne_iff_ne]
  intro heq
  refine hnames name hmem ?_
  rwa [← heq, String.toList_ofList]

theorem PostEvent.ofCommand?_of_keyword (h : ['b', 'a', 'r', 's'] <+: cs) :
    PostEvent.ofCommand? (String.ofList cs) = none := by
  have hcommands : ∀ name ∈ PostEvent.commands, ¬['b', 'a', 'r', 's'] <+: name.1.toList := by decide
  have hdynamics : ∀ name ∈ Dynamic.levels, ¬['b', 'a', 'r', 's'] <+: name.1.toList := by decide
  rw [PostEvent.ofCommand?, lookup_eq_none_of_prefix hcommands h, Dynamic.named?,
    lookup_eq_none_of_prefix hdynamics h]
  rfl

/-- The keyword is no command. -/
theorem PostEvent.readRun_of_keyword (h : barsKeyword <+: cs) :
    ∃ name, PostEvent.readRun cs = .error (.unknownCommand name) := by
  obtain ⟨rest, rfl⟩ := h
  have hname : ['b', 'a', 'r', 's'] <+: ('b' :: 'a' :: 'r' :: 's' :: rest).takeWhile Char.isAlpha :=
    ⟨rest.takeWhile Char.isAlpha, rfl⟩
  have hone : PostEvent.readOne '\\' ('b' :: 'a' :: 'r' :: 's' :: rest) =
      .error (.unknownCommand (('b' :: 'a' :: 'r' :: 's' :: rest).takeWhile Char.isAlpha)) := by
    rw [PostEvent.readOne, PostEvent.readCommand, PostEvent.ofCommand?_of_keyword hname]
    all_goals
      intro _ heq
      cases heq
  refine ⟨('b' :: 'a' :: 'r' :: 's' :: rest).takeWhile Char.isAlpha, ?_⟩
  rw [show barsKeyword ++ rest = '\\' :: 'b' :: 'a' :: 'r' :: 's' :: rest from rfl,
    PostEvent.readRun]
  split
  case h_1 error hread =>
    rw [hone] at hread
    cases hread
    rfl
  case h_2 hread =>
    rw [hone] at hread
    cases hread

/-- No word begins with the keyword. -/
theorem TokenKind.ofWord_of_keyword (h : barsKeyword <+: cs) :
    ∃ fault, TokenKind.ofWord cs = .error fault := by
  have hclef : Clef.ofKeyword? (String.ofList cs) = none := by
    rw [Clef.ofKeyword?, List.find?_eq_none]
    intro clef _ heq
    have hchars : clef.keyword.toList = cs := by
      rw [of_decide_eq_true heq, String.toList_ofList]
    rw [← hchars] at h
    revert h
    cases clef <;> decide
  obtain ⟨name, hrun⟩ := PostEvent.readRun_of_keyword h
  obtain ⟨rest, rfl⟩ := h
  have hword : barsKeyword ++ rest = '\\' :: 'b' :: 'a' :: 'r' :: 's' :: rest := rfl
  rw [hword] at hclef hrun ⊢
  refine ⟨.unknownWord (String.ofList ('\\' :: 'b' :: 'a' :: 'r' :: 's' :: rest)), ?_⟩
  rw [ofWord, hclef]
  have hpost : ofPostEvents ('\\' :: 'b' :: 'a' :: 'r' :: 's' :: rest) =
      .error (.unknownWord (String.ofList ('\\' :: 'b' :: 'a' :: 'r' :: 's' :: rest))) := by
    rw [ofPostEvents, hrun]
  exact hpost

/-- Nor does any piece, so a line with the keyword cannot be read. -/
theorem readPieces_ne_ok_of_keyword {piece : Piece} {pieces : List Piece}
    (hkind : piece.kind = .word) (hword : barsKeyword <+: piece.chars) :
    Token.readPieces none [] (piece :: pieces) ≠ .ok tokens := by
  intro h
  obtain ⟨fault, hfault⟩ := TokenKind.ofWord_of_keyword hword
  have hdirective : Token.directive? piece = none := by
    rw [Token.directive?, if_pos hkind]
    exact lookup_eq_none_of_prefix (by decide) hword
  rw [Token.readPieces, hdirective] at h
  simp only [Token.kindOf, hkind, hfault] at h
  cases h

theorem Symbol.forall_mem_ofChars {p : Char → Prop} (origin : Nat) (h : ∀ c ∈ cs, p c) :
    ∀ symbol ∈ Symbol.ofChars origin cs, p symbol.char := by
  intro symbol hmem
  refine h _ ?_
  rw [← Symbol.chars_ofChars origin cs]
  exact List.mem_map_of_mem hmem

/-- A text that can be read does not begin with the keyword. -/
theorem not_keyword_of_readTokens (h : readTokens text = .ok tokens) :
    ¬barsKeyword <+: text.toList.dropWhile Text.isBlank := by
  intro hkeyword
  obtain ⟨out, hout, -, htokens⟩ := exists_of_readTokens h
  obtain ⟨rest, hrest⟩ := hkeyword
  have htext : text.toList = text.toList.takeWhile Text.isBlank ++ (barsKeyword ++ rest) := by
    rw [hrest, List.takeWhile_append_dropWhile]
  have hblanks : ∀ c ∈ text.toList.takeWhile Text.isBlank, Text.isBlank c = true :=
    List.all_eq_true.1 List.all_takeWhile
  generalize text.toList.takeWhile Text.isBlank = blanks at htext hblanks
  have hfree : ∀ c ∈ blanks, c ≠ '[' ∧ c ≠ '*' := by
    intro c hmem
    have hblank := hblanks c hmem
    constructor <;> rintro rfl <;> cases hblank
  have hkeywordFree : ∀ c ∈ barsKeyword, c ≠ '[' ∧ c ≠ '*' := by simp [barsKeyword]
  have hkeywordInner : ∀ c ∈ barsKeyword, IsInner c := by
    have hall : barsKeyword.all (fun c => decide (IsInner c)) = true := by decide
    simpa using hall
  -- blanks and keyword begin the expansion as they begin the text
  rw [htext, Symbol.ofChars_append, Symbol.ofChars_append, ← List.append_assoc] at hout
  obtain ⟨more, rfl⟩ := Repeat.prefix_of_steps (steps_of_expandSymbols hout)
    (List.forall_mem_append.2 ⟨Symbol.forall_mem_ofChars _ hfree,
      Symbol.forall_mem_ofChars _ hkeywordFree⟩) (List.prefix_append ..)
  rw [List.append_assoc] at htokens
  obtain ⟨tail, others, hcontents⟩ := exists_contents_of_isInner
    (Symbol.forall_mem_ofChars _ hblanks) (Symbol.forall_mem_ofChars _ hkeywordInner)
    (by exact List.cons_ne_nil _ _) more
  obtain ⟨piece, pieces, hpieces, hpiece, -⟩ := List.map_eq_cons_iff.1 hcontents
  rw [hpieces] at htokens
  refine readPieces_ne_ok_of_keyword (congrArg Prod.fst hpiece) ?_ htokens
  have hsymbols : piece.symbols = _ ++ tail := congrArg Prod.snd hpiece
  rw [Piece.chars, hsymbols, Symbol.chars_append, Symbol.chars_ofChars]
  exact List.prefix_append ..

end Stave.Shorthand
