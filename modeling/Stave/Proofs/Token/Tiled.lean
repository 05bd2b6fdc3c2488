import Mathlib.Data.List.Forall2
import Stave.Proofs.Expansion.Origins
import Stave.Proofs.Token.Copied
import Stave.Proofs.Token.Placed

/-!
# Tokens and the text they are read from

Nothing of a text is lost between its tokens, and nothing is added. The pieces of an expanded text
stand in it one after the other with only blanks between, and tokens take them in turn: a token
takes the piece whose text it has, a directive its name and the words it needs. So tokens follow
one another in the text, and all that no token has are blanks outside quotes.
-/
namespace Stave.Shorthand

/-- Pieces tile a text that begins at a byte: they stand in it one after the other, and only blanks
stand between them. -/
inductive Piece.Tiles : Nat → List Symbol → List Piece → Prop where
  | nil {position : Nat} {blanks : List Symbol} (blank : ∀ symbol ∈ blanks, symbol.isBlank = true) :
      Tiles position blanks []
  | cons {position : Nat} {blanks rest : List Symbol} {piece : Piece} {pieces : List Piece}
      (blank : ∀ symbol ∈ blanks, symbol.isBlank = true)
      (position_eq : piece.position = position + Symbol.byteSize blanks)
      (others : Tiles (piece.position + Symbol.byteSize piece.symbols) rest pieces) :
      Tiles position (blanks ++ (piece.symbols ++ rest)) (piece :: pieces)

/-- A text without its blanks outside quotes. -/
def inked (quoted : Bool) : List Char → List Char
  | [] => []
  | c :: cs =>
    let others := inked (quoted != (c == '"')) cs
    if Text.isBlank c && !quoted then others else c :: others

/-- The pieces that are read as a token: one that names no directive, or the name of a directive
and the words after it that it takes. -/
inductive Token.Takes : Token → List Piece → Prop where
  | piece {token : Token} {piece : Piece} (plain : directive? piece = none)
      (text_eq : token.text = piece.text) (position_eq : token.position = piece.position) :
      Takes token [piece]
  | directive {token : Token} {piece : Piece} {words : List Piece}
      (named : (directive? piece).isSome = true) (words_ne : words ≠ [])
      (words_kind : ∀ word ∈ words, word.kind = .word)
      (text_eq : token.text = directiveText piece.text (words.map Piece.chars))
      (position_eq : token.position = piece.position) :
      Takes token (piece :: words)

/-- A token has the text of a directive with its arguments. -/
def Token.IsDirective (token : Token) : Prop :=
  ∃ name arguments, (Directive.ofWord? name).isSome = true ∧ arguments ≠ [] ∧
    token.text = directiveText name arguments

/-- The text of a token stands in a text at the byte where the token begins. -/
def Token.TextIn (token : Token) (text : List Char) : Prop :=
  ∃ before after, text = before ++ (token.text.toList ++ after) ∧
    token.position = Text.byteSize before

/-- The tokens of an expansion: they follow one another and know where they were typed, their texts
stand in the text, their pieces tile it and are all of it but blanks outside quotes, and chords open
and close in turn. -/
structure Expansion.TokenizedAs (expansion : Expansion) (tokens : List Token) : Prop where
  increasing : tokens.Pairwise fun first second => first.position < second.position
  origin_eq : ∀ token ∈ tokens, token.origin = expansion.typedOffset token.position
  textIn : ∀ token ∈ tokens, token.IsDirective ∨ token.TextIn expansion.text.toList
  tiles : ∃ shares, List.Forall₂ Token.Takes tokens shares ∧
    Piece.Tiles 0 expansion.symbols shares.flatten ∧
    shares.flatten.flatMap Piece.chars = inked false expansion.text.toList
  alternate : ∃ chords,
    tokens.flatMap (·.kind.brackets) = (List.replicate chords ['<', '>']).flatten

variable {position : Nat} {symbols rest : List Symbol} {symbol : Symbol} {piece : Piece}
  {pieces : List Piece} {parts : List (PieceKind × List Symbol)} {quoted : Bool}
  {tokens found : List Token} {token : Token} {chord : Option Nat} {expansion : Expansion}

/-! ### Pieces -/

namespace Piece.Tiles

theorem cons_blank (hblank : symbol.isBlank = true)
    (h : Tiles (position + symbol.char.utf8Size) rest pieces) :
    Tiles position (symbol :: rest) pieces := by
  cases h with
  | nil blank => exact .nil (List.forall_mem_cons.2 ⟨hblank, blank⟩)
  | @cons _ blanks rest piece pieces blank position_eq others =>
    have hposition : piece.position = position + Symbol.byteSize (symbol :: blanks) := by
      rw [position_eq, Symbol.byteSize_cons, Nat.add_assoc]
    exact .cons (List.forall_mem_cons.2 ⟨hblank, blank⟩) hposition others

/-- A piece that tiles a text stands in it. -/
theorem exists_split (h : Tiles position symbols pieces) (hmem : piece ∈ pieces) :
    ∃ before after, symbols = before ++ (piece.symbols ++ after) ∧
      piece.position = position + Symbol.byteSize before := by
  induction h with
  | nil => cases hmem
  | @cons position blanks rest first pieces blank position_eq others ih =>
    rcases List.mem_cons.1 hmem with rfl | hmem
    · exact ⟨blanks, rest, rfl, position_eq⟩
    · obtain ⟨before, after, rfl, hposition⟩ := ih hmem
      refine ⟨blanks ++ (first.symbols ++ before), after, by simp, ?_⟩
      rw [hposition, position_eq, Symbol.byteSize_append, Symbol.byteSize_append]
      omega

theorem byteSize_pos (h : symbols ≠ []) : 0 < Symbol.byteSize symbols := by
  obtain ⟨symbol, rest, rfl⟩ := List.exists_cons_of_ne_nil h
  rw [Symbol.byteSize_cons]
  exact Nat.add_pos_left symbol.char.utf8Size_pos _

/-- Pieces that tile a text follow one another in it. -/
theorem increasing (h : Tiles position symbols pieces)
    (hne : ∀ piece ∈ pieces, piece.symbols ≠ []) :
    pieces.Pairwise fun first second => first.position < second.position := by
  induction h with
  | nil => exact .nil
  | @cons position blanks rest first pieces blank position_eq others ih =>
    obtain ⟨hfirst, hrest⟩ := List.forall_mem_cons.1 hne
    refine .cons (fun second hmem => ?_) (ih hrest)
    obtain ⟨before, after, -, hposition⟩ := others.exists_split hmem
    have hpos := byteSize_pos hfirst
    omega

end Piece.Tiles

/-- Parts of a word that are placed one after the other tile it. -/
theorem tiles_placeParts (parts : List (PieceKind × List Symbol))
    (h : Piece.Tiles (position + Symbol.byteSize (parts.flatMap Prod.snd)) rest pieces) :
    Piece.Tiles position (parts.flatMap Prod.snd ++ rest)
      (Word.placeParts position parts ++ pieces) := by
  induction parts generalizing position with
  | nil => exact h
  | cons part parts ih =>
    obtain ⟨kind, symbols⟩ := part
    rw [List.flatMap_cons, Symbol.byteSize_append, ← Nat.add_assoc] at h
    rw [Word.placeParts, List.cons_append, List.flatMap_cons, List.append_assoc]
    have hplace : (Piece.mk kind position symbols).position = position + Symbol.byteSize [] := rfl
    exact .cons (List.forall_mem_nil _) hplace (ih h)

/-- The pieces of a text tile it. -/
theorem tiles_split (position : Nat) (symbols : List Symbol) :
    Piece.Tiles position symbols ((Word.split position symbols).flatMap Word.pieces) := by
  fun_induction Word.split position symbols with
  | case1 => exact .nil (List.forall_mem_nil _)
  | case2 position symbol rest hblank ih => exact ih.cons_blank hblank
  | case3 position symbol rest hblank tail ih =>
    have hword := Word.flatMap_parts (symbol :: tail.1)
    have htail := Symbol.splitWord_append (symbol.quotedAfter false) rest
    have hplaced := tiles_placeParts (Word.parts (symbol :: tail.1)) (by rwa [hword])
    rw [hword, List.cons_append, htail] at hplaced
    exact hplaced

theorem Piece.tiles_ofSymbols (symbols : List Symbol) : Tiles 0 symbols (ofSymbols symbols) :=
  tiles_split 0 symbols

/-! ### Ink -/

theorem inked_append (quoted : Bool) (first second : List Char) :
    inked quoted (first ++ second) =
      inked quoted first ++ inked (quotedChars quoted first) second := by
  induction first generalizing quoted with
  | nil => rfl
  | cons c first ih =>
    simp only [List.cons_append, inked, ih, quotedChars_cons]
    split <;> rfl

/-- A word has no blanks to leave out. -/
theorem inked_of_blanksQuoted (h : BlanksQuoted quoted symbols) :
    inked quoted (Symbol.chars symbols) = Symbol.chars symbols := by
  induction symbols generalizing quoted with
  | nil => rfl
  | cons symbol rest ih =>
    have hstays : ¬(Text.isBlank symbol.char && !quoted) = true := by
      simp only [Bool.and_eq_true, Bool.not_eq_true', not_and, Bool.not_eq_false]
      exact h.1
    have hrest := ih h.2
    rw [Symbol.quotedAfter, Symbol.isQuote] at hrest
    rw [Symbol.chars, List.map_cons, inked, if_neg hstays]
    exact congrArg _ hrest

theorem flatMap_chars_placeParts (position : Nat) (parts : List (PieceKind × List Symbol)) :
    (Word.placeParts position parts).flatMap Piece.chars =
      Symbol.chars (parts.flatMap Prod.snd) := by
  induction parts generalizing position with
  | nil => rfl
  | cons part parts ih =>
    rw [Word.placeParts, List.flatMap_cons, ih, List.flatMap_cons, Symbol.chars_append]
    rfl

/-- The pieces of a text are all of it but blanks outside quotes. -/
theorem flatMap_chars_split (position : Nat) (symbols : List Symbol) :
    ((Word.split position symbols).flatMap Word.pieces).flatMap Piece.chars =
      inked false (Symbol.chars symbols) := by
  fun_induction Word.split position symbols with
  | case1 => rfl
  | case2 position symbol rest hblank ih =>
    have hquote := not_isQuote_of_isBlank hblank
    rw [Symbol.isQuote] at hquote
    rw [ih, Symbol.chars, Symbol.chars, List.map_cons, inked, hquote,
      if_pos (by rw [Bool.not_false, Bool.and_true]; exact hblank)]
    rfl
  | case3 position symbol rest hblank tail ih =>
    have htail := Symbol.splitWord_append (symbol.quotedAfter false) rest
    have hword : BlanksQuoted false (symbol :: tail.1) :=
      ⟨fun hsymbol => absurd hsymbol hblank, blanksQuoted_splitWord _ _⟩
    have hrest : inked (quotedAfterAll false (symbol :: tail.1)) (Symbol.chars tail.2) =
        inked false (Symbol.chars tail.2) := by
      rcases splitWord_rest (symbol.quotedAfter false) rest with hnil | ⟨hclosed, -⟩
      · rw [show tail.2 = [] from hnil]
        rfl
      · rw [quotedAfterAll_cons, show quotedAfterAll (symbol.quotedAfter false) tail.1 = false
          from hclosed]
    rw [List.flatMap_cons, List.flatMap_append, ih, Word.pieces, flatMap_chars_placeParts,
      Word.flatMap_parts, ← htail, ← List.cons_append, Symbol.chars_append, inked_append,
      ← quotedAfterAll_eq_quotedChars, hrest, inked_of_blanksQuoted hword]

/-! ### Tokens -/

theorem Directive.used_pos {directive : Directive} {arguments : List (List Char)}
    {kind : TokenKind} {used : Nat} (h : directive.read? arguments = some (kind, used)) :
    0 < used := by
  unfold read? at h
  obtain ⟨first, -, h⟩ := Option.bind_eq_some_iff.1 h
  cases directive <;> simp only [Option.map_eq_some_iff, Prod.mk.injEq] at h
  case tempo =>
    obtain ⟨⟨mark, n⟩, hn, -, rfl⟩ := h
    obtain ⟨m, hm, heq⟩ := List.exists_of_findSome?_eq_some hn
    obtain ⟨t, -, ht⟩ := Option.map_eq_some_iff.1 heq
    cases ht
    exact (List.mem_range'_1.1 hm).1
  all_goals
    obtain ⟨_, _, _, rfl⟩ := h
    exact Nat.one_pos

namespace Token

theorem takes_of_ofDirective {directive : Directive} {rest : List Piece} {used : Nat}
    (hdirective : directive? piece = some directive)
    (h : ofDirective directive piece rest = .ok (token, used)) :
    token.Takes (piece :: rest.take used) := by
  have hused := (isOrdinary_of_ofDirective h).1
  unfold ofDirective at h
  dsimp only at h
  split at h
  case h_1 kind used' hread =>
    cases h
    obtain ⟨hwords, hkind⟩ := take_argumentWords hused
    have hpos := Directive.used_pos hread
    have hlength := length_argumentWords_le rest
    refine .directive (by rw [hdirective]; rfl) ?_ hkind (by rw [hwords]) rfl
    refine List.ne_nil_of_length_pos ?_
    rw [List.length_take]
    omega
  case h_2 => cases h

/-- Every token takes the pieces next in turn. -/
theorem exists_shares_of_readPieces (h : readPieces chord found pieces = .ok tokens) :
    ∃ read shares, tokens = found.reverse ++ read ∧ List.Forall₂ Takes read shares ∧
      shares.flatten = pieces := by
  fun_induction readPieces chord found pieces with
  | case1 => cases h
  | case2 found =>
    cases h
    exact ⟨[], [], (List.append_nil _).symm, .nil, rfl⟩
  | case3 => cases h
  | case4 chord found piece rest directive hdirective token used hread ih =>
    obtain ⟨read, shares, rfl, htakes, hshares⟩ := ih h
    refine ⟨token :: read, (piece :: rest.take used) :: shares, by simp,
      .cons (takes_of_ofDirective hdirective hread) htakes, ?_⟩
    rw [List.flatten_cons, hshares, List.cons_append, List.take_append_drop]
  | case5 => cases h
  | case6 chord found piece rest hdirective kind hkind token ih =>
    obtain ⟨read, shares, rfl, htakes, hshares⟩ := ih h
    exact ⟨token :: read, [piece] :: shares, by simp, .cons (.piece hdirective rfl rfl) htakes,
      by rw [List.flatten_cons, hshares]; rfl⟩

theorem Takes.exists_piece {share : List Piece} (h : token.Takes share) :
    ∃ piece ∈ share, token.position = piece.position := by
  cases h with
  | piece plain text_eq position_eq => exact ⟨_, List.mem_singleton_self _, position_eq⟩
  | directive named words_ne words_kind text_eq position_eq =>
    exact ⟨_, List.mem_cons_self, position_eq⟩

theorem exists_share {shares : List (List Piece)} (h : List.Forall₂ Takes tokens shares)
    (hmem : token ∈ tokens) : ∃ share ∈ shares, token.Takes share := by
  induction h with
  | nil => cases hmem
  | cons htakes _ ih =>
    rcases List.mem_cons.1 hmem with rfl | hmem
    · exact ⟨_, List.mem_cons_self, htakes⟩
    · obtain ⟨share, hshare, htakes⟩ := ih hmem
      exact ⟨share, List.mem_cons_of_mem _ hshare, htakes⟩

/-- Tokens follow one another if the pieces they take do. -/
theorem increasing_of_takes {shares : List (List Piece)} (h : List.Forall₂ Takes tokens shares)
    (hpieces : shares.flatten.Pairwise fun first second => first.position < second.position) :
    tokens.Pairwise fun first second => first.position < second.position := by
  induction h with
  | nil => exact .nil
  | @cons token share tokens shares htakes hothers ih =>
    rw [List.flatten_cons, List.pairwise_append] at hpieces
    refine .cons (fun other hmem => ?_) (ih hpieces.2.1)
    obtain ⟨otherShare, hshare, hother⟩ := exists_share hothers hmem
    obtain ⟨piece, hpiece, hposition⟩ := htakes.exists_piece
    obtain ⟨otherPiece, hotherPiece, hotherPosition⟩ := hother.exists_piece
    rw [hposition, hotherPosition]
    exact hpieces.2.2 piece hpiece otherPiece (List.mem_flatten_of_mem hshare hotherPiece)

/-- Chord brackets that alternate are pairs, one after the other. -/
theorem exists_brackets_of_alternate {open? : Bool} (h : ChordsAlternate open? tokens)
    (hclosed : chordOpenAfter open? tokens = false) :
    ∃ chords, (if open? then ['<'] else []) ++ tokens.flatMap (·.kind.brackets) =
      (List.replicate chords ['<', '>']).flatten := by
  induction tokens generalizing open? with
  | nil =>
    obtain rfl : open? = false := hclosed
    exact ⟨0, rfl⟩
  | cons token tokens ih =>
    obtain ⟨hopens, hcloses, hrest⟩ := h
    obtain ⟨chords, hchords⟩ := ih hrest hclosed
    rw [List.flatMap_cons]
    cases hkind : token.kind with
    | chordStart =>
      rw [hkind] at hchords
      rw [hopens hkind]
      exact ⟨chords, hchords⟩
    | chordEnd suffix =>
      rw [hkind] at hchords
      rw [hcloses ⟨suffix, hkind⟩]
      refine ⟨chords + 1, ?_⟩
      rw [List.replicate_succ, List.flatten_cons, ← hchords]
      rfl
    | _ =>
      rw [hkind] at hchords
      exact ⟨chords, hchords⟩

end Token

/-- A token that takes one piece has its text where the piece stands. -/
theorem Token.Takes.textIn {share : List Piece} (h : token.Takes share)
    (hpieces : ∀ piece ∈ share, ∃ before after, symbols = before ++ (piece.symbols ++ after) ∧
      piece.position = Symbol.byteSize before) :
    token.IsDirective ∨ token.TextIn (Symbol.chars symbols) := by
  cases h with
  | @piece piece plain text_eq position_eq =>
    obtain ⟨before, after, rfl, hposition⟩ := hpieces piece (List.mem_singleton_self _)
    refine .inr ⟨Symbol.chars before, Symbol.chars after, ?_, ?_⟩
    · rw [Symbol.chars_append, Symbol.chars_append, text_eq, Piece.text, Symbol.text,
        String.toList_ofList]
    · rw [position_eq, hposition]
      rfl
  | @directive piece words named words_ne words_kind text_eq position_eq =>
    refine .inl ⟨piece.text, words.map Piece.chars, ?_, by simpa using words_ne, text_eq⟩
    unfold directive? at named
    split at named
    · exact named
    · cases named

/-- What can be read as tokens is read without loss: the tokens of an expansion tile its text. -/
theorem tokenize_tiled (expansion : Expansion) (tokens : List Token)
    (h : tokenize expansion = .ok tokens) : expansion.TokenizedAs tokens := by
  have hread := readPieces_of_tokenize h
  have htiles := Piece.tiles_ofSymbols expansion.symbols
  obtain ⟨read, shares, hfound, htakes, hshares⟩ := Token.exists_shares_of_readPieces hread
  obtain rfl : tokens = read := hfound
  refine ⟨?_, fun token hmem => ?_, fun token hmem => ?_,
    ⟨shares, htakes, hshares ▸ htiles, ?_⟩, ?_⟩
  · refine Token.increasing_of_takes htakes ?_
    rw [hshares]
    exact htiles.increasing fun _ => Piece.ne_nil_of_mem
  · obtain ⟨before, head, after, hstands⟩ := standsIn_of_tokenize h token hmem
    rw [hstands.origin_eq, hstands.position_eq, Expansion.typedOffset_of_split hstands.split]
  · obtain ⟨share, hshare, htakesShare⟩ := Token.exists_share htakes hmem
    rw [Expansion.toList_text]
    refine htakesShare.textIn fun piece hpiece => ?_
    have hmemPiece : piece ∈ Piece.ofSymbols expansion.symbols := by
      rw [← hshares]
      exact List.mem_flatten_of_mem hshare hpiece
    obtain ⟨before, after, hsplit, hposition⟩ := htiles.exists_split hmemPiece
    exact ⟨before, after, hsplit, by rw [hposition, Nat.zero_add]⟩
  · rw [hshares, Expansion.toList_text]
    exact flatMap_chars_split 0 expansion.symbols
  · obtain ⟨others, hothers, halternate⟩ := Token.exists_allRead_of_readPieces hread
    obtain rfl : tokens = others := hothers
    exact Token.exists_brackets_of_alternate halternate.alternate halternate.closed

/-- A tempo takes three words however far apart they are, and a quoted blank stays with its token,
which is copied with it. -/
theorem tokenize_tiled_tempo :
    ∃ expansion tokens, expand "\\tempo 4 =  60 <c e>8-\"a b\"*2" = .ok expansion ∧
      tokenize expansion = .ok tokens ∧ expansion.TokenizedAs tokens ∧
      tokens.map (fun token => (token.text, token.position, token.origin)) =
        [("\\tempo 4 = 60", 0, 0), ("<", 15, 15), ("c", 16, 16), ("e", 18, 18),
          (">8-\"a b\"", 19, 19), ("<", 28, 15), ("c", 29, 16), ("e", 31, 18),
          (">8-\"a b\"", 32, 19)] := by
  have hread : (readTokens "\\tempo 4 =  60 <c e>8-\"a b\"*2").toOption.map
      (List.map fun token => (token.text, token.position, token.origin)) =
        some [("\\tempo 4 = 60", 0, 0), ("<", 15, 15), ("c", 16, 16), ("e", 18, 18),
          (">8-\"a b\"", 19, 19), ("<", 28, 15), ("c", 29, 16), ("e", 31, 18),
          (">8-\"a b\"", 32, 19)] := by
    decide +kernel
  obtain ⟨tokens, htokens, hplaces⟩ := Option.map_eq_some_iff.1 hread
  obtain ⟨expansion, hexpand, htokenize⟩ :=
    exists_expansion_of_readTokens (toOption_eq_some_iff.1 htokens)
  exact ⟨expansion, tokens, hexpand, htokenize, tokenize_tiled expansion tokens htokenize, hplaces⟩

end Stave.Shorthand
