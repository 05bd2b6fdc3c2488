import Stave.Proofs.Repeat.Moved
import Stave.Proofs.Token.Settled

/-!
# Tokens of joined texts

Where a piece stands in the expanded text is kept for its token and never read, so a line is
read by the contents of its pieces alone. The contents of a line that leaves no quotation open
stay the same whatever comes after a blank, and a run of pieces that can be read is read the same
whatever pieces come after it: a directive takes what it took before, and the chord is closed.
-/
namespace Stave.Shorthand

variable {move : Nat → Nat} {quoted : Bool} {symbols before rest : List Symbol} {symbol : Symbol}

/-! ### Contents of pieces -/

/-- The contents of a line's pieces. -/
def contents (symbols : List Symbol) : List (PieceKind × List Symbol) :=
  (Piece.ofSymbols symbols).map Piece.content

/-- A content typed elsewhere. -/
def Piece.movedContent (move : Nat → Nat) (content : PieceKind × List Symbol) :
    PieceKind × List Symbol :=
  (content.1, content.2.map (Symbol.moved move))

namespace Word

/-- The words of a line, without their places. -/
def texts (symbols : List Symbol) : List (List Symbol) := (split 0 symbols).map Word.symbols

theorem map_symbols_split (position other : Nat) (symbols : List Symbol) :
    (split position symbols).map Word.symbols = (split other symbols).map Word.symbols := by
  fun_induction split position symbols generalizing other with
  | case1 => rw [split]
  | case2 position symbol rest hblank ih => rw [split, if_pos hblank, ih]
  | case3 position symbol rest hblank tail ih =>
    rw [split, if_neg hblank, List.map_cons, List.map_cons, ih]

theorem texts_nil : texts [] = [] := by rw [texts, split, List.map_nil]

theorem texts_cons_of_isBlank (h : symbol.isBlank = true) :
    texts (symbol :: rest) = texts rest := by
  rw [texts, split, if_pos h, map_symbols_split _ 0, texts]

theorem texts_cons_of_not_isBlank (h : ¬symbol.isBlank = true) :
    texts (symbol :: rest) =
      (symbol :: (Symbol.splitWord (symbol.quotedAfter false) rest).1) ::
        texts (Symbol.splitWord (symbol.quotedAfter false) rest).2 := by
  rw [texts, split, if_neg h, List.map_cons, map_symbols_split _ 0, texts]

/-- The words of a text that leaves no quotation open are words of any line it begins. -/
theorem texts_append (hopen : quotedAfterAll false symbols = false) (hnext : BlankNext rest) :
    texts (symbols ++ rest) = texts symbols ++ texts rest := by
  fun_induction split 0 symbols with
  | case1 => rw [texts_nil, List.nil_append, List.nil_append]
  | case2 position symbol others hblank ih =>
    rw [quotedAfterAll_cons, Symbol.quotedAfter, not_isQuote_of_isBlank hblank] at hopen
    rw [List.cons_append, texts_cons_of_isBlank hblank, texts_cons_of_isBlank hblank, ih hopen]
  | case3 position symbol others hblank tail ih =>
    rw [quotedAfterAll_cons] at hopen
    rw [List.cons_append, texts_cons_of_not_isBlank hblank, texts_cons_of_not_isBlank hblank,
      splitWord_append_of_blankNext hopen hnext, ih (quotedAfterAll_splitWord_eq hopen)]
    rfl

theorem texts_map_moved (symbols : List Symbol) :
    texts (symbols.map (Symbol.moved move)) =
      (texts symbols).map (List.map (Symbol.moved move)) := by
  fun_induction split 0 symbols with
  | case1 => rw [List.map_nil, texts_nil, List.map_nil]
  | case2 position symbol rest hblank ih =>
    have hmoved : (symbol.moved move).isBlank = true := hblank
    rw [List.map_cons, texts_cons_of_isBlank hblank, texts_cons_of_isBlank hmoved, ih]
  | case3 position symbol rest hblank tail ih =>
    have hmoved : ¬(symbol.moved move).isBlank = true := hblank
    rw [List.map_cons, texts_cons_of_not_isBlank hblank, texts_cons_of_not_isBlank hmoved,
      Symbol.quotedAfter_moved, Symbol.splitWord_map_moved, ih]
    rfl

theorem spanChar_map_moved (c : Char) (symbols : List Symbol) :
    spanChar c (symbols.map (Symbol.moved move)) =
      ((spanChar c symbols).1.map (Symbol.moved move),
        (spanChar c symbols).2.map (Symbol.moved move)) := by
  simp only [spanChar, List.takeWhile_map, List.dropWhile_map]
  rfl

theorem spanCharEnd_map_moved (c : Char) (symbols : List Symbol) :
    spanCharEnd c (symbols.map (Symbol.moved move)) =
      ((spanCharEnd c symbols).1.map (Symbol.moved move),
        (spanCharEnd c symbols).2.map (Symbol.moved move)) := by
  simp only [spanCharEnd, ← List.map_reverse, spanChar_map_moved]

theorem spanChordEnd_map_moved (previous : Option Char) (quoted : Bool) (symbols : List Symbol) :
    spanChordEnd previous quoted (symbols.map (Symbol.moved move)) =
      ((spanChordEnd previous quoted symbols).1.map (Symbol.moved move),
        (spanChordEnd previous quoted symbols).2.map (Symbol.moved move)) := by
  induction symbols generalizing previous quoted with
  | nil => rfl
  | cons symbol rest ih =>
    rw [List.map_cons, spanChordEnd, spanChordEnd, Symbol.char_moved, Symbol.quotedAfter_moved, ih]
    dsimp only
    split <;> rfl

theorem eachAs_map_moved (kind : PieceKind) (symbols : List Symbol) :
    eachAs kind (symbols.map (Symbol.moved move)) =
      (eachAs kind symbols).map (Piece.movedContent move) := by
  simp only [eachAs, List.map_map]
  rfl

theorem wholeAs_map_moved (kind : PieceKind) (symbols : List Symbol) :
    wholeAs kind (symbols.map (Symbol.moved move)) =
      (wholeAs kind symbols).map (Piece.movedContent move) := by
  cases symbols <;> rfl

/-- A word falls apart in the same way wherever it was typed. -/
theorem parts_map_moved (symbols : List Symbol) :
    parts (symbols.map (Symbol.moved move)) = (parts symbols).map (Piece.movedContent move) := by
  simp only [parts, spanChar_map_moved, spanCharEnd_map_moved, spanChordEnd_map_moved,
    eachAs_map_moved, wholeAs_map_moved, List.map_append]

end Word

theorem contents_eq (symbols : List Symbol) :
    contents symbols = (Word.texts symbols).flatMap Word.parts := by
  rw [contents, Piece.ofSymbols, List.map_flatMap, Word.texts, List.flatMap_map]
  simp only [Word.pieces, Word.map_content_placeParts]

theorem contents_nil : contents [] = [] := by
  rw [contents_eq, Word.texts_nil, List.flatMap_nil]

theorem contents_append (hopen : quotedAfterAll false symbols = false) (hnext : BlankNext rest) :
    contents (symbols ++ rest) = contents symbols ++ contents rest := by
  simp only [contents_eq, Word.texts_append hopen hnext, List.flatMap_append]

theorem contents_cons_of_isBlank (h : symbol.isBlank = true) :
    contents (symbol :: rest) = contents rest := by
  rw [contents_eq, Word.texts_cons_of_isBlank h, contents_eq]

theorem contents_blanks_append (hblanks : ∀ symbol ∈ symbols, symbol.isBlank = true) :
    contents (symbols ++ rest) = contents rest := by
  induction symbols with
  | nil => rfl
  | cons symbol symbols ih =>
    obtain ⟨hblank, hblanks⟩ := List.forall_mem_cons.1 hblanks
    rw [List.cons_append, contents_cons_of_isBlank hblank, ih hblanks]

theorem contents_map_moved (symbols : List Symbol) :
    contents (symbols.map (Symbol.moved move)) =
      (contents symbols).map (Piece.movedContent move) := by
  simp only [contents_eq, Word.texts_map_moved, List.flatMap_map, List.map_flatMap,
    Word.parts_map_moved]

/-! ### Reading pieces -/

/-- What a line is built from of a token: what it is, and where it was typed. -/
def Token.mark (token : Token) : TokenKind × Nat := (token.kind, token.origin)

/-- The mark of a token typed elsewhere. -/
def Token.movedMark (move : Nat → Nat) (token : Token) : TokenKind × Nat :=
  (token.kind, move token.origin)

/-- What is read of a token: what it is, its text, and where it was typed. -/
def Token.reading (token : Token) : TokenKind × String × Nat :=
  (token.kind, token.text, token.origin)

/-- The reading of a token typed elsewhere. -/
def Token.movedReading (move : Nat → Nat) (token : Token) : TokenKind × String × Nat :=
  (token.kind, token.text, move token.origin)

/-- Tokens that are read the same are marked the same. -/
theorem Token.map_mark_of_reading {read tokens others : List Token}
    (h : read.map reading = tokens.map (movedReading move) ++ others.map reading) :
    read.map mark = tokens.map (movedMark move) ++ others.map mark := by
  have hmarks := congrArg (List.map fun reading => (reading.1, reading.2.2)) h
  rwa [List.map_append, List.map_map, List.map_map, List.map_map] at hmarks

variable {arguments : List (List Char)} {directive : Directive} {kind : TokenKind} {used : Nat}
  {piece piece' : Piece} {pieces pieces' more : List Piece} {token : Token}
  {chord chord' : Option Nat} {found found' tokens : List Token}

namespace Directive

theorem tempo?_append (extra : List (List Char)) {mark : Tempo × Nat}
    (h : tempo? arguments = some mark) : tempo? (arguments ++ extra) = some mark := by
  have hsame : ∀ used ∈ List.range' 1 arguments.length,
      (arguments ++ extra).take used = arguments.take used := by
    intro used hmem
    have hused := (List.mem_range'_1.1 hmem).2
    exact List.take_append_of_le_length (by omega)
  unfold tempo? at h ⊢
  obtain ⟨before, used, after, hrange, hused, hbefore⟩ := List.findSome?_eq_some_iff.1 h
  refine List.findSome?_eq_some_iff.2
    ⟨before, used, after ++ List.range' (1 + arguments.length) extra.length, ?_, ?_, ?_⟩
  · rw [List.length_append, ← List.range'_append_1, hrange]
    simp
  · rw [hsame used (by simp [hrange]), hused]
  · intro fewer hmem
    rw [hsame fewer (by simp [hrange, hmem]), hbefore fewer hmem]

/-- A directive takes the same words whatever words come after them. -/
theorem read?_append (extra : List (List Char))
    (h : directive.read? arguments = some (kind, used)) :
    directive.read? (arguments ++ extra) = some (kind, used) := by
  unfold read? at h ⊢
  obtain ⟨first, hfirst, h⟩ := Option.bind_eq_some_iff.1 h
  obtain ⟨others, rfl⟩ := List.head?_eq_some_iff.1 hfirst
  refine Option.bind_eq_some_iff.2 ⟨first, rfl, ?_⟩
  cases directive
  case tempo =>
    obtain ⟨mark, hmark, heq⟩ := Option.map_eq_some_iff.1 h
    rw [tempo?_append extra hmark, Option.map_some, heq]
  all_goals exact h

end Directive

namespace Piece

variable (h : piece'.content = movedContent move piece.content)
include h

theorem kind_of_content : piece'.kind = piece.kind := congrArg Prod.fst h

theorem chars_of_content : piece'.chars = piece.chars := by
  have hsymbols : piece'.symbols = piece.symbols.map (Symbol.moved move) := congrArg Prod.snd h
  rw [Piece.chars, hsymbols, Symbol.chars_map_moved, Piece.chars]

theorem text_of_content : piece'.text = piece.text := congrArg String.ofList (chars_of_content h)

theorem origin_of_content (hne : piece.symbols ≠ []) : piece'.origin = move piece.origin := by
  have hsymbols : piece'.symbols = piece.symbols.map (Symbol.moved move) := congrArg Prod.snd h
  obtain ⟨head, tail, hcons⟩ := List.exists_cons_of_ne_nil hne
  rw [Piece.origin, Piece.origin, hsymbols, hcons]
  rfl

theorem directive?_of_content : Token.directive? piece' = Token.directive? piece := by
  rw [Token.directive?, kind_of_content h, text_of_content h, Token.directive?]

theorem kindOf_of_content (open? : Bool) :
    Token.kindOf open? piece' = Token.kindOf open? piece := by
  rw [Token.kindOf, kind_of_content h, chars_of_content h, Token.kindOf]

end Piece

namespace Token

theorem argumentWords_eq (pieces : List Piece) :
    argumentWords pieces =
      (((pieces.map Piece.content).take Directive.mostArguments).takeWhile (·.1 = .word)).map
        fun content => Symbol.chars content.2 := by
  rw [← List.map_take, List.takeWhile_map, List.map_map]
  rfl

/-- The words a directive may take begin with those of the pieces at hand. -/
theorem exists_argumentWords_append (more : List Piece)
    (h : pieces'.map Piece.content =
      pieces.map fun piece => Piece.movedContent move piece.content) :
    ∃ extra, argumentWords (pieces' ++ more) = argumentWords pieces ++ extra := by
  have hsame : argumentWords pieces' = argumentWords pieces := by
    have hmap : pieces'.map Piece.content =
        (pieces.map Piece.content).map (Piece.movedContent move) := by
      rw [h, List.map_map]
      rfl
    rw [argumentWords_eq, hmap, ← List.map_take, List.takeWhile_map, List.map_map, argumentWords_eq]
    exact List.map_congr_left fun content _ => Symbol.chars_map_moved content.2
  rw [← hsame, argumentWords, argumentWords, List.take_append, List.takeWhile_append]
  split
  case isTrue hall =>
    have hwhole := List.takeWhile_prefix (l := pieces'.take Directive.mostArguments)
      (fun piece => decide (piece.kind = .word))
    rw [hwhole.eq_of_length hall, List.map_append]
    exact ⟨_, rfl⟩
  case isFalse => exact ⟨[], (List.append_nil _).symm⟩

theorem length_argumentWords_le (pieces : List Piece) :
    (argumentWords pieces).length ≤ pieces.length := by
  rw [argumentWords, List.length_map]
  exact Nat.le_trans (List.takeWhile_prefix _).length_le (List.take_prefix ..).length_le

theorem ofDirective_append (more : List Piece)
    (hpiece : piece'.content = Piece.movedContent move piece.content) (hne : piece.symbols ≠ [])
    (hpieces : pieces'.map Piece.content =
      pieces.map fun piece => Piece.movedContent move piece.content)
    (h : ofDirective directive piece pieces = .ok (token, used)) :
    used ≤ pieces.length ∧
      ∃ token', ofDirective directive piece' (pieces' ++ more) = .ok (token', used) ∧
        token'.reading = token.movedReading move := by
  obtain ⟨hused, -⟩ := isOrdinary_of_ofDirective h
  obtain ⟨extra, hwords⟩ := exists_argumentWords_append more hpieces
  unfold ofDirective at h ⊢
  dsimp only at h ⊢
  split at h
  case h_1 kind' used' hread =>
    cases h
    rw [hwords, Directive.read?_append extra hread]
    refine ⟨Nat.le_trans hused (length_argumentWords_le pieces), _, rfl, ?_⟩
    rw [reading, movedReading, Piece.origin_of_content hpiece hne, Piece.text_of_content hpiece,
      List.take_append_of_le_length hused]
  case h_2 => cases h

/-- A run of pieces that can be read is read the same wherever it was typed, whatever tokens were
found before it and whatever pieces come after it. -/
theorem readPieces_append (move : Nat → Nat) (hne : ∀ piece ∈ pieces, piece.symbols ≠ [])
    (h : readPieces chord found pieces = .ok tokens) :
    ∃ read, tokens = found.reverse ++ read ∧ ∀ chord' found' pieces' more,
      chord'.isSome = chord.isSome →
      pieces'.map Piece.content = pieces.map (fun piece => Piece.movedContent move piece.content) →
        ∃ read' : List Token, read'.map reading = read.map (movedReading move) ∧
          readPieces chord' found' (pieces' ++ more) =
            readPieces none (read'.reverse ++ found') more := by
  fun_induction readPieces chord found pieces with
  | case1 => cases h
  | case2 found =>
    cases h
    refine ⟨[], by rw [List.append_nil], fun chord' found' pieces' more hchord hpieces => ?_⟩
    cases List.map_eq_nil_iff.1 hpieces
    cases chord' with
    | none => exact ⟨[], rfl, rfl⟩
    | some offset => cases hchord
  | case3 => cases h
  | case4 chord found piece rest directive hdirective token used hread ih =>
    obtain ⟨hpiece, hrest⟩ := List.forall_mem_cons.1 hne
    obtain ⟨read, hread', hruns⟩ := ih (fun other hmem => hrest other (List.mem_of_mem_drop hmem)) h
    refine ⟨token :: read, by rw [hread']; simp, ?_⟩
    intro chord' found' pieces' more hchord hpieces
    obtain ⟨piece', rest', rfl, hcontent, hcontents⟩ := List.map_eq_cons_iff.1 hpieces
    obtain ⟨hused, token', hdirective', hreading⟩ :=
      ofDirective_append more hcontent hpiece hcontents hread
    have hlength : rest'.length = rest.length := by simpa using congrArg List.length hcontents
    obtain ⟨read', hreadings, hrun⟩ := hruns chord' (token' :: found') (rest'.drop used) more hchord
      (by rw [List.map_drop, hcontents, List.map_drop])
    refine ⟨token' :: read', by rw [List.map_cons, List.map_cons, hreading, hreadings], ?_⟩
    rw [List.cons_append, readPieces, Piece.directive?_of_content hcontent, hdirective]
    dsimp only
    rw [hdirective']
    dsimp only
    rw [List.drop_append_of_le_length (by omega), hrun]
    simp
  | case5 => cases h
  | case6 chord found piece rest hdirective kind hkind token ih =>
    obtain ⟨hpiece, hrest⟩ := List.forall_mem_cons.1 hne
    obtain ⟨read, hread', hruns⟩ := ih hrest h
    refine ⟨token :: read, by rw [hread']; simp, ?_⟩
    intro chord' found' pieces' more hchord hpieces
    obtain ⟨piece', rest', rfl, hcontent, hcontents⟩ := List.map_eq_cons_iff.1 hpieces
    have hafter : (chordAfter chord' piece').isSome = (chordAfter chord piece).isSome := by
      unfold chordAfter
      rw [Piece.kind_of_content hcontent]
      split
      · rfl
      · rfl
      · exact hchord
    obtain ⟨read', hreadings, hrun⟩ := hruns (chordAfter chord' piece')
      (⟨kind, piece'.text, piece'.position, piece'.origin⟩ :: found') rest' more hafter hcontents
    refine ⟨⟨kind, piece'.text, piece'.position, piece'.origin⟩ :: read', ?_, ?_⟩
    · rw [List.map_cons, List.map_cons, hreadings, reading, Piece.origin_of_content hcontent hpiece,
        Piece.text_of_content hcontent]
      rfl
    · rw [List.cons_append, readPieces, Piece.directive?_of_content hcontent, hdirective]
      dsimp only
      rw [hchord, Piece.kindOf_of_content hcontent, hkind]
      dsimp only
      rw [hrun]
      simp

end Token

/-! ### Joined lines -/

theorem Piece.ne_nil_of_mem (h : piece ∈ Piece.ofSymbols symbols) : piece.symbols ≠ [] := by
  obtain ⟨before, head, tail, after, hstands⟩ := Piece.standsIn_of_mem h
  rw [hstands.symbols_eq]
  exact List.cons_ne_nil _ _

theorem Piece.movedContent_id (content : PieceKind × List Symbol) :
    Piece.movedContent id content = content :=
  congrArg (Prod.mk content.1) (List.map_id content.2)

theorem readPieces_nil : Token.readPieces none [] (Piece.ofSymbols []) = .ok [] := by
  have hpieces : Piece.ofSymbols [] = [] := by
    rw [Piece.ofSymbols, Word.split]
    rfl
  rw [hpieces, Token.readPieces]
  rfl

/-- A line that joins the contents of two is read as the two are. -/
theorem exists_readPieces_of_contents {first second : List Symbol} {tokens others : List Token}
    (hjoined : contents symbols = (contents first).map (Piece.movedContent move) ++ contents second)
    (hfirst : Token.readPieces none [] (Piece.ofSymbols first) = .ok tokens)
    (hsecond : Token.readPieces none [] (Piece.ofSymbols second) = .ok others) :
    ∃ read, Token.readPieces none [] (Piece.ofSymbols symbols) = .ok read ∧
      read.map Token.reading = tokens.map (Token.movedReading move) ++ others.map Token.reading := by
  obtain ⟨pieces, more, hpieces, hcontents, hmore⟩ := List.map_eq_append_iff.1 hjoined
  obtain ⟨_, rfl, hrunFirst⟩ := Token.readPieces_append move (fun _ => Piece.ne_nil_of_mem) hfirst
  obtain ⟨_, rfl, hrunSecond⟩ := Token.readPieces_append id (fun _ => Piece.ne_nil_of_mem) hsecond
  obtain ⟨read, hread, hrun⟩ := hrunFirst none [] pieces more rfl
    (by rw [hcontents, contents, List.map_map]; rfl)
  obtain ⟨readMore, hreadMore, hrunMore⟩ := hrunSecond none (read.reverse ++ []) more [] rfl
    (by simp only [hmore, contents, Piece.movedContent_id])
  refine ⟨read ++ readMore, ?_, ?_⟩
  · rw [hpieces, hrun, ← List.append_nil more, hrunMore, Token.readPieces]
    simp
  · rw [List.map_append, hread, hreadMore]
    rfl

end Stave.Shorthand
