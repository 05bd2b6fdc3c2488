import Stave.Proofs.Expansion.Copied
import Stave.Proofs.Token.Joined
import Stave.Proofs.Token.Read

/-!
# Tokens of copies

Copies of a text that can be read are read as copies of its tokens. What has a single token that
is no directive is one word, and what is one chord has no other bracket: such a text goes on
without a blank where a star is put behind it.
-/
namespace Stave.Shorthand

variable {symbols front inner back unit out : List Symbol} {symbol : Symbol}
  {move : Nat → Nat} {count offset : Nat} {tokens found : List Token}

/-! ### Contents of copies -/

theorem contents_of_blanks (h : ∀ symbol ∈ symbols, symbol.isBlank = true) :
    contents symbols = [] := by
  rw [← List.append_nil symbols, contents_blanks_append h, contents_nil]

/-- Blanks around a text change nothing about its pieces. -/
theorem contents_between (hfront : ∀ symbol ∈ front, symbol.isBlank = true)
    (hback : ∀ symbol ∈ back, symbol.isBlank = true)
    (hclosed : quotedAfterAll false inner = false) :
    contents (front ++ (inner ++ back)) = contents inner := by
  rw [contents_blanks_append hfront, contents_append hclosed (blankNext_of_blanks hback),
    contents_of_blanks hback, List.append_nil]

theorem blankNext_spaced :
    BlankNext (List.replicate count (⟨' ', offset⟩ :: out)).flatten := by
  cases count with
  | zero => exact blankNext_nil
  | succ count => exact blankNext_cons rfl

section Copies

variable (hclosed : quotedAfterAll false out = false)
  (hcontents : contents out = (contents unit).map (Piece.movedContent move))
  (hread : Token.readPieces none [] (Piece.ofSymbols unit) = .ok tokens)
include hclosed hcontents hread

/-- The copies after the first, each at a space. -/
theorem exists_readPieces_of_spaced (count offset : Nat) :
    ∃ read, Token.readPieces none []
        (Piece.ofSymbols (List.replicate count (⟨' ', offset⟩ :: out)).flatten) = .ok read ∧
      read.map Token.reading =
        (List.replicate count (tokens.map (Token.movedReading move))).flatten := by
  induction count with
  | zero => exact ⟨[], readPieces_nil, rfl⟩
  | succ count ih =>
    obtain ⟨read, hreadRest, hreadings⟩ := ih
    have hjoined : contents (List.replicate (count + 1) (⟨' ', offset⟩ :: out)).flatten =
        (contents unit).map (Piece.movedContent move) ++
          contents (List.replicate count (⟨' ', offset⟩ :: out)).flatten := by
      rw [List.replicate_succ, List.flatten_cons, List.cons_append, contents_cons_of_isBlank rfl,
        contents_append hclosed blankNext_spaced, hcontents]
    obtain ⟨all, hall, hallReadings⟩ := exists_readPieces_of_contents hjoined hread hreadRest
    refine ⟨all, hall, ?_⟩
    rw [hallReadings, hreadings, List.replicate_succ, List.flatten_cons]

/-- Copies of a text are read as copies of its tokens. -/
theorem exists_readPieces_of_copies (hcount : 0 < count) (offset : Nat) :
    ∃ read, Token.readPieces none [] (Piece.ofSymbols (Repeat.copies out count offset)) = .ok read ∧
      read.map Token.reading =
        (List.replicate count (tokens.map (Token.movedReading move))).flatten := by
  obtain ⟨count, rfl⟩ : ∃ n, count = n + 1 := ⟨count - 1, by omega⟩
  obtain ⟨read, hreadRest, hreadings⟩ :=
    exists_readPieces_of_spaced hclosed hcontents hread count offset
  have hjoined : contents (Repeat.copies out (count + 1) offset) =
      (contents unit).map (Piece.movedContent move) ++
        contents (List.replicate count (⟨' ', offset⟩ :: out)).flatten := by
    rw [Repeat.copies_succ, contents_append hclosed blankNext_spaced, hcontents]
  obtain ⟨all, hall, hallReadings⟩ := exists_readPieces_of_contents hjoined hread hreadRest
  refine ⟨all, hall, ?_⟩
  rw [hallReadings, hreadings, List.replicate_succ, List.flatten_cons]

end Copies

/-! ### What a text is that has given tokens -/

namespace TokenKind

/-- Whether a token is a note, a rest, a bare length or a run of post-events. -/
def isMusic : TokenKind → Bool
  | .note _ => true
  | .rest _ => true
  | .duration _ => true
  | .postEvents _ => true
  | _ => false

/-- The chord bracket of a token, if it is one. -/
def brackets : TokenKind → List Char
  | chordStart => ['<']
  | chordEnd _ => ['>']
  | _ => []

theorem Plain.brackets_eq {kind : TokenKind} (h : kind.Plain) : kind.brackets = [] := by
  have hnot := h.isBracket_eq
  cases kind with
  | chordStart => cases hnot
  | chordEnd suffix => cases hnot
  | _ => rfl

end TokenKind

namespace Token

variable {chord : Option Nat} {pieces : List Piece} {piece : Piece} {kind : TokenKind}
  {directive : Directive} {token : Token} {used : Nat}

/-- A directive makes no music. -/
theorem isMusic_of_ofDirective {rest : List Piece}
    (h : ofDirective directive piece rest = .ok (token, used)) : token.kind.isMusic = false := by
  unfold ofDirective at h
  dsimp only at h
  split at h
  case h_1 kind used' hread =>
    cases h
    unfold Directive.read? at hread
    obtain ⟨first, -, hread⟩ := Option.bind_eq_some_iff.1 hread
    cases directive <;> simp only [Option.map_eq_some_iff, Prod.mk.injEq] at hread
    all_goals
      obtain ⟨_, _, rfl, _⟩ := hread
      rfl
  case h_2 => cases h

/-- A piece that makes music is a word. -/
theorem kind_of_isMusic {open? : Bool} (h : kindOf open? piece = .ok kind)
    (hmusic : kind.isMusic = true) : piece.kind = .word := by
  unfold kindOf at h
  split at h
  · cases h
    cases hmusic
  · cases h
    cases hmusic
  · split at h
    · cases h
    · cases h
      cases hmusic
  · split at h
    · obtain ⟨suffix, rfl, -⟩ := TokenKind.exists_suffix_of_ofSuffix h
      cases hmusic
    · cases h
  case h_5 hkind => exact hkind

theorem length_readPieces (h : readPieces chord found pieces = .ok tokens) :
    found.length ≤ tokens.length ∧ (tokens.length = found.length → pieces = []) := by
  fun_induction readPieces chord found pieces with
  | case1 => cases h
  | case2 =>
    cases h
    simp
  | case3 => cases h
  | case4 chord found piece rest directive hdirective token used hread ih =>
    have hlength := (ih h).1
    rw [List.length_cons] at hlength
    exact ⟨by omega, fun heq => by omega⟩
  | case5 => cases h
  | case6 chord found piece rest hdirective kind hkind token ih =>
    have hlength := (ih h).1
    rw [List.length_cons] at hlength
    exact ⟨by omega, fun heq => by omega⟩

/-- A text with one token that makes music is one piece, a word. -/
theorem exists_piece_of_isMusic (h : readPieces none [] pieces = .ok [token])
    (hmusic : token.kind.isMusic = true) :
    ∃ piece, pieces = [piece] ∧ piece.kind = .word ∧ piece.text = token.text := by
  have hfirst {chord : Option Nat} {first : Token} {others : List Piece}
      (h : readPieces chord [first] others = .ok [token]) : first = token ∧ others = [] := by
    obtain ⟨tail, heq, -⟩ := exists_allRead_of_readPieces h
    exact ⟨(List.cons.inj heq).1.symm, (length_readPieces h).2 rfl⟩
  cases pieces with
  | nil =>
    rw [readPieces] at h
    cases h
  | cons piece others =>
    rw [readPieces] at h
    split at h
    case h_1 directive hdirective =>
      split at h
      · cases h
      case h_2 first used hread =>
        obtain ⟨rfl, -⟩ := hfirst h
        rw [isMusic_of_ofDirective hread] at hmusic
        cases hmusic
    case h_2 hdirective =>
      split at h
      · cases h
      case h_2 kind hkind =>
        obtain ⟨rfl, rfl⟩ := hfirst h
        exact ⟨piece, rfl, kind_of_isMusic hkind hmusic, rfl⟩

/-- The words a directive takes are no chord brackets, and neither is its name. -/
theorem brackets_of_ofDirective {rest : List Piece} (hdirective : directive? piece = some directive)
    (h : ofDirective directive piece rest = .ok (token, used)) :
    (piece :: rest.take used).flatMap (·.kind.brackets) = [] := by
  obtain ⟨hkind, -⟩ := spells_of_directive? hdirective
  obtain ⟨hused, -⟩ := isOrdinary_of_ofDirective h
  obtain ⟨-, hwords⟩ := take_argumentWords hused
  refine List.flatMap_eq_nil_iff.2 (List.forall_mem_cons.2 ⟨?_, fun other hmem => ?_⟩)
  · rw [hkind]
    rfl
  · rw [hwords other hmem]
    rfl

theorem brackets_of_kindOf {open? : Bool} (h : kindOf open? piece = .ok kind) :
    piece.kind.brackets = kind.brackets := by
  unfold kindOf at h
  unfold PieceKind.brackets
  split at h <;> rename_i hkind <;> rw [hkind]
  · cases h
    rfl
  · cases h
    rfl
  · split at h
    · cases h
    · cases h
      rfl
  · split at h
    · obtain ⟨suffix, rfl, -⟩ := TokenKind.exists_suffix_of_ofSuffix h
      rfl
    · cases h
  · exact (TokenKind.plain_of_ofWord h).brackets_eq.symm

/-- The chord brackets of tokens are those of the pieces they are read from. -/
theorem brackets_of_readPieces (h : readPieces chord found pieces = .ok tokens) :
    tokens.flatMap (·.kind.brackets) =
      found.reverse.flatMap (·.kind.brackets) ++ pieces.flatMap (·.kind.brackets) := by
  fun_induction readPieces chord found pieces with
  | case1 => cases h
  | case2 =>
    cases h
    simp
  | case3 => cases h
  | case4 chord found piece rest directive hdirective token used hread ih =>
    have hbrackets := brackets_of_ofDirective hdirective hread
    have hplain := (plain_of_ofDirective hread).brackets_eq
    rw [ih h, ← List.take_append_drop used rest, ← List.cons_append, List.flatMap_append, hbrackets]
    simp [hplain]
  | case5 => cases h
  | case6 chord found piece rest hdirective kind hkind token ih =>
    rw [ih h, List.flatMap_cons, brackets_of_kindOf hkind]
    simp [token]

theorem eq_reverse_of_readPieces_nil (h : readPieces chord found [] = .ok tokens) :
    tokens = found.reverse := by
  cases chord with
  | none =>
    rw [readPieces] at h
    cases h
    rfl
  | some offset =>
    rw [readPieces] at h
    cases h

/-- The last token is a chord end only if the last piece is. -/
theorem exists_getLast?_of_readPieces {last : Token} {suffix : Suffix}
    (h : readPieces chord found pieces = .ok tokens) (hne : pieces ≠ [])
    (hlast : tokens.getLast? = some last) (hend : last.kind = .chordEnd suffix) :
    ∃ piece, pieces.getLast? = some piece ∧ piece.kind = .chordEnd := by
  fun_induction readPieces chord found pieces with
  | case1 => cases h
  | case2 => exact absurd rfl hne
  | case3 => cases h
  | case4 chord found piece rest directive hdirective token used hread ih =>
    by_cases hrest : rest.drop used = []
    · rw [hrest] at h
      rw [eq_reverse_of_readPieces_nil h, List.getLast?_reverse, List.head?_cons,
        Option.some.injEq] at hlast
      have hnot := (plain_of_ofDirective hread).isBracket_eq
      rw [hlast, hend] at hnot
      cases hnot
    · obtain ⟨other, hother, hkind⟩ := ih h hrest
      refine ⟨other, ?_, hkind⟩
      rw [← List.take_append_drop used rest, ← List.cons_append, List.getLast?_append, hother]
      rfl
  | case5 => cases h
  | case6 chord found piece rest hdirective kind hkind token ih =>
    by_cases hrest : rest = []
    · subst hrest
      rw [eq_reverse_of_readPieces_nil h, List.getLast?_reverse, List.head?_cons,
        Option.some.injEq] at hlast
      have hbrackets := brackets_of_kindOf hkind
      rw [show kind = .chordEnd suffix from (congrArg Token.kind hlast).trans hend] at hbrackets
      refine ⟨piece, rfl, ?_⟩
      cases hpiece : piece.kind <;> rw [hpiece] at hbrackets <;> cases hbrackets
    · obtain ⟨other, hother, hkind'⟩ := ih h hrest
      exact ⟨other, by rw [List.getLast?_cons, hother]; rfl, hkind'⟩

end Token

/-- A text that is one piece is one word. -/
theorem blanksQuoted_of_piece {piece : Piece} (hmem : piece ∈ Piece.ofSymbols symbols)
    (hwhole : piece.symbols.length = symbols.length) :
    piece.symbols = symbols ∧ BlanksQuoted false symbols := by
  obtain ⟨word, hword, hpiece⟩ := List.mem_flatMap.1 hmem
  obtain ⟨hquoted, before, after, hsplit, -⟩ := Word.split_of_mem_split hword
  obtain ⟨-, inside, following, hinside, -⟩ := Word.split_of_mem_placeParts hpiece
  rw [Word.flatMap_parts] at hinside
  have hlength := congrArg List.length hsplit
  have hlengthInside := congrArg List.length hinside
  simp only [List.length_append] at hlength hlengthInside
  obtain rfl : before = [] := List.eq_nil_of_length_eq_zero (by omega)
  obtain rfl : after = [] := List.eq_nil_of_length_eq_zero (by omega)
  obtain rfl : inside = [] := List.eq_nil_of_length_eq_zero (by omega)
  obtain rfl : following = [] := List.eq_nil_of_length_eq_zero (by omega)
  rw [List.nil_append, List.append_nil] at hsplit hinside
  rw [hsplit]
  exact ⟨hinside.symm, hquoted⟩

/-- A text as it was typed, with nothing written out. -/
def typed (text : String) : Expansion := ⟨Symbol.ofChars 0 text.toList, text.utf8ByteSize⟩

theorem readPieces_of_tokenize {expansion : Expansion} (h : tokenize expansion = .ok tokens) :
    Token.readPieces none [] (Piece.ofSymbols expansion.symbols) = .ok tokens := by
  unfold tokenize at h
  split at h
  · cases h
  · exact h

theorem unrepeated_of_tokenize {expansion : Expansion} (h : tokenize expansion = .ok tokens) :
    Unrepeated expansion.symbols :=
  ⟨(settled_of_tokenize h).quoted, fun _ => not_mem_repeatSigns_of_tokenize h⟩

/-- A text that is read as one token that makes music, of the same text, is one word without chord
brackets. -/
theorem word_of_tokenize {word : String} {token : Token} (h : tokenize (typed word) = .ok [token])
    (htext : token.text = word) (hmusic : token.kind.isMusic = true) :
    (typed word).symbols ≠ [] ∧ BlanksQuoted false (typed word).symbols ∧
      chordBrackets false false (Symbol.chars (typed word).symbols) = [] := by
  have hread := readPieces_of_tokenize h
  obtain ⟨piece, hpieces, hkind, hpiece⟩ := Token.exists_piece_of_isMusic hread hmusic
  have hmem : piece ∈ Piece.ofSymbols (typed word).symbols := by simp [hpieces]
  have hchars : Symbol.chars piece.symbols = Symbol.chars (typed word).symbols := by
    rw [typed, Symbol.chars_ofChars, ← htext, ← hpiece]
    exact String.toList_ofList.symm
  have hlength : piece.symbols.length = (typed word).symbols.length := by
    simpa [Symbol.chars] using congrArg List.length hchars
  obtain ⟨hwhole, hquoted⟩ := blanksQuoted_of_piece hmem hlength
  have hspells := (Token.spells_of_readPieces hread).1 piece hmem
  rw [hkind, hwhole] at hspells
  exact ⟨hwhole ▸ Piece.ne_nil_of_mem hmem, hquoted, Spelled.chordBrackets_eq hspells false⟩

/-- A line with a symbol that is no blank has a piece. -/
theorem contents_ne_nil (hmem : symbol ∈ symbols) (hink : symbol.isBlank = false) :
    contents symbols ≠ [] := by
  rw [contents_eq]
  induction symbols with
  | nil => cases hmem
  | cons head rest ih =>
    by_cases hblank : head.isBlank = true
    · rw [Word.texts_cons_of_isBlank hblank]
      refine ih ((List.mem_cons.1 hmem).resolve_left ?_)
      rintro rfl
      rw [hink] at hblank
      cases hblank
    · rw [Word.texts_cons_of_not_isBlank hblank, List.flatMap_cons]
      intro hnil
      have hparts := Word.flatMap_parts
        (head :: (Symbol.splitWord (head.quotedAfter false) rest).1)
      rw [(List.append_eq_nil_iff.1 hnil).1] at hparts
      cases hparts

/-- After a chord that is the last one nothing is left but what its word ends with. -/
theorem blanksQuoted_of_last_chordEnd {after : List Symbol} {piece : Piece}
    (hclosed : quotedAfterAll false front = false)
    (hspells : ∀ piece ∈ Piece.ofSymbols (front ++ after), piece.kind.Spells piece.symbols)
    (hbrackets : chordBrackets false false (Symbol.chars after) = [])
    (hlast : (Piece.ofSymbols (front ++ after)).getLast? = some piece)
    (hkind : piece.kind = .chordEnd)
    (hink : ∀ symbol ∈ after.getLast?, symbol.isBlank = false) : BlanksQuoted false after := by
  have hword := blanksQuoted_splitWord false after
  rcases splitWord_rest false after with hnil | ⟨hquoted, blank, rest, hrest, hblank⟩
  · have happend := Symbol.splitWord_append false after
    rw [hnil, List.append_nil] at happend
    rwa [happend] at hword
  -- were there more words, the last piece would be among them
  exfalso
  have happend := Symbol.splitWord_append false after
  generalize Symbol.splitWord false after = word at hword hquoted hrest happend
  obtain ⟨word, others⟩ := word
  obtain rfl : others = blank :: rest := hrest
  have hnext : BlankNext (blank :: rest) := blankNext_cons hblank
  have hcontents :
      contents (front ++ after) = contents (front ++ word) ++ contents (blank :: rest) := by
    rw [← happend, ← List.append_assoc, contents_append ?_ hnext]
    rw [quotedAfterAll_append, hclosed, hquoted]
  have hne : contents (blank :: rest) ≠ [] := by
    obtain ⟨last, hgetLast⟩ := Option.isSome_iff_exists.1 (List.getLast?_isSome (l := blank :: rest)
      |>.2 (List.cons_ne_nil _ _))
    refine contents_ne_nil (List.mem_of_getLast? hgetLast) (hink last ?_)
    rw [← happend, List.getLast?_append, hgetLast]
    rfl
  have hlastContent : (contents (blank :: rest)).getLast? = some piece.content := by
    have hall : (contents (front ++ after)).getLast? = some piece.content := by
      rw [contents, List.getLast?_map, hlast]
      rfl
    rw [hcontents, List.getLast?_append] at hall
    cases hlast : (contents (blank :: rest)).getLast? with
    | none => exact absurd (List.getLast?_eq_none_iff.1 hlast) hne
    | some content =>
      rw [hlast] at hall
      exact hall
  have hspellsRest :
      ∀ other ∈ Piece.ofSymbols (blank :: rest), other.kind.Spells other.symbols := by
    intro other hmem
    have hcontent : other.content ∈ contents (front ++ after) := by
      rw [hcontents]
      exact List.mem_append_right _ (List.mem_map_of_mem hmem)
    obtain ⟨same, hsame, heq⟩ := List.mem_map.1 hcontent
    obtain ⟨hkind, hsymbols⟩ := Prod.mk.injEq .. ▸ heq
    rw [← hkind, ← hsymbols]
    exact hspells same hsame
  have hnone : chordBrackets false false (Symbol.chars (blank :: rest)) = [] := by
    rw [← happend, Symbol.chars_append, chordBrackets_append, ← quotedAfterAll_eq_quotedChars,
      hquoted, chordBrackets_of_blankNext hnext _ false] at hbrackets
    exact (List.append_eq_nil_iff.1 hbrackets).2
  rw [Piece.chordBrackets_of_clean fun other hmem => (hspellsRest other hmem).clean] at hnone
  obtain ⟨other, hmem, heq⟩ := List.mem_map.1 (List.mem_of_getLast? hlastContent)
  have hempty := List.flatMap_eq_nil_iff.1 hnone other hmem
  rw [show other.kind = piece.kind from congrArg Prod.fst heq, hkind] at hempty
  cases hempty

/-- A text that is read as one chord, and begins and ends with it, is a chord and what its last
word ends with. -/
theorem exists_chord_of_tokenize {chord : String} {start stop : Token} {inner : List Token}
    {suffix : Suffix} (h : tokenize (typed chord) = .ok (start :: (inner ++ [stop])))
    (hstart : start.kind = .chordStart) (hstop : stop.kind = .chordEnd suffix)
    (hinner : ∀ token ∈ inner, token.kind.isBracket = false)
    (hhead : chord.toList.head? = some '<')
    (hink : ∀ c ∈ chord.toList.getLast?, Text.isBlank c = false) :
    ∃ bracket body after, (typed chord).symbols = bracket :: body ++ after ∧ bracket.char = '<' ∧
      Repeat.splitChord bracket.char false (body ++ after) = some (body, after) ∧
      BlanksQuoted false after := by
  have hread := readPieces_of_tokenize h
  have hspells := (Token.spells_of_readPieces hread).1
  have hchars : Symbol.chars (typed chord).symbols = chord.toList := Symbol.chars_ofChars 0 _
  generalize (typed chord).symbols = symbols at hread hspells hchars ⊢
  have hbrackets : chordBrackets false false (Symbol.chars symbols) = ['<', '>'] := by
    have hpieces := Token.brackets_of_readPieces hread
    rw [List.reverse_nil, List.flatMap_nil, List.nil_append] at hpieces
    have hnone : inner.flatMap (·.kind.brackets) = [] :=
      List.flatMap_eq_nil_iff.2 fun token hmem => by
        have hnot := hinner token hmem
        cases hkind : token.kind <;> rw [hkind] at hnot <;> first | rfl | cases hnot
    rw [Piece.chordBrackets_of_clean fun piece hmem => (hspells piece hmem).clean, ← hpieces,
      List.flatMap_cons, List.flatMap_append, hnone, hstart, List.flatMap_cons, hstop]
    rfl
  rw [← hchars] at hhead hink
  obtain ⟨bracket, rest, rfl⟩ : ∃ bracket rest, symbols = bracket :: rest := by
    cases symbols with
    | nil => cases hhead
    | cons bracket rest => exact ⟨bracket, rest, rfl⟩
  have hopen : bracket.char = '<' := by simpa [Symbol.chars] using hhead
  have hclose : chordBrackets (Symbol.escapes bracket.char) false (Symbol.chars rest) = ['>'] := by
    rw [Symbol.chars, List.map_cons, hopen, chordBrackets] at hbrackets
    rw [hopen]
    exact (List.cons.inj hbrackets).2
  obtain ⟨body, after, hsplit, hafter⟩ := Repeat.exists_splitChord hclose
  obtain rfl := Repeat.splitChord_eq_some hsplit
  have hclosed : quotedAfterAll false (bracket :: body) = false := by
    rw [quotedAfterAll_cons, Symbol.quotedAfter, Symbol.isQuote, hopen]
    exact Repeat.quotedAfterAll_of_splitChord hsplit
  obtain ⟨piece, hpiece, hkind⟩ := Token.exists_getLast?_of_readPieces hread
    (fun hnil => by rw [hnil] at hread; cases (Token.eq_reverse_of_readPieces_nil hread))
    (by rw [List.getLast?_cons, List.getLast?_append]; rfl) hstop
  refine ⟨bracket, body, after, rfl, hopen, hsplit,
    blanksQuoted_of_last_chordEnd hclosed hspells hafter hpiece hkind fun symbol hmem => ?_⟩
  refine hink symbol.char ?_
  rw [Option.mem_def] at hmem ⊢
  rw [Symbol.chars, List.getLast?_map, ← List.cons_append, List.getLast?_append, hmem]
  rfl

end Stave.Shorthand
