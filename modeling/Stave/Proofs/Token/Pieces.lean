import Stave.Proofs.Symbol.Quotation
import Stave.Shorthand.Token.Reading

/-!
# Where the pieces of a line stand

A line is cut into words at blanks outside quotes, and a word into pieces. `Division` says how a
word falls apart, once for all that is proved of pieces. Every piece stands in the line at
the byte it says and begins with a symbol that is no blank, since a blank of a word is quoted
and no piece begins inside quotes.
-/
namespace Stave.Shorthand

@[simp] theorem Symbol.byteSize_append (first second : List Symbol) :
    Symbol.byteSize (first ++ second) = Symbol.byteSize first + Symbol.byteSize second := by
  simp [Symbol.byteSize, Symbol.chars]

@[simp] theorem Symbol.byteSize_cons (symbol : Symbol) (rest : List Symbol) :
    Symbol.byteSize (symbol :: rest) = symbol.char.utf8Size + Symbol.byteSize rest := by
  simp [Symbol.byteSize, Symbol.chars]

/-- What is read of a piece: everything but where it stands. -/
def Piece.content (piece : Piece) : PieceKind × List Symbol := (piece.kind, piece.symbols)

variable {quoted : Bool} {symbols before after run rest : List Symbol} {symbol : Symbol} {c : Char}

namespace Word

/-- How a word falls apart: opening braces, opening angle brackets, what stands between, a chord
end, and braces again. -/
structure Division (symbols opens chordStarts inner chordEnd lateOpens closes : List Symbol) :
    Prop where
  whole : symbols = opens ++ (chordStarts ++ ((inner ++ chordEnd) ++ (lateOpens ++ closes)))
  parts_eq : parts symbols =
    eachAs .groupOpen opens ++ eachAs .chordStart chordStarts ++ wholeAs .word inner ++
      wholeAs .chordEnd chordEnd ++ eachAs .groupOpen lateOpens ++ eachAs .groupClose closes
  opens_eq : ∀ symbol ∈ opens, symbol.char = '\x7b'
  chordStarts_eq : ∀ symbol ∈ chordStarts, symbol.char = '<'
  chordEnd_eq : spanChordEnd none false (inner ++ chordEnd) = (inner, chordEnd)
  lateOpens_eq : ∀ symbol ∈ lateOpens, symbol.char = '\x7b'
  closes_eq : ∀ symbol ∈ closes, symbol.char = '\x7d'

theorem char_of_mem_spanChar (h : spanChar c symbols = (run, rest)) :
    run ++ rest = symbols ∧ ∀ symbol ∈ run, symbol.char = c := by
  cases h
  refine ⟨List.takeWhile_append_dropWhile, fun symbol hmem => ?_⟩
  simpa using List.all_eq_true.1 List.all_takeWhile symbol hmem

theorem char_of_mem_spanCharEnd (h : spanCharEnd c symbols = (rest, run)) :
    rest ++ run = symbols ∧ ∀ symbol ∈ run, symbol.char = c := by
  have happend := spanCharEnd_append c symbols
  rw [h] at happend
  cases h
  exact ⟨happend, fun symbol hmem =>
    (char_of_mem_spanChar (c := c) rfl).2 symbol (List.mem_reverse.1 hmem)⟩

/-- Every word falls apart in this way. -/
theorem exists_division (symbols : List Symbol) :
    ∃ opens chordStarts inner chordEnd lateOpens closes,
      Division symbols opens chordStarts inner chordEnd lateOpens closes := by
  rcases hopens : spanChar '\x7b' symbols with ⟨opens, rest⟩
  rcases hcloses : spanCharEnd '\x7d' rest with ⟨front, closes⟩
  rcases hlate : spanCharEnd '\x7b' front with ⟨body, lateOpens⟩
  rcases hstarts : spanChar '<' body with ⟨chordStarts, tail⟩
  rcases hend : spanChordEnd none false tail with ⟨inner, chordEnd⟩
  have hparts : parts symbols =
      eachAs .groupOpen opens ++ eachAs .chordStart chordStarts ++ wholeAs .word inner ++
        wholeAs .chordEnd chordEnd ++ eachAs .groupOpen lateOpens ++
          eachAs .groupClose closes := by
    simp only [parts, hopens, hcloses, hlate, hstarts, hend]
  have htail : inner ++ chordEnd = tail := by simpa [hend] using spanChordEnd_append none false tail
  obtain ⟨rfl, hopensChar⟩ := char_of_mem_spanChar hopens
  obtain ⟨rfl, hclosesChar⟩ := char_of_mem_spanCharEnd hcloses
  obtain ⟨rfl, hlateChar⟩ := char_of_mem_spanCharEnd hlate
  obtain ⟨rfl, hstartsChar⟩ := char_of_mem_spanChar hstarts
  subst htail
  exact ⟨opens, chordStarts, inner, chordEnd, lateOpens, closes,
    ⟨by simp only [List.append_assoc], hparts, hopensChar, hstartsChar, hend, hlateChar,
      hclosesChar⟩⟩

theorem mem_eachAs {kind kind' : PieceKind} (h : (kind, run) ∈ eachAs kind' symbols) :
    kind = kind' ∧ ∃ symbol ∈ symbols, run = [symbol] := by
  obtain ⟨symbol, hmem, heq⟩ := List.mem_map.1 h
  cases heq
  exact ⟨rfl, symbol, hmem, rfl⟩

theorem mem_wholeAs {kind kind' : PieceKind} (h : (kind, run) ∈ wholeAs kind' symbols) :
    kind = kind' ∧ run = symbols ∧ symbols ≠ [] := by
  unfold wholeAs at h
  split at h
  · cases h
  case isFalse hempty =>
    cases List.mem_singleton.1 h
    exact ⟨rfl, rfl, fun hnil => hempty (by rw [hnil]; rfl)⟩

theorem head_of_spanChordEnd {previous : Option Char}
    (h : spanChordEnd previous quoted symbols = (before, symbol :: after)) :
    symbol.char = '>' := by
  induction symbols generalizing previous quoted before with
  | nil => cases h
  | cons first rest ih =>
    unfold spanChordEnd at h
    dsimp only at h
    split at h
    case isTrue hclose =>
      cases h
      simp only [Bool.and_eq_true, decide_eq_true_eq] at hclose
      exact hclose.1.1
    case isFalse =>
      rcases hspan : spanChordEnd (some first.char) (first.quotedAfter quoted) rest with ⟨b, a⟩
      rw [hspan] at h
      cases h
      exact ih hspan

theorem isBlank_of_char (h : symbol.char = c) (hc : Text.isBlank c = false) :
    symbol.isBlank = false := by
  rw [Symbol.isBlank, h, hc]

theorem not_isQuote_of_char (h : symbol.char = c) (hc : c ≠ '"') : symbol.isQuote = false := by
  simp [Symbol.isQuote, h, hc]

/-- A part of a word begins with a symbol that is no blank, and an opening bracket is one. -/
theorem head_of_mem_parts {kind : PieceKind} (hquoted : BlanksQuoted false symbols)
    (h : (kind, run) ∈ parts symbols) :
    ∃ head tail, run = head :: tail ∧ head.isBlank = false ∧
      (kind = .chordStart → head.char = '<') := by
  obtain ⟨opens, chordStarts, inner, chordEnd, lateOpens, closes, division⟩ :=
    exists_division symbols
  rw [division.parts_eq] at h
  simp only [List.mem_append] at h
  rcases h with ((((h | h) | h) | h) | h) | h
  · obtain ⟨rfl, symbol, hmem, rfl⟩ := mem_eachAs h
    exact ⟨symbol, [], rfl, isBlank_of_char (division.opens_eq symbol hmem) (by decide), nofun⟩
  · obtain ⟨rfl, symbol, hmem, rfl⟩ := mem_eachAs h
    have hchar := division.chordStarts_eq symbol hmem
    exact ⟨symbol, [], rfl, isBlank_of_char hchar (by decide), fun _ => hchar⟩
  · -- what stands before it are no quotes, so its first symbol is not quoted
    obtain ⟨rfl, rfl, hne⟩ := mem_wholeAs h
    obtain ⟨head, tail, rfl⟩ := List.exists_cons_of_ne_nil hne
    rw [division.whole, blanksQuoted_append, blanksQuoted_append, quotedAfterAll_of_not_isQuote
      fun symbol hmem => not_isQuote_of_char (division.opens_eq symbol hmem) (by decide),
      quotedAfterAll_of_not_isQuote
      fun symbol hmem => not_isQuote_of_char (division.chordStarts_eq symbol hmem) (by decide)]
      at hquoted
    exact ⟨head, tail, rfl, hquoted.2.2.head, nofun⟩
  · obtain ⟨rfl, rfl, hne⟩ := mem_wholeAs h
    obtain ⟨head, tail, rfl⟩ := List.exists_cons_of_ne_nil hne
    have hchar := head_of_spanChordEnd division.chordEnd_eq
    exact ⟨head, tail, rfl, isBlank_of_char hchar (by decide), nofun⟩
  · obtain ⟨rfl, symbol, hmem, rfl⟩ := mem_eachAs h
    exact ⟨symbol, [], rfl, isBlank_of_char (division.lateOpens_eq symbol hmem) (by decide), nofun⟩
  · obtain ⟨rfl, symbol, hmem, rfl⟩ := mem_eachAs h
    exact ⟨symbol, [], rfl, isBlank_of_char (division.closes_eq symbol hmem) (by decide), nofun⟩

/-- Placing parts changes nothing about them. -/
theorem map_content_placeParts (position : Nat) (parts : List (PieceKind × List Symbol)) :
    (placeParts position parts).map Piece.content = parts := by
  induction parts generalizing position with
  | nil => rfl
  | cons part rest ih => rw [placeParts, List.map_cons, ih, Piece.content]

/-- Parts that follow one another stand where the ones before end. -/
theorem split_of_mem_placeParts {position : Nat} {parts : List (PieceKind × List Symbol)}
    {piece : Piece} (h : piece ∈ placeParts position parts) :
    (piece.kind, piece.symbols) ∈ parts ∧
      ∃ before after, parts.flatMap Prod.snd = before ++ (piece.symbols ++ after) ∧
        piece.position = position + Symbol.byteSize before := by
  induction parts generalizing position with
  | nil => cases h
  | cons part rest ih =>
    rcases List.mem_cons.1 h with rfl | h
    · exact ⟨List.mem_cons_self, [], rest.flatMap Prod.snd, rfl, rfl⟩
    · obtain ⟨hmem, before, after, hsplit, hposition⟩ := ih h
      refine ⟨List.mem_cons_of_mem _ hmem, part.2 ++ before, after, ?_, ?_⟩
      · rw [List.flatMap_cons, hsplit, List.append_assoc]
      · rw [hposition, Symbol.byteSize_append, Nat.add_assoc]

/-- The words of a line stand in it, and their blanks are quoted. -/
theorem split_of_mem_split {position : Nat} {word : Word} (h : word ∈ split position symbols) :
    BlanksQuoted false word.symbols ∧
      ∃ before after, symbols = before ++ (word.symbols ++ after) ∧
        word.position = position + Symbol.byteSize before := by
  fun_induction split position symbols with
  | case1 => cases h
  | case2 position symbol rest hblank ih =>
    obtain ⟨hquoted, before, after, rfl, hposition⟩ := ih h
    refine ⟨hquoted, symbol :: before, after, rfl, ?_⟩
    rw [hposition, Symbol.byteSize_cons, Nat.add_assoc]
  | case3 position symbol rest hblank tail ih =>
    have htail := Symbol.splitWord_append (symbol.quotedAfter false) rest
    rcases List.mem_cons.1 h with rfl | h
    · refine ⟨⟨fun hsymbol => absurd hsymbol hblank, blanksQuoted_splitWord _ _⟩, [], tail.2, ?_, rfl⟩
      exact congrArg (symbol :: ·) htail.symm
    · obtain ⟨hquoted, before, after, hsplit, hposition⟩ := ih h
      refine ⟨hquoted, (symbol :: tail.1) ++ before, after, ?_, ?_⟩
      · rw [List.append_assoc, ← hsplit]
        exact congrArg (symbol :: ·) htail.symm
      · rw [hposition, Symbol.byteSize_append, Nat.add_assoc]

end Word

/-- A piece stands in a line: at the byte it says, and beginning with a symbol that is no
blank. -/
structure Piece.StandsIn (symbols : List Symbol) (piece : Piece) (before : List Symbol)
    (head : Symbol) (tail after : List Symbol) : Prop where
  split : symbols = before ++ head :: (tail ++ after)
  symbols_eq : piece.symbols = head :: tail
  position_eq : piece.position = Symbol.byteSize before
  isBlank_eq : head.isBlank = false
  chordStart : piece.kind = .chordStart → head.char = '<'

/-- Every piece of a line stands in it. -/
theorem Piece.standsIn_of_mem {piece : Piece} (h : piece ∈ Piece.ofSymbols symbols) :
    ∃ before head tail after, piece.StandsIn symbols before head tail after := by
  obtain ⟨word, hword, hpiece⟩ := List.mem_flatMap.1 h
  obtain ⟨hquoted, before, after, hsplit, hposition⟩ := Word.split_of_mem_split hword
  obtain ⟨hpart, inside, following, hinside, hplace⟩ := Word.split_of_mem_placeParts hpiece
  obtain ⟨head, tail, heq, hblank, hstart⟩ := Word.head_of_mem_parts hquoted hpart
  rw [Word.flatMap_parts] at hinside
  refine ⟨before ++ inside, head, tail, following ++ after, ?_, heq, ?_, hblank, hstart⟩
  · rw [hsplit, hinside, heq]
    simp
  · rw [hplace, hposition, Nat.zero_add, Symbol.byteSize_append]

theorem Piece.StandsIn.origin_eq {piece : Piece} {head : Symbol} {tail : List Symbol}
    (h : piece.StandsIn symbols before head tail after) : piece.origin = head.origin := by
  rw [Piece.origin, h.symbols_eq]
  rfl

end Stave.Shorthand
