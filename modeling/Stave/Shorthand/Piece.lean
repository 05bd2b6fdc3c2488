import Stave.Shorthand.Symbol

/-!
# Words and pieces

An expanded line falls into words at its blanks, and a word into pieces: braces at
its two ends, opening angle brackets in front, and a chord end from its closing
bracket on. The pieces of a word follow each other without a gap, so the line is
its pieces and the blanks between words.
-/
namespace Stave.Shorthand

/-- A stretch of text and the byte of the expanded text it begins at. -/
structure Word where
  position : Nat
  symbols : List Symbol
deriving DecidableEq, Inhabited

/-- What a piece is. -/
inductive PieceKind where
  | word
  | groupOpen
  | groupClose
  | chordStart
  /-- A closing bracket and everything after it in the word. -/
  | chordEnd
deriving DecidableEq, Inhabited

/-- A part of a word. -/
structure Piece where
  kind : PieceKind
  /-- The byte of the expanded text it begins at. -/
  position : Nat
  symbols : List Symbol
deriving DecidableEq, Inhabited

namespace Piece

/-- The characters of a piece. -/
def chars (piece : Piece) : List Char := Symbol.chars piece.symbols

/-- The text of a piece. -/
def text (piece : Piece) : String := Symbol.text piece.symbols

/-- The byte of the typed line a piece begins at. -/
def origin (piece : Piece) : Nat := (piece.symbols.head?.map Symbol.origin).getD 0

end Piece

/-- The words of a text that begins at a given byte. -/
def Word.split (position : Nat) : List Symbol → List Word
  | [] => []
  | symbol :: rest =>
    if symbol.isBlank then split (position + symbol.char.utf8Size) rest
    else
      let tail := Symbol.splitWord (symbol.quotedAfter false) rest
      ⟨position, symbol :: tail.1⟩ ::
        split (position + Symbol.byteSize (symbol :: tail.1)) tail.2
termination_by symbols => symbols.length
decreasing_by
  · simp
  · have := Symbol.length_splitWord_le (symbol.quotedAfter false) rest
    simp only [List.length_cons]
    omega

/-- The quote that opens a quotation which never closes, if there is one. -/
def openQuote? (symbols : List Symbol) : Option Symbol :=
  let quotes := symbols.filter Symbol.isQuote
  if quotes.length % 2 = 1 then quotes.getLast? else none

namespace Word

/-- Cut a list where a run of one character ends. -/
def spanChar (c : Char) (symbols : List Symbol) : List Symbol × List Symbol :=
  (symbols.takeWhile (·.char == c), symbols.dropWhile (·.char == c))

/-- Cut off the run of one character at the end of a list. -/
def spanCharEnd (c : Char) (symbols : List Symbol) : List Symbol × List Symbol :=
  let (run, rest) := spanChar c symbols.reverse
  (rest.reverse, run.reverse)

/-- Cut a list before the first closing angle bracket that closes a chord. -/
def spanChordEnd (previous : Option Char) (quoted : Bool) :
    List Symbol → List Symbol × List Symbol
  | [] => ([], [])
  | symbol :: rest =>
    let escaped := (previous.map Symbol.escapes).getD false
    if symbol.char = '>' && !quoted && !escaped then ([], symbol :: rest)
    else
      let (before, after) := spanChordEnd (some symbol.char) (symbol.quotedAfter quoted) rest
      (symbol :: before, after)

theorem spanCharEnd_append (c : Char) (symbols : List Symbol) :
    (spanCharEnd c symbols).1 ++ (spanCharEnd c symbols).2 = symbols := by
  simp [spanCharEnd, spanChar, ← List.reverse_append]

theorem spanChordEnd_append (previous : Option Char) (quoted : Bool) (symbols : List Symbol) :
    (spanChordEnd previous quoted symbols).1 ++ (spanChordEnd previous quoted symbols).2 =
      symbols := by
  induction symbols generalizing previous quoted with
  | nil => rfl
  | cons symbol rest ih =>
    unfold spanChordEnd
    dsimp only
    split
    · rfl
    · simpa using ih _ _

/-- A piece for every symbol of a run. -/
def eachAs (kind : PieceKind) (symbols : List Symbol) : List (PieceKind × List Symbol) :=
  symbols.map fun symbol => (kind, [symbol])

/-- A piece of the whole list, unless it is empty. -/
def wholeAs (kind : PieceKind) (symbols : List Symbol) : List (PieceKind × List Symbol) :=
  if symbols.isEmpty then [] else [(kind, symbols)]

/-- The parts of a word in order. -/
def parts (symbols : List Symbol) : List (PieceKind × List Symbol) :=
  let (opens, body) := spanChar '\x7b' symbols
  let (body, closes) := spanCharEnd '\x7d' body
  let (body, lateOpens) := spanCharEnd '\x7b' body
  let (chordStarts, body) := spanChar '<' body
  let (inner, chordEnd) := spanChordEnd none false body
  eachAs .groupOpen opens ++ eachAs .chordStart chordStarts ++ wholeAs .word inner ++
    wholeAs .chordEnd chordEnd ++ eachAs .groupOpen lateOpens ++ eachAs .groupClose closes

/-- The parts of a word are the word. -/
theorem flatMap_parts (symbols : List Symbol) : (parts symbols).flatMap Prod.snd = symbols := by
  have each (kind : PieceKind) (run : List Symbol) : (eachAs kind run).flatMap Prod.snd = run := by
    induction run with
    | nil => rfl
    | cons symbol rest ih => simpa [eachAs] using ih
  have whole (kind : PieceKind) (run : List Symbol) :
      (wholeAs kind run).flatMap Prod.snd = run := by
    cases run <;> simp [wholeAs]
  simp only [parts, List.flatMap_append, each, whole, List.append_assoc]
  rw [← List.append_assoc (spanChordEnd _ _ _).1, spanChordEnd_append,
    ← List.append_assoc (spanChar '<' _).1]
  simp only [spanChar, List.takeWhile_append_dropWhile]
  rw [← List.append_assoc (spanCharEnd '\x7b' _).1, spanCharEnd_append, spanCharEnd_append,
    List.takeWhile_append_dropWhile]

/-- Give consecutive parts their positions. -/
def placeParts (position : Nat) : List (PieceKind × List Symbol) → List Piece
  | [] => []
  | (kind, symbols) :: rest =>
    ⟨kind, position, symbols⟩ :: placeParts (position + Symbol.byteSize symbols) rest

/-- The pieces of a word. -/
def pieces (word : Word) : List Piece := placeParts word.position (parts word.symbols)

end Word

/-- The pieces of an expanded text. -/
def Piece.ofSymbols (symbols : List Symbol) : List Piece :=
  (Word.split 0 symbols).flatMap Word.pieces

end Stave.Shorthand
