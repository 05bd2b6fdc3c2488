import Stave.Shorthand.Expansion
import Stave.Shorthand.Piece
import Stave.Shorthand.Token.Directive

/-!
# Reading tokens

The pieces of an expanded line become tokens from left to right. Chords may not
nest and must close; a directive takes the words it needs after it.
-/
namespace Stave.Shorthand

namespace TokenKind

/-- Read a word that begins with a note letter. -/
def ofNoteWord (word : List Char) : Except TokenFault TokenKind :=
  match NoteWord.read word with
  | .ok spelled => .ok (note spelled)
  | .error (.unexpectedChar c) =>
    if c.isAlpha then .error (.ambiguousLetter (String.ofList word))
    else .error (.malformed (String.ofList word) (.unexpectedChar c))
  | .error reason => .error (.malformed (String.ofList word) reason)

/-- Read the suffix of a word, given the whole word for the error. -/
def ofSuffix (make : Suffix → TokenKind) (word suffix : List Char) :
    Except TokenFault TokenKind :=
  match Suffix.read suffix with
  | .ok value => .ok (make value)
  | .error reason => .error (.malformed (String.ofList word) reason)

/-- Read a word of post-events. -/
def ofPostEvents (word : List Char) : Except TokenFault TokenKind :=
  match PostEvent.readRun word with
  | .ok events => .ok (postEvents events)
  | .error (.unknownCommand _) => .error (.unknownWord (String.ofList word))
  | .error reason => .error (.malformed (String.ofList word) reason)

/-- Whether a word may be a run of post-events. -/
def beginsPostEvents (c : Char) : Bool := ['\\', '~', '(', ')', '-', '^', '_'].contains c

/-- Read a word that is no directive. -/
def ofWord (word : List Char) : Except TokenFault TokenKind :=
  let unknown : Except TokenFault TokenKind := .error (.unknownWord (String.ofList word))
  match Clef.ofKeyword? (String.ofList word) with
  | some keyword => .ok (clef keyword)
  | none =>
    match word with
    | [] => unknown
    | first :: tail =>
      if 'a' ≤ first && first ≤ 'g' then ofNoteWord word
      else if first = 'r' then
        if (tail.head?.map Char.isAlpha).getD false then unknown
        else ofSuffix rest word tail
      else if first.isDigit then ofSuffix duration word word
      else if first = '|' && tail.isEmpty then .ok barLine
      else if beginsPostEvents first then ofPostEvents word
      else unknown

end TokenKind

namespace Token

/-- The text of a directive with its arguments. -/
def directiveText (name : String) (arguments : List (List Char)) : String :=
  String.intercalate " " (name :: arguments.map String.ofList)

/-- The words a directive may take. -/
def argumentWords (pieces : List Piece) : List (List Char) :=
  ((pieces.take Directive.mostArguments).takeWhile (·.kind = .word)).map Piece.chars

/-- Read a directive at a piece, with the number of pieces it takes after it. -/
def ofDirective (directive : Directive) (piece : Piece) (rest : List Piece) :
    Except TokenFault (Token × Nat) :=
  let arguments := argumentWords rest
  match directive.read? arguments with
  | some (kind, used) =>
    let text := directiveText piece.text (arguments.take used)
    .ok (⟨kind, text, piece.position, piece.origin⟩, used)
  | none => .error (.malformedDirective piece.text)

/-- The kind of a piece that is no directive. `chord` says whether a chord is open. -/
def kindOf (chord : Bool) (piece : Piece) : Except TokenFault TokenKind :=
  match piece.kind with
  | .groupOpen => .ok .groupOpen
  | .groupClose => .ok .groupClose
  | .chordStart => if chord then .error .nestedChord else .ok .chordStart
  | .chordEnd =>
    if chord then TokenKind.ofSuffix .chordEnd piece.chars (piece.chars.drop 1)
    else .error .strayChordEnd
  | .word => TokenKind.ofWord piece.chars

/-- The open chord after a piece, by the byte of the typed line it began at. -/
def chordAfter (chord : Option Nat) (piece : Piece) : Option Nat :=
  match piece.kind with
  | .chordStart => some piece.origin
  | .chordEnd => none
  | _ => chord

/-- The directive a piece names, if it names one. -/
def directive? (piece : Piece) : Option Directive :=
  if piece.kind = .word then Directive.ofWord? piece.text else none

/-- Read the tokens of a list of pieces; `found` holds those before, last one first. -/
def readPieces (chord : Option Nat) (found : List Token) :
    List Piece → Except TokenError (List Token)
  | [] =>
    match chord with
    | some offset => .error ⟨.unterminatedChord, offset⟩
    | none => .ok found.reverse
  | piece :: rest =>
    match directive? piece with
    | some directive =>
      match ofDirective directive piece rest with
      | .error fault => .error ⟨fault, piece.origin⟩
      | .ok (token, used) => readPieces chord (token :: found) (rest.drop used)
    | none =>
      match kindOf chord.isSome piece with
      | .error fault => .error ⟨fault, piece.origin⟩
      | .ok kind =>
        let token : Token := ⟨kind, piece.text, piece.position, piece.origin⟩
        readPieces (chordAfter chord piece) (token :: found) rest
termination_by pieces => pieces.length
decreasing_by all_goals simp only [List.length_cons, List.length_drop]; omega

end Token

/-- Read the tokens of an expanded line. -/
def tokenize (expansion : Expansion) : Except TokenError (List Token) :=
  match openQuote? expansion.symbols with
  | some quote => .error ⟨.unterminatedQuote, quote.origin⟩
  | none => Token.readPieces none [] (Piece.ofSymbols expansion.symbols)

end Stave.Shorthand
