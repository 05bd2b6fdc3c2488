import Stave.Shorthand.Token.Reading
import Stave.Shorthand.WrittenLine

/-!
# Lines and declarations

A typed text is one bar of an instrument, or a declaration of several bars with bar
lines between them. A declaration is expanded as a whole, so a repeat may span bar
lines; a cursor goes from bar to bar and hands on what each one leaves. If any bar
cannot be read the declaration fails and the cursor stays.
-/
namespace Stave.Shorthand

/-- What can go wrong with a typed text. -/
inductive LineError where
  | expansion (error : ExpansionError)
  | token (error : TokenError)
  | build (error : BuildError)
deriving DecidableEq

namespace LineError

/-- The byte of the typed text an error is reported at. -/
def offset : LineError → Nat
  | expansion error => error.offset
  | token error => error.offset
  | build error => error.offset

/-- The name of an error in diagnostics. -/
def kind : LineError → String
  | expansion error => error.fault.kind
  | token error => error.fault.kind
  | build error => error.fault.kind

/-- The wording of an error. -/
def message : LineError → String
  | expansion error => "expansion failed: " ++ error.message
  | token error => "tokenization failed: " ++ error.fault.message
  | build error => error.fault.message

end LineError

/-- The tokens of a typed text. -/
def readTokens (text : String) : Except LineError (List Token) := do
  let expansion ← (expand text).mapError .expansion
  (tokenize expansion).mapError .token

/-- Read one bar of an instrument. -/
def readLine (text : String) (instrument : Instrument) (prior : Carry) (frame : Frame) :
    Except LineError WrittenLine := do
  let tokens ← readTokens text
  (buildLine tokens instrument prior frame).mapError .build

/-- Where a declaration has got to. -/
structure Cursor where
  /-- The place in the score of the next bar. -/
  position : Nat
  /-- What the bar before leaves. -/
  state : Carry
  frame : Frame
deriving DecidableEq, Inhabited

/-- The cursor after a bar. -/
def Cursor.advance (cursor : Cursor) (written : WrittenLine) : Cursor :=
  ⟨cursor.position + 1, written.line.closing, written.frame⟩

/-- The keyword a declaration may begin with. -/
def barsKeyword : List Char := ['\\', 'b', 'a', 'r', 's']

/-- Put spaces in the place of the keyword and of what stands before it, so that the
rest of the text keeps its bytes. -/
def blankKeyword (text : List Char) : List Char :=
  let blanks := text.takeWhile Text.isBlank
  let body := text.dropWhile Text.isBlank
  if barsKeyword.isPrefixOf body then
    List.replicate (Text.byteSize blanks + barsKeyword.length) ' ' ++ body.drop barsKeyword.length
  else text

/-- The bars of a list of tokens: the stretches between bar lines, of which there is
always one. -/
def splitBars : List Token → List (List Token)
  | [] => [[]]
  | token :: rest =>
    let bars := splitBars rest
    if token.kind = .barLine then [] :: bars
    else
      match bars with
      | [] => [[token]]
      | bar :: others => (token :: bar) :: others

/-- Build bars one after the other, each from what the one before leaves; `found` holds
the bars before, last one first. -/
def buildBars (instrument : Instrument) (cursor : Cursor) (found : List WrittenLine) :
    List (List Token) → Except LineError (List WrittenLine × Cursor)
  | [] => .ok (found.reverse, cursor)
  | bar :: rest =>
    match buildLine bar instrument cursor.state cursor.frame with
    | .error error => .error (.build error)
    | .ok written => buildBars instrument (cursor.advance written) (written :: found) rest

/-- Read a declaration: the bars, and the cursor after them. -/
def readBars (text : String) (instrument : Instrument) (cursor : Cursor) :
    Except LineError (List WrittenLine × Cursor) := do
  let tokens ← readTokens (String.ofList (blankKeyword text.toList))
  buildBars instrument cursor [] (splitBars tokens)

end Stave.Shorthand
