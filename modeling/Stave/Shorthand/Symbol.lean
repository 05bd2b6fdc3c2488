import Stave.Text.Blank

/-!
# Symbols

A symbol is a character that remembers the byte of the typed line it came from.
Splitting a line into words and finding quotes work on lists of symbols. A quote
character switches between quoted and plain text; a blank inside quotes is part of
the word around it.
-/
namespace Stave.Shorthand

/-- A character and the byte of the typed line it came from. -/
structure Symbol where
  char : Char
  origin : Nat
deriving DecidableEq, Inhabited

namespace Symbol

/-- The characters of a typed text that starts at a given byte. -/
def ofChars (origin : Nat) : List Char → List Symbol
  | [] => []
  | c :: cs => ⟨c, origin⟩ :: ofChars (origin + c.utf8Size) cs

/-- The characters of a list of symbols. -/
def chars (symbols : List Symbol) : List Char := symbols.map Symbol.char

/-- The text of a list of symbols. -/
def text (symbols : List Symbol) : String := String.ofList (chars symbols)

/-- The bytes of a list of symbols in UTF-8. -/
def byteSize (symbols : List Symbol) : Nat := Text.byteSize (chars symbols)

/-- Whether the symbol separates words outside quotes. -/
def isBlank (symbol : Symbol) : Bool := Text.isBlank symbol.char

/-- Whether the symbol opens or closes a quotation. -/
def isQuote (symbol : Symbol) : Bool := symbol.char == '"'

/-- The state of quotation after a symbol. -/
def quotedAfter (quoted : Bool) (symbol : Symbol) : Bool := quoted != symbol.isQuote

/-- Whether an angle bracket after this character is a mark and not part of a chord. -/
def escapes (c : Char) : Bool := ['\\', '-', '^', '_'].contains c

/-- Cut off the symbols up to the first blank outside quotes. -/
def splitWord (quoted : Bool) : List Symbol → List Symbol × List Symbol
  | [] => ([], [])
  | symbol :: rest =>
    if symbol.isBlank && !quoted then ([], symbol :: rest)
    else
      let (word, after) := splitWord (symbol.quotedAfter quoted) rest
      (symbol :: word, after)

@[simp] theorem chars_ofChars (origin : Nat) (cs : List Char) : chars (ofChars origin cs) = cs := by
  induction cs generalizing origin with
  | nil => rfl
  | cons c cs ih => simpa [chars, ofChars] using ih _

theorem splitWord_append (quoted : Bool) (symbols : List Symbol) :
    (splitWord quoted symbols).1 ++ (splitWord quoted symbols).2 = symbols := by
  induction symbols generalizing quoted with
  | nil => rfl
  | cons symbol rest ih =>
    unfold splitWord
    split
    · rfl
    · simpa using ih _

theorem length_splitWord_le (quoted : Bool) (symbols : List Symbol) :
    (splitWord quoted symbols).2.length ≤ symbols.length := by
  have h := congrArg List.length (splitWord_append quoted symbols)
  simp only [List.length_append] at h
  omega

end Symbol

end Stave.Shorthand
