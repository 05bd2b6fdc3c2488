import Stave.Shorthand.Repeat.Chords
import Stave.Shorthand.Repeat.Groups
import Stave.Shorthand.Repeat.Words

/-!
# Expansion of a line

A typed line is expanded by writing out its bracketed groups, then its repeated
chords, then its repeated words. Every byte of the result knows the byte of the
typed line it came from; an error carries the line as it was typed.
-/
namespace Stave.Shorthand

/-- An expanded line. -/
structure Expansion where
  symbols : List Symbol
  /-- The bytes of the typed line. -/
  typedSize : Nat
deriving Inhabited

namespace Expansion

/-- The text after expansion. -/
def text (expansion : Expansion) : String := Symbol.text expansion.symbols

/-- For every byte of the text, the byte of the typed line it came from. -/
def origins (expansion : Expansion) : List Nat :=
  expansion.symbols.flatMap fun symbol => List.replicate symbol.char.utf8Size symbol.origin

/-- The byte of the typed line that a byte of the text came from; past the end of the
text it is the end of the line. -/
def typedOffset (expansion : Expansion) (index : Nat) : Nat :=
  expansion.origins.getD index expansion.typedSize

theorem length_origins (expansion : Expansion) :
    expansion.origins.length = Symbol.byteSize expansion.symbols := by
  unfold origins Symbol.byteSize Symbol.chars Text.byteSize
  induction expansion.symbols with
  | nil => rfl
  | cons symbol rest ih => simp [ih]

end Expansion

/-- A line that could not be expanded. -/
structure ExpansionError where
  fault : RepeatFault
  offset : Nat
  /-- The line as it was typed. -/
  line : String
deriving DecidableEq

/-- The wording of an expansion error. -/
def ExpansionError.message (error : ExpansionError) : String :=
  error.fault.message ++ " (offset " ++ toString error.offset ++ ")"

/-- Write out every repeat of a list of symbols. -/
def expandSymbols (line : List Symbol) : Except RepeatFailure (List Symbol) := do
  let line ← Repeat.expandGroups line
  let line ← Repeat.expandChords line
  Repeat.expandWords line

/-- Expand a typed line. -/
def expand (line : String) : Except ExpansionError Expansion :=
  match expandSymbols (Symbol.ofChars 0 line.toList) with
  | .ok symbols => .ok ⟨symbols, line.utf8ByteSize⟩
  | .error failure => .error ⟨failure.fault, failure.offset, line⟩

end Stave.Shorthand
