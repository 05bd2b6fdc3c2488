import Stave.Shorthand.Repeat

/-!
# Repeated words

`c4*3` repeats a single word. The star is the last one outside quotes and the count
must end the word. Copies are not looked at again, so an earlier star of the word
stays in every copy.
-/
namespace Stave.Shorthand.Repeat

/-- Write out one word: the new length of the line and the text in the word's place. -/
def writeWord (size : Nat) (word : List Symbol) : Except RepeatFailure (Nat × List Symbol) :=
  match splitLastStar false word with
  | none => .ok (size, word)
  | some (unit, star, digits) =>
    if unit.isEmpty then .error ⟨.emptyGroup, star.origin⟩
    else do
      let count ← readWordCount star digits
      let size ← grow (size - word.length) unit.length count star.origin
      .ok (size, copies unit count star.origin)

/-- The pass over the rest of the line; `written` is the text so far, last symbol first. -/
def writeWords (size : Nat) (written : List Symbol) :
    List Symbol → Except RepeatFailure (List Symbol)
  | [] => .ok written.reverse
  | symbol :: rest =>
    if symbol.isBlank then writeWords size (symbol :: written) rest
    else
      let tail := Symbol.splitWord (symbol.quotedAfter false) rest
      match writeWord size (symbol :: tail.1) with
      | .error failure => .error failure
      | .ok (size, text) => writeWords size (text.reverse ++ written) tail.2
termination_by symbols => symbols.length
decreasing_by
  · simp
  · have := Symbol.length_splitWord_le (symbol.quotedAfter false) rest
    simp only [List.length_cons]
    omega

/-- Write out every repeated word of a line. -/
def expandWords (line : List Symbol) : Except RepeatFailure (List Symbol) :=
  writeWords line.length [] line

end Stave.Shorthand.Repeat
