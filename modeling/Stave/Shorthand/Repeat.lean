import Stave.Shorthand.Symbol
import Stave.Text.Numeral

/-!
# Repeats

A repeat writes a unit several times with single spaces between the copies. This
module holds what the three kinds of repeat share: their faults, the reading of a
count, the limits, and the copies themselves. Every copy keeps the origins of the
unit, and a joining space has the origin of the sign that asked for the repeat.
-/
namespace Stave.Shorthand

/-- What can be wrong with a repeat. -/
inductive RepeatFault where
  | unbalancedOpen
  | unbalancedClose
  | missingCount
  | zeroCount
  | countTooLarge
  | emptyGroup
  | tooLong
deriving DecidableEq, Inhabited

namespace RepeatFault

/-- The name of a fault in diagnostics. -/
def kind : RepeatFault → String
  | unbalancedOpen => "unbalanced_open"
  | unbalancedClose => "unbalanced_close"
  | missingCount => "missing_count"
  | zeroCount => "zero_count"
  | countTooLarge => "count_too_large"
  | emptyGroup => "empty_group"
  | tooLong => "too_long"

/-- The wording of a fault. -/
def message : RepeatFault → String
  | unbalancedOpen => "'[' without matching ']'"
  | unbalancedClose => "']' without matching '['"
  | missingCount => "repeat group is missing its count"
  | zeroCount => "repeat count must be at least 1"
  | countTooLarge => "repeat count is larger than 256"
  | emptyGroup => "nothing to repeat"
  | tooLong => "expanded line is too long"

end RepeatFault

/-- A fault and the byte of the typed line it is reported at. -/
structure RepeatFailure where
  fault : RepeatFault
  offset : Nat
deriving DecidableEq, Inhabited

namespace Repeat

/-- The largest count. -/
def largestCount : Nat := 256

/-- The most characters a line may have after a repeat. -/
def longestLine : Nat := 65536

/-- Read a count at the head of a list: an optional star and then digits. The result
is the count and the number of symbols read; faults are reported at `offset`. -/
def readCount (offset : Nat) (symbols : List Symbol) : Except RepeatFailure (Nat × Nat) :=
  let starred := (symbols.head?.map (·.char == '*')).getD false
  let digits := (if starred then symbols.drop 1 else symbols).takeWhile (·.char.isDigit)
  let count := Text.digitsValue (Symbol.chars digits)
  if digits.isEmpty then .error ⟨.missingCount, offset⟩
  else if count > Text.largestCount then .error ⟨.countTooLarge, offset⟩
  else if count = 0 then .error ⟨.zeroCount, offset⟩
  else if count > largestCount then .error ⟨.countTooLarge, offset⟩
  else .ok (count, (if starred then 1 else 0) + digits.length)

/-- The number of symbols in `count` copies of a unit of the given length. -/
def copiedLength (unit count : Nat) : Nat := (unit + 1) * count - 1

/-- The length of the line after a repeat that keeps `kept` of its symbols, or a fault
at `offset` if that is too long. -/
def grow (kept unit count offset : Nat) : Except RepeatFailure Nat :=
  let size := kept + copiedLength unit count
  if size > longestLine then .error ⟨.tooLong, offset⟩ else .ok size

/-- A unit written `count` times, with spaces between the copies. -/
def copies (unit : List Symbol) (count offset : Nat) : List Symbol :=
  ((List.replicate count unit).intersperse [⟨' ', offset⟩]).flatten

/-- Find the last star outside quotes: what stands before it, the star, and the rest. -/
def splitLastStar (quoted : Bool) : List Symbol → Option (List Symbol × Symbol × List Symbol)
  | [] => none
  | symbol :: rest =>
    match splitLastStar (symbol.quotedAfter quoted) rest with
    | some (before, star, after) => some (symbol :: before, star, after)
    | none => if symbol.char = '*' && !quoted then some ([], symbol, rest) else none

/-- Read the count after a star, which must end the word. -/
def readWordCount (star : Symbol) (digits : List Symbol) : Except RepeatFailure Nat := do
  let (count, used) ← readCount star.origin digits
  if used = digits.length then .ok count else .error ⟨.missingCount, star.origin⟩

theorem length_copies {unit : List Symbol} {count offset : Nat} (h : 0 < count) :
    (copies unit count offset).length = copiedLength unit.length count := by
  obtain ⟨count, rfl⟩ : ∃ n, count = n + 1 := ⟨count - 1, by omega⟩
  unfold copies copiedLength
  induction count with
  | zero => simp
  | succ n ih =>
    have ih := ih (by omega)
    rw [List.replicate_succ, List.replicate_succ, List.intersperse_cons_cons,
      List.flatten_cons, List.flatten_cons, ← List.replicate_succ, List.length_append,
      List.length_append, ih]
    simp only [List.length_cons, List.length_nil, Nat.add_mul, Nat.mul_add]
    omega

end Repeat

end Stave.Shorthand
