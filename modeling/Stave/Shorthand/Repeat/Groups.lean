import Stave.Shorthand.Repeat

/-!
# Bracketed repeats

`[c d]2` and `[c d]*2` write out the text between the brackets, innermost first.
One pass from left to right keeps a stack of the groups still open, each with the
text written before its bracket; a group is written out where it closes, so its own
text holds no brackets any more. Brackets inside quotes are text. The length of the
whole line, what is still to be read included, is carried along for the limit.
-/
namespace Stave.Shorthand.Repeat

/-- A group whose closing bracket is still to come. -/
structure OpenGroup where
  /-- The opening bracket. -/
  bracket : Symbol
  /-- What was written before the bracket, last symbol first. -/
  before : List Symbol
deriving Inhabited

/-- Drop at most one blank at each end. -/
def trimOne (symbols : List Symbol) : List Symbol :=
  let front := match symbols with
    | symbol :: rest => if symbol.isBlank then rest else symbol :: rest
    | [] => []
  if (front.getLast?.map Symbol.isBlank).getD false then front.dropLast else front

/-- Write out a group that closes: the new length of the line, the copies, and the
number of symbols of the count. `raw` is the text between the brackets, `size` the
length of the line before. -/
def closeGroup (size : Nat) (bracket close : Symbol) (raw rest : List Symbol) :
    Except RepeatFailure (Nat × List Symbol × Nat) := do
  let (count, used) ← readCount close.origin rest
  let unit := trimOne raw
  if unit.all Symbol.isBlank then .error ⟨.emptyGroup, bracket.origin⟩
  else do
    let size ← grow (size - (raw.length + 2 + used)) unit.length count close.origin
    .ok (size, copies unit count close.origin, used)

/-- The pass over the rest of the line. `written` is the text of the innermost open
group so far, or of the line itself, last symbol first. -/
def writeGroups (size : Nat) (groups : List OpenGroup) (written : List Symbol) (quoted : Bool) :
    List Symbol → Except RepeatFailure (List Symbol)
  | [] =>
    match groups with
    | [] => .ok written.reverse
    | group :: _ => .error ⟨.unbalancedOpen, group.bracket.origin⟩
  | symbol :: rest =>
    if symbol.isQuote || quoted then
      writeGroups size groups (symbol :: written) (symbol.quotedAfter quoted) rest
    else if symbol.char = '[' then
      writeGroups size (⟨symbol, written⟩ :: groups) [] false rest
    else if symbol.char = ']' then
      match groups with
      | [] => .error ⟨.unbalancedClose, symbol.origin⟩
      | group :: outer =>
        match closeGroup size group.bracket symbol written.reverse rest with
        | .error failure => .error failure
        | .ok (size, text, used) =>
          writeGroups size outer (text.reverse ++ group.before) false (rest.drop used)
    else writeGroups size groups (symbol :: written) false rest
termination_by symbols => symbols.length
decreasing_by all_goals simp only [List.length_cons, List.length_drop]; omega

/-- Write out every bracketed repeat of a line. -/
def expandGroups (line : List Symbol) : Except RepeatFailure (List Symbol) :=
  writeGroups line.length [] [] false line

end Stave.Shorthand.Repeat
