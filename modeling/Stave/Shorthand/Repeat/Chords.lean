import Stave.Shorthand.Repeat

/-!
# Repeated chords

`<c e>8*3` repeats a chord with its brackets and all that follows it up to the star.
The star is the last one of the word the chord ends in, and the count must end that
word. A chord that never closes, or that meets another opening bracket first, is
left for the tokens to report.
-/
namespace Stave.Shorthand.Repeat

/-- Cut off what follows an opening angle bracket, up to and with the bracket that
closes the chord. `previous` is the character before. -/
def splitChord (previous : Char) (quoted : Bool) :
    List Symbol → Option (List Symbol × List Symbol)
  | [] => none
  | symbol :: rest =>
    if !quoted && !Symbol.escapes previous && symbol.char = '<' then none
    else if !quoted && !Symbol.escapes previous && symbol.char = '>' then some ([symbol], rest)
    else
      (splitChord symbol.char (symbol.quotedAfter quoted) rest).map
        fun (body, after) => (symbol :: body, after)

theorem length_splitChord_lt {previous : Char} {quoted : Bool} {symbols body after : List Symbol}
    (h : splitChord previous quoted symbols = some (body, after)) :
    after.length < symbols.length := by
  induction symbols generalizing previous quoted body with
  | nil => simp [splitChord] at h
  | cons symbol rest ih =>
    unfold splitChord at h
    split at h
    · simp at h
    · split at h
      · simp only [Option.some.injEq, Prod.mk.injEq] at h
        simp [← h.2]
      · obtain ⟨⟨b, a⟩, hb, heq⟩ := Option.map_eq_some_iff.1 h
        cases heq
        have := ih hb
        simp only [List.length_cons]
        omega

/-- The star that repeats a chord whose word goes on with `tail`: the last star of the
word, if it is outside quotes. -/
def chordStar (tail : List Symbol) : Option (List Symbol × Symbol × List Symbol) :=
  (splitLastStar false tail).filter fun (_, _, after) => after.all (·.char != '*')

/-- Write out one chord, `chord` up to its closing bracket and `tail` the rest of the
word: the new length of the line and the text in the place of both. -/
def writeChord (size : Nat) (chord tail : List Symbol) :
    Except RepeatFailure (Nat × List Symbol) :=
  match chordStar tail with
  | none => .ok (size, chord ++ tail)
  | some (suffix, star, digits) => do
    let count ← readWordCount star digits
    let unit := chord ++ suffix
    let size ← grow (size - (chord.length + tail.length)) unit.length count star.origin
    .ok (size, copies unit count star.origin)

/-- The chord that opens at a symbol, if one opens there and closes: what follows the
bracket up to the close, and the rest. `written` is the text before, last symbol first. -/
def chordAt? (written : List Symbol) (quoted : Bool) (symbol : Symbol) (rest : List Symbol) :
    Option (List Symbol × List Symbol) :=
  let escaped := (written.head?.map (Symbol.escapes ·.char)).getD false
  if symbol.char = '<' && !quoted && !escaped then splitChord symbol.char false rest else none

theorem length_chordAt?_lt {written : List Symbol} {quoted : Bool} {symbol : Symbol}
    {rest body after : List Symbol} (h : chordAt? written quoted symbol rest = some (body, after)) :
    after.length < rest.length := by
  unfold chordAt? at h
  dsimp only at h
  split at h
  · exact length_splitChord_lt h
  · simp at h

/-- The pass over the rest of the line; `written` is the text so far, last symbol first. -/
def writeChords (size : Nat) (written : List Symbol) (quoted : Bool) :
    List Symbol → Except RepeatFailure (List Symbol)
  | [] => .ok written.reverse
  | symbol :: rest =>
    match _found : chordAt? written quoted symbol rest with
    | none => writeChords size (symbol :: written) (symbol.quotedAfter quoted) rest
    | some (body, after) =>
      let word := Symbol.splitWord false after
      match writeChord size (symbol :: body) word.1 with
      | .error failure => .error failure
      | .ok (size, text) => writeChords size (text.reverse ++ written) false word.2
termination_by symbols => symbols.length
decreasing_by
  · simp
  · have := length_chordAt?_lt ‹_›
    have := Symbol.length_splitWord_le false after
    simp only [List.length_cons]
    omega

/-- Write out every repeated chord of a line. -/
def expandChords (line : List Symbol) : Except RepeatFailure (List Symbol) :=
  writeChords line.length [] false line

end Stave.Shorthand.Repeat
