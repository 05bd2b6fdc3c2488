import Stave.Proofs.Repeat.Step

/-!
# Repeats do not look at where a symbol was typed

A text that stands elsewhere has the same characters with other origins. What is cut out of a
line, counted in it or copied from it is then the same, moved along. A fault is reported
elsewhere, but a count that is read is read all the same.
-/
namespace Stave.Shorthand

/-- A symbol typed elsewhere. -/
def Symbol.moved (move : Nat → Nat) (symbol : Symbol) : Symbol :=
  { symbol with origin := move symbol.origin }

variable {move : Nat → Nat} {quoted : Bool} {symbols : List Symbol}

namespace Symbol

@[simp] theorem char_moved (symbol : Symbol) : (symbol.moved move).char = symbol.char := rfl

@[simp] theorem isBlank_moved (symbol : Symbol) : (symbol.moved move).isBlank = symbol.isBlank :=
  rfl

@[simp] theorem isQuote_moved (symbol : Symbol) : (symbol.moved move).isQuote = symbol.isQuote :=
  rfl

@[simp] theorem quotedAfter_moved (symbol : Symbol) :
    (symbol.moved move).quotedAfter quoted = symbol.quotedAfter quoted := rfl

@[simp] theorem chars_map_moved (symbols : List Symbol) :
    chars (symbols.map (moved move)) = chars symbols := by
  simp [chars, Function.comp_def]

/-- A text that starts at a later byte is the text moved by so many bytes. -/
theorem ofChars_add (shift origin : Nat) (cs : List Char) :
    ofChars (origin + shift) cs = (ofChars origin cs).map (moved (· + shift)) := by
  induction cs generalizing origin with
  | nil => rfl
  | cons c cs ih =>
    rw [ofChars, ofChars, List.map_cons, ← ih, Nat.add_right_comm]
    rfl

theorem ofChars_append (origin : Nat) (first second : List Char) :
    ofChars origin (first ++ second) =
      ofChars origin first ++ ofChars (origin + Text.byteSize first) second := by
  induction first generalizing origin with
  | nil => rfl
  | cons c first ih =>
    rw [List.cons_append, ofChars, ofChars, ih, Text.byteSize_cons, Nat.add_assoc]
    rfl

theorem splitWord_map_moved (quoted : Bool) (symbols : List Symbol) :
    splitWord quoted (symbols.map (moved move)) =
      ((splitWord quoted symbols).1.map (moved move),
        (splitWord quoted symbols).2.map (moved move)) := by
  induction symbols generalizing quoted with
  | nil => rfl
  | cons symbol rest ih =>
    simp only [List.map_cons, splitWord, isBlank_moved, quotedAfter_moved, ih]
    split <;> rfl

end Symbol

namespace Repeat

theorem copies_map_moved (unit : List Symbol) (count offset : Nat)
    (hspace : move offset = offset') :
    (copies unit count offset).map (Symbol.moved move) =
      copies (unit.map (Symbol.moved move)) count offset' := by
  cases count with
  | zero => rfl
  | succ count =>
    rw [copies_succ, copies_succ, List.map_append, List.map_flatten, List.map_replicate,
      List.map_cons, ← hspace]
    rfl

theorem trimOne_map_moved (symbols : List Symbol) :
    trimOne (symbols.map (Symbol.moved move)) = (trimOne symbols).map (Symbol.moved move) := by
  have hend (front : List Symbol) :
      (if ((front.map (Symbol.moved move)).getLast?.map Symbol.isBlank).getD false then
          (front.map (Symbol.moved move)).dropLast else front.map (Symbol.moved move)) =
        (if (front.getLast?.map Symbol.isBlank).getD false then front.dropLast
          else front).map (Symbol.moved move) := by
    rw [List.getLast?_map, Option.map_map]
    split <;> simp_all [Function.comp_def]
  cases symbols with
  | nil => rfl
  | cons symbol rest =>
    simp only [trimOne, List.map_cons, Symbol.isBlank_moved]
    by_cases hblank : symbol.isBlank = true
    · simp only [hblank, if_true]
      exact hend rest
    · simp only [hblank]
      exact hend (symbol :: rest)

/-- Where the faults of a count would be reported does not matter once it is read. -/
theorem readCount_of_offset {offset : Nat} (offset' : Nat) {result : Nat × Nat}
    (h : readCount offset symbols = .ok result) : readCount offset' symbols = .ok result := by
  unfold readCount at h ⊢
  dsimp only at h ⊢
  generalize (symbols.head?.map (·.char == '*')).getD false = starred at h ⊢
  generalize (if starred = true then symbols.drop 1 else symbols).takeWhile (·.char.isDigit) =
    digits at h ⊢
  split at h
  · cases h
  case isFalse hempty =>
    rw [if_neg hempty]
    split at h
    · cases h
    case isFalse hlarge =>
      rw [if_neg hlarge]
      split at h
      · cases h
      case isFalse hzero =>
        rw [if_neg hzero]
        split at h
        · cases h
        case isFalse hlimit =>
          rw [if_neg hlimit]
          exact h

theorem readCount_map_moved (move : Nat → Nat) {offset : Nat} (offset' : Nat) {result : Nat × Nat}
    (h : readCount offset symbols = .ok result) :
    readCount offset' (symbols.map (Symbol.moved move)) = .ok result := by
  rw [← readCount_of_offset offset' h]
  have hdigits (digits : List Symbol) :
      (digits.map (Symbol.moved move)).takeWhile (·.char.isDigit) =
        (digits.takeWhile (·.char.isDigit)).map (Symbol.moved move) := by
    rw [List.takeWhile_map]
    rfl
  cases symbols with
  | nil => rfl
  | cons first rest =>
    simp only [readCount, List.map_cons, List.head?_cons, Option.map_some, Option.getD_some,
      Symbol.char_moved, List.drop_succ_cons, List.drop_zero]
    by_cases hstar : (first.char == '*') = true
    · simp [hstar, hdigits]
    · have hhere := hdigits (first :: rest)
      rw [List.map_cons] at hhere
      simp [hstar, hhere]

theorem splitLastStar_map_moved (quoted : Bool) (symbols : List Symbol) :
    splitLastStar quoted (symbols.map (Symbol.moved move)) =
      (splitLastStar quoted symbols).map fun (before, star, after) =>
        (before.map (Symbol.moved move), star.moved move, after.map (Symbol.moved move)) := by
  induction symbols generalizing quoted with
  | nil => rfl
  | cons symbol rest ih =>
    simp only [List.map_cons, splitLastStar, Symbol.quotedAfter_moved, ih]
    cases splitLastStar (symbol.quotedAfter quoted) rest with
    | some found => rfl
    | none =>
      simp only [Option.map_none]
      rw [apply_ite (Option.map _)]
      exact ite_congr rfl (fun _ => rfl) fun _ => rfl

theorem readWordCount_map_moved {star : Symbol} {count : Nat}
    (h : readWordCount star symbols = .ok count) :
    readWordCount (star.moved move) (symbols.map (Symbol.moved move)) = .ok count := by
  have hcount := readCount_map_moved move (star.moved move).origin (readWordCount_eq_ok h)
  unfold readWordCount
  rw [hcount, List.length_map]
  exact if_pos rfl

theorem splitChord_map_moved (move : Nat → Nat) (previous : Char) (quoted : Bool)
    (symbols : List Symbol) :
    splitChord previous quoted (symbols.map (Symbol.moved move)) =
      (splitChord previous quoted symbols).map fun (body, after) =>
        (body.map (Symbol.moved move), after.map (Symbol.moved move)) := by
  induction symbols generalizing previous quoted with
  | nil => rfl
  | cons symbol rest ih =>
    simp only [List.map_cons, splitChord, Symbol.quotedAfter_moved, ih, Option.map_map]
    rw [apply_ite (Option.map _), apply_ite (Option.map _), Option.map_map]
    exact ite_congr rfl (fun _ => rfl) fun _ => ite_congr rfl (fun _ => rfl) fun _ => rfl

theorem chordStar_map_moved (tail : List Symbol) :
    chordStar (tail.map (Symbol.moved move)) =
      (chordStar tail).map fun (suffix, star, digits) =>
        (suffix.map (Symbol.moved move), star.moved move, digits.map (Symbol.moved move)) := by
  simp [chordStar, splitLastStar_map_moved, Option.filter_map, Function.comp_def]

end Repeat

end Stave.Shorthand
