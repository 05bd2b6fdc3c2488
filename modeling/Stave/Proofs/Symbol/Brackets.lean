import Stave.Proofs.Symbol.Quotation
import Stave.Shorthand.Repeat.Chords

/-!
# Chord brackets along a line

An angle bracket opens or closes a chord unless it is quoted or escaped by the character before
it. Where a chord ends is found by looking ahead from its opening bracket, so a chord that is
never closed is one that any later bracket may close. A text whose last chord bracket is not an
opening one keeps its chords whatever comes after it.
-/
namespace Stave.Shorthand

/-- The state of quotation after some characters. -/
def quotedChars (quoted : Bool) (cs : List Char) : Bool :=
  cs.foldl (fun quoted c => quoted != (c == '"')) quoted

/-- Whether the next character is escaped by the last of some characters. -/
def escapedAfter (escaped : Bool) (cs : List Char) : Bool :=
  cs.foldl (fun _ c => Symbol.escapes c) escaped

/-- The angle brackets that are neither quoted nor escaped. -/
def chordBrackets (escaped quoted : Bool) : List Char → List Char
  | [] => []
  | c :: cs =>
    let others := chordBrackets (Symbol.escapes c) (quoted != (c == '"')) cs
    if !quoted && !escaped && (c = '<' || c = '>') then c :: others else others

/-- The last chord bracket of a line. -/
def lastBracket (escaped quoted : Bool) (symbols : List Symbol) : Option Char :=
  (chordBrackets escaped quoted (Symbol.chars symbols)).getLast?

/-- A character that is no angle bracket and no quote. -/
def IsPlain (c : Char) : Prop := c ≠ '<' ∧ c ≠ '>' ∧ c ≠ '"'

instance (c : Char) : Decidable (IsPlain c) := inferInstanceAs (Decidable (_ ∧ _))

variable {escaped quoted : Bool} {c : Char} {cs first second : List Char}
  {symbols body after rest : List Symbol} {symbol : Symbol} {previous : Char}

theorem Symbol.chars_append (first second : List Symbol) :
    Symbol.chars (first ++ second) = Symbol.chars first ++ Symbol.chars second := List.map_append

theorem quotedAfterAll_eq_quotedChars (quoted : Bool) (symbols : List Symbol) :
    quotedAfterAll quoted symbols = quotedChars quoted (Symbol.chars symbols) := by
  rw [quotedChars, Symbol.chars, List.foldl_map]
  rfl

theorem chordBrackets_append (escaped quoted : Bool) (first second : List Char) :
    chordBrackets escaped quoted (first ++ second) =
      chordBrackets escaped quoted first ++
        chordBrackets (escapedAfter escaped first) (quotedChars quoted first) second := by
  induction first generalizing escaped quoted with
  | nil => rfl
  | cons c first ih =>
    simp only [List.cons_append, chordBrackets, ih]
    split <;> rfl

theorem lastBracket_append (escaped quoted : Bool) (first second : List Symbol) :
    lastBracket escaped quoted (first ++ second) =
      (lastBracket (escapedAfter escaped (Symbol.chars first)) (quotedAfterAll quoted first)
        second).or (lastBracket escaped quoted first) := by
  rw [lastBracket, Symbol.chars_append, chordBrackets_append, List.getLast?_append,
    quotedAfterAll_eq_quotedChars]
  rfl

@[simp] theorem lastBracket_nil (escaped quoted : Bool) : lastBracket escaped quoted [] = none :=
  rfl

/-- A plain character is no bracket and leaves the quotation as it is. -/
theorem chordBrackets_cons_of_isPlain (h : IsPlain c) :
    chordBrackets escaped quoted (c :: cs) = chordBrackets (Symbol.escapes c) quoted cs := by
  obtain ⟨hopen, hclose, hquote⟩ := h
  have hsame : (quoted != (c == '"')) = quoted := by
    rw [beq_eq_false_iff_ne.2 hquote, Bool.bne_false]
  simp [chordBrackets, hopen, hclose, hsame]

theorem exists_chordBrackets_append_of_isPlain (escaped quoted : Bool) (second : List Char)
    (h : ∀ c ∈ first, IsPlain c) :
    ∃ escaped', chordBrackets escaped quoted (first ++ second) =
      chordBrackets escaped' quoted second := by
  induction first generalizing escaped with
  | nil => exact ⟨escaped, rfl⟩
  | cons c first ih =>
    obtain ⟨hc, hfirst⟩ := List.forall_mem_cons.1 h
    rw [List.cons_append, chordBrackets_cons_of_isPlain hc]
    exact ih _ hfirst

theorem chordBrackets_eq_nil_of_isPlain (h : ∀ c ∈ cs, IsPlain c) :
    chordBrackets escaped quoted cs = [] := by
  obtain ⟨escaped', heq⟩ := exists_chordBrackets_append_of_isPlain escaped quoted [] h
  rwa [List.append_nil] at heq

theorem isPlain_of_isBlank (h : Text.isBlank c = true) : IsPlain c := by
  refine ⟨?_, ?_, ?_⟩ <;> rintro rfl <;> cases h

theorem not_isQuote_of_isBlank (h : symbol.isBlank = true) : symbol.isQuote = false :=
  beq_eq_false_iff_ne.2 (isPlain_of_isBlank h).2.2

/-- Blanks leave the quotation as it is. -/
theorem quotedAfterAll_of_isBlank (h : ∀ symbol ∈ symbols, symbol.isBlank = true) :
    quotedAfterAll quoted symbols = quoted :=
  quotedAfterAll_of_not_isQuote fun symbol hmem => not_isQuote_of_isBlank (h symbol hmem)

theorem escapes_of_isBlank (h : Text.isBlank c = true) : Symbol.escapes c = false := by
  rw [Bool.eq_false_iff]
  intro hescapes
  simp only [Symbol.escapes, List.contains_iff_mem, List.mem_cons, List.not_mem_nil,
    or_false] at hescapes
  rcases hescapes with rfl | rfl | rfl | rfl <;> cases h

/-- After a blank nothing is escaped. -/
theorem lastBracket_cons_of_isBlank (h : symbol.isBlank = true) :
    lastBracket escaped quoted (symbol :: rest) = lastBracket false quoted rest := by
  rw [lastBracket, Symbol.chars, List.map_cons,
    chordBrackets_cons_of_isPlain (isPlain_of_isBlank h), escapes_of_isBlank h]
  rfl

theorem chordBrackets_of_blankNext (h : BlankNext symbols) (escaped escaped' : Bool) :
    chordBrackets escaped quoted (Symbol.chars symbols) =
      chordBrackets escaped' quoted (Symbol.chars symbols) := by
  cases symbols with
  | nil => rfl
  | cons symbol rest =>
    have hplain := isPlain_of_isBlank (h symbol rfl)
    rw [Symbol.chars, List.map_cons, chordBrackets_cons_of_isPlain hplain,
      chordBrackets_cons_of_isPlain hplain]

theorem lastBracket_of_blankNext (h : BlankNext symbols) (escaped escaped' : Bool) :
    lastBracket escaped quoted symbols = lastBracket escaped' quoted symbols :=
  congrArg List.getLast? (chordBrackets_of_blankNext h escaped escaped')

/-- A suffix does not end with an opening bracket if the whole does not. -/
theorem lastBracket_ne_of_append (body : List Symbol)
    (h : lastBracket escaped quoted (body ++ after) ≠ some '<') :
    lastBracket (escapedAfter escaped (Symbol.chars body)) (quotedAfterAll quoted body) after ≠
      some '<' := by
  intro hafter
  rw [lastBracket_append, hafter] at h
  exact h rfl

/-- Nor does the rest after a word. -/
theorem lastBracket_splitWord_ne (h : lastBracket escaped quoted symbols ≠ some '<')
    (escaped' : Bool) :
    lastBracket escaped' false (Symbol.splitWord quoted symbols).2 ≠ some '<' := by
  rcases splitWord_rest quoted symbols with hnil | ⟨hquoted, -⟩
  · rw [hnil]
    simp
  · rw [← Symbol.splitWord_append quoted symbols] at h
    have hrest := lastBracket_ne_of_append _ h
    rw [hquoted] at hrest
    rwa [lastBracket_of_blankNext (blankNext_splitWord quoted symbols) escaped']

namespace Repeat

/-- A chord that closes does so whatever comes after. -/
theorem splitChord_append_of_some (more : List Symbol)
    (h : splitChord previous quoted symbols = some (body, after)) :
    splitChord previous quoted (symbols ++ more) = some (body, after ++ more) := by
  induction symbols generalizing previous quoted body with
  | nil => cases h
  | cons symbol rest ih =>
    rw [List.cons_append]
    unfold splitChord at h ⊢
    split at h
    · cases h
    case isFalse hopen =>
      rw [if_neg hopen]
      split at h
      case isTrue hclose =>
        cases h
        rw [if_pos hclose]
      case isFalse hclose =>
        obtain ⟨⟨body, after⟩, hrest, heq⟩ := Option.map_eq_some_iff.1 h
        cases heq
        rw [if_neg hclose, ih hrest]
        rfl

/-- A chord that meets another opening bracket first does so whatever comes after. -/
theorem splitChord_append_of_none (more : List Symbol)
    (hbrackets : chordBrackets (Symbol.escapes previous) quoted (Symbol.chars symbols) ≠ [])
    (h : splitChord previous quoted symbols = none) :
    splitChord previous quoted (symbols ++ more) = none := by
  induction symbols generalizing previous quoted with
  | nil => exact absurd rfl hbrackets
  | cons symbol rest ih =>
    rw [List.cons_append]
    unfold splitChord at h ⊢
    split at h
    case isTrue hopen => rw [if_pos hopen]
    case isFalse hopen =>
      rw [if_neg hopen]
      split at h
      · cases h
      case isFalse hclose =>
        rw [if_neg hclose]
        rw [Option.map_eq_none_iff] at h
        rw [ih ?_ h]
        · rfl
        · simp only [Symbol.chars, List.map_cons, chordBrackets] at hbrackets
          rw [if_neg] at hbrackets
          · exact hbrackets
          · simp only [Bool.and_eq_true, Bool.or_eq_true, decide_eq_true_eq] at hopen hclose ⊢
            rintro ⟨⟨hq, he⟩, hchar | hchar⟩
            · exact hopen ⟨⟨hq, he⟩, hchar⟩
            · exact hclose ⟨⟨hq, he⟩, hchar⟩

/-- A chord closes if the next chord bracket is a closing one. -/
theorem exists_splitChord {others : List Char}
    (h : chordBrackets (Symbol.escapes previous) quoted (Symbol.chars symbols) = '>' :: others) :
    ∃ body after, splitChord previous quoted symbols = some (body, after) ∧
      chordBrackets false false (Symbol.chars after) = others := by
  induction symbols generalizing previous quoted with
  | nil => cases h
  | cons symbol rest ih =>
    rw [Symbol.chars, List.map_cons, chordBrackets] at h
    unfold splitChord
    by_cases hfree : (!quoted && !Symbol.escapes previous) = true
    · rw [hfree, Bool.true_and] at h
      simp only [hfree, Bool.true_and, decide_eq_true_eq]
      by_cases hopen : symbol.char = '<'
      · simp [hopen] at h
      · rw [if_neg hopen]
        by_cases hclose : symbol.char = '>'
        · simp only [Bool.and_eq_true, Bool.not_eq_true'] at hfree
          simp only [hclose, hfree.1, decide_true, Bool.or_true, if_true, List.cons.injEq,
            true_and] at h
          rw [if_pos hclose]
          exact ⟨[symbol], rest, rfl, h⟩
        · rw [if_neg (by simp [hopen, hclose])] at h
          obtain ⟨body, after, hrest, hothers⟩ := ih h
          rw [if_neg hclose]
          exact ⟨symbol :: body, after, by rw [Symbol.quotedAfter, Symbol.isQuote, hrest]; rfl,
            hothers⟩
    · rw [Bool.not_eq_true] at hfree
      rw [hfree, Bool.false_and, if_neg (by decide)] at h
      obtain ⟨body, after, hrest, hothers⟩ := ih h
      simp only [hfree, Bool.false_and, Bool.false_eq_true, if_false]
      exact ⟨symbol :: body, after, by rw [Symbol.quotedAfter, Symbol.isQuote, hrest]; rfl, hothers⟩

/-- A chord closes outside quotes. -/
theorem quotedAfterAll_of_splitChord
    (h : splitChord previous quoted symbols = some (body, after)) :
    quotedAfterAll quoted body = false := by
  induction symbols generalizing previous quoted body with
  | nil => cases h
  | cons symbol rest ih =>
    unfold splitChord at h
    split at h
    · cases h
    split at h
    case isTrue hclose =>
      cases h
      simp only [Bool.and_eq_true, Bool.not_eq_true', decide_eq_true_eq] at hclose
      simp [Symbol.quotedAfter, Symbol.isQuote, hclose.1.1, hclose.2]
    case isFalse =>
      obtain ⟨⟨body, after⟩, hrest, heq⟩ := Option.map_eq_some_iff.1 h
      cases heq
      rw [quotedAfterAll_cons]
      exact ih hrest

end Repeat

end Stave.Shorthand
