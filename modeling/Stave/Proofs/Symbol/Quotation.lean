import Stave.Shorthand.Symbol

/-!
# Quotation along a line

Whether a symbol is quoted is a matter of the quotes before it. A word ends at a blank that is
not quoted, so it leaves no quotation open unless the line ends with it; and what follows a
text that leaves none open, after a blank, does not change the words of that text.
-/
namespace Stave

theorem Text.not_isDigit_of_isBlank {c : Char} (h : Text.isBlank c = true) :
    c.isDigit = false := by
  rw [Bool.eq_false_iff, ne_eq, Char.isDigit_iff_toNat]
  have hcodes : ∀ code ∈ Text.blankCodes, ¬('0'.toNat ≤ code ∧ code ≤ '9'.toNat) := by decide
  exact hcodes c.toNat (List.contains_iff_mem.1 h)

namespace Shorthand

/-- The state of quotation after a list of symbols. -/
def quotedAfterAll (quoted : Bool) (symbols : List Symbol) : Bool :=
  symbols.foldl Symbol.quotedAfter quoted

/-- Every blank is quoted. -/
def BlanksQuoted (quoted : Bool) : List Symbol → Prop
  | [] => True
  | symbol :: rest =>
    (symbol.isBlank = true → quoted = true) ∧ BlanksQuoted (symbol.quotedAfter quoted) rest

variable {quoted : Bool} {symbols before after rest word : List Symbol} {symbol : Symbol}

@[simp] theorem quotedAfterAll_nil (quoted : Bool) : quotedAfterAll quoted [] = quoted := rfl

@[simp] theorem quotedAfterAll_cons (quoted : Bool) (symbol : Symbol) (rest : List Symbol) :
    quotedAfterAll quoted (symbol :: rest) =
      quotedAfterAll (symbol.quotedAfter quoted) rest := rfl

@[simp] theorem quotedAfterAll_append (quoted : Bool) (first second : List Symbol) :
    quotedAfterAll quoted (first ++ second) =
      quotedAfterAll (quotedAfterAll quoted first) second :=
  List.foldl_append

/-- Symbols that are no quotes leave the quotation as it is. -/
theorem quotedAfterAll_of_not_isQuote (h : ∀ symbol ∈ symbols, symbol.isQuote = false) :
    quotedAfterAll quoted symbols = quoted := by
  induction symbols with
  | nil => rfl
  | cons symbol rest ih =>
    obtain ⟨hsymbol, hrest⟩ := List.forall_mem_cons.1 h
    rw [quotedAfterAll_cons, Symbol.quotedAfter, hsymbol, Bool.bne_false, ih hrest]

theorem blanksQuoted_append :
    BlanksQuoted quoted (before ++ after) ↔
      BlanksQuoted quoted before ∧ BlanksQuoted (quotedAfterAll quoted before) after := by
  induction before generalizing quoted with
  | nil => simp [BlanksQuoted]
  | cons symbol rest ih => simp [BlanksQuoted, ih, and_assoc]

theorem BlanksQuoted.head (h : BlanksQuoted false (symbol :: rest)) : symbol.isBlank = false :=
  Bool.eq_false_iff.2 fun hblank => Bool.false_ne_true (h.1 hblank)

/-- A word ends at the first blank that is not quoted. -/
theorem blanksQuoted_splitWord (quoted : Bool) (symbols : List Symbol) :
    BlanksQuoted quoted (Symbol.splitWord quoted symbols).1 := by
  induction symbols generalizing quoted with
  | nil => trivial
  | cons symbol rest ih =>
    unfold Symbol.splitWord
    split
    case isTrue => trivial
    case isFalse hblank => exact ⟨by simpa using hblank, ih _⟩

/-- A quotation is closed where a word ends before the line does. -/
theorem splitWord_rest (quoted : Bool) (symbols : List Symbol) :
    (Symbol.splitWord quoted symbols).2 = [] ∨
      quotedAfterAll quoted (Symbol.splitWord quoted symbols).1 = false ∧
        ∃ blank rest, (Symbol.splitWord quoted symbols).2 = blank :: rest ∧
          blank.isBlank = true := by
  induction symbols generalizing quoted with
  | nil => exact .inl rfl
  | cons symbol rest ih =>
    unfold Symbol.splitWord
    split
    case isTrue hblank =>
      simp only [Bool.and_eq_true, Bool.not_eq_true'] at hblank
      exact .inr ⟨hblank.2, symbol, rest, rfl, hblank.1⟩
    case isFalse => exact ih _

/-- A line goes on with a blank, or ends. -/
def BlankNext (rest : List Symbol) : Prop := ∀ symbol ∈ rest.head?, symbol.isBlank = true

theorem blankNext_nil : BlankNext [] := by simp [BlankNext]

theorem blankNext_cons (h : symbol.isBlank = true) : BlankNext (symbol :: rest) := by
  simpa [BlankNext] using h

/-- The rest after a word goes on with a blank, or is nothing. -/
theorem blankNext_splitWord (quoted : Bool) (symbols : List Symbol) :
    BlankNext (Symbol.splitWord quoted symbols).2 := by
  rcases splitWord_rest quoted symbols with hnil | ⟨-, blank, rest, hcons, hblank⟩
  · rw [hnil]
    exact blankNext_nil
  · rw [hcons]
    exact blankNext_cons hblank

/-- A line that leaves no quotation open leaves none open after its first word. -/
theorem quotedAfterAll_splitWord_eq (h : quotedAfterAll quoted symbols = false) :
    quotedAfterAll false (Symbol.splitWord quoted symbols).2 = false := by
  rcases splitWord_rest quoted symbols with hnil | ⟨hquoted, -⟩
  · rw [hnil]
    rfl
  · rwa [← Symbol.splitWord_append quoted symbols, quotedAfterAll_append, hquoted] at h

/-- Nor does its first word. -/
theorem closed_splitWord (h : quotedAfterAll quoted symbols = false) :
    quotedAfterAll quoted (Symbol.splitWord quoted symbols).1 = false := by
  rcases splitWord_rest quoted symbols with hnil | ⟨hword, -⟩
  · have hsplit := Symbol.splitWord_append quoted symbols
    rw [hnil, List.append_nil] at hsplit
    rwa [hsplit]
  · exact hword

/-- A text that leaves no quotation open has the same words whatever comes after a blank. -/
theorem splitWord_append_of_blankNext (hopen : quotedAfterAll quoted symbols = false)
    (hnext : BlankNext rest) :
    Symbol.splitWord quoted (symbols ++ rest) =
      ((Symbol.splitWord quoted symbols).1, (Symbol.splitWord quoted symbols).2 ++ rest) := by
  induction symbols generalizing quoted with
  | nil =>
    rw [quotedAfterAll_nil] at hopen
    subst hopen
    cases rest with
    | nil => rfl
    | cons blank rest =>
      have hblank := hnext blank rfl
      simp [Symbol.splitWord, hblank]
  | cons symbol symbols ih =>
    rw [quotedAfterAll_cons] at hopen
    simp only [List.cons_append, Symbol.splitWord, ih hopen]
    split <;> rfl

/-- A text whose blanks are quoted is one word. -/
theorem splitWord_of_blanksQuoted (h : BlanksQuoted quoted symbols) :
    Symbol.splitWord quoted symbols = (symbols, []) := by
  induction symbols generalizing quoted with
  | nil => rfl
  | cons symbol rest ih =>
    have hstays : ¬(symbol.isBlank && !quoted) = true := by
      simp only [Bool.and_eq_true, Bool.not_eq_true', not_and, Bool.not_eq_false]
      exact h.1
    rw [Symbol.splitWord, if_neg hstays, ih h.2]

/-- A word that ends before a blank, or with the line, is the first one of the line. -/
theorem splitWord_append_of_blanksQuoted (hblanks : BlanksQuoted quoted word)
    (hclosed : after = [] ∨ quotedAfterAll quoted word = false) (hnext : BlankNext after) :
    Symbol.splitWord quoted (word ++ after) = (word, after) := by
  rcases hclosed with rfl | hclosed
  · rw [List.append_nil, splitWord_of_blanksQuoted hblanks]
  · rw [splitWord_append_of_blankNext hclosed hnext, splitWord_of_blanksQuoted hblanks]
    rfl

/-- A text without blanks has none that is not quoted. -/
theorem blanksQuoted_of_not_isBlank (h : ∀ symbol ∈ symbols, symbol.isBlank = false) :
    BlanksQuoted quoted symbols := by
  induction symbols generalizing quoted with
  | nil => trivial
  | cons symbol rest ih =>
    obtain ⟨hsymbol, hrest⟩ := List.forall_mem_cons.1 h
    exact ⟨fun hblank => absurd (hsymbol.symm.trans hblank) Bool.false_ne_true, ih hrest⟩

end Shorthand

end Stave
