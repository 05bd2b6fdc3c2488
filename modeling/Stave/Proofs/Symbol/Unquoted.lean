import Stave.Proofs.Symbol.Brackets

/-!
# What stands outside quotes

The brackets and stars that ask for repeats count only where they are not quoted. What stands
outside quotes in a joined text is what stands so in its parts, each with the quotation the part
before leaves. A character that is none of the signs is ordinary, wherever it stands.
-/
namespace Stave.Shorthand

/-- The characters outside quotes, the quotes left out. -/
def unquoted (quoted : Bool) : List Char → List Char
  | [] => []
  | c :: cs =>
    let others := unquoted (quoted != (c == '"')) cs
    if c == '"' || quoted then others else c :: others

/-- A symbol stands outside quotes in a line. -/
def Outside (quoted : Bool) (line : List Symbol) (symbol : Symbol) : Prop :=
  ∃ before after, line = before ++ symbol :: after ∧ quotedAfterAll quoted before = false

variable {quoted : Bool} {c : Char} {cs : List Char} {symbols line front back : List Symbol}
  {symbol first : Symbol}

@[simp] theorem unquoted_nil (quoted : Bool) : unquoted quoted [] = [] := rfl

theorem unquoted_append (quoted : Bool) (first second : List Char) :
    unquoted quoted (first ++ second) =
      unquoted quoted first ++ unquoted (quotedChars quoted first) second := by
  induction first generalizing quoted with
  | nil => rfl
  | cons c first ih =>
    simp only [List.cons_append, unquoted, ih]
    split <;> rfl

theorem unquoted_chars_append (quoted : Bool) (first second : List Symbol) :
    unquoted quoted (Symbol.chars (first ++ second)) =
      unquoted quoted (Symbol.chars first) ++
        unquoted (quotedAfterAll quoted first) (Symbol.chars second) := by
  rw [Symbol.chars_append, unquoted_append, quotedAfterAll_eq_quotedChars]

theorem unquoted_chars_cons (quoted : Bool) (symbol : Symbol) (symbols : List Symbol) :
    unquoted quoted (Symbol.chars (symbol :: symbols)) =
      if symbol.isQuote || quoted then
        unquoted (symbol.quotedAfter quoted) (Symbol.chars symbols)
      else symbol.char :: unquoted (symbol.quotedAfter quoted) (Symbol.chars symbols) := rfl

/-- What stands outside quotes in the rest of a text stands so in the text. -/
theorem mem_unquoted_cons
    (h : c ∈ unquoted (symbol.quotedAfter quoted) (Symbol.chars symbols)) :
    c ∈ unquoted quoted (Symbol.chars (symbol :: symbols)) := by
  rw [unquoted_chars_cons]
  split
  · exact h
  · exact List.mem_cons_of_mem _ h

theorem mem_of_mem_unquoted (h : c ∈ unquoted quoted cs) : c ∈ cs := by
  induction cs generalizing quoted with
  | nil => exact h
  | cons first cs ih =>
    unfold unquoted at h
    dsimp only at h
    split at h
    · exact List.mem_cons_of_mem _ (ih h)
    · rcases List.mem_cons.1 h with rfl | h
      · exact List.mem_cons_self
      · exact List.mem_cons_of_mem _ (ih h)

/-- What stands outside quotes in the first word stands so in the text. -/
theorem mem_unquoted_word
    (h : c ∈ unquoted quoted (Symbol.chars (Symbol.splitWord quoted symbols).1)) :
    c ∈ unquoted quoted (Symbol.chars symbols) := by
  rw [← Symbol.splitWord_append quoted symbols, unquoted_chars_append]
  exact List.mem_append_left _ h

/-- So does what stands outside quotes after it. -/
theorem mem_unquoted_after_word
    (h : c ∈ unquoted false (Symbol.chars (Symbol.splitWord quoted symbols).2)) :
    c ∈ unquoted quoted (Symbol.chars symbols) := by
  rcases splitWord_rest quoted symbols with hnil | ⟨hclosed, -⟩
  · rw [hnil] at h
    cases h
  · rw [← Symbol.splitWord_append quoted symbols, unquoted_chars_append, hclosed]
    exact List.mem_append_right _ h

theorem splitWord_cons (h : ¬symbol.isBlank = true) :
    Symbol.splitWord false (symbol :: symbols) =
      (symbol :: (Symbol.splitWord (symbol.quotedAfter false) symbols).1,
        (Symbol.splitWord (symbol.quotedAfter false) symbols).2) := by
  rw [Symbol.splitWord, if_neg (by simpa using h)]

theorem mem_unquoted_head_word (hblank : ¬symbol.isBlank = true)
    (h : c ∈ unquoted false
      (Symbol.chars (symbol :: (Symbol.splitWord (symbol.quotedAfter false) symbols).1))) :
    c ∈ unquoted false (Symbol.chars (symbol :: symbols)) :=
  mem_unquoted_word (by rwa [splitWord_cons hblank])

theorem mem_unquoted_after_head_word (hblank : ¬symbol.isBlank = true)
    (h : c ∈ unquoted false
      (Symbol.chars (Symbol.splitWord (symbol.quotedAfter false) symbols).2)) :
    c ∈ unquoted false (Symbol.chars (symbol :: symbols)) := by
  refine mem_unquoted_after_word ?_
  rwa [splitWord_cons hblank]

/-! ### Symbols outside quotes -/

theorem Outside.mem (h : Outside quoted line symbol) : symbol ∈ line := by
  obtain ⟨before, after, rfl, -⟩ := h
  exact List.mem_append_right _ List.mem_cons_self

theorem outside_append :
    Outside quoted (front ++ back) symbol ↔
      Outside quoted front symbol ∨ Outside (quotedAfterAll quoted front) back symbol := by
  constructor
  · rintro ⟨before, after, heq, hclosed⟩
    rcases List.append_eq_append_iff.1 heq with ⟨more, rfl, rfl⟩ | ⟨more, rfl, hmore⟩
    · exact .inr ⟨more, after, rfl, by rwa [quotedAfterAll_append] at hclosed⟩
    · cases more with
      | nil => exact .inr ⟨[], after, by simpa using hmore.symm, by rwa [List.append_nil]⟩
      | cons other more =>
        obtain ⟨rfl, -⟩ := List.cons.inj hmore
        exact .inl ⟨before, more, rfl, hclosed⟩
  · rintro (⟨before, after, rfl, hclosed⟩ | ⟨before, after, rfl, hclosed⟩)
    · exact ⟨before, after ++ back, by simp, hclosed⟩
    · exact ⟨front ++ before, after, by simp, by rwa [quotedAfterAll_append]⟩

theorem outside_cons :
    Outside quoted (first :: back) symbol ↔
      symbol = first ∧ quoted = false ∨ Outside (first.quotedAfter quoted) back symbol := by
  constructor
  · rintro ⟨before, after, heq, hclosed⟩
    cases before with
    | nil => exact .inl ⟨(List.cons.inj heq).1.symm, hclosed⟩
    | cons other before =>
      obtain ⟨rfl, rfl⟩ := List.cons.inj heq
      exact .inr ⟨before, after, rfl, hclosed⟩
  · rintro (⟨rfl, hclosed⟩ | ⟨before, after, rfl, hclosed⟩)
    · exact ⟨[], back, rfl, hclosed⟩
    · exact ⟨first :: before, after, rfl, hclosed⟩

/-- What stands outside quotes are the characters of the symbols that do, the quotes left out. -/
theorem mem_unquoted_iff :
    c ∈ unquoted quoted (Symbol.chars line) ↔
      ∃ symbol, Outside quoted line symbol ∧ symbol.isQuote = false ∧ symbol.char = c := by
  induction line generalizing quoted with
  | nil =>
    refine iff_of_false List.not_mem_nil ?_
    rintro ⟨symbol, hout, -⟩
    exact List.not_mem_nil hout.mem
  | cons first line ih =>
    rw [unquoted_chars_cons]
    split
    case isTrue hquote =>
      rw [ih]
      refine exists_congr fun symbol => and_congr_left fun hsymbol => ?_
      rw [outside_cons, or_iff_right]
      rintro ⟨rfl, rfl⟩
      simp [hsymbol.1] at hquote
    case isFalse hplain =>
      simp only [Bool.or_eq_true, not_or, Bool.not_eq_true] at hplain
      rw [List.mem_cons, ih]
      constructor
      · rintro (rfl | ⟨symbol, hout, hsymbol⟩)
        · exact ⟨first, outside_cons.2 (.inl ⟨rfl, hplain.2⟩), hplain.1, rfl⟩
        · exact ⟨symbol, outside_cons.2 (.inr hout), hsymbol⟩
      · rintro ⟨symbol, hout, hsymbol⟩
        rcases outside_cons.1 hout with ⟨rfl, -⟩ | hout
        · exact .inl hsymbol.2.symm
        · exact .inr ⟨symbol, hout, hsymbol⟩

/-! ### Ordinary characters -/

/-- The signs of repeats. -/
def repeatSigns : List Char := ['[', ']', '*']

/-- The signs of repeats and groups. -/
def groupSigns : List Char := repeatSigns ++ ['\x7b', '\x7d']

/-- A character that is no bracket, no quote and no sign of a repeat or a group. -/
def IsOrdinary (c : Char) : Prop := c ∉ ['<', '>', '"'] ++ groupSigns

instance (c : Char) : Decidable (IsOrdinary c) := inferInstanceAs (Decidable (¬_))

theorem IsOrdinary.isPlain (h : IsOrdinary c) : IsPlain c := by
  simp only [IsOrdinary, List.mem_append, List.mem_cons, not_or] at h
  exact ⟨h.1.1, h.1.2.1, h.1.2.2.1⟩

theorem IsOrdinary.not_mem_groupSigns (h : IsOrdinary c) : c ∉ groupSigns :=
  fun hmem => h (List.mem_append_right _ hmem)

/-- A class of characters is ordinary if none of the others is in it. -/
theorem isOrdinary_of_class (p : Char → Bool)
    (hp : (['<', '>', '"'] ++ groupSigns).all (fun c => !p c) = true) (h : p c = true) :
    IsOrdinary c := by
  intro hmem
  have hnot := List.all_eq_true.1 hp c hmem
  rw [h] at hnot
  cases hnot

theorem isOrdinary_of_isDigit (h : c.isDigit = true) : IsOrdinary c :=
  isOrdinary_of_class Char.isDigit (by decide) h

theorem isOrdinary_of_isAlpha (h : c.isAlpha = true) : IsOrdinary c :=
  isOrdinary_of_class Char.isAlpha (by decide) h

theorem isOrdinary_of_isBlank (h : Text.isBlank c = true) : IsOrdinary c :=
  isOrdinary_of_class Text.isBlank (by decide) h

/-- Whether the characters of a given text are ordinary can be computed. -/
theorem isOrdinary_of_all (h : cs.all (fun c => decide (IsOrdinary c)) = true) :
    ∀ c ∈ cs, IsOrdinary c := by
  simpa using h

end Stave.Shorthand
