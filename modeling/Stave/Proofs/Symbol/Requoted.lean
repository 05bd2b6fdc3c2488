import Mathlib.Data.List.Forall2
import Stave.Proofs.Symbol.Brackets

/-!
# Lines with other quoted texts

Two lines are requoted if they have their quotes at the same places and the same characters
outside quotes; what is quoted may be anything of the same length. Whatever looks at a line only
where nothing is quoted does the same to both: cutting off a word, reading digits, dropping blanks
at the ends, and looking at the last symbol of a text that leaves no quotation open, for that is a
quote or stands outside quotes.
-/
namespace Stave.Shorthand

/-- Two lines are the same but for quoted characters. The symbols at the same place may be asked
to be paired in some way besides. -/
inductive Requoted (paired : Symbol → Symbol → Prop) : Bool → List Symbol → List Symbol → Prop where
  | nil {quoted : Bool} : Requoted paired quoted [] []
  | cons {quoted : Bool} {symbol symbol' : Symbol} {tail tail' : List Symbol}
      (pair : paired symbol symbol') (quote : symbol'.isQuote = symbol.isQuote)
      (plain : quoted = false → symbol'.char = symbol.char)
      (rest : Requoted paired (symbol.quotedAfter quoted) tail tail') :
      Requoted paired quoted (symbol :: tail) (symbol' :: tail')

theorem quotedAfter_eq_of_isQuote {symbol symbol' : Symbol}
    (h : symbol'.isQuote = symbol.isQuote) (quoted : Bool) :
    symbol'.quotedAfter quoted = symbol.quotedAfter quoted := by
  rw [Symbol.quotedAfter, h, Symbol.quotedAfter]

/-- Only a quote changes the quotation. -/
theorem quotedAfter_of_char {symbol : Symbol} {c : Char} (quoted : Bool) (h : symbol.char = c)
    (hc : c ≠ '"') : symbol.quotedAfter quoted = quoted := by
  have hquote : symbol.isQuote = false := beq_eq_false_iff_ne.2 (h.trans_ne hc)
  rw [Symbol.quotedAfter, hquote, Bool.bne_false]

namespace Requoted

variable {paired : Symbol → Symbol → Prop} {quoted : Bool} {symbol : Symbol}
  {line line' first first' second second' : List Symbol}

theorem length_eq (h : Requoted paired quoted line line') : line'.length = line.length := by
  induction h with
  | nil => rfl
  | cons pair quote plain rest ih => rw [List.length_cons, List.length_cons, ih]

theorem quotedAfterAll_eq (h : Requoted paired quoted line line') :
    quotedAfterAll quoted line' = quotedAfterAll quoted line := by
  induction h with
  | nil => rfl
  | cons pair quote plain rest ih =>
    rw [quotedAfterAll_cons, quotedAfterAll_cons, Symbol.quotedAfter, quote]
    exact ih

theorem append (hfirst : Requoted paired quoted first first')
    (hsecond : Requoted paired (quotedAfterAll quoted first) second second') :
    Requoted paired quoted (first ++ second) (first' ++ second') := by
  induction hfirst with
  | nil => exact hsecond
  | cons pair quote plain rest ih => exact .cons pair quote plain (ih hsecond)

/-- Where one line is cut, the other can be cut. -/
theorem exists_of_append (h : Requoted paired quoted (first ++ second) line') :
    ∃ before after, line' = before ++ after ∧ Requoted paired quoted first before ∧
      Requoted paired (quotedAfterAll quoted first) second after := by
  induction first generalizing quoted line' with
  | nil => exact ⟨[], line', rfl, .nil, h⟩
  | cons symbol first ih =>
    cases h with
    | cons pair quote plain rest =>
      obtain ⟨before, after, rfl, hbefore, hafter⟩ := ih rest
      exact ⟨_ :: before, after, rfl, .cons pair quote plain hbefore, hafter⟩

theorem drop (h : Requoted paired quoted line line') (used : Nat) :
    Requoted paired (quotedAfterAll quoted (line.take used)) (line.drop used)
      (line'.drop used) := by
  rw [← List.take_append_drop used line] at h
  obtain ⟨before, after, rfl, hbefore, hafter⟩ := h.exists_of_append
  rcases Nat.le_total used line.length with hle | hle
  · have hlength : before.length = used := by
      rw [hbefore.length_eq, List.length_take, Nat.min_eq_left hle]
    rwa [List.drop_left' hlength]
  · rw [List.drop_eq_nil_of_le hle] at hafter ⊢
    cases hafter
    rw [List.append_nil, List.drop_eq_nil_of_le]
    · exact .nil
    · rw [hbefore.length_eq, List.length_take]
      omega

/-- Symbols are paired where they stand. -/
theorem forall₂ (h : Requoted paired quoted line line') : List.Forall₂ paired line line' := by
  induction h with
  | nil => exact .nil
  | cons pair quote plain rest ih => exact .cons pair ih

/-- Without quotes nothing is quoted. -/
theorem chars_eq (h : Requoted paired false line line')
    (hnone : ∀ symbol ∈ line, symbol.isQuote = false) : Symbol.chars line' = Symbol.chars line := by
  generalize hquoted : false = quoted at h
  induction h with
  | nil => rfl
  | cons pair quote plain rest ih =>
    subst hquoted
    obtain ⟨hsymbol, hrest⟩ := List.forall_mem_cons.1 hnone
    rw [Symbol.chars, List.map_cons, plain rfl]
    refine congrArg _ (ih hrest ?_)
    rw [Symbol.quotedAfter, hsymbol]
    rfl

theorem exists_isQuote_iff (h : Requoted paired quoted line line') :
    (∃ symbol ∈ line', symbol.isQuote = true) ↔ ∃ symbol ∈ line, symbol.isQuote = true := by
  induction h with
  | nil => rfl
  | cons pair quote plain rest ih =>
    simp only [List.mem_cons, exists_eq_or_imp, quote, ih]

/-- A symbol that leaves no quotation open is a quote, or it is not quoted. -/
theorem char_eq_of_quotedAfter {symbol' : Symbol} (quote : symbol'.isQuote = symbol.isQuote)
    (plain : quoted = false → symbol'.char = symbol.char)
    (hclosed : symbol.quotedAfter quoted = false) : symbol'.char = symbol.char := by
  have hchar : ∀ symbol : Symbol, symbol.isQuote = true → symbol.char = '"' := by
    simp [Symbol.isQuote]
  cases hquote : symbol.isQuote with
  | true => rw [hchar symbol hquote, hchar symbol' (quote.trans hquote)]
  | false =>
    refine plain ?_
    rwa [Symbol.quotedAfter, hquote, Bool.bne_false] at hclosed

/-- So a text that leaves none open has the same last character. -/
theorem getLast?_eq (h : Requoted paired quoted line line')
    (hclosed : quotedAfterAll quoted line = false) :
    line'.getLast?.map Symbol.char = line.getLast?.map Symbol.char := by
  rcases List.eq_nil_or_concat line with rfl | ⟨init, last, rfl⟩
  · cases h
    rfl
  rw [List.concat_eq_append] at h hclosed ⊢
  obtain ⟨before, after, rfl, -, hlast⟩ := h.exists_of_append
  rw [quotedAfterAll_append] at hclosed
  cases hlast with
  | cons pair quote plain rest =>
    cases rest
    simpa using char_eq_of_quotedAfter quote plain hclosed

/-- The first word is cut off at the same place. -/
theorem splitWord (h : Requoted paired quoted line line') :
    Requoted paired quoted (Symbol.splitWord quoted line).1 (Symbol.splitWord quoted line').1 ∧
      Requoted paired false (Symbol.splitWord quoted line).2
        (Symbol.splitWord quoted line').2 := by
  induction h with
  | nil => exact ⟨.nil, .nil⟩
  | @cons quoted symbol symbol' rest rest' pair quote plain h ih =>
    have hsame := quotedAfter_eq_of_isQuote quote quoted
    have hblank : (symbol'.isBlank && !quoted) = (symbol.isBlank && !quoted) := by
      cases quoted with
      | true => rw [Bool.not_true, Bool.and_false, Bool.and_false]
      | false => rw [Symbol.isBlank, plain rfl, Symbol.isBlank]
    simp only [Symbol.splitWord, hblank, hsame]
    split
    case isTrue hends =>
      simp only [Bool.and_eq_true, Bool.not_eq_true'] at hends
      exact ⟨.nil, hends.2 ▸ .cons pair quote plain h⟩
    case isFalse => exact ⟨.cons pair quote plain ih.1, ih.2⟩

/-- A run of unquoted characters of a class, none of them a quote, is the same in both. -/
theorem takeWhile {p : Char → Bool} (hp : p '"' = false) (h : Requoted paired false line line') :
    Symbol.chars (line'.takeWhile (p ·.char)) = Symbol.chars (line.takeWhile (p ·.char)) := by
  generalize hquoted : false = quoted at h
  induction h with
  | nil => rfl
  | @cons quoted symbol symbol' rest rest' pair quote plain h ih =>
    subst hquoted
    rw [List.takeWhile_cons, List.takeWhile_cons, plain rfl]
    split
    case isTrue hclass =>
      have hplain : symbol.isQuote = false := by
        rw [Symbol.isQuote, beq_eq_false_iff_ne]
        intro hquote
        rw [hquote, hp] at hclass
        cases hclass
      have hrest := ih (by rw [Symbol.quotedAfter, hplain]; rfl)
      rw [Symbol.chars, List.map_cons, plain rfl]
      exact congrArg _ hrest
    case isFalse => rfl

/-- A text with a quote is not blank, and without one it is the same. -/
theorem all_isBlank_eq (h : Requoted paired false line line') :
    line'.all Symbol.isBlank = line.all Symbol.isBlank := by
  generalize hquoted : false = quoted at h
  induction h with
  | nil => rfl
  | @cons quoted symbol symbol' rest rest' pair quote plain h ih =>
    subst hquoted
    have hsame : symbol'.isBlank = symbol.isBlank := by
      rw [Symbol.isBlank, plain rfl, Symbol.isBlank]
    rw [List.all_cons, List.all_cons, hsame]
    cases hblank : symbol.isBlank with
    | false => rfl
    | true => rw [ih (by rw [Symbol.quotedAfter, not_isQuote_of_isBlank hblank]; rfl)]

end Requoted

end Stave.Shorthand
