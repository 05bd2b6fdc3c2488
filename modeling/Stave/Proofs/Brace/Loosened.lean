import Stave.Proofs.Repeat.Kept
import Stave.Proofs.Symbol.Unquoted

/-!
# Blanks beside a brace

A brace can be glued to a word on one side of it, by leaving out the blanks between the two. The
line with the blanks is the loose one, the line without them the tight one. Repeats copy the
brace, with its blanks in the loose line; where a copy comes to stand at the end of a group, the
loose line loses one of them. So the two lines stay the same but for blanks, however many, on that
side of every copy of the brace.
-/
namespace Stave.Shorthand

/-- The side of a brace that a word stands on. -/
inductive Side where
  | following
  | preceding
deriving DecidableEq

/-- The blanks on one side of a brace: the byte the brace has in the tight line, and how many bytes
the blanks take. -/
structure Gap where
  side : Side
  place : Nat
  width : Nat
deriving DecidableEq

namespace Gap

/-- Where a byte of the tight line stands in the loose one. -/
def move (gap : Gap) (origin : Nat) : Nat :=
  if origin < gap.place ∨ origin = gap.place ∧ gap.side = .following then origin
  else origin + gap.width

/-- Where a byte of the loose line that is no blank of the gap stands in the tight one. -/
def back (gap : Gap) (origin : Nat) : Nat :=
  if origin < gap.place ∨ origin = gap.place ∧ gap.side = .following then origin
  else origin - gap.width

theorem back_move (gap : Gap) (origin : Nat) : gap.back (gap.move origin) = origin := by
  by_cases hbefore : origin < gap.place ∨ origin = gap.place ∧ gap.side = .following
  · rw [move, if_pos hbefore, back, if_pos hbefore]
  · rw [move, if_neg hbefore, back, if_neg, Nat.add_sub_cancel]
    rintro (hlt | ⟨heq, hside⟩)
    · exact hbefore (.inl (by omega))
    · by_cases hlt : origin < gap.place
      · exact hbefore (.inl hlt)
      · exact hbefore (.inr ⟨by omega, hside⟩)

theorem map_back_map_move (gap : Gap) (symbols : List Symbol) :
    (symbols.map (Symbol.moved gap.move)).map (Symbol.moved gap.back) = symbols := by
  rw [List.map_map]
  refine (List.map_congr_left fun symbol _ => ?_).trans (List.map_id symbols)
  exact congrArg (Symbol.mk symbol.char) (gap.back_move symbol.origin)

/-- A brace with the blanks beside it. -/
def spread (gap : Gap) (brace : Symbol) (blanks : List Symbol) : List Symbol :=
  match gap.side with
  | .following => brace :: blanks
  | .preceding => blanks ++ [brace]

/-- A symbol that has come from the brace. A closing brace is never glued to what follows. -/
structure IsBrace (gap : Gap) (symbol : Symbol) : Prop where
  place : symbol.origin = gap.place
  char : symbol.char = '\x7b' ∨ symbol.char = '\x7d' ∧ gap.side = .preceding

/-- A tight line and a loose one are the same but for blanks beside the copies of the brace, none
of which is quoted. -/
inductive Loosened (gap : Gap) : Bool → List Symbol → List Symbol → Prop where
  | nil {quoted : Bool} : Loosened gap quoted [] []
  | keep {quoted : Bool} {symbol : Symbol} {tight loose : List Symbol}
      (typed : symbol.origin ≠ gap.place)
      (rest : Loosened gap (symbol.quotedAfter quoted) tight loose) :
      Loosened gap quoted (symbol :: tight) (symbol.moved gap.move :: loose)
  | brace {brace : Symbol} {blanks tight loose : List Symbol} (isBrace : gap.IsBrace brace)
      (blank : ∀ symbol ∈ blanks, symbol.isBlank = true) (rest : Loosened gap false tight loose) :
      Loosened gap false (brace :: tight) (gap.spread (brace.moved gap.move) blanks ++ loose)

variable {gap : Gap} {quoted : Bool} {tight loose first second blanks : List Symbol}
  {brace symbol : Symbol}

/-! ### Braces -/

theorem IsBrace.not_blank (h : gap.IsBrace symbol) : symbol.isBlank = false := by
  rcases h.char with hchar | ⟨hchar, -⟩ <;> (rw [Symbol.isBlank, hchar]; decide)

theorem IsBrace.not_quote (h : gap.IsBrace symbol) : symbol.isQuote = false := by
  rcases h.char with hchar | ⟨hchar, -⟩ <;> (rw [Symbol.isQuote, hchar]; decide)

theorem IsBrace.not_digit (h : gap.IsBrace symbol) : symbol.char.isDigit = false := by
  rcases h.char with hchar | ⟨hchar, -⟩ <;> (rw [hchar]; decide)

theorem IsBrace.not_escapes (h : gap.IsBrace symbol) : Symbol.escapes symbol.char = false := by
  rcases h.char with hchar | ⟨hchar, -⟩ <;> (rw [hchar]; decide)

/-- A brace is no sign of a repeat and no chord bracket. -/
theorem IsBrace.ne (h : gap.IsBrace symbol) :
    symbol.char ≠ '[' ∧ symbol.char ≠ ']' ∧ symbol.char ≠ '*' ∧ symbol.char ≠ '<' ∧
      symbol.char ≠ '>' := by
  rcases h.char with hchar | ⟨hchar, -⟩ <;> (rw [hchar]; decide)

theorem IsBrace.quotedAfter (h : gap.IsBrace symbol) (quoted : Bool) :
    symbol.quotedAfter quoted = quoted := by
  rw [Symbol.quotedAfter, h.not_quote, Bool.bne_false]

theorem spread_of_following (h : gap.side = .following) :
    gap.spread brace blanks = brace :: blanks := by
  rw [spread, h]

theorem spread_of_preceding (h : gap.side = .preceding) :
    gap.spread brace blanks = blanks ++ [brace] := by
  rw [spread, h]

theorem mem_spread : symbol ∈ gap.spread brace blanks ↔ symbol = brace ∨ symbol ∈ blanks := by
  unfold spread
  cases gap.side <;> simp [or_comm]

theorem length_spread : (gap.spread brace blanks).length = blanks.length + 1 := by
  unfold spread
  cases gap.side <;> simp

/-- Neither the brace nor a blank beside it opens or closes a quotation. -/
theorem not_isQuote_of_mem_spread (hbrace : gap.IsBrace brace)
    (hblanks : ∀ symbol ∈ blanks, symbol.isBlank = true)
    (h : symbol ∈ gap.spread (brace.moved gap.move) blanks) : symbol.isQuote = false := by
  rcases mem_spread.1 h with rfl | hmem
  · exact hbrace.not_quote
  · exact not_isQuote_of_isBlank (hblanks symbol hmem)

theorem quotedAfterAll_spread (hbrace : gap.IsBrace brace)
    (hblanks : ∀ symbol ∈ blanks, symbol.isBlank = true) :
    quotedAfterAll quoted (gap.spread (brace.moved gap.move) blanks) = quoted :=
  quotedAfterAll_of_not_isQuote fun _ => not_isQuote_of_mem_spread hbrace hblanks

/-! ### Loosened lines -/

namespace Loosened

theorem quotedAfterAll_eq (h : gap.Loosened quoted tight loose) :
    quotedAfterAll quoted loose = quotedAfterAll quoted tight := by
  induction h with
  | nil => rfl
  | keep typed rest ih => exact ih
  | brace isBrace blank rest ih =>
    rw [quotedAfterAll_append, quotedAfterAll_spread isBrace blank, ih, quotedAfterAll_cons,
      isBrace.quotedAfter]

theorem length_le (h : gap.Loosened quoted tight loose) : tight.length ≤ loose.length := by
  induction h with
  | nil => exact Nat.le_refl 0
  | keep typed rest ih => simpa using ih
  | brace isBrace blank rest ih =>
    rw [List.length_append, length_spread, List.length_cons]
    omega

theorem append (hfirst : gap.Loosened quoted tight loose)
    (hsecond : gap.Loosened (quotedAfterAll quoted tight) first second) :
    gap.Loosened quoted (tight ++ first) (loose ++ second) := by
  induction hfirst with
  | nil => exact hsecond
  | keep typed rest ih => exact .keep typed (ih hsecond)
  | brace isBrace blank rest ih =>
    rw [quotedAfterAll_cons, isBrace.quotedAfter] at hsecond
    rw [List.cons_append, List.append_assoc]
    exact .brace isBrace blank (ih hsecond)

/-- Where a tight line is cut, the loose one can be cut. -/
theorem exists_of_append (h : gap.Loosened quoted (first ++ second) loose) :
    ∃ before after, loose = before ++ after ∧ gap.Loosened quoted first before ∧
      gap.Loosened (quotedAfterAll quoted first) second after := by
  induction first generalizing quoted loose with
  | nil => exact ⟨[], loose, rfl, .nil, h⟩
  | cons symbol first ih =>
    cases h with
    | keep typed rest =>
      obtain ⟨before, after, rfl, hbefore, hafter⟩ := ih rest
      exact ⟨_, after, rfl, .keep typed hbefore, hafter⟩
    | brace isBrace blank rest =>
      obtain ⟨before, after, rfl, hbefore, hafter⟩ := ih rest
      refine ⟨_, after, (List.append_assoc _ _ _).symm, .brace isBrace blank hbefore, ?_⟩
      rwa [quotedAfterAll_cons, isBrace.quotedAfter]

theorem eq_nil (h : gap.Loosened quoted [] loose) : loose = [] := by
  cases h
  rfl

/-- A line without the brace is moved along. -/
theorem of_typed (h : ∀ symbol ∈ tight, symbol.origin ≠ gap.place) :
    gap.Loosened quoted tight (tight.map (Symbol.moved gap.move)) := by
  induction tight generalizing quoted with
  | nil => exact .nil
  | cons symbol rest ih =>
    obtain ⟨hsymbol, hrest⟩ := List.forall_mem_cons.1 h
    exact .keep hsymbol (ih hrest)

/-- A symbol that is no brace stands in both lines. -/
theorem exists_of_cons (h : gap.Loosened quoted (symbol :: tight) loose)
    (hbrace : ¬gap.IsBrace symbol) :
    ∃ rest, loose = symbol.moved gap.move :: rest ∧ symbol.origin ≠ gap.place ∧
      gap.Loosened (symbol.quotedAfter quoted) tight rest := by
  cases h with
  | keep typed rest => exact ⟨_, rfl, typed, rest⟩
  | brace isBrace blank rest => exact absurd isBrace hbrace

theorem all_isBlank (h : gap.Loosened quoted tight loose) :
    loose.all Symbol.isBlank = tight.all Symbol.isBlank := by
  induction h with
  | nil => rfl
  | keep typed rest ih => rw [List.all_cons, List.all_cons, ih, Symbol.isBlank_moved]
  | @brace brace blanks tight loose isBrace blank rest ih =>
    have hink : (gap.spread (brace.moved gap.move) blanks).all Symbol.isBlank = false := by
      rw [List.all_eq_false]
      refine ⟨brace.moved gap.move, mem_spread.2 (.inl rfl), ?_⟩
      rw [Symbol.isBlank_moved, isBrace.not_blank]
      decide
    rw [List.all_append, hink, List.all_cons, isBrace.not_blank]
    rfl

end Loosened

end Gap

end Stave.Shorthand
