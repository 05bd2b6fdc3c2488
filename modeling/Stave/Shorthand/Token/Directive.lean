import Stave.Shorthand.Token

/-!
# Directives

A directive is a command word that takes arguments from the words after it: one
word for most, and for a tempo as many as it needs up to three, written together.
-/
namespace Stave.Shorthand

/-- What a directive sets. -/
inductive Directive where
  | tuplet
  /-- A tuplet whose ratio is written the other way round. -/
  | times
  | ottava
  | time
  | tempo
  | clef
deriving DecidableEq, Inhabited

namespace Directive

/-- The command words. -/
def names : List (String × Directive) :=
  [("\\tuplet", tuplet), ("\\tup", tuplet), ("\\times", times), ("\\ottava", ottava),
   ("\\ott", ottava), ("\\time", time), ("\\tempo", tempo), ("\\clef", clef)]

/-- The directive of a word, if it is one. -/
def ofWord? (word : String) : Option Directive := names.lookup word

/-- The most words a directive looks at. -/
def mostArguments : Nat := 3

/-- Read a ratio of two positive numbers. -/
def ratio? (text : List Char) : Option (Nat × Nat) := do
  let (above, below) ← Text.splitAtFirst? '/' text
  let above ← Text.natural? Text.largestCount above
  let below ← Text.natural? Text.largestCount below
  if above = 0 ∨ below = 0 then none else some (above, below)

/-- Read a tempo from the first words that make one when written together; the result
also counts the words. -/
def tempo? (arguments : List (List Char)) : Option (Tempo × Nat) :=
  (List.range' 1 arguments.length).findSome? fun used =>
    (Tempo.read? (arguments.take used).flatten).map fun mark => (mark, used)

/-- Read the arguments of a directive: the token, and the number of words used. -/
def read? (directive : Directive) (arguments : List (List Char)) :
    Option (TokenKind × Nat) := do
  let first ← arguments.head?
  match directive with
  | tuplet => (ratio? first).map fun (above, below) => (.tuplet above below, 1)
  | times => (ratio? first).map fun (above, below) => (.tuplet below above, 1)
  | ottava =>
    (Text.integer? (-2) 2 (first.dropWhile (· = '#'))).map fun level => (.ottava level, 1)
  | time => (Meter.read? first).map fun meter => (.time meter, 1)
  | clef => (Clef.ofKeyword? (String.ofList first)).map fun clef => (.clef clef, 1)
  | tempo => (tempo? arguments).map fun (mark, used) => (.tempo mark, used)

theorem used_le_of_read? {directive : Directive} {arguments : List (List Char)}
    {kind : TokenKind} {used : Nat} (h : directive.read? arguments = some (kind, used)) :
    used ≤ arguments.length := by
  unfold read? at h
  match arguments with
  | [] => simp at h
  | first :: rest =>
    simp only [List.head?_cons, Option.bind_eq_bind, Option.bind_some] at h
    cases directive <;> simp only [Option.map_eq_some_iff, Prod.mk.injEq] at h
    case tempo =>
      obtain ⟨⟨mark, n⟩, hn, -, rfl⟩ := h
      obtain ⟨m, hm, heq⟩ := List.exists_of_findSome?_eq_some hn
      obtain ⟨t, -, ht⟩ := Option.map_eq_some_iff.1 heq
      cases ht
      have := (List.mem_range'_1.1 hm).2
      omega
    all_goals
      obtain ⟨_, _, _, rfl⟩ := h
      simp

end Directive

end Stave.Shorthand
