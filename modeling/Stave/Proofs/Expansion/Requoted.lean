import Stave.Proofs.Expansion.Origins
import Stave.Proofs.Repeat.Requoted.Chords

/-!
# Quoted text does not steer an expansion

What stands inside quotes is copied and never looked at. Two lines that differ only there are
expanded by one plan, which says of every character of the result at which place of the line it
stands: the plan can be followed in either line, and the results differ where it copies a
character in which the lines do.
-/
namespace Stave.Shorthand

/-- Two lines are of one length and have the same quotes, and they differ in quoted characters
only: after an odd number of quotes. -/
structure QuotedApart (first second : List Char) : Prop where
  length_eq : first.length = second.length
  quotes : ∀ place < first.length, first[place]? = some '"' ↔ second[place]? = some '"'
  plain : ∀ place < first.length, (first.take place).count '"' % 2 = 0 →
    first[place]? = second[place]?

/-- Where a character of an expansion comes from: it stands at a place of the line, or it is a
space that joins the copies of a repeat whose sign stands at a place. -/
inductive Source where
  | typed (place : Nat)
  | joint (place : Nat)
deriving DecidableEq

/-- The symbol that a line has for a source. -/
def Source.symbol? (symbols : List Symbol) : Source → Option Symbol
  | typed place => symbols[place]?
  | joint place => symbols[place]?.map fun sign => ⟨' ', sign.origin⟩

/-- An expansion has the symbols that a typed line has for the sources of a plan. -/
def Expansion.Follows (expansion : Expansion) (line : List Char) (plan : List Source) : Prop :=
  plan.map (Source.symbol? (Symbol.ofChars 0 line)) = expansion.symbols.map some

/-- The expansions of two lines have the same length, and they follow one plan. Where they differ,
the plan copies a character inside quotes in which the lines differ. -/
structure CopiedAlike (first second : List Char) (expansion expansion' : Expansion) : Prop where
  length_eq : expansion.text.length = expansion'.text.length
  plan : ∃ plan : List Source, expansion.Follows first plan ∧ expansion'.Follows second plan ∧
    ∀ index : Nat, expansion.text.toList[index]? ≠ expansion'.text.toList[index]? →
      ∃ place, plan[index]? = some (Source.typed place) ∧ first[place]? ≠ second[place]? ∧
        (first.take place).count '"' % 2 = 1

variable {first second : List Char} {quoted : Bool} {paired : Symbol → Symbol → Prop}
  {symbols symbols' : List Symbol} {symbol symbol' : Symbol} {expansion expansion' : Expansion}
  {plan : List Source}

/-- A character is quoted after an odd number of quotes. -/
theorem quotedAfterAll_eq_count (quoted : Bool) (symbols : List Symbol) :
    quotedAfterAll quoted symbols =
      (quoted != decide ((Symbol.chars symbols).count '"' % 2 = 1)) := by
  induction symbols generalizing quoted with
  | nil => simp [Symbol.chars]
  | cons symbol rest ih =>
    have hchars : Symbol.chars (symbol :: rest) = symbol.char :: Symbol.chars rest := rfl
    rw [quotedAfterAll_cons, ih, Symbol.quotedAfter, Symbol.isQuote, hchars, List.count_cons]
    cases hquote : symbol.char == '"' with
    | false => simp
    | true =>
      have hflip : decide (((Symbol.chars rest).count '"' + 1) % 2 = 1) =
          !decide ((Symbol.chars rest).count '"' % 2 = 1) := by
        rw [Bool.eq_iff_iff]
        simp only [decide_eq_true_eq, Bool.not_eq_true', decide_eq_false_iff_not]
        omega
      simp only [if_true, hflip]
      cases quoted <;> simp

/-- Lines are requoted if their symbols are so place by place. -/
theorem requoted_of_getElem? (hlength : symbols.length = symbols'.length)
    (h : ∀ place symbol symbol', symbols[place]? = some symbol → symbols'[place]? = some symbol' →
      paired symbol symbol' ∧ symbol'.isQuote = symbol.isQuote ∧
        (quotedAfterAll quoted (symbols.take place) = false → symbol'.char = symbol.char)) :
    Requoted paired quoted symbols symbols' := by
  induction symbols generalizing quoted symbols' with
  | nil =>
    rw [List.length_nil, eq_comm, List.length_eq_zero_iff] at hlength
    subst hlength
    exact .nil
  | cons symbol rest ih =>
    cases symbols' with
    | nil => cases hlength
    | cons symbol' rest' =>
      obtain ⟨pair, quote, plain⟩ := h 0 symbol symbol' rfl rfl
      refine .cons pair quote plain (ih (Nat.succ.inj hlength) fun place => ?_)
      simpa using h (place + 1)

/-- Two symbols have one source in two lines. -/
def SameSource (symbols symbols' : List Symbol) (symbol symbol' : Symbol) : Prop :=
  ∃ source : Source, source.symbol? symbols = some symbol ∧ source.symbol? symbols' = some symbol'

/-- A space that joins copies has its source at the sign. -/
theorem pairsJoints_sameSource (symbols symbols' : List Symbol) :
    Repeat.PairsJoints (SameSource symbols symbols') := by
  rintro sign sign' ⟨source, hsign, hsign'⟩
  cases source with
  | typed place =>
    rw [Source.symbol?] at hsign hsign'
    exact ⟨.joint place, by rw [Source.symbol?, hsign]; rfl, by rw [Source.symbol?, hsign']; rfl⟩
  | joint place =>
    refine ⟨.joint place, ?_, ?_⟩
    · rw [Source.symbol?, Option.map_eq_some_iff] at hsign ⊢
      obtain ⟨typed, htyped, rfl⟩ := hsign
      exact ⟨typed, htyped, rfl⟩
    · rw [Source.symbol?, Option.map_eq_some_iff] at hsign' ⊢
      obtain ⟨typed, htyped, rfl⟩ := hsign'
      exact ⟨typed, htyped, rfl⟩

theorem getElem?_chars (symbols : List Symbol) (place : Nat) :
    (Symbol.chars symbols)[place]? = symbols[place]?.map Symbol.char :=
  List.getElem?_map

theorem length_ofChars (cs : List Char) : (Symbol.ofChars 0 cs).length = cs.length := by
  rw [← List.length_map Symbol.char, ← Symbol.chars, Symbol.chars_ofChars]

theorem QuotedApart.requoted (h : QuotedApart first second) :
    Requoted (SameSource (Symbol.ofChars 0 first) (Symbol.ofChars 0 second)) false
      (Symbol.ofChars 0 first) (Symbol.ofChars 0 second) := by
  refine requoted_of_getElem? (by rw [length_ofChars, length_ofChars, h.length_eq]) ?_
  intro place symbol symbol' hsymbol hsymbol'
  have hplace : place < first.length := by
    rw [← length_ofChars]
    exact (List.getElem?_eq_some_iff.1 hsymbol).1
  have hfirst : first[place]? = some symbol.char := by
    rw [← Symbol.chars_ofChars 0 first, getElem?_chars, hsymbol]
    rfl
  have hsecond : second[place]? = some symbol'.char := by
    rw [← Symbol.chars_ofChars 0 second, getElem?_chars, hsymbol']
    rfl
  have hquotes := h.quotes place hplace
  have hplain := h.plain place hplace
  rw [hfirst, hsecond, Option.some_inj] at hquotes hplain
  rw [Option.some_inj] at hquotes
  refine ⟨⟨.typed place, hsymbol, hsymbol'⟩, ?_, fun hopen => (hplain ?_).symm⟩
  · rw [Symbol.isQuote, Symbol.isQuote, Bool.eq_iff_iff, beq_iff_eq, beq_iff_eq, hquotes]
  · have htake : Symbol.chars ((Symbol.ofChars 0 first).take place) = first.take place := by
      rw [Symbol.chars, List.map_take, ← Symbol.chars, Symbol.chars_ofChars]
    rw [quotedAfterAll_eq_count, htake] at hopen
    simpa using hopen

/-- Symbols that have one source each follow a plan. -/
theorem exists_plan {out out' : List Symbol}
    (h : List.Forall₂ (SameSource symbols symbols') out out') :
    ∃ plan : List Source, plan.map (Source.symbol? symbols) = out.map some ∧
      plan.map (Source.symbol? symbols') = out'.map some := by
  induction h with
  | nil => exact ⟨[], rfl, rfl⟩
  | cons hsource _ ih =>
    obtain ⟨source, hsymbol, hsymbol'⟩ := hsource
    obtain ⟨plan, hplan, hplan'⟩ := ih
    exact ⟨source :: plan, by rw [List.map_cons, List.map_cons, hsymbol, hplan],
      by rw [List.map_cons, List.map_cons, hsymbol', hplan']⟩

/-- The characters of an expansion are those of its plan. -/
theorem Expansion.Follows.getElem? (h : expansion.Follows first plan) (index : Nat) :
    expansion.text.toList[index]? =
      (plan[index]?.bind (Source.symbol? (Symbol.ofChars 0 first))).map Symbol.char := by
  have hindex := congrArg (·[index]?) h
  simp only [List.getElem?_map] at hindex
  rw [Expansion.toList_text, getElem?_chars]
  cases hsymbol : expansion.symbols[index]? with
  | none =>
    rw [hsymbol, Option.map_none, Option.map_eq_none_iff] at hindex
    rw [hindex]
    rfl
  | some symbol =>
    rw [hsymbol, Option.map_some, Option.map_eq_some_iff] at hindex
    obtain ⟨source, hsource, hread⟩ := hindex
    rw [hsource, Option.bind_some, hread]

theorem map_char_joint (cs : List Char) (place : Nat) :
    ((Source.joint place).symbol? (Symbol.ofChars 0 cs)).map Symbol.char =
      if place < cs.length then some ' ' else none := by
  rw [Source.symbol?, Option.map_map]
  split
  case isTrue hplace =>
    rw [List.getElem?_eq_getElem (by rwa [length_ofChars])]
    rfl
  case isFalse hplace =>
    rw [List.getElem?_eq_none (by rw [length_ofChars]; omega)]
    rfl

/-- What follows one plan in two lines differs where the plan copies a character in which the
lines do. -/
theorem QuotedApart.copiedAlike (h : QuotedApart first second)
    (hplan : expansion.Follows first plan) (hplan' : expansion'.Follows second plan) :
    CopiedAlike first second expansion expansion' := by
  refine ⟨?_, plan, hplan, hplan', fun index hne => ?_⟩
  · have hlength := congrArg List.length hplan
    have hlength' := congrArg List.length hplan'
    rw [List.length_map, List.length_map] at hlength hlength'
    rw [← String.length_toList, ← String.length_toList, Expansion.toList_text,
      Expansion.toList_text, Symbol.chars, Symbol.chars, List.length_map, List.length_map,
      ← hlength, hlength']
  rw [hplan.getElem?, hplan'.getElem?] at hne
  have hinside : ∀ place, first[place]? ≠ second[place]? → place < first.length := by
    intro place hplace
    by_contra hnot
    have hlength := h.length_eq
    rw [List.getElem?_eq_none (by omega), List.getElem?_eq_none (by omega)] at hplace
    exact hplace rfl
  cases hsource : plan[index]? with
  | none => simp [hsource] at hne
  | some source =>
    rw [hsource, Option.bind_some, Option.bind_some] at hne
    cases source with
    | joint place =>
      -- a space that joins copies is the same in both
      refine absurd ?_ hne
      rw [map_char_joint, map_char_joint, h.length_eq]
    | typed place =>
      rw [Source.symbol?, Source.symbol?, ← getElem?_chars, ← getElem?_chars, Symbol.chars_ofChars,
        Symbol.chars_ofChars] at hne
      have hodd := mt (h.plain place (hinside place hne)) hne
      exact ⟨place, rfl, hne, by omega⟩

/-- Expansion does not look into quotes: it comes to a result for both of two lines that differ
only there, or for neither, and the results are copied alike. -/
theorem expand_requoted (first second : String) (h : QuotedApart first.toList second.toList) :
    Agree (CopiedAlike first.toList second.toList) (expand first) (expand second) := by
  have hsymbols := agree_expandSymbols (pairsJoints_sameSource _ _) h.requoted
  unfold expand
  generalize expandSymbols (Symbol.ofChars 0 first.toList) = result at hsymbols ⊢
  generalize expandSymbols (Symbol.ofChars 0 second.toList) = result' at hsymbols ⊢
  cases hsymbols with
  | error => exact .error
  | ok hout =>
    obtain ⟨plan, hplan, hplan'⟩ := exists_plan hout.forall₂
    exact .ok (h.copiedAlike hplan hplan')

/-- A quoted bracket, a star and a count are copied as a chord bracket, a blank and a letter of two
bytes are. -/
theorem expand_requoted_marks :
    QuotedApart "[c-\"*9]\"]2".toList "[c-\"é> \"]2".toList ∧
      Agree (CopiedAlike "[c-\"*9]\"]2".toList "[c-\"é> \"]2".toList)
        (expand "[c-\"*9]\"]2") (expand "[c-\"é> \"]2") :=
  ⟨⟨by decide, by decide, by decide⟩, expand_requoted _ _ ⟨by decide, by decide, by decide⟩⟩

/-- Both are written out. -/
example : (expand "[c-\"*9]\"]2").toOption.map Expansion.text = some "c-\"*9]\" c-\"*9]\"" ∧
    (expand "[c-\"é> \"]2").toOption.map Expansion.text = some "c-\"é> \" c-\"é> \"" := by
  decide +kernel

end Stave.Shorthand
