import Stave.Proofs.Brace.Loosened
import Stave.Shorthand.Piece

/-!
# Braces at the edge of a word

A copy of the brace is seated if it stands at the outer edge of its word: with nothing of the word
before it if it is glued to what follows, with nothing after it if it is glued to what precedes,
and with no star outside quotes that would count the brace in. The words of two lines that are the
same but for blanks beside seated braces then correspond.
-/
namespace Stave.Shorthand.Gap

/-- A word but for its outer edge: what a brace that is glued on there has before it or after it. -/
def inside (gap : Gap) (word : List Symbol) : List Symbol :=
  match gap.side with
  | .following => word.tail
  | .preceding => word.dropLast

/-- What is asked of a word of the tight line: a copy of the brace stands at its outer edge only,
and if there is one, the word has no star outside quotes. For a brace glued to what follows, the
stars are asked about once the chords are written out (`chorded`). -/
structure AtEdge (gap : Gap) (chorded : Bool) (word : List Symbol) : Prop where
  inner : ∀ symbol ∈ gap.inside word, symbol.origin ≠ gap.place
  unstarred : chorded = true ∨ gap.side = .preceding →
    (∃ symbol ∈ word, symbol.origin = gap.place) → '*' ∉ unquoted false (Symbol.chars word)

instance (gap : Gap) (chorded : Bool) (word : List Symbol) : Decidable (gap.AtEdge chorded word) :=
  decidable_of_iff
    ((∀ symbol ∈ gap.inside word, symbol.origin ≠ gap.place) ∧
      (chorded = true ∨ gap.side = .preceding →
        (∃ symbol ∈ word, symbol.origin = gap.place) → '*' ∉ unquoted false (Symbol.chars word)))
    ⟨fun h => ⟨h.1, h.2⟩, fun h => ⟨h.inner, h.unstarred⟩⟩

/-- What is asked of a brace with `rest` after it, where `inside` says whether something of its
word stands before it, and `starred` whether a star outside quotes does. -/
def Seat (gap : Gap) (chorded inside starred : Bool) (rest : List Symbol) : Prop :=
  match gap.side with
  | .following => inside = false ∧ (chorded = true →
      '*' ∉ unquoted false (Symbol.chars (Symbol.splitWord false rest).1))
  | .preceding => starred = false ∧ BlankNext rest

/-- Every copy of the brace is seated, in a line read on from the middle of a word or from outside
of one. -/
def Seated (gap : Gap) (chorded : Bool) (inside starred quoted : Bool) : List Symbol → Prop
  | [] => True
  | symbol :: rest =>
    (gap.IsBrace symbol → quoted = false → gap.Seat chorded inside starred rest) ∧
      Seated gap chorded (!(symbol.isBlank && !quoted))
        (!(symbol.isBlank && !quoted) && (starred || (symbol.char == '*' && !quoted)))
        (symbol.quotedAfter quoted) rest

variable {gap : Gap} {chorded inside starred quoted : Bool}
  {tight loose word after first second blanks : List Symbol} {brace symbol : Symbol}

theorem Seated.exists_of_append (h : gap.Seated chorded inside starred quoted (first ++ second)) :
    ∃ inside' starred',
      gap.Seated chorded inside' starred' (quotedAfterAll quoted first) second := by
  induction first generalizing inside starred quoted with
  | nil => exact ⟨inside, starred, h⟩
  | cons symbol first ih => exact ih h.2

theorem Seated.of_blankNext (h : gap.Seated chorded inside starred false tight)
    (hnext : BlankNext tight) (inside' starred' : Bool) :
    gap.Seated chorded inside' starred' false tight := by
  cases tight with
  | nil => trivial
  | cons symbol rest =>
    have hblank : symbol.isBlank = true := hnext symbol rfl
    refine ⟨fun isBrace _ => ?_, ?_⟩
    · rw [isBrace.not_blank] at hblank
      cases hblank
    · simpa [Seated, hblank] using h.2

/-! ### From words to symbols -/

/-- A line is seated if its first word has its braces at the edge and the rest is seated. -/
theorem seated_append (hblanks : BlanksQuoted quoted word)
    (hinner : ∀ symbol ∈ (match gap.side with
      | .following => if inside then word else word.tail
      | .preceding => word.dropLast), symbol.origin ≠ gap.place)
    (hstar : chorded = true ∨ gap.side = .preceding →
      (∃ symbol ∈ word, symbol.origin = gap.place) →
        starred = false ∧ '*' ∉ unquoted quoted (Symbol.chars word))
    (hclosed : after = [] ∨ quotedAfterAll quoted word = false)
    (hnext : BlankNext after) (hafter : gap.Seated chorded false false false after) :
    gap.Seated chorded inside starred quoted (word ++ after) := by
  -- along the word, of which a part may have been read: then it is all inner
  induction word generalizing inside starred quoted with
  | nil =>
    rcases hclosed with rfl | hopen
    · trivial
    · rw [quotedAfterAll_nil] at hopen
      subst hopen
      exact hafter.of_blankNext hnext _ _
  | cons symbol word ih =>
    have hink : (symbol.isBlank && !quoted) = false := by
      cases hblank : symbol.isBlank
      · rfl
      · rw [hblanks.1 hblank]
        rfl
    rw [List.cons_append]
    refine ⟨?_, ?_⟩
    · rintro isBrace rfl
      have hopen := isBrace.quotedAfter false
      have hword : BlanksQuoted false word := by simpa [hopen] using hblanks.2
      rw [quotedAfterAll_cons, hopen] at hclosed
      have hfree := fun hside => hstar hside ⟨symbol, List.mem_cons_self, isBrace.place⟩
      unfold Seat
      cases hside : gap.side with
      | following =>
        simp only [hside, reduceCtorEq, or_false] at hinner hfree ⊢
        refine ⟨?_, fun hchorded hmem => ?_⟩
        · cases inside with
          | false => rfl
          | true => exact absurd isBrace.place (hinner symbol List.mem_cons_self)
        · rw [splitWord_append_of_blanksQuoted hword hclosed hnext] at hmem
          exact (hfree hchorded).2 (mem_unquoted_cons (by rwa [hopen]))
      | preceding =>
        simp only [hside, or_true, true_implies] at hinner hfree ⊢
        refine ⟨hfree.1, ?_⟩
        cases word with
        | nil => exact hnext
        | cons second word =>
          exact absurd isBrace.place (hinner symbol (by simp))
    · rw [hink]
      refine ih hblanks.2 ?_ ?_ hclosed
      · intro other hmem
        refine hinner other ?_
        cases hside : gap.side with
        | following =>
          simp only [hside, Bool.not_false, if_true, List.tail_cons] at hmem ⊢
          split
          · exact List.mem_cons_of_mem _ hmem
          · exact hmem
        | preceding =>
          simp only [hside] at hmem ⊢
          cases word with
          | nil => cases hmem
          | cons second word => exact List.mem_cons_of_mem _ hmem
      · rintro hside ⟨other, hmem, horigin⟩
        obtain ⟨hstarred, hfree⟩ := hstar hside ⟨other, List.mem_cons_of_mem _ hmem, horigin⟩
        refine ⟨?_, fun hword => hfree (mem_unquoted_cons hword)⟩
        rw [unquoted_chars_cons] at hfree
        cases hsign : (symbol.char == '*' && !quoted) with
        | false => rw [hstarred]; rfl
        | true =>
          simp only [Bool.and_eq_true, beq_iff_eq, Bool.not_eq_true'] at hsign
          rw [if_neg (by simp [Symbol.isQuote, hsign]), hsign.1] at hfree
          exact absurd List.mem_cons_self hfree

theorem seated_of_words (position : Nat)
    (h : ∀ word ∈ Word.split position tight, gap.AtEdge chorded word.symbols) :
    gap.Seated chorded false false false tight := by
  fun_induction Word.split position tight with
  | case1 => trivial
  | case2 position symbol rest hblank ih =>
    have hopen : symbol.quotedAfter false = false := by
      rw [Symbol.quotedAfter, not_isQuote_of_isBlank hblank]
      rfl
    refine ⟨fun isBrace => ?_, ?_⟩
    · rw [isBrace.not_blank] at hblank
      cases hblank
    · simpa [hblank, hopen] using ih h
  | case3 position symbol rest hblank tail ih =>
    obtain ⟨hword, hwords⟩ := List.forall_mem_cons.1 h
    have hquoted := blanksQuoted_splitWord (symbol.quotedAfter false) rest
    have hblanks : BlanksQuoted false (symbol :: tail.1) :=
      ⟨fun hink => absurd hink hblank, hquoted⟩
    rw [← Symbol.splitWord_append (symbol.quotedAfter false) rest, ← List.cons_append]
    refine seated_append hblanks ?_ ?_ ?_ (blankNext_splitWord _ _) (ih hwords)
    · exact hword.inner
    · exact fun hside hmem => ⟨rfl, hword.unstarred hside hmem⟩
    · exact (splitWord_rest (symbol.quotedAfter false) rest).imp_right And.left

/-! ### The words of the two lines -/

/-- The rest of a word in the tight line and in the loose one, with what comes after: the same
symbols, or without the brace that is glued to them in the tight line. -/
inductive WordPair (gap : Gap) (starred quoted : Bool) :
    List Symbol × List Symbol → List Symbol × List Symbol → Prop where
  | whole {word after' after : List Symbol}
      (word_loosened : gap.Loosened quoted word (word.map (Symbol.moved gap.move)))
      (after_loosened : gap.Loosened false after' after) :
      WordPair gap starred quoted (word, after') (word.map (Symbol.moved gap.move), after)
  | parted {word after' after blanks : List Symbol} {brace : Symbol}
      (side : gap.side = .preceding) (isBrace : gap.IsBrace brace)
      (blank : ∀ symbol ∈ blanks, symbol.isBlank = true) (nonempty : blanks ≠ [])
      (unstarred : starred = false) (free : '*' ∉ unquoted quoted (Symbol.chars (word ++ [brace])))
      (word_loosened : gap.Loosened quoted word (word.map (Symbol.moved gap.move)))
      (word_quoted : quotedAfterAll quoted word = false) (next : BlankNext after')
      (after_loosened : gap.Loosened false after' after) :
      WordPair gap starred quoted (word ++ [brace], after')
        (word.map (Symbol.moved gap.move), blanks ++ brace.moved gap.move :: after)

theorem Loosened.blankNext (h : gap.Loosened quoted tight loose) (hnext : BlankNext tight) :
    BlankNext loose := by
  cases h with
  | nil => exact blankNext_nil
  | @keep _ symbol tight loose typed rest => exact blankNext_cons (hnext symbol rfl)
  | @brace brace blanks tight loose isBrace blank rest =>
    have hblank := hnext brace rfl
    rw [isBrace.not_blank] at hblank
    cases hblank

theorem splitWord_of_blankNext (hnext : BlankNext after) :
    Symbol.splitWord false after = ([], after) := by
  cases after with
  | nil => rfl
  | cons symbol rest =>
    have hblank : symbol.isBlank = true := hnext symbol rfl
    simp [Symbol.splitWord, hblank]

/-- Inside a word, the rest of it corresponds in the two lines. -/
theorem wordPair_of_seated (h : gap.Loosened quoted tight loose)
    (hseat : gap.Seated chorded true starred quoted tight)
    (hclosed : quotedAfterAll quoted tight = false) :
    gap.WordPair starred quoted (Symbol.splitWord quoted tight)
      (Symbol.splitWord quoted loose) := by
  induction h generalizing starred with
  | nil => exact .whole .nil .nil
  | @keep quoted symbol tight loose typed rest ih =>
    rw [Symbol.splitWord, Symbol.splitWord]
    by_cases hblank : (symbol.isBlank && !quoted) = true
    · obtain ⟨hink, rfl⟩ : symbol.isBlank = true ∧ quoted = false := by simpa using hblank
      have hmoved : ((symbol.moved gap.move).isBlank && !false) = true := hblank
      rw [if_pos hblank, if_pos hmoved]
      exact .whole .nil (.keep typed rest)
    · rw [if_neg hblank,
        if_neg (show ¬((symbol.moved gap.move).isBlank && !quoted) = true from hblank)]
      have hnext := hseat.2
      rw [Bool.not_eq_true] at hblank
      rw [hblank] at hnext
      have hpair := ih hnext hclosed
      rw [Symbol.quotedAfter_moved]
      generalize Symbol.splitWord (symbol.quotedAfter quoted) tight = pair' at hpair ⊢
      generalize Symbol.splitWord (symbol.quotedAfter quoted) loose = pair at hpair ⊢
      cases hpair with
      | whole hword hafter => exact .whole (.keep typed hword) hafter
      | parted side isBrace blank nonempty unstarred free hword hquoted next hafter =>
        simp only [Bool.not_false, Bool.true_and, Bool.or_eq_false_iff] at unstarred
        refine .parted side isBrace blank nonempty unstarred.1 ?_ (.keep typed hword) hquoted next
          hafter
        rw [List.cons_append, unquoted_chars_cons]
        split
        · exact free
        case isFalse hplain =>
          rw [List.mem_cons, not_or]
          refine ⟨fun hstar => ?_, free⟩
          simp only [Bool.or_eq_true, not_or, Bool.not_eq_true] at hplain
          simp [← hstar, hplain.2] at unstarred
  | @brace brace blanks tight loose isBrace blank rest ih =>
    have hbrace := hseat.1 isBrace rfl
    unfold Seat at hbrace
    unfold spread
    cases hside : gap.side with
    | following => simp [hside] at hbrace
    | preceding =>
      simp only [hside] at hbrace ⊢
      obtain ⟨hstarred, hnext⟩ := hbrace
      have htight : Symbol.splitWord false (brace :: tight) = ([brace], tight) := by
        rw [splitWord_cons (by simp [isBrace.not_blank]), isBrace.quotedAfter,
          splitWord_of_blankNext hnext]
      rw [htight]
      cases blanks with
      | nil =>
        have hloose : Symbol.splitWord false ([] ++ [brace.moved gap.move] ++ loose) =
            ([brace].map (Symbol.moved gap.move), loose) := by
          rw [List.nil_append, List.singleton_append,
            splitWord_cons (by simp [isBrace.not_blank]), Symbol.quotedAfter_moved,
            isBrace.quotedAfter, splitWord_of_blankNext (rest.blankNext hnext)]
          rfl
        rw [hloose]
        refine .whole ?_ rest
        have hbrace : gap.Loosened false [brace] (gap.spread (brace.moved gap.move) [] ++ []) :=
          .brace isBrace (List.forall_mem_nil _) .nil
        simpa [spread, hside] using hbrace
      | cons symbol blanks =>
        have hblank : symbol.isBlank = true := blank symbol List.mem_cons_self
        rw [List.append_assoc, List.cons_append, splitWord_of_blankNext (blankNext_cons hblank)]
        have hfree : '*' ∉ unquoted false (Symbol.chars ([] ++ [brace])) := by
          simp [Symbol.chars, unquoted, isBrace.ne.2.2.1.symm]
        exact .parted hside isBrace blank (List.cons_ne_nil _ _) hstarred hfree .nil rfl hnext rest

end Stave.Shorthand.Gap
