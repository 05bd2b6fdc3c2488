import Stave.Proofs.Brace.Groups
import Stave.Proofs.Brace.Seated
import Stave.Proofs.Repeat.Unquoted

/-!
# Chords of a loosened line

A chord opens and closes at the same brackets in a tight line and a loose one. What is repeated
with it, up to the end of its word, is the same too if the braces of the tight line are seated: a
brace at the end of that word stands alone in the loose line, but then there is no star before it.
-/
namespace Stave.Shorthand.Repeat

variable {gap : Gap} {chorded inside starred quoted : Bool} {size size' kept kept' : Nat}
  {tight loose rest rest' written written' chord chord' tail text digits : List Symbol}
  {star symbol : Symbol} {previous previous' : Char}

/-! ### Counts of words -/

/-- A part of a list that is moved along as a whole is moved along. -/
theorem loosened_of_append {first second : List Symbol}
    (h : gap.Loosened quoted (first ++ second) ((first ++ second).map (Symbol.moved gap.move))) :
    gap.Loosened quoted first (first.map (Symbol.moved gap.move)) ∧
      gap.Loosened (quotedAfterAll quoted first) second (second.map (Symbol.moved gap.move)) := by
  obtain ⟨before, after, hsplit, hbefore, hafter⟩ := h.exists_of_append
  rw [List.map_append] at hsplit
  have htotal := congrArg List.length hsplit
  have hfirst := hbefore.length_le
  have hsecond := hafter.length_le
  simp only [List.length_append, List.length_map] at htotal
  obtain ⟨rfl, rfl⟩ := List.append_inj hsplit (by rw [List.length_map]; omega)
  exact ⟨hbefore, hafter⟩

/-- A count that ends a word is read in both lines, or in neither. -/
theorem follows_readWordCount (gap : Gap) (star' star : Symbol) (digits : List Symbol) :
    Follows (fun count' count => count' = count ∧ 0 < count) (readWordCount star' digits)
      (readWordCount star (digits.map (Symbol.moved gap.move))) := by
  unfold readWordCount
  cases hread : readCount star'.origin digits with
  | ok result =>
    obtain ⟨count, used⟩ := result
    rw [readCount_map_moved gap.move star.origin hread]
    dsimp only [bind, Except.bind]
    rw [List.length_map]
    split
    · exact .ok ⟨rfl, (readCount_eq_ok hread).1⟩
    · exact .error
  | error failure =>
    cases hmoved : readCount star.origin (digits.map (Symbol.moved gap.move)) with
    | error => exact .error
    | ok result =>
      have hsame := readCount_map_moved gap.back star'.origin hmoved
      rw [gap.map_back_map_move, hread] at hsame
      cases hsame

/-! ### One chord -/

/-- What is written for a chord: texts that are loosened alike and leave no quotation open, and the
lengths of the lines with them. -/
structure ChordWritten (gap : Gap) (kept' kept : Nat) (result' result : Nat × List Symbol) :
    Prop where
  text : gap.Loosened false result'.2 result.2
  closed : quotedAfterAll false result'.2 = false
  size' : result'.1 = kept' + result'.2.length
  size : result.1 = kept + result.2.length

theorem follows_writeChord (hchord : gap.Loosened false chord' chord)
    (hchordClosed : quotedAfterAll false chord' = false)
    (htail : gap.Loosened false tail (tail.map (Symbol.moved gap.move)))
    (htailClosed : quotedAfterAll false tail = false) (hkept : kept' ≤ kept)
    (hsize' : size' = kept' + (chord'.length + tail.length))
    (hsize : size = kept + (chord.length + tail.length)) :
    Follows (ChordWritten gap kept' kept) (writeChord size' chord' tail)
      (writeChord size chord (tail.map (Symbol.moved gap.move))) := by
  unfold writeChord
  rw [chordStar_map_moved]
  cases hfound : chordStar tail with
  | none =>
    refine .ok ⟨hchord.append (by rwa [hchordClosed]), ?_, ?_, ?_⟩
    · rw [quotedAfterAll_append, hchordClosed, htailClosed]
    · rw [List.length_append, hsize']
    · rw [List.length_append, List.length_map, hsize]
  | some found =>
    obtain ⟨suffix, star, digits⟩ := found
    obtain ⟨rfl, hstar⟩ := chordStar_eq_some hfound
    have hsuffixClosed := quotedAfterAll_of_splitLastStar (Option.filter_eq_some_iff.1 hfound).1
    obtain ⟨hsuffix, hrest⟩ := loosened_of_append htail
    rw [hsuffixClosed] at hrest
    obtain ⟨_, -, htyped, -⟩ := hrest.exists_of_cons fun isBrace => isBrace.ne.2.2.1 hstar
    have hunitClosed : quotedAfterAll false (chord' ++ suffix) = false := by
      rw [quotedAfterAll_append, hchordClosed, hsuffixClosed]
    have hunit : gap.Loosened false (chord' ++ suffix)
        (chord ++ suffix.map (Symbol.moved gap.move)) :=
      hchord.append (by rwa [hchordClosed])
    dsimp only [Option.map_some]
    refine (follows_readWordCount gap _ _ digits).bind ?_
    rintro count _ ⟨rfl, hpos⟩
    have hkeeps : size' - (chord'.length + (suffix ++ star :: digits).length) ≤
        size - (chord.length +
          ((suffix ++ star :: digits).map (Symbol.moved gap.move)).length) := by
      rw [List.length_map]
      omega
    refine (follows_grow hkeeps hunit.length_le).bind ?_
    rintro grown' grown ⟨rfl, rfl⟩
    refine .ok ⟨loosened_copies hunit hunitClosed htyped count, quotedAfterAll_copies hunitClosed,
      ?_, ?_⟩
    · dsimp only
      rw [length_copies hpos]
      omega
    · dsimp only
      rw [length_copies hpos, List.length_map]
      omega

/-! ### The end of a chord -/

theorem loosened_escapedBy (h : gap.Loosened quoted tight loose) :
    escapedBy loose.reverse = escapedBy tight.reverse := by
  rcases List.eq_nil_or_concat tight with rfl | ⟨init, last, rfl⟩
  · rw [h.eq_nil]
  rw [List.concat_eq_append] at h ⊢
  obtain ⟨before, after, rfl, hbefore, hafter⟩ := h.exists_of_append
  generalize quotedAfterAll quoted init = state at hafter
  cases hafter with
  | keep typed rest =>
    rw [rest.eq_nil]
    simp [escapedBy]
  | @brace _ blanks _ _ isBrace blank rest =>
    rw [rest.eq_nil, List.append_nil]
    have hlast : ∃ others last', gap.spread (last.moved gap.move) blanks = others ++ [last'] := by
      unfold Gap.spread
      cases gap.side with
      | following =>
        rcases List.eq_nil_or_concat blanks with rfl | ⟨others, symbol, rfl⟩
        · exact ⟨[], _, rfl⟩
        · rw [List.concat_eq_append]
          exact ⟨_ :: others, symbol, rfl⟩
      | preceding => exact ⟨blanks, _, rfl⟩
    obtain ⟨others, last', hspread⟩ := hlast
    have hmem : last' ∈ gap.spread (last.moved gap.move) blanks := by
      rw [hspread]
      exact List.mem_append_right _ List.mem_cons_self
    have hplain := (plain_of_mem_spread isBrace blank hmem).2.2
    rw [hspread]
    simp [escapedBy, hplain, isBrace.not_escapes]

/-- A chord that is looked for past blanks and braces. -/
theorem splitChord_append {others : List Symbol} (previous : Char) (rest : List Symbol)
    (hne : others ≠ [])
    (h : ∀ symbol ∈ others, symbol.isQuote = false ∧ symbol.char ∉ ['[', ']', '*', '<', '>'] ∧
      Symbol.escapes symbol.char = false) :
    ∃ last, Symbol.escapes last = false ∧
      splitChord previous false (others ++ rest) =
        (splitChord last false rest).map fun (body, after) => (others ++ body, after) := by
  induction others generalizing previous with
  | nil => exact absurd rfl hne
  | cons symbol others ih =>
    obtain ⟨⟨hquote, hsigns, hplain⟩, hothers⟩ := List.forall_mem_cons.1 h
    simp only [List.mem_cons, not_or] at hsigns
    have hstep : splitChord previous false (symbol :: (others ++ rest)) =
        (splitChord symbol.char false (others ++ rest)).map
          fun (body, after) => (symbol :: body, after) := by
      rw [splitChord, if_neg (by simp [hsigns]), if_neg (by simp [hsigns]), Symbol.quotedAfter,
        hquote, Bool.bne_false]
    rw [List.cons_append, hstep]
    cases others with
    | nil => exact ⟨symbol.char, hplain, rfl⟩
    | cons second others =>
      obtain ⟨last, hlast, heq⟩ := ih symbol.char (List.cons_ne_nil _ _) hothers
      refine ⟨last, hlast, ?_⟩
      rw [heq, Option.map_map]
      rfl

/-- What follows an opening bracket in the two lines: a chord that closes at the same place, with
the rest of a word after it, or none. -/
inductive ChordPair (gap : Gap) (chorded quoted : Bool) :
    Option (List Symbol × List Symbol) → Option (List Symbol × List Symbol) → Prop where
  | none : ChordPair gap chorded quoted none none
  | some {starred : Bool} {body' body after' after : List Symbol}
      (body_loosened : gap.Loosened quoted body' body)
      (body_closed : quotedAfterAll quoted body' = false)
      (after_loosened : gap.Loosened false after' after)
      (seated : gap.Seated chorded true starred false after') :
      ChordPair gap chorded quoted (some (body', after')) (some (body, after))

theorem ChordPair.append {others' others : List Symbol}
    {pair' pair : Option (List Symbol × List Symbol)}
    (hothers : gap.Loosened quoted others' others)
    (h : ChordPair gap chorded (quotedAfterAll quoted others') pair' pair) :
    ChordPair gap chorded quoted (pair'.map fun (body, after) => (others' ++ body, after))
      (pair.map fun (body, after) => (others ++ body, after)) := by
  cases h with
  | none => exact .none
  | some hbody hclosed hafter hseat =>
    exact .some (hothers.append hbody) (by rwa [quotedAfterAll_append]) hafter hseat

theorem chordPair_of_seated (h : gap.Loosened quoted rest' rest)
    (hseat : gap.Seated chorded inside starred quoted rest')
    (hprevious : Symbol.escapes previous' = Symbol.escapes previous) :
    ChordPair gap chorded quoted (splitChord previous' quoted rest')
      (splitChord previous quoted rest) := by
  induction h generalizing previous' previous inside starred with
  | nil => exact .none
  | @keep quoted symbol tight loose typed rest ih =>
    unfold splitChord
    rw [hprevious, Symbol.char_moved, Symbol.quotedAfter_moved]
    split
    · exact .none
    split
    case isTrue hclose =>
      simp only [Bool.and_eq_true, Bool.not_eq_true', decide_eq_true_eq] at hclose
      obtain ⟨⟨rfl, -⟩, hchar⟩ := hclose
      have hink : symbol.isBlank = false := by
        rw [Symbol.isBlank, hchar]
        decide
      have hopen : symbol.quotedAfter false = false := by
        rw [Symbol.quotedAfter, Symbol.isQuote, hchar]
        rfl
      have hnext := hseat.2
      rw [hink, hopen] at hnext
      rw [hopen] at rest
      exact .some (.keep typed .nil) hopen rest hnext
    case isFalse =>
      have hsymbol : gap.Loosened quoted [symbol] [symbol.moved gap.move] := .keep typed .nil
      have hpair : ChordPair gap chorded (symbol.quotedAfter quoted)
          (splitChord symbol.char (symbol.quotedAfter quoted) tight)
          (splitChord symbol.char (symbol.quotedAfter quoted) loose) := ih hseat.2 rfl
      exact ChordPair.append hsymbol hpair
  | @brace brace blanks tight loose isBrace blank rest ih =>
    have hbrace : ∀ symbol ∈ [brace], symbol.isQuote = false ∧
        symbol.char ∉ ['[', ']', '*', '<', '>'] ∧ Symbol.escapes symbol.char = false := by
      obtain ⟨hopen, hclose, hstar, hless, hgreater⟩ := isBrace.ne
      simp [isBrace.not_quote, isBrace.not_escapes, hopen, hclose, hstar, hless, hgreater]
    have hne : gap.spread (brace.moved gap.move) blanks ≠ [] :=
      List.ne_nil_of_mem (Gap.mem_spread.2 (.inl rfl))
    obtain ⟨last', hlast', htight⟩ :=
      splitChord_append previous' tight (List.cons_ne_nil brace []) hbrace
    obtain ⟨last, hlast, hloose⟩ :=
      splitChord_append previous loose hne fun _ => plain_of_mem_spread isBrace blank
    have hnext := hseat.2
    rw [isBrace.quotedAfter] at hnext
    have hpair := ih hnext (hlast'.trans hlast.symm)
    have hspread : gap.Loosened false [brace] (gap.spread (brace.moved gap.move) blanks) := by
      simpa using Gap.Loosened.brace isBrace blank .nil
    rw [List.singleton_append] at htight
    rw [htight, hloose]
    refine ChordPair.append hspread ?_
    rwa [quotedAfterAll_cons, isBrace.quotedAfter]

/-- A chord opens in both lines, or in neither. -/
theorem chordPair_chordAt? (hrest : gap.Loosened (symbol.quotedAfter quoted) rest' rest)
    (hwritten : gap.Loosened false written'.reverse written.reverse)
    (hseat : gap.Seated chorded inside starred (symbol.quotedAfter quoted) rest') :
    ChordPair gap chorded false (chordAt? written' quoted symbol rest')
      (chordAt? written quoted (symbol.moved gap.move) rest) := by
  have hescaped := loosened_escapedBy hwritten
  rw [List.reverse_reverse, List.reverse_reverse] at hescaped
  unfold escapedBy at hescaped
  unfold chordAt?
  dsimp only
  rw [hescaped, Symbol.char_moved]
  split
  case isTrue hstart =>
    simp only [Bool.and_eq_true, Bool.not_eq_true', decide_eq_true_eq] at hstart
    obtain ⟨⟨hchar, rfl⟩, -⟩ := hstart
    have hopen : symbol.quotedAfter false = false := by
      rw [Symbol.quotedAfter, Symbol.isQuote, hchar]
      rfl
    rw [hopen] at hrest hseat
    exact chordPair_of_seated hrest hseat rfl
  case isFalse => exact .none

/-! ### The pass -/

theorem writeChords_append (h : ∀ symbol ∈ text, symbol.isQuote = false ∧ symbol.char ≠ '<') :
    writeChords size written false (text ++ rest) =
      writeChords size (text.reverse ++ written) false rest := by
  induction text generalizing written with
  | nil => rfl
  | cons symbol text ih =>
    obtain ⟨⟨hquote, hopen⟩, htext⟩ := List.forall_mem_cons.1 h
    have hnone : chordAt? written false symbol (text ++ rest) = none := by
      simp [chordAt?, hopen]
    rw [List.cons_append, writeChords_none hnone, Symbol.quotedAfter, hquote, Bool.bne_false,
      ih htext, List.reverse_cons, List.append_assoc]
    rfl

theorem not_mem_unquoted_of_append {c : Char} {first second : List Symbol}
    (h : c ∉ unquoted quoted (Symbol.chars (first ++ second))) :
    c ∉ unquoted quoted (Symbol.chars first) := by
  rw [unquoted_chars_append] at h
  exact fun hmem => h (List.mem_append_left _ hmem)

theorem plainChord_of_mem_spread {brace : Symbol} {blanks : List Symbol}
    (hbrace : gap.IsBrace brace) (hblanks : ∀ symbol ∈ blanks, symbol.isBlank = true)
    (symbol : Symbol) (h : symbol ∈ gap.spread (brace.moved gap.move) blanks) :
    symbol.isQuote = false ∧ symbol.char ≠ '<' := by
  obtain ⟨hquote, hsigns, -⟩ := plain_of_mem_spread hbrace hblanks h
  simp only [List.mem_cons, not_or] at hsigns
  exact ⟨hquote, hsigns.2.2.2.1⟩

/-- A chord with the rest of its word is written in both lines, or in neither, and from there the
pass goes on in related lines. A brace that stands alone in the loose line is passed over. -/
theorem follows_chord {pair' pair : List Symbol × List Symbol}
    (hchord : gap.Loosened false chord' chord)
    (hchordClosed : quotedAfterAll false chord' = false)
    (hpair : gap.WordPair starred false pair' pair)
    (hwordClosed : quotedAfterAll false pair'.1 = false)
    (hwritten : written'.length ≤ written.length)
    (hsize' : size' = written'.length + (chord'.length + (pair'.1.length + pair'.2.length)))
    (hsize : size = written.length + (chord.length + (pair.1.length + pair.2.length)))
    (hnext : ∀ grown' grown text' text more, gap.Loosened false text' text →
      quotedAfterAll false text' = false → gap.Loosened false pair'.2 more →
      grown' = text'.length + written'.length + pair'.2.length →
      grown = text.length + written.length + more.length →
        Follows (gap.Loosened false) (writeChords grown' (text'.reverse ++ written') false pair'.2)
          (writeChords grown (text.reverse ++ written) false more)) :
    Follows (gap.Loosened false)
      (writeChord size' chord' pair'.1 >>= fun result =>
        writeChords result.1 (result.2.reverse ++ written') false pair'.2)
      (writeChord size chord pair.1 >>= fun result =>
        writeChords result.1 (result.2.reverse ++ written) false pair.2) := by
  cases hpair with
  | @whole word more' more hword hmore =>
    have hmoreLength := hmore.length_le
    dsimp only at *
    have hkept : written'.length + more'.length ≤ written.length + more.length := by omega
    refine (follows_writeChord hchord hchordClosed hword hwordClosed hkept (by omega) ?_).bind ?_
    · rw [List.length_map] at hsize
      omega
    rintro ⟨grown', text'⟩ ⟨grown, text⟩ ⟨htext, htextClosed, hgrown', hgrown⟩
    dsimp only at htext htextClosed hgrown' hgrown
    exact hnext grown' grown text' text more htext htextClosed hmore (by omega) (by omega)
  | @parted word more' more blanks brace side isBrace blank nonempty unstarred free hword
      hquotedWord next hmore =>
    dsimp only at *
    have hfree : '*' ∉ unquoted false (Symbol.chars (word.map (Symbol.moved gap.move))) := by
      rw [Symbol.chars_map_moved]
      exact not_mem_unquoted_of_append free
    have hspread := Gap.Loosened.brace isBrace blank .nil
    have hplain := plainChord_of_mem_spread isBrace blank
    rw [List.append_nil, Gap.spread_of_preceding side] at hspread
    rw [Gap.spread_of_preceding side] at hplain
    have htext : gap.Loosened false (chord' ++ (word ++ [brace]))
        (chord ++ word.map (Symbol.moved gap.move) ++ (blanks ++ [brace.moved gap.move])) := by
      rw [← List.append_assoc]
      refine (hchord.append (by rwa [hchordClosed])).append ?_
      rwa [quotedAfterAll_append, hchordClosed, hquotedWord]
    have htextClosed : quotedAfterAll false (chord' ++ (word ++ [brace])) = false := by
      rw [quotedAfterAll_append, hchordClosed, hwordClosed]
    have hlast := hnext size' size _ _ more htext htextClosed hmore
    rw [writeChord_eq_of_unquoted free, writeChord_eq_of_unquoted hfree]
    dsimp only [bind, Except.bind]
    rw [List.append_cons blanks, writeChords_append hplain]
    simp only [List.length_append, List.length_cons, List.length_nil, List.length_map]
      at hsize' hsize hlast
    simp only [List.reverse_append, List.append_assoc] at hlast ⊢
    exact hlast (by omega) (by omega)

/-- The pass over chords, from related places of the two lines on. -/
theorem follows_writeChords (hrest : gap.Loosened quoted rest' rest)
    (hclosed : quotedAfterAll quoted rest' = false)
    (hseat : gap.Seated chorded inside starred quoted rest')
    (hwritten : gap.Loosened false written'.reverse written.reverse)
    (hquoted : quotedAfterAll false written'.reverse = quoted)
    (hsize' : size' = written'.length + rest'.length)
    (hsize : size = written.length + rest.length) :
    Follows (gap.Loosened false) (writeChords size' written' quoted rest')
      (writeChords size written quoted rest) := by
  -- on the length, for a chord is taken off with the rest of its word
  induction hlength : rest'.length using Nat.strongRecOn generalizing quoted size' size
    inside starred written' written rest' rest with
  | _ length ih => ?_
  subst hlength
  cases hrest with
  | nil =>
    rw [writeChords, writeChords]
    exact .ok hwritten
  | @keep _ symbol rest' rest typed hrest =>
    have hpair := chordPair_chordAt? hrest hwritten hseat.2
    rw [List.length_cons] at hsize' hsize
    generalize hfound' : chordAt? written' quoted symbol rest' = pair' at hpair
    generalize hfound : chordAt? written quoted (symbol.moved gap.move) rest = pair at hpair
    cases hpair with
    | none =>
      rw [writeChords_none hfound', writeChords_none hfound]
      refine ih _ (Nat.lt_succ_self _) hrest hclosed hseat.2 (loosened_reverse_cons typed hwritten)
        ?_ ?_ ?_ rfl
      · rw [quotedAfterAll_reverse_cons, hquoted]
      all_goals rw [List.length_cons]; omega
    | @some starred' body' body after' after hbody hbodyClosed hafter hseated =>
      obtain ⟨hchar, rfl, -, hchordClosed⟩ := chordAt?_opens hfound'
      obtain rfl := chordAt?_eq_some hfound'
      obtain rfl := chordAt?_eq_some hfound
      have hchord : gap.Loosened false (symbol :: body') (symbol.moved gap.move :: body) := by
        refine .keep typed ?_
        rwa [Symbol.quotedAfter, Symbol.isQuote, hchar]
      rw [← List.cons_append, quotedAfterAll_append, hchordClosed] at hclosed
      have hsplit := Symbol.splitWord_append false after'
      have hlength' := congrArg List.length hsplit
      have hlength := congrArg List.length (Symbol.splitWord_append false after)
      have hwordClosed := closed_splitWord hclosed
      have hpair := Gap.wordPair_of_seated hafter hseated hclosed
      rw [← hsplit] at hseated
      obtain ⟨inside', starred', hseatMore⟩ := hseated.exists_of_append
      rw [hwordClosed] at hseatMore
      have hwrittenLength := hwritten.length_le
      simp only [List.length_append, List.length_reverse]
        at hlength' hlength hwrittenLength hsize' hsize
      rw [writeChords_some hfound', writeChords_some hfound]
      refine follows_chord hchord hchordClosed hpair hwordClosed hwrittenLength ?_ ?_ ?_
      · rw [List.length_cons]
        omega
      · rw [List.length_cons]
        omega
      intro grown' grown text' text more htext htextClosed hmore hgrown' hgrown
      refine ih _ ?_ hmore (quotedAfterAll_splitWord_eq hclosed) hseatMore ?_ ?_ ?_ ?_ rfl
      · rw [List.length_cons, List.length_append]
        omega
      · rw [List.reverse_append, List.reverse_append, List.reverse_reverse, List.reverse_reverse]
        refine hwritten.append ?_
        rwa [hquoted]
      · rw [List.reverse_append, List.reverse_reverse, quotedAfterAll_append, hquoted, htextClosed]
      all_goals rw [List.length_append, List.length_reverse]; omega
  | @brace brace blanks rest' rest isBrace blank hrest =>
    have hbrace : ∀ symbol ∈ [brace], symbol.isQuote = false ∧ symbol.char ≠ '<' := by
      simpa using ⟨isBrace.not_quote, isBrace.ne.2.2.2.1⟩
    have hopen := isBrace.quotedAfter false
    have hnext := hseat.2
    rw [hopen] at hnext
    rw [quotedAfterAll_cons, hopen] at hclosed
    rw [writeChords_append (plainChord_of_mem_spread isBrace blank),
      show brace :: rest' = [brace] ++ rest' from rfl, writeChords_append hbrace]
    refine ih _ (Nat.lt_succ_self _) hrest hclosed hnext ?_ ?_ ?_ ?_ rfl
    · rw [List.reverse_append, List.reverse_append, List.reverse_reverse, List.reverse_reverse]
      refine hwritten.append ?_
      rw [hquoted]
      simpa using Gap.Loosened.brace isBrace blank .nil
    · rw [List.reverse_append, List.reverse_reverse, quotedAfterAll_append, hquoted]
      exact hopen
    all_goals
      simp only [List.length_append, List.length_reverse, List.length_cons, List.length_nil] at *
      omega

/-- Writing out the chords leaves a loose line loosened alike. -/
theorem follows_expandChords (h : gap.Loosened false tight loose)
    (hclosed : quotedAfterAll false tight = false)
    (hseat : gap.Seated chorded false false false tight) :
    Follows (gap.Loosened false) (expandChords tight) (expandChords loose) :=
  follows_writeChords h hclosed hseat .nil rfl (by simp) (by simp)

end Stave.Shorthand.Repeat
