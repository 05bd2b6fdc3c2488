import Stave.Proofs.Expansion.Again
import Stave.Proofs.Repeat.Bounded

/-!
# Expansion ends within bounds

An expansion is three passes, over groups, chords and words, each over what the one before came to.
Every pass ends after a number of steps that can be read off its line, and no line on the way that
was spliced is too long: so an expansion is the line itself, or it is not too long. No bracket is
left outside quotes in it.
-/
namespace Stave.Shorthand

/-- The passes over a text, in the order they are made and as far as they come. -/
structure PassesBounded (text : String) : Prop where
  /-- A text is expanded by its groups, then its chords, then its words; the first pass that fails
  is the last. -/
  inOrder : (expand text).map Expansion.symbols =
    (do
      let grouped ← Repeat.expandGroups (Symbol.ofChars 0 text.toList)
      let chorded ← Repeat.expandChords grouped
      Repeat.expandWords chorded).mapError fun failure : RepeatFailure =>
        ⟨failure.fault, failure.offset, text⟩
  groups : ∃ lines, Repeat.GroupRun (Symbol.ofChars 0 text.toList) lines
    (Repeat.expandGroups (Symbol.ofChars 0 text.toList))
  chords : ∀ grouped, Repeat.expandGroups (Symbol.ofChars 0 text.toList) = .ok grouped →
    ∃ states, Repeat.PassRun Repeat.chordTurn grouped states (Repeat.expandChords grouped)
  words : ∀ grouped chorded, Repeat.expandGroups (Symbol.ofChars 0 text.toList) = .ok grouped →
    Repeat.expandChords grouped = .ok chorded →
      ∃ states, Repeat.PassRun Repeat.wordTurn chorded states (Repeat.expandWords chorded)

variable {line out : List Symbol}

theorem within_of_expandSymbols (h : expandSymbols line = .ok out) : Repeat.Within line out := by
  unfold expandSymbols at h
  obtain ⟨grouped, hgroups, h⟩ := bind_ok_iff.1 h
  obtain ⟨chorded, hchords, hwords⟩ := bind_ok_iff.1 h
  exact (Repeat.within_expandGroups hgroups).trans
    ((Repeat.within_expandChords hchords).trans (Repeat.within_expandWords hwords))

theorem passesBounded (text : String) : PassesBounded text where
  inOrder := by
    change _ = (expandSymbols (Symbol.ofChars 0 text.toList)).mapError _
    unfold expand
    cases expandSymbols (Symbol.ofChars 0 text.toList) <;> rfl
  groups := Repeat.exists_groupRun _
  chords grouped _ := Repeat.exists_chordRun grouped
  words _ chorded _ _ := Repeat.exists_wordRun chorded

/-- Whatever is typed, it is expanded by three passes that end within their bounds. What it is
expanded to has no bracket of a group outside quotes, and it is the text itself or not too long. -/
theorem expand_bounded (text : String) :
    PassesBounded text ∧
      ∀ expansion, expand text = .ok expansion →
        Repeat.Ungrouped expansion.symbols ∧
          (expansion.text = text ∨ expansion.text.length ≤ Repeat.longestLine) := by
  refine ⟨passesBounded text, fun expansion h => ?_⟩
  have hsymbols := exists_expandSymbols_of_expand h
  refine ⟨ungrouped_of_expandSymbols hsymbols, ?_⟩
  rcases within_of_expandSymbols hsymbols with hsame | hlength
  · left
    rw [Expansion.text, Symbol.text, hsame, Symbol.chars_ofChars, String.ofList_toList]
  · right
    rwa [Expansion.text, Symbol.text, String.length_ofList, Symbol.chars, List.length_map]

/-- A group with a repeated chord in it, and a repeated word: every pass has something to do. -/
theorem expand_bounded_nested :
    ∃ expansion lines grouped states chorded turns,
      expand "[<c e>4*2]2 d4*3" = .ok expansion ∧
        expansion.text = "<c e>4 <c e>4 <c e>4 <c e>4 d4 d4 d4" ∧
        Repeat.GroupRun (Symbol.ofChars 0 "[<c e>4*2]2 d4*3".toList) lines (.ok grouped) ∧
        lines.length ≤ 1 ∧
        Repeat.PassRun Repeat.chordTurn grouped states (.ok chorded) ∧
        Repeat.PassRun Repeat.wordTurn chorded turns (.ok expansion.symbols) ∧
        Repeat.Ungrouped expansion.symbols ∧ expansion.text.length ≤ Repeat.longestLine := by
  have htext : (expand "[<c e>4*2]2 d4*3").toOption.map Expansion.text =
      some "<c e>4 <c e>4 <c e>4 <c e>4 d4 d4 d4" := by
    decide +kernel
  obtain ⟨expansion, hexpand, htext⟩ := Option.map_eq_some_iff.1 htext
  rw [toOption_eq_some_iff] at hexpand
  obtain ⟨passes, bounded⟩ := expand_bounded "[<c e>4*2]2 d4*3"
  obtain ⟨ungrouped, hlength⟩ := bounded expansion hexpand
  have inOrder := passes.inOrder
  rw [hexpand] at inOrder
  obtain ⟨grouped, hgroups, hrest⟩ := bind_ok_iff.1 (mapError_ok_iff.1 inOrder.symm)
  obtain ⟨chorded, hchords, hwords⟩ := bind_ok_iff.1 hrest
  obtain ⟨lines, groups⟩ := passes.groups
  obtain ⟨states, chords⟩ := passes.chords grouped hgroups
  obtain ⟨turns, words⟩ := passes.words grouped chorded hgroups hchords
  rw [hgroups] at groups
  rw [hchords] at chords
  rw [hwords] at words
  have hbrackets : (unquoted false
      (Symbol.chars (Symbol.ofChars 0 "[<c e>4*2]2 d4*3".toList))).count ']' = 1 := by
    decide +kernel
  have hsplices : lines.length ≤ 1 := hbrackets ▸ groups.length_le
  have hdiffers : expansion.text ≠ "[<c e>4*2]2 d4*3" := by
    rw [htext]
    decide
  exact ⟨expansion, lines, grouped, states, chorded, turns, hexpand, htext, groups, hsplices,
    chords, words, ungrouped, hlength.resolve_left hdiffers⟩

end Stave.Shorthand
