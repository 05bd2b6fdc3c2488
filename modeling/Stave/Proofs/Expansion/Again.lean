import Stave.Proofs.Expansion.Typed
import Stave.Proofs.Repeat.Unquoted
import Stave.Proofs.Token.Settled

/-!
# Expanding again

The pass over groups looks at what it has written, so no bracket is left for a second expansion.
The passes over chords and words go on after the copies they write: of a word with two stars the
first stands in every copy. Expanding such a text again gives another one or a fault, and any
other text is given back.
-/
namespace Stave.Shorthand

variable {line out : List Symbol}

/-- Nothing outside quotes is left of the brackets. -/
theorem ungrouped_of_expandSymbols (h : expandSymbols line = .ok out) : Repeat.Ungrouped out := by
  unfold expandSymbols at h
  obtain ⟨grouped, hgroups, h⟩ := bind_ok_iff.1 h
  obtain ⟨chorded, hchords, hwords⟩ := bind_ok_iff.1 h
  have hgrouped := Repeat.ungrouped_of_writeGroups Repeat.groupsOpen_nil hgroups
  have hchorded := (Repeat.traced_writeChords fun _ => rfl).reaches hchords
  have hworded := (Repeat.traced_writeWords fun _ => rfl).reaches hwords
  exact Repeat.ungrouped_of_reaches hworded (Repeat.ungrouped_of_reaches hchorded hgrouped)

/-- A text without signs outside quotes is its own expansion. -/
theorem expandSymbols_eq_self (hgroups : Repeat.Ungrouped line)
    (hstar : '*' ∉ unquoted false (Symbol.chars line)) : expandSymbols line = .ok line := by
  unfold expandSymbols Repeat.expandGroups Repeat.expandChords Repeat.expandWords
  rw [Repeat.writeGroups_eq_of_unquoted hgroups.1 hgroups.2]
  dsimp only [bind, Except.bind, List.reverse_nil, List.nil_append]
  rw [Repeat.writeChords_eq_of_unquoted hstar]
  dsimp only [List.reverse_nil, List.nil_append]
  rw [Repeat.writeWords_eq_of_unquoted hstar]
  rfl

/-- A text without brackets but with a star is expanded to another text. -/
theorem chars_ne_of_expandSymbols (hgroups : Repeat.Ungrouped line)
    (hstar : '*' ∈ unquoted false (Symbol.chars line)) (h : expandSymbols line = .ok out) :
    Symbol.chars out ≠ Symbol.chars line := by
  unfold expandSymbols Repeat.expandGroups Repeat.expandChords Repeat.expandWords at h
  rw [Repeat.writeGroups_eq_of_unquoted hgroups.1 hgroups.2] at h
  obtain ⟨grouped, hgrouped, h⟩ := bind_ok_iff.1 h
  cases hgrouped
  obtain ⟨chorded, hchords, hwords⟩ := bind_ok_iff.1 h
  rcases Repeat.writeChords_cases hchords with rfl | ⟨rest, hrest, hstops⟩
  · obtain ⟨words, rfl, hout⟩ := Repeat.stopsAtStar_of_writeWords hstar hwords
    exact hout.chars_ne
  · obtain rfl : chorded = rest := hrest
    by_cases hleft : '*' ∈ unquoted false (Symbol.chars chorded)
    · obtain ⟨words, rfl, hout⟩ := Repeat.stopsAtStar_of_writeWords hleft hwords
      exact (hstops.trans hout).chars_ne
    · have hsame := hwords.symm.trans (Repeat.writeWords_eq_of_unquoted hleft)
      cases hsame
      exact hstops.chars_ne

variable {line : String} {expansion : Expansion}

/-- Expanding the text of an expansion gives the text again. -/
def Expansion.Settles (expansion : Expansion) : Prop :=
  ∃ again, expand expansion.text = .ok again ∧ again.text = expansion.text

theorem toList_text (expansion : Expansion) :
    expansion.text.toList = Symbol.chars expansion.symbols := String.toList_ofList

/-- A text without signs of repeats outside quotes is given back. -/
theorem settles_of_not_mem (hgroups : Repeat.Ungrouped expansion.symbols)
    (hstar : '*' ∉ unquoted false expansion.text.toList) : expansion.Settles := by
  have hsame : Symbol.chars (Symbol.ofChars 0 expansion.text.toList) = expansion.text.toList :=
    Symbol.chars_ofChars 0 _
  refine ⟨⟨Symbol.ofChars 0 expansion.text.toList, expansion.text.utf8ByteSize⟩, ?_, ?_⟩
  · rw [expand, expandSymbols_eq_self]
    · rwa [Repeat.Ungrouped, hsame, toList_text]
    · rwa [hsame]
  · rw [Expansion.text, Symbol.text, hsame, String.ofList_toList]

/-- Expanding again gives the text again exactly if no star stands outside quotes in it, and so
for every text that can be read. -/
theorem settles_of_expand (h : expand line = .ok expansion) :
    (expansion.Settles ↔ '*' ∉ unquoted false expansion.text.toList) ∧
      ∀ tokens, tokenize expansion = .ok tokens → expansion.Settles := by
  have hgroups := ungrouped_of_expandSymbols (exists_expandSymbols_of_expand h)
  refine ⟨⟨?_, settles_of_not_mem hgroups⟩, fun tokens htokens => ?_⟩
  · rintro ⟨again, hagain, heq⟩ hstar
    have hsame : Symbol.chars (Symbol.ofChars 0 expansion.text.toList) = expansion.text.toList :=
      Symbol.chars_ofChars 0 _
    refine chars_ne_of_expandSymbols ?_ (by rwa [hsame]) (exists_expandSymbols_of_expand hagain) ?_
    · rwa [Repeat.Ungrouped, hsame, toList_text]
    · rw [hsame, ← heq, toList_text]
  · refine settles_of_not_mem hgroups fun hstar => ?_
    rw [toList_text] at hstar
    exact not_mem_repeatSigns_of_tokenize htokens hstar (by decide)

/-- A word with two stars keeps the first one in every copy, and a second expansion writes it
out. -/
theorem not_settles_two_stars :
    ∃ expansion, expand "c4*2*3" = .ok expansion ∧ expansion.text = "c4*2 c4*2 c4*2" ∧
      ¬expansion.Settles := by
  have htext : (expand "c4*2*3").toOption.map Expansion.text = some "c4*2 c4*2 c4*2" := by
    decide +kernel
  obtain ⟨expansion, hexpand, heq⟩ := Option.map_eq_some_iff.1 htext
  rw [toOption_eq_some_iff] at hexpand
  refine ⟨expansion, hexpand, heq, fun hsettles => ?_⟩
  refine (settles_of_expand hexpand).1.1 hsettles ?_
  rw [heq]
  decide +kernel

end Stave.Shorthand
