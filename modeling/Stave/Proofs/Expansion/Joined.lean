import Stave.Proofs.Repeat.Kept

/-!
# Expansion of joined texts

The three passes run one after the other over the whole line, each over what the one before
wrote. A text that can be expanded alone, and whose expansion leaves neither a quotation nor a
chord open, is expanded to the same in any line it is joined to by a blank, unless the line gets
too long.
-/
namespace Stave.Shorthand

/-- A line leaves no quotation open, and its last chord bracket is not an opening one. -/
structure Settled (symbols : List Symbol) : Prop where
  quoted : quotedAfterAll false symbols = false
  last : lastBracket false false symbols ≠ some '<'

/-- The passes write out a line wherever it stands. -/
def Expands (line out : List Symbol) : Prop :=
  ∃ grouped chorded, Repeat.groupPass.Writes line grouped ∧
    Repeat.chordPass.Writes grouped chorded ∧ Pass.Writes Repeat.writeWords chorded out

variable {line out rest outRest : List Symbol} {symbol : Symbol} {move : Nat → Nat}

/-- A line that the passes write out is expanded unless it gets too long. -/
theorem Expands.fits (h : Expands line out) : Fits (expandSymbols line) out := by
  obtain ⟨grouped, chorded, hgroups, hchords, hwords⟩ := h
  unfold expandSymbols
  rcases hgroups line.length [] rfl with hgrouped | ⟨offset, hlong⟩
  · rw [Repeat.expandGroups, show Repeat.writeGroups line.length [] [] false line = .ok grouped
      from hgrouped]
    dsimp only [bind, Except.bind]
    rcases hchords grouped.length [] rfl with hchorded | ⟨offset, hlong⟩
    · rw [Repeat.expandChords, show Repeat.writeChords grouped.length [] false grouped =
        .ok chorded from hchorded]
      exact hwords chorded.length [] rfl
    · rw [Repeat.expandChords, show Repeat.writeChords grouped.length [] false grouped =
        .error ⟨.tooLong, offset⟩ from hlong]
      exact .inr ⟨offset, rfl⟩
  · rw [Repeat.expandGroups, show Repeat.writeGroups line.length [] [] false line =
      .error ⟨.tooLong, offset⟩ from hlong]
    exact .inr ⟨offset, rfl⟩

theorem Expands.cons (hblank : symbol.isBlank = true) (h : Expands line out) :
    Expands (symbol :: line) (symbol :: out) := by
  obtain ⟨grouped, chorded, hgroups, hchords, hwords⟩ := h
  exact ⟨symbol :: grouped, symbol :: chorded,
    Repeat.copiesBlanks_groupPass.writes_cons hblank hgroups,
    Repeat.copiesBlanks_chordPass.writes_cons hblank hchords,
    Repeat.copiesBlanks_writeWords.writes_cons hblank hwords⟩

/-- The lines on the way to an expansion that leaves nothing open, and what they leave open. -/
structure Stages (line grouped chorded out : List Symbol) : Prop where
  groups : Repeat.expandGroups line = .ok grouped
  chords : Repeat.expandChords grouped = .ok chorded
  words : Repeat.expandWords chorded = .ok out
  line_quoted : quotedAfterAll false line = false
  grouped_quoted : quotedAfterAll false grouped = false
  grouped_last : lastBracket false false grouped ≠ some '<'
  chorded_quoted : quotedAfterAll false chorded = false

/-- The quotation and the last bracket of an expansion are those of the line on the way. -/
theorem exists_stages_of_expandSymbols (hout : Settled out) (h : expandSymbols line = .ok out) :
    ∃ grouped chorded, Stages line grouped chorded out := by
  unfold expandSymbols at h
  obtain ⟨grouped, hgroups, h⟩ := bind_ok_iff.1 h
  obtain ⟨chorded, hchords, hwords⟩ := bind_ok_iff.1 h
  obtain ⟨words, heq, hword⟩ := Repeat.kept_writeWords hwords
  obtain rfl : out = words := heq
  obtain ⟨chords, heq, hchord⟩ := Repeat.kept_writeChords hchords
  obtain rfl : chorded = chords := heq
  have hgroup := Repeat.quotedAfterAll_of_writeGroups (List.forall_mem_nil _) rfl hgroups
  have hchordedQuoted := hword.quoted_eq.symm.trans hout.quoted
  have hgroupedQuoted := hchord.quoted_eq.symm.trans hchordedQuoted
  have hlast : lastBracket false false chorded = lastBracket false false grouped := hchord.last_eq
  exact ⟨grouped, chorded, hgroups, hchords, hwords, hgroup.symm.trans hgroupedQuoted,
    hgroupedQuoted, fun hopen => hout.last ((hword.last_eq.trans hlast).trans hopen),
    hchordedQuoted⟩

/-- A text that is expanded alone is expanded wherever it stands, and so is a line it is joined
to. -/
theorem expands_of_expandSymbols (move : Nat → Nat) (hout : Settled out)
    (h : expandSymbols line = .ok out) :
    Expands (line.map (Symbol.moved move)) (out.map (Symbol.moved move)) ∧
      ∀ blank rest outRest, blank.isBlank = true → Expands rest outRest →
        Expands (line.map (Symbol.moved move) ++ blank :: rest)
          (out.map (Symbol.moved move) ++ blank :: outRest) := by
  obtain ⟨grouped, chorded, stages⟩ := exists_stages_of_expandSymbols hout h
  have hlast : lastBracket (escapedBy []) false grouped ≠ some '<' := stages.grouped_last
  have hall {rest outGroups outChords outWords : List Symbol}
      (hgoesGroups : Repeat.groupPass.GoesOn rest outGroups)
      (hgoesChords : Repeat.chordPass.GoesOn outGroups outChords)
      (hgoesWords : Pass.GoesOn Repeat.writeWords outChords outWords) :
      Expands (line.map (Symbol.moved move) ++ rest)
        (out.map (Symbol.moved move) ++ outWords) :=
    ⟨grouped.map (Symbol.moved move) ++ outGroups, chorded.map (Symbol.moved move) ++ outChords,
      fun size before _ => Repeat.fits_writeGroups before hgoesGroups stages.line_quoted
        stages.groups size,
      fun size before hfree => Repeat.fits_writeChords hgoesChords stages.grouped_quoted hlast
        hfree stages.chords size,
      fun size before _ => Repeat.fits_writeWords before hgoesWords stages.chorded_quoted
        stages.words size⟩
  constructor
  · simpa using hall Repeat.copiesBlanks_groupPass.goesOn_nil
      Repeat.copiesBlanks_chordPass.goesOn_nil Repeat.copiesBlanks_writeWords.goesOn_nil
  · rintro blank rest outRest hblank ⟨restGrouped, restChorded, hrestGroups, hrestChords, hrestWords⟩
    exact hall (Repeat.copiesBlanks_groupPass.goesOn_cons hblank hrestGroups)
      (Repeat.copiesBlanks_chordPass.goesOn_cons hblank hrestChords)
      (Repeat.copiesBlanks_writeWords.goesOn_cons hblank hrestWords)

end Stave.Shorthand
