import Stave.Proofs.WrittenLine.InRange

/-!
# The pitches of a line are those of its tokens

A token writes at most one pitch. A draft holds the pitches of the tokens it has read, those
of an open chord last, and finishing settles them in one pass over the whole bar, whatever
slots they stand in. So what is known of the pitches a reader gives can be carried through
one list of pitches, and slots and chords need not be looked at again.
-/
namespace Stave

theorem resolvePitches_append (transposition : Int) (standing : Alterations)
    (first second : List Pitch) :
    resolvePitches transposition standing (first ++ second) =
      ((resolvePitches transposition standing first).1 ++
          (resolvePitches transposition (resolvePitches transposition standing first).2 second).1,
        (resolvePitches transposition
          (resolvePitches transposition standing first).2 second).2) := by
  induction first generalizing standing with
  | nil => rfl
  | cons pitch rest ih => simp [resolvePitches, ih]

/-- The pitches of slots are settled as one list, from slot to slot. -/
theorem pitches_resolveSlots (transposition : Int) (standing : Alterations) (slots : List Slot) :
    (resolveSlots transposition standing slots).flatMap Slot.pitches =
      (resolvePitches transposition standing (slots.flatMap Slot.pitches)).1 := by
  induction slots generalizing standing with
  | nil => rfl
  | cons slot rest ih =>
    have hslot : (slot.content.withPitches
        (resolvePitches transposition standing slot.pitches).1).pitches =
          (resolvePitches transposition standing slot.pitches).1 :=
      SlotContent.pitches_withPitches (length_resolvePitches transposition standing slot.pitches)
    rw [resolveSlots, List.flatMap_cons, List.flatMap_cons, resolvePitches_append, ih]
    exact congrArg (· ++ _) hslot

namespace Shorthand

/-- The pitch a token writes. -/
def TokenKind.pitch? : TokenKind → Option Pitch
  | note word => some (.of word.step word.alteration word.octave word.mark)
  | duration _ => some .unpitched
  | _ => none

/-- The pitches a list of tokens writes, in order. -/
def writtenPitches (tokens : List Token) : List Pitch := tokens.filterMap (·.kind.pitch?)

theorem writtenPitches_concat (read : List Token) (token : Token) :
    writtenPitches (read ++ [token]) = writtenPitches read ++ token.kind.pitch?.toList := by
  cases hpitch : token.kind.pitch? <;> simp [writtenPitches, hpitch]

theorem TokenKind.pitches_of_slot? {kind : TokenKind} {content : SlotContent} {suffix : Suffix}
    (h : kind.slot? = some (content, suffix)) : kind.pitch?.toList = content.pitches := by
  cases kind with
  | note word =>
    cases h
    rfl
  | rest suffix =>
    cases h
    rfl
  | duration suffix =>
    cases h
    rfl
  | _ => cases h

theorem TokenKind.pitch?_of_isControl {kind : TokenKind} (h : kind.isControl) :
    kind.pitch? = none := by
  cases kind <;> simp_all [isControl, pitch?]

namespace Draft

/-- The pitches of a draft, with those of a chord that is still open. -/
def allPitches (draft : Draft) : List Pitch :=
  draft.slots.reverse.flatMap (·.slot.pitches) ++
    (draft.chord.map fun chord => chord.pitches.reverse).getD []

theorem allPitches_follow (draft : Draft) (token : Token) :
    (draft.follow token).allPitches = draft.allPitches := by
  unfold follow
  split <;> rfl

theorem allPitches_of_unmarked {draft draft' : Draft} (h : draft'.unmarked = draft.unmarked) :
    draft'.allPitches = draft.allPitches := by
  have hpitches (d : Draft) : d.allPitches = d.unmarked.allPitches := by
    simp [allPitches, unmarked, ← List.map_reverse, List.flatMap_map, DraftSlot.unmarked,
      Slot.pitches, Slot.of]
  rw [hpitches, h, ← hpitches]

/-- Placing a token puts in the pitch it writes. -/
theorem allPitches_of_placed {instrument : Instrument} {draft draft' : Draft} {index : Nat}
    {token : Token} {post : List PostEvent}
    (outside : token.kind = .chordStart → draft.chord = none)
    (placed : Placed instrument draft index token draft' post) :
    draft'.allPitches = draft.allPitches ++ token.kind.pitch?.toList := by
  cases placed with
  | slot kind outside rhythm timed =>
    rw [TokenKind.pitches_of_slot? kind]
    simp [allPitches, push, outside, Slot.pitches, Slot.of]
  | chordStart kind => simp [allPitches, outside kind, kind, TokenKind.pitch?]
  | chordNote kind inside bare => simp [allPitches, inside, kind, TokenKind.pitch?]
  | chordPost kind inside => simp [allPitches, inside, kind, TokenKind.pitch?]
  | chordEnd kind inside sounds timed =>
    simp [allPitches, push, inside, kind, TokenKind.pitch?, Slot.pitches, Slot.of]
  | free kind outside nonempty => simp [kind, TokenKind.pitch?]
  | control kind => simp [allPitches_follow, TokenKind.pitch?_of_isControl kind]

end Draft

variable {instrument : Instrument} {prior : Carry} {frame : Frame} {tokens read : List Token}
  {draft : Draft} {due : List PostEvent} {written : WrittenLine}

/-- A draft holds the pitches of the tokens that have been read. -/
theorem Building.allPitches_eq
    (h : Building instrument (.start instrument prior frame) read draft due)
    (alternate : ChordsAlternate false read) : draft.allPitches = writtenPitches read := by
  induction h with
  | start => rfl
  | @place read token draft draft' post built placed ih =>
    obtain ⟨hbefore, hopens, -, -⟩ := chordsAlternate_append.1 alternate
    have hchord := (built.agrees hbefore).chord
    have houtside (kind : token.kind = .chordStart) : draft.chord = none := by
      rw [hopens kind] at hchord
      simpa using hchord
    rw [Draft.allPitches_of_placed houtside (Draft.placed_of_place placed), ih hbefore,
      writtenPitches_concat]
  | attach built last attached ih =>
    rw [Draft.allPitches_of_unmarked (Draft.unmarked_of_attachOne attached)]
    exact ih alternate

/-- What is scaled or made louder keeps its pitches. -/
theorem Draft.pitches_slotLine {tuplets : List TupletRange}
    (hranges : ∀ range ∈ tuplets, range.start ≤ range.stop) (draft : Draft)
    (instrument : Instrument) (ledger : Ledger) (before : Level) :
    (draft.slotLine instrument ledger before tuplets).pitches =
      (resolvePitches instrument.transposition .empty
        (draft.slots.reverse.flatMap (·.slot.pitches))).1 := by
  have hloud := map_setLoudness Slot.pitches (fun _ _ _ => rfl)
    (draft.allRamps.map (rebaseRamp ledger)) before (draft.timedSlots instrument tuplets)
  have hscale (slots : List Slot) :
      (scaleTuplets tuplets slots).map Slot.pitches = slots.map Slot.pitches :=
    map_scaleTuplets hranges Slot.pitches fun _ _ => rfl
  simp only [Line.pitches, slotLine, timedSlots, resolvedSlots, List.flatMap_def] at hloud hscale ⊢
  rw [hloud, hscale, ← List.flatMap_def, resolveAccidentals, pitches_resolveSlots,
    List.flatMap_map, List.flatMap_def]

/-- The pitches of a built line are those its tokens write, settled in order. -/
theorem pitches_of_buildLine (readAll : Token.AllRead false tokens)
    (h : buildLine tokens instrument prior frame = .ok written) :
    written.line.pitches =
      (resolvePitches instrument.transposition .empty (writtenPitches tokens)).1 := by
  obtain ⟨groups, draft, scanned, built, finished⟩ := exists_finished_of_buildLine h
  have hpitches := built.allPitches_eq readAll.alternate
  cases finished with
  | rest closed empty =>
    rw [← hpitches]
    simp [Draft.allPitches, closed, empty, Draft.restLine, Line.fullRest, Line.pitches,
      Slot.pitches, Slot.of, SlotContent.pitches, resolvePitches]
  | slots closed nonempty inside fills =>
    have hranges := start_le_of_groupsWithin (built.groupsWithin readAll scanned)
    rw [← hpitches, Draft.pitches_slotLine hranges]
    simp [Draft.allPitches, closed]

end Shorthand

end Stave
