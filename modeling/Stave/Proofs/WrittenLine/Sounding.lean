import Stave.Proofs.WrittenLine.InRange

/-!
# What is no rest sounds

A slot is a rest just if it has no pitch. A note has one and a chord cannot end without one, so
every slot a draft gets is of this kind; settling the pitches of a slot leaves as many as there
were, and nothing that comes later looks at the content.
-/
namespace Stave

/-- Content that is a rest if, and only if, it has no pitch. -/
def SlotContent.Sounding (content : SlotContent) : Prop :=
  content.isRest = true ↔ content.pitches = []

/-- The slots of a line that are no rests have pitches. -/
def Line.Sounding (line : Line) : Prop := ∀ slot ∈ line.slots, slot.content.Sounding

theorem SlotContent.sounding_rest : rest.Sounding := ⟨fun _ => rfl, fun _ => rfl⟩

theorem SlotContent.sounding_single (pitch : Pitch) : (single pitch).Sounding := ⟨nofun, nofun⟩

theorem SlotContent.sounding_ofPitches {pitches : List Pitch} (h : pitches ≠ []) :
    (ofPitches pitches).Sounding := by
  have hrest : (ofPitches pitches).isRest = false := by
    unfold ofPitches
    split <;> rfl
  simp [Sounding, hrest, h]

theorem SlotContent.isRest_withPitches (content : SlotContent) (pitches : List Pitch) :
    (content.withPitches pitches).isRest = content.isRest := by
  cases content <;> cases pitches <;> rfl

/-- Pitches are settled without adding any or taking any away. -/
theorem map_content_resolveSlots (transposition : Int) (standing : Alterations)
    (slots : List Slot) :
    (resolveSlots transposition standing slots).map
        (fun slot => (slot.content.isRest, slot.content.pitches.length)) =
      slots.map fun slot => (slot.content.isRest, slot.content.pitches.length) := by
  induction slots generalizing standing with
  | nil => rfl
  | cons slot rest ih =>
    have hlength := length_resolvePitches transposition standing slot.pitches
    simp only [resolveSlots, List.map_cons, ih, SlotContent.isRest_withPitches,
      SlotContent.pitches_withPitches hlength]
    rw [hlength]
    rfl

namespace Shorthand

variable {instrument : Instrument} {prior : Carry} {frame : Frame} {tokens : List Token}
  {draft draft' : Draft} {token : Token} {index : Nat} {due post : List PostEvent}
  {written : WrittenLine}

theorem TokenKind.sounding_of_slot? {kind : TokenKind} {content : SlotContent} {suffix : Suffix}
    (h : kind.slot? = some (content, suffix)) : content.Sounding := by
  cases kind with
  | note word =>
    cases h
    exact SlotContent.sounding_single _
  | rest suffix =>
    cases h
    exact SlotContent.sounding_rest
  | duration suffix =>
    cases h
    exact SlotContent.sounding_single _
  | _ => cases h

namespace Draft

/-- What the slots of a draft hold, the last one first. -/
def contents (draft : Draft) : List SlotContent := draft.slots.map fun slot => slot.slot.content

theorem contents_of_unmarked (h : draft'.unmarked = draft.unmarked) :
    draft'.contents = draft.contents := by
  have hcontents (d : Draft) : d.contents = d.unmarked.contents := by
    simp [contents, unmarked, DraftSlot.unmarked, Slot.of]
  rw [hcontents, h, ← hcontents]

theorem sounding_of_placed (h : ∀ content ∈ draft.contents, content.Sounding)
    (placed : Placed instrument draft index token draft' post) :
    ∀ content ∈ draft'.contents, content.Sounding := by
  cases placed with
  | slot kind => exact List.forall_mem_cons.2 ⟨TokenKind.sounding_of_slot? kind, h⟩
  | chordStart => exact h
  | chordNote => exact h
  | chordPost => exact h
  | chordEnd kind inside sounds timed =>
    exact List.forall_mem_cons.2 ⟨SlotContent.sounding_ofPitches (by simpa using sounds), h⟩
  | free => exact h
  | control =>
    unfold follow
    split <;> exact h

end Draft

theorem Building.sounding
    (h : Building instrument (.start instrument prior frame) tokens draft due) :
    ∀ content ∈ draft.contents, content.Sounding := by
  induction h with
  | start => exact nofun
  | place built placed ih => exact Draft.sounding_of_placed ih (Draft.placed_of_place placed)
  | attach built last attached ih =>
    rw [Draft.contents_of_unmarked (Draft.unmarked_of_attachOne attached)]
    exact ih

theorem Draft.sounding_slotLine {tuplets : List TupletRange}
    (hranges : ∀ range ∈ tuplets, range.start ≤ range.stop) (draft : Draft)
    (instrument : Instrument) (ledger : Ledger) (before : Level)
    (h : ∀ content ∈ draft.contents, content.Sounding) :
    (draft.slotLine instrument ledger before tuplets).Sounding := by
  have hparts : (draft.slotLine instrument ledger before tuplets).slots.map
        (fun slot => (slot.content.isRest, slot.content.pitches.length)) =
      draft.slots.reverse.map
        fun slot => (slot.slot.content.isRest, slot.slot.content.pitches.length) := by
    simp only [slotLine, timedSlots, resolvedSlots, resolveAccidentals]
    rw [map_setLoudness _ fun _ _ _ => rfl, map_scaleTuplets hranges _ fun _ _ => rfl,
      map_content_resolveSlots, List.map_map]
    rfl
  intro slot hmem
  obtain ⟨source, hsource, heq⟩ := List.mem_map.1 (hparts ▸ List.mem_map_of_mem hmem)
  obtain ⟨hrest, hlength⟩ := Prod.mk.inj heq
  have hsounding := h source.slot.content (List.mem_map_of_mem (List.mem_reverse.1 hsource))
  rw [SlotContent.Sounding, ← List.length_eq_zero_iff] at hsounding ⊢
  rwa [← hrest, ← hlength]

/-- Whatever line is read, what is no rest in it sounds. -/
theorem sounding_of_readLine {text : String}
    (h : readLine text instrument prior frame = .ok written) : written.line.Sounding := by
  obtain ⟨tokens, htokens, hbuild⟩ := readLine_eq_ok.1 h
  obtain ⟨groups, draft, hscan, built, finished⟩ := exists_finished_of_buildLine hbuild
  cases finished with
  | rest closed empty => exact List.forall_mem_singleton.2 SlotContent.sounding_rest
  | slots closed nonempty =>
    have hranges := start_le_of_groupsWithin
      (built.groupsWithin (allRead_of_readTokens htokens) hscan)
    exact Draft.sounding_slotLine hranges draft instrument _ _ built.sounding

end Shorthand

end Stave
