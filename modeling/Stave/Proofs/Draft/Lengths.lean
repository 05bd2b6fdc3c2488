import Stave.Proofs.Draft.Run
import Stave.Proofs.Token.Read

/-!
# The time of slots

A draft gives every slot the time of its length, dots included, and does not look at it again:
post-events change marks only, and tuplets are scaled when the line is finished. The length is one
that is written at a token, or the one the line begins with.
-/
namespace Stave

/-- A slot lasts, and is drawn with, the units of its length. -/
structure Slot.AsWritten (slot : Slot) : Prop where
  duration_eq : slot.duration = slot.length.units
  displayDuration_eq : slot.displayDuration = slot.length.units

namespace Shorthand

theorem TokenKind.length?_of_slot? {kind : TokenKind} {content : SlotContent} {suffix : Suffix}
    (h : kind.slot? = some (content, suffix)) : kind.length? = suffix.length := by
  cases kind with
  | note word =>
    cases h
    rfl
  | rest suffix =>
    cases h
    rfl
  | duration suffix =>
    cases h
    rfl
  | _ => cases h

/-- The slots of a draft last what is written, and their lengths, with the one that comes next if
none is written, are of a kind. -/
structure Draft.Timed (draft : Draft) (ofKind : NoteLength → Prop) : Prop where
  asWritten : ∀ slot ∈ draft.slots, slot.slot.AsWritten
  lengths : ∀ slot ∈ draft.slots, ofKind slot.slot.length
  last : ∀ length ∈ draft.lastLength, ofKind length

variable {ofKind : NoteLength → Prop} {draft draft' : Draft} {instrument : Instrument}
  {prior : Carry} {frame : Frame} {tokens : List Token} {token : Token} {index head offset : Nat}
  {content : SlotContent} {length : NoteLength} {written : Option NoteLength}
  {due post : List PostEvent}

namespace Draft.Timed

theorem push (h : draft.Timed ofKind) (hwritten : ∀ length ∈ written, ofKind length)
    (timed : written.or draft.lastLength = some length) :
    (draft.push head content length offset).Timed ofKind := by
  have hlength : ofKind length := by
    cases written with
    | none => exact h.last length timed
    | some given =>
      have heq : given = length := by simpa using timed
      exact hwritten length (congrArg some heq)
  refine ⟨List.forall_mem_cons.2 ⟨⟨rfl, rfl⟩, h.asWritten⟩,
    List.forall_mem_cons.2 ⟨hlength, h.lengths⟩, fun last hlast => ?_⟩
  cases hlast
  exact hlength

/-- Placing a token keeps the times, if the length written at it is of the kind. -/
theorem place (h : draft.Timed ofKind) (hwritten : ∀ length ∈ token.kind.length?, ofKind length)
    (placed : Placed instrument draft index token draft' post) : draft'.Timed ofKind := by
  cases placed with
  | slot kind outside rhythm timed =>
    rw [TokenKind.length?_of_slot? kind] at hwritten
    exact h.push hwritten timed
  | chordStart => exact ⟨h.asWritten, h.lengths, h.last⟩
  | chordNote => exact ⟨h.asWritten, h.lengths, h.last⟩
  | chordPost => exact ⟨h.asWritten, h.lengths, h.last⟩
  | @chordEnd suffix chord length kind inside sounds timed =>
    rw [kind] at hwritten
    have hclosed : { draft with chord := none }.Timed ofKind := ⟨h.asWritten, h.lengths, h.last⟩
    exact hclosed.push hwritten timed
  | free => exact h
  | control kind =>
    unfold follow
    split <;> exact ⟨h.asWritten, h.lengths, h.last⟩

theorem of_unmarked (h : draft.Timed ofKind) (heq : draft'.unmarked = draft.unmarked) :
    draft'.Timed ofKind := by
  have hslots := congrArg Draft.slots heq
  have hlast := congrArg Draft.lastLength heq
  simp only [unmarked] at hslots hlast
  have hsame (slot : DraftSlot) (hmem : slot ∈ draft'.slots) :
      slot.slot.AsWritten ∧ ofKind slot.slot.length := by
    obtain ⟨same, hsame, hunmarked⟩ :=
      List.mem_map.1 (hslots ▸ List.mem_map_of_mem (f := DraftSlot.unmarked) hmem)
    have htimes := congrArg
      (fun slot => (slot.slot.duration, slot.slot.displayDuration, slot.slot.length)) hunmarked
    simp only [DraftSlot.unmarked, Slot.of, Prod.mk.injEq] at htimes
    obtain ⟨hduration, hdisplay, hlength⟩ := htimes
    have hwritten := h.asWritten same hsame
    rw [← hlength]
    refine ⟨⟨?_, ?_⟩, h.lengths same hsame⟩
    · rw [← hduration, ← hlength, hwritten.duration_eq]
    · rw [← hdisplay, ← hlength, hwritten.displayDuration_eq]
  exact ⟨fun slot hmem => (hsame slot hmem).1, fun slot hmem => (hsame slot hmem).2,
    fun length hmem => h.last length (hlast ▸ hmem)⟩

end Draft.Timed

/-- If the lengths written at the tokens and the one before them are of a kind, so are those of
the slots. -/
theorem Building.timed (h : Building instrument (.start instrument prior frame) tokens draft due)
    (hprior : ∀ length ∈ prior.lastLength, ofKind length)
    (hwritten : ∀ token ∈ tokens, ∀ length ∈ token.kind.length?, ofKind length) :
    draft.Timed ofKind := by
  induction h with
  | start => exact ⟨by simp [Draft.start], by simp [Draft.start], hprior⟩
  | place built placed ih =>
    obtain ⟨hread, htoken⟩ := List.forall_mem_append.1 hwritten
    exact (ih hread).place (htoken _ List.mem_cons_self) (Draft.placed_of_place placed)
  | attach built last attached ih =>
    exact (ih hwritten).of_unmarked (Draft.unmarked_of_attachOne attached)

/-- The slots of a draft last what is written. -/
theorem Building.asWritten
    (h : Building instrument (.start instrument prior frame) tokens draft due) :
    ∀ slot ∈ draft.slots, slot.slot.AsWritten := by
  have timed : draft.Timed fun _ => True :=
    h.timed (fun _ _ => trivial) fun _ _ _ _ => trivial
  exact timed.asWritten

end Shorthand

end Stave
