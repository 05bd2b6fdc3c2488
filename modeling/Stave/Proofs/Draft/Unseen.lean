import Stave.Proofs.Chain
import Stave.Shorthand.Draft.Reading

/-!
# What attaching does not see of a draft

A post-event looks at the slurs, the ramps and the level of a draft, and at the token that heads
its last slot; it changes these and puts a mark on that slot. So a change of drafts that touches
none of this may be made before or after post-events attach.
-/
namespace Stave.Shorthand.Draft

/-- A change of drafts that attaching a post-event does not see: it leaves alone what is looked at,
and commutes with setting links and with every mark that has nothing to do with where its slot was
typed. -/
structure Unseen (change : Draft → Draft) : Prop where
  heads : ∀ draft, (change draft).slots.map DraftSlot.head = draft.slots.map DraftSlot.head
  level : ∀ draft, (change draft).level = draft.level
  slurs : ∀ draft, (change draft).slurs = draft.slurs
  openSlurs : ∀ draft, (change draft).openSlurs = draft.openSlurs
  carriedSlurs : ∀ draft, (change draft).carriedSlurs = draft.carriedSlurs
  ramps : ∀ draft, (change draft).ramps = draft.ramps
  openRamp : ∀ draft, (change draft).openRamp = draft.openRamp
  withLinks : ∀ (draft : Draft) (level : Level) (slurs : Array Link) (openSlurs : List Nat)
    (carriedSlurs : Nat) (ramps : List Ramp) (openRamp : Option OpenRamp),
    change { draft with level, slurs, openSlurs, carriedSlurs, ramps, openRamp } =
      { change draft with level, slurs, openSlurs, carriedSlurs, ramps, openRamp }
  mark : ∀ (draft : Draft) (mark : Slot → Slot),
    (∀ (slot : Slot) (offset : Nat), mark { slot with offset } = { mark slot with offset }) →
    change (draft.mark mark) = (change draft).mark mark

namespace Unseen

variable {change : Draft → Draft}

theorem closeRamp (h : Unseen change) (draft : Draft) (head : Nat) (target : Option Level) :
    (change draft).closeRamp head target = change (draft.closeRamp head target) := by
  unfold Draft.closeRamp
  rw [h.openRamp]
  split
  · rfl
  · dsimp only
    conv => rhs; rw [h.mark _ _ fun _ _ => rfl, h.withLinks]
    simp only [h.slurs, h.openSlurs, h.carriedSlurs, h.ramps]

theorem openSlur (h : Unseen change) (draft : Draft) (head : Nat) :
    (change draft).openSlur head = change (draft.openSlur head) := by
  unfold Draft.openSlur
  dsimp only
  conv => rhs; rw [h.mark _ _ fun _ _ => rfl, h.withLinks]
  simp only [h.level, h.slurs, h.openSlurs, h.carriedSlurs, h.ramps, h.openRamp]

theorem closeSlur (h : Unseen change) (draft : Draft) (head : Nat) :
    (change draft).closeSlur head = (draft.closeSlur head).map change := by
  unfold Draft.closeSlur markSlurClosed
  rw [h.openSlurs, h.carriedSlurs]
  split
  · conv => rhs; rw [Except.map, h.mark _ _ fun _ _ => rfl, h.withLinks]
    simp only [h.level, h.slurs, h.ramps, h.openRamp]
  · split
    · rfl
    · conv => rhs; rw [Except.map, h.mark _ _ fun _ _ => rfl, h.withLinks]
      simp only [h.level, h.slurs, h.ramps, h.openRamp]

theorem startRamp (h : Unseen change) (draft : Draft) (head : Nat) (direction : RampDirection) :
    (change draft).startRamp head direction = change (draft.startRamp head direction) := by
  unfold Draft.startRamp
  dsimp only
  conv => rhs; rw [h.mark _ _ fun _ _ => rfl, h.withLinks]
  rw [h.closeRamp]
  simp only [h.level, h.slurs, h.openSlurs, h.carriedSlurs, h.ramps]

theorem setDynamic (h : Unseen change) (draft : Draft) (head : Nat) (dynamic : Dynamic) :
    (change draft).setDynamic head dynamic = change (draft.setDynamic head dynamic) := by
  unfold Draft.setDynamic
  dsimp only
  conv => rhs; rw [h.withLinks]
  rw [← h.mark _ _ fun _ _ => rfl, h.closeRamp]
  simp only [h.slurs, h.openSlurs, h.carriedSlurs, h.ramps, h.openRamp]

/-- A post-event attaches to the changed draft as it does to the draft. -/
theorem attachOne (h : Unseen change) (draft : Draft) (head : Nat) (event : PostEvent) :
    (change draft).attachOne head event = (draft.attachOne head event).map change := by
  cases event with
  | tie => exact congrArg Except.ok (h.mark _ _ fun _ _ => rfl).symm
  | slurOpen => exact congrArg Except.ok (h.openSlur draft head)
  | slurClose => exact h.closeSlur draft head
  | dynamic dynamic => exact congrArg Except.ok (h.setDynamic draft head dynamic)
  | rampStart direction => exact congrArg Except.ok (h.startRamp draft head direction)
  | rampStop =>
    simp only [Draft.attachOne, h.openRamp, h.closeRamp]
    split <;> rfl
  | articulation articulation => exact congrArg Except.ok (h.mark _ _ fun _ _ => rfl).symm
  | text staffText => exact congrArg Except.ok (h.mark _ _ fun _ _ => rfl).symm
  | glissando => exact congrArg Except.ok (h.mark _ _ fun _ _ => rfl).symm

theorem foldlM_attachOne (h : Unseen change) (draft : Draft) (head : Nat)
    (post : List PostEvent) :
    post.foldlM (fun (draft : Draft) event => draft.attachOne head event) (change draft) =
      (post.foldlM (fun (draft : Draft) event => draft.attachOne head event) draft).map
        change := by
  induction post generalizing draft with
  | nil => rfl
  | cons event rest ih =>
    rw [List.foldlM_cons, List.foldlM_cons, h.attachOne, map_bind]
    cases draft.attachOne head event with
    | error fault => rfl
    | ok next => exact ih next

/-- Post-events attach to the changed draft as they do to the draft. -/
theorem attach (h : Unseen change) (draft : Draft) (post : List PostEvent) :
    (change draft).attach post = (draft.attach post).map change := by
  have hheads := h.heads draft
  unfold Draft.attach
  cases post with
  | nil => rfl
  | cons event rest =>
    cases hslots : draft.slots with
    | nil =>
      rw [hslots, List.map_nil, List.map_eq_nil_iff] at hheads
      rw [hheads]
      rfl
    | cons last before =>
      rw [hslots, List.map_cons, List.map_eq_cons_iff] at hheads
      obtain ⟨changed, others, hchanged, hhead, -⟩ := hheads
      simp only [hchanged, ← hhead]
      exact h.foldlM_attachOne draft changed.head (event :: rest)

end Unseen

end Stave.Shorthand.Draft
