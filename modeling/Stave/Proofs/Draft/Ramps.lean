import Stave.Proofs.Draft.Slurs

/-!
# The ramps of a line under construction

A ramp starts and stops at slots that are there, in this order, in every draft a run reaches. That
its levels are those of the scale is part of what a level is.
-/
namespace Stave

/-- A ramp as a link between the slots it starts and stops at. -/
def Ramp.link (ramp : Ramp) : Link := ⟨ramp.start, ramp.stop⟩

/-- A ramp goes from a level of the scale to another. -/
def Ramp.InScale (ramp : Ramp) : Prop :=
  ramp.fromLevel ≤ highestLevel ∧ ramp.toLevel ≤ highestLevel

theorem Ramp.inScale (ramp : Ramp) : ramp.InScale := ⟨ramp.fromLevel.is_le, ramp.toLevel.is_le⟩

theorem Link.Within.mono {link : Link} {heads heads' : List Nat} (h : link.Within heads)
    (hsub : heads ⊆ heads') : link.Within heads' where
  start_mem a ha := hsub (h.start_mem a ha)
  stop_mem b hb := hsub (h.stop_mem b hb)
  start_le := h.start_le

namespace Shorthand

/-- Whether a post-event is a dynamic, or the start or stop of a ramp. -/
def PostEvent.setsLevel : PostEvent → Bool
  | .dynamic _ => true
  | .rampStart _ => true
  | .rampStop => true
  | _ => false

namespace Draft

/-- A draft whose ramps stay inside its slots. -/
structure RampsSound (draft : Draft) : Prop where
  within : ∀ ramp ∈ draft.ramps, ramp.link.Within draft.heads
  opened_mem : ∀ ramp, draft.openRamp = some ramp → ∀ a, ramp.start = some a → a ∈ draft.heads

variable {instrument : Instrument} {draft draft' : Draft} {index head : Nat} {token : Token}
  {post : List PostEvent} {event : PostEvent}

@[simp] theorem level_mark (draft : Draft) (change : Slot → Slot) :
    (draft.mark change).level = draft.level := by
  unfold mark
  split <;> rfl

@[simp] theorem ramps_mark (draft : Draft) (change : Slot → Slot) :
    (draft.mark change).ramps = draft.ramps := by
  unfold mark
  split <;> rfl

@[simp] theorem openRamp_mark (draft : Draft) (change : Slot → Slot) :
    (draft.mark change).openRamp = draft.openRamp := by
  unfold mark
  split <;> rfl

@[simp] theorem heads_mark (draft : Draft) (change : Slot → Slot) :
    (draft.mark change).heads = draft.heads := by
  unfold mark
  split
  · rfl
  case h_2 hslots => simp [heads, hslots]

theorem heads_closeRamp (draft : Draft) (head : Nat) (target : Option Level) :
    (draft.closeRamp head target).heads = draft.heads :=
  heads_eq_of_unmarked (unmarked_closeRamp draft head target)

/-- What attaching a post-event to the last slot does to level and ramps: a dynamic, and the
start or stop of a ramp, do their own work, and all others mark the slot. -/
inductive LevelMove (head : Nat) (draft : Draft) : PostEvent → Draft → Prop where
  | marked {event : PostEvent} {same : Draft} {change : Slot → Slot}
      (other : event.setsLevel = false) (slots : same.slots = draft.slots)
      (level : same.level = draft.level) (ramps : same.ramps = draft.ramps)
      (openRamp : same.openRamp = draft.openRamp)
      (dynamic : ∀ slot, (change slot).dynamic = slot.dynamic)
      (role : ∀ slot, (change slot).ramp = slot.ramp) :
      LevelMove head draft event (same.mark change)
  | dynamic (dynamic : Dynamic) : LevelMove head draft (.dynamic dynamic)
      (draft.setDynamic head dynamic)
  | rampStart (direction : RampDirection) : LevelMove head draft (.rampStart direction)
      (draft.startRamp head direction)
  | rampStop : LevelMove head draft .rampStop (draft.closeRamp head none)

theorem levelMove_of_attachOne (hattach : draft.attachOne head event = .ok draft') :
    LevelMove head draft event draft' := by
  cases event with
  | slurOpen =>
    cases hattach
    unfold openSlur
    exact .marked rfl rfl rfl rfl rfl (fun _ => rfl) fun _ => rfl
  | slurClose =>
    simp only [attachOne, closeSlur] at hattach
    split at hattach
    · cases hattach
      exact .marked rfl rfl rfl rfl rfl (fun _ => rfl) fun _ => rfl
    · split at hattach
      · cases hattach
      · cases hattach
        exact .marked rfl rfl rfl rfl rfl (fun _ => rfl) fun _ => rfl
  | dynamic dynamic =>
    cases hattach
    exact .dynamic dynamic
  | rampStart direction =>
    cases hattach
    exact .rampStart direction
  | rampStop =>
    simp only [attachOne] at hattach
    split at hattach
    · cases hattach
    · cases hattach
      exact .rampStop
  | _ =>
    cases hattach
    exact .marked rfl rfl rfl rfl rfl (fun _ => rfl) fun _ => rfl

theorem mem_heads_of_lastHead? (hlast : draft.lastHead? = some head) : head ∈ draft.heads := by
  obtain ⟨last, before, hslots, rfl⟩ := exists_last hlast
  simp [heads, hslots]

/-- In a draft whose heads increase every head is at most the last one. -/
theorem le_of_lastHead? (increase : draft.heads.Pairwise (· < ·))
    (hlast : draft.lastHead? = some head) {other : Nat} (hmem : other ∈ draft.heads) :
    other ≤ head := by
  obtain ⟨last, before, hslots, rfl⟩ := exists_last hlast
  simp only [heads, hslots, List.reverse_cons, List.map_append, List.map_cons, List.map_nil]
    at increase hmem
  rcases List.mem_append.1 hmem with hmem | hmem
  · exact Nat.le_of_lt ((List.pairwise_append.1 increase).2.2 other hmem _ List.mem_cons_self)
  · exact Nat.le_of_eq (List.mem_singleton.1 hmem)

/-- Only slots and ramps matter here. -/
theorem RampsSound.congr (h : draft.RampsSound) (hheads : draft'.heads = draft.heads)
    (hramps : draft'.ramps = draft.ramps) (hopen : draft'.openRamp = draft.openRamp) :
    draft'.RampsSound := by
  constructor
  · rw [hramps, hheads]
    exact h.within
  · rw [hopen, hheads]
    exact h.opened_mem

/-- A mark changes nothing here. -/
theorem RampsSound.mark (h : draft.RampsSound) (change : Slot → Slot) :
    (draft.mark change).RampsSound :=
  h.congr (heads_mark ..) (ramps_mark ..) (openRamp_mark ..)

theorem RampsSound.closeRamp (h : draft.RampsSound) (target : Option Level)
    (increase : draft.heads.Pairwise (· < ·)) (hlast : draft.lastHead? = some head) :
    (draft.closeRamp head target).RampsSound := by
  unfold Draft.closeRamp
  split
  · exact h
  case h_2 ramp hopen =>
    refine RampsSound.mark ⟨fun other hmem => ?_, fun other hnone => by cases hnone⟩ _
    rcases List.mem_cons.1 hmem with rfl | hmem
    · refine ⟨h.opened_mem ramp hopen, fun b hb => ?_, fun a b ha hb => ?_⟩
      · cases hb
        exact mem_heads_of_lastHead? hlast
      · cases hb
        exact le_of_lastHead? increase hlast (h.opened_mem ramp hopen a ha)
    · exact h.within other hmem

theorem RampsSound.startRamp (h : draft.RampsSound) (direction : RampDirection)
    (increase : draft.heads.Pairwise (· < ·)) (hlast : draft.lastHead? = some head) :
    (draft.startRamp head direction).RampsSound := by
  have hclosed := h.closeRamp none increase hlast
  unfold Draft.startRamp
  dsimp only
  apply RampsSound.mark
  refine ⟨hclosed.within, ?_⟩
  rintro ramp hopen a ha
  cases hopen
  cases ha
  change head ∈ (draft.closeRamp head none).heads
  rw [heads_closeRamp]
  exact mem_heads_of_lastHead? hlast

theorem RampsSound.setDynamic (h : draft.RampsSound) (dynamic : Dynamic)
    (increase : draft.heads.Pairwise (· < ·)) (hlast : draft.lastHead? = some head) :
    (draft.setDynamic head dynamic).RampsSound := by
  have hlast' : (draft.mark fun slot => { slot with dynamic := some dynamic }).lastHead? =
      some head := by
    rw [lastHead?_eq_of_unmarked (unmarked_mark fun _ => rfl)]
    exact hlast
  have hclosed := (h.mark fun slot => { slot with dynamic := some dynamic }).closeRamp
    (some dynamic.level) (by simpa using increase) hlast'
  exact hclosed.congr rfl rfl rfl

theorem RampsSound.attachOne (h : draft.RampsSound) (increase : draft.heads.Pairwise (· < ·))
    (hlast : draft.lastHead? = some head)
    (hattach : draft.attachOne head event = .ok draft') : draft'.RampsSound := by
  cases levelMove_of_attachOne hattach with
  | @marked event same change other slots level ramps openRamp =>
    have hheads : same.heads = draft.heads := by rw [heads, slots, heads]
    exact (h.congr hheads ramps openRamp).mark change
  | dynamic dynamic => exact h.setDynamic dynamic increase hlast
  | rampStart direction => exact h.startRamp direction increase hlast
  | rampStop => exact h.closeRamp none increase hlast

theorem RampsSound.push (h : draft.RampsSound) (head : Nat) (content : SlotContent)
    (length : NoteLength) (offset : Nat) :
    (draft.push head content length offset).RampsSound := by
  have hsub : draft.heads ⊆ (draft.push head content length offset).heads := by
    rw [heads_push]
    exact List.subset_append_left _ _
  exact ⟨fun ramp hmem => (h.within ramp hmem).mono hsub,
    fun ramp hopen a ha => hsub (h.opened_mem ramp hopen a ha)⟩

theorem RampsSound.placed (h : draft.RampsSound)
    (placed : Placed instrument draft index token draft' post) : draft'.RampsSound := by
  cases placed with
  | slot => exact h.push ..
  | chordEnd =>
    refine RampsSound.push ?_ _ _ _ _
    exact h.congr rfl rfl rfl
  | control =>
    unfold Draft.follow
    split <;> exact h.congr rfl rfl rfl
  | _ => exact h.congr rfl rfl rfl

end Draft

/-- The ramps of every draft a run reaches are sound. -/
theorem Building.rampsSound {instrument : Instrument} {prior : Carry} {frame : Frame}
    {read : List Token} {draft : Draft} {due : List PostEvent}
    (h : Building instrument (.start instrument prior frame) read draft due)
    (alternate : ChordsAlternate false read) : draft.RampsSound := by
  induction h with
  | start =>
    refine ⟨nofun, ?_⟩
    rintro ramp hopen a ha
    obtain ⟨direction, -, rfl⟩ := Option.map_eq_some_iff.1 hopen
    cases ha
  | place built placed ih =>
    exact (ih (chordsAlternate_append.1 alternate).1).placed (Draft.placed_of_place placed)
  | attach built last attached ih =>
    exact (ih alternate).attachOne (built.pairwise_heads alternate) last attached

end Shorthand

end Stave
