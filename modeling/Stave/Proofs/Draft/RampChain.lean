import Stave.Proofs.Draft.Ramps

/-!
# Ramps that follow one another

What of a draft concerns ramps: its slots with their parts in ramps, the ramps that have
stopped, and the one still open. `RampView.Chained` says that the ramps, the open one last,
follow one another: only the first may come in from the bar before, each starts no earlier
than the ones before it stopped, and the part a slot plays is read off the ramps that start
and stop there. A ramp that stops and a ramp that starts at the last slot both keep it, and
nothing else touches the ramps.
-/
namespace Stave

/-- The part of a slot at which ramps start and stop or do not. -/
def RampRole.of? (starts stops : Bool) : Option RampRole :=
  match starts, stops with
  | true, true => some .both
  | true, false => some .start
  | false, true => some .stop
  | false, false => none

theorem RampRole.merge_stop (starts stops : Bool) :
    some (merge (of? starts stops) .stop) = of? starts true := by
  cases starts <;> cases stops <;> rfl

theorem RampRole.merge_start (starts stops : Bool) :
    some (merge (of? starts stops) .start) = of? true stops := by
  cases starts <;> cases stops <;> rfl

/-- The part that a list of ramps gives to a place. -/
def rampRoleAt (ramps : List Ramp) (place : Nat) : Option RampRole :=
  RampRole.of? (ramps.any (·.start = some place)) (ramps.any (·.stop = some place))

/-- The first ramp stops no later than the second starts. -/
def Ramp.Before (first second : Ramp) : Prop :=
  ∀ b a, first.stop = some b → second.start = some a → b ≤ a

/-- Where a ramp starts, its direction, and the level it starts from. -/
def Ramp.source (ramp : Ramp) : Option Nat × RampDirection × Level :=
  (ramp.start, ramp.direction, ramp.fromLevel)

/-- The source of the ramp that the bar before left open, if it left one. -/
def Carry.rampSource (prior : Carry) : List (Option Nat × RampDirection × Level) :=
  (prior.openRamp.map fun direction => (none, direction, prior.level)).toList

namespace Shorthand

/-- A slot as ramps see it. -/
structure RampSlot where
  head : Nat
  role : Option RampRole

/-- The ramps of a draft and the parts its slots play in them. -/
structure RampView where
  /-- The slots, last one first. -/
  slots : List RampSlot
  /-- The ramps that have stopped, in order. -/
  stopped : List Ramp
  opened : Option OpenRamp

namespace RampView

/-- The ramps in order; one still open comes last. -/
def chain (view : RampView) : List Ramp :=
  view.stopped ++ (view.opened.map fun ramp => ramp.close none ramp.target).toList

/-- The heads of the slots, last one first. -/
def heads (view : RampView) : List Nat := view.slots.map RampSlot.head

/-- How the ramps of a line follow one another, given what the bar before left. -/
structure Chained (prior : Carry) (view : RampView) : Prop where
  descending : view.heads.Pairwise (· > ·)
  within : ∀ ramp ∈ view.chain, ramp.link.Within view.heads
  /-- The ramp that came in is the first, and every other one starts at a slot. -/
  sources : ∃ started, view.chain.map Ramp.source = prior.rampSource ++ started ∧
    ∀ source ∈ started, source.1 ≠ none
  stops : ∀ ramp ∈ view.stopped, ramp.stop ≠ none
  ordered : view.chain.Pairwise Ramp.Before
  role : ∀ slot ∈ view.slots, slot.role = rampRoleAt view.chain slot.head

variable {prior : Carry} {last : RampSlot} {before : List RampSlot} {stopped : List Ramp}
  {opened : OpenRamp} {head : Nat} {level : Level}

/-- Nothing is read, and the ramp that came in is open. -/
theorem chained_start (prior : Carry) :
    Chained prior ⟨[], [], prior.openRamp.map fun direction => ⟨none, direction, prior.level⟩⟩ := by
  refine ⟨.nil, ?_, ⟨[], ?_, nofun⟩, nofun, ?_, nofun⟩ <;>
    cases hprior : prior.openRamp <;>
    simp [chain, Carry.rampSource, OpenRamp.close, Ramp.source, Ramp.link, hprior]
  exact ⟨nofun, nofun, nofun⟩

/-- No ramp starts or stops at a place that is not the head of a slot. -/
theorem Chained.rampRoleAt_eq_none {view : RampView} (h : Chained prior view)
    (hnew : head ∉ view.heads) : rampRoleAt view.chain head = none := by
  have hstart : view.chain.any (·.start = some head) = false := by
    rw [List.any_eq_false]
    intro ramp hmem hstart
    exact hnew ((h.within ramp hmem).start_mem head (of_decide_eq_true hstart))
  have hstop : view.chain.any (·.stop = some head) = false := by
    rw [List.any_eq_false]
    intro ramp hmem hstop
    exact hnew ((h.within ramp hmem).stop_mem head (of_decide_eq_true hstop))
  simp only [rampRoleAt, hstart, hstop, RampRole.of?]

/-- A new slot after all others plays no part yet. -/
theorem Chained.push {view : RampView} (h : Chained prior view)
    (hlast : ∀ other ∈ view.heads, other < head) :
    Chained prior { view with slots := ⟨head, none⟩ :: view.slots } where
  descending := List.pairwise_cons.2 ⟨hlast, h.descending⟩
  within ramp hmem := (h.within ramp hmem).mono fun _ => List.mem_cons_of_mem _
  sources := h.sources
  stops := h.stops
  ordered := h.ordered
  role slot hmem := by
    rcases List.mem_cons.1 hmem with rfl | hmem
    · exact (h.rampRoleAt_eq_none fun hold => Nat.lt_irrefl _ (hlast _ hold)).symm
    · exact h.role slot hmem

section Last

variable {opened : Option OpenRamp}

theorem le_last_head (h : Chained prior ⟨last :: before, stopped, opened⟩) {place : Nat}
    (hmem : place ∈ (last :: before).map RampSlot.head) : place ≤ last.head := by
  rcases List.mem_cons.1 hmem with rfl | hmem
  · exact Nat.le_refl _
  · exact Nat.le_of_lt ((List.pairwise_cons.1 h.descending).1 place hmem)

/-- Every slot has its part still if only the ramps at the last slot have changed. -/
theorem role_of_last (h : Chained prior ⟨last :: before, stopped, opened⟩) {role : Option RampRole}
    {chain : List Ramp} (hlast : role = rampRoleAt chain last.head)
    (hother : ∀ place, place ≠ last.head →
      rampRoleAt chain place = rampRoleAt (RampView.chain ⟨last :: before, stopped, opened⟩) place) :
    ∀ slot ∈ { last with role } :: before, slot.role = rampRoleAt chain slot.head := by
  intro slot hmem
  rcases List.mem_cons.1 hmem with rfl | hmem
  · exact hlast
  · have hlt := (List.pairwise_cons.1 h.descending).1 slot.head (List.mem_map_of_mem hmem)
    rw [hother slot.head (Nat.ne_of_lt hlt)]
    exact h.role slot (List.mem_cons_of_mem _ hmem)

end Last

theorem rampRoleAt_concat (ramps : List Ramp) (ramp : Ramp) (place : Nat) :
    rampRoleAt (ramps ++ [ramp]) place =
      RampRole.of? (ramps.any (·.start = some place) || ramp.start = some place)
        (ramps.any (·.stop = some place) || ramp.stop = some place) := by
  simp [rampRoleAt]

/-- The open ramp stops at the last slot. -/
theorem Chained.stop (h : Chained prior ⟨last :: before, stopped, some opened⟩) (level : Level) :
    Chained prior
      ⟨{ last with role := some (RampRole.merge last.role .stop) } :: before,
        stopped ++ [opened.close (some last.head) level], none⟩ := by
  have hopened : opened.close none opened.target ∈
      RampView.chain ⟨last :: before, stopped, some opened⟩ := by simp [chain]
  have hwithin := h.within _ hopened
  obtain ⟨started, hsources, hstarted⟩ := h.sources
  have hordered := List.pairwise_append.1 h.ordered
  have hchain : RampView.chain ⟨{ last with role := some (RampRole.merge last.role .stop) } :: before,
      stopped ++ [opened.close (some last.head) level], none⟩ =
        stopped ++ [opened.close (some last.head) level] := by simp [chain]
  refine ⟨h.descending, ?_, ⟨started, ?_, hstarted⟩, ?_, ?_, ?_⟩
  · rw [hchain]
    intro ramp hmem
    rcases List.mem_append.1 hmem with hmem | hmem
    · exact h.within ramp (List.mem_append_left _ hmem)
    · rw [List.mem_singleton.1 hmem]
      refine ⟨hwithin.start_mem, fun b hb => ?_, fun a b ha hb => ?_⟩
      · cases hb
        exact List.mem_cons_self
      · cases hb
        exact le_last_head h (hwithin.start_mem a ha)
  · rw [← hsources]
    simp [chain, Ramp.source, OpenRamp.close]
  · intro ramp hmem
    rcases List.mem_append.1 hmem with hmem | hmem
    · exact h.stops ramp hmem
    · rw [List.mem_singleton.1 hmem]
      simp [OpenRamp.close]
  · rw [hchain]
    refine List.pairwise_append.2
      ⟨hordered.1, List.pairwise_singleton .., fun first hfirst ramp hmem => ?_⟩
    rw [List.mem_singleton.1 hmem]
    exact hordered.2.2 first hfirst (opened.close none opened.target) (by simp)
  · rw [hchain]
    have hrole := h.role last List.mem_cons_self
    refine role_of_last h ?_ fun place hne => ?_
    · rw [hrole, rampRoleAt_concat]
      simp only [chain, Option.map_some, Option.toList_some, rampRoleAt_concat,
        RampRole.merge_stop, OpenRamp.close, decide_true, Bool.or_true]
      rfl
    · simp [chain, rampRoleAt_concat, OpenRamp.close, Ne.symm hne]

/-- With no ramp open, one starts at the last slot. -/
theorem Chained.start (h : Chained prior ⟨last :: before, stopped, none⟩)
    (direction : RampDirection) (level : Level) :
    Chained prior
      ⟨{ last with role := some (RampRole.merge last.role .start) } :: before, stopped,
        some ⟨some last.head, direction, level⟩⟩ := by
  obtain ⟨started, hsources, hstarted⟩ := h.sources
  have hbefore : RampView.chain ⟨last :: before, stopped, none⟩ = stopped := by simp [chain]
  have hwithin := h.within
  have hordered := h.ordered
  rw [hbefore] at hsources hwithin hordered
  let opened : OpenRamp := ⟨some last.head, direction, level⟩
  refine ⟨h.descending, ?_, ⟨started ++ [(some last.head, direction, level)], ?_, ?_⟩,
    h.stops, ?_, ?_⟩
  · intro ramp hmem
    rcases List.mem_append.1 hmem with hmem | hmem
    · exact hwithin ramp hmem
    · rw [List.mem_singleton.1 hmem]
      refine ⟨fun a ha => ?_, nofun, nofun⟩
      cases ha
      exact List.mem_cons_self
  · simp [chain, ← List.append_assoc, ← hsources, Ramp.source, OpenRamp.close]
  · intro source hmem
    rcases List.mem_append.1 hmem with hmem | hmem
    · exact hstarted source hmem
    · rw [List.mem_singleton.1 hmem]
      simp
  · refine List.pairwise_append.2
      ⟨hordered, List.pairwise_singleton .., fun first hfirst ramp hmem => ?_⟩
    intro b a hb ha
    rw [List.mem_singleton.1 hmem] at ha
    cases ha
    exact le_last_head h ((hwithin first hfirst).stop_mem b hb)
  · have hrole := h.role last List.mem_cons_self
    refine role_of_last h ?_ fun place hne => ?_
    · rw [hrole, hbefore, rampRoleAt, RampRole.merge_start]
      simp [chain, rampRoleAt_concat, OpenRamp.close]
    · rw [hbefore]
      simp [chain, rampRoleAt, OpenRamp.close, Ne.symm hne]

end RampView

/-- A slot and its part in ramps. -/
def DraftSlot.rampSlot (slot : DraftSlot) : RampSlot := ⟨slot.head, slot.slot.ramp⟩

namespace Draft

/-- What of a draft concerns ramps. -/
def rampView (draft : Draft) : RampView :=
  ⟨draft.slots.map DraftSlot.rampSlot, draft.ramps.reverse, draft.openRamp⟩

variable {instrument : Instrument} {prior : Carry} {draft draft' : Draft} {index head : Nat}
  {token : Token} {post : List PostEvent} {event : PostEvent}

theorem chain_rampView (draft : Draft) : draft.rampView.chain = draft.allRamps := rfl

theorem heads_rampView (draft : Draft) : draft.rampView.heads = draft.heads.reverse := by
  simp [RampView.heads, rampView, heads, DraftSlot.rampSlot, Function.comp_def]

/-- A mark that is no part in a ramp changes nothing here. -/
theorem rampView_mark {change : Slot → Slot} (h : ∀ slot, (change slot).ramp = slot.ramp) :
    (draft.mark change).rampView = draft.rampView := by
  cases hslots : draft.slots with
  | nil => simp [mark, hslots]
  | cons last before => simp [mark, rampView, hslots, DraftSlot.rampSlot, h]

theorem rampView_follow (draft : Draft) (token : Token) :
    (draft.follow token).rampView = draft.rampView := by
  simp only [follow]
  split <;> rfl

theorem chained_closeRamp (h : draft.rampView.Chained prior)
    (hlast : draft.lastHead? = some head) (target : Option Level) :
    (draft.closeRamp head target).rampView.Chained prior := by
  obtain ⟨last, before, hslots, rfl⟩ := exists_last hlast
  cases hopen : draft.openRamp with
  | none => simpa [closeRamp, hopen] using h
  | some ramp =>
    have hview : RampView.Chained prior
        ⟨last.rampSlot :: before.map DraftSlot.rampSlot, draft.ramps.reverse, some ramp⟩ := by
      simpa [rampView, hslots, hopen] using h
    have hstop := hview.stop (target.getD ramp.target)
    simpa [rampView, closeRamp, hopen, mark, hslots, DraftSlot.rampSlot, Slot.addRampRole]
      using hstop

theorem openRamp_closeRamp (draft : Draft) (head : Nat) (target : Option Level) :
    (draft.closeRamp head target).openRamp = none := by
  cases hopen : draft.openRamp <;> simp [closeRamp, hopen]

theorem chained_startRamp (h : draft.rampView.Chained prior)
    (hlast : draft.lastHead? = some head) (direction : RampDirection) :
    (draft.startRamp head direction).rampView.Chained prior := by
  have hclosed := chained_closeRamp h hlast none
  have hnone := openRamp_closeRamp draft head none
  rw [← lastHead?_eq_of_unmarked (unmarked_closeRamp draft head none)] at hlast
  simp only [startRamp]
  generalize draft.closeRamp head none = closed at hclosed hnone hlast ⊢
  obtain ⟨last, before, hslots, rfl⟩ := exists_last hlast
  have hview : RampView.Chained prior
      ⟨last.rampSlot :: before.map DraftSlot.rampSlot, closed.ramps.reverse, none⟩ := by
    simpa [rampView, hslots, hnone] using hclosed
  have hstart := hview.start direction closed.level
  simpa [rampView, mark, hslots, DraftSlot.rampSlot, Slot.addRampRole] using hstart

/-- A post-event keeps the ramps a chain: it stops the open one, or starts one when none is
open, or leaves them alone. -/
theorem chained_of_attachOne (h : draft.rampView.Chained prior)
    (hlast : draft.lastHead? = some head) (hattach : draft.attachOne head event = .ok draft') :
    draft'.rampView.Chained prior := by
  cases levelMove_of_attachOne hattach with
  | @marked _ same _ other slots level ramps openRamp dynamic role =>
    have hsame : same.rampView = draft.rampView := by simp [rampView, slots, ramps, openRamp]
    rwa [rampView_mark role, hsame]
  | dynamic dynamic =>
    have hmarked : (draft.mark fun slot => { slot with dynamic := some dynamic }).rampView.Chained
        prior := by
      rwa [rampView_mark]
      exact fun _ => rfl
    refine chained_closeRamp hmarked ?_ (some dynamic.level)
    rwa [lastHead?_eq_of_unmarked (unmarked_mark fun _ => rfl)]
  | rampStart direction => exact chained_startRamp h hlast direction
  | rampStop => exact chained_closeRamp h hlast none

/-- Placing a token leaves the ramps alone but for a slot that may come last. -/
theorem chained_of_placed (h : draft.rampView.Chained prior)
    (increase : draft'.heads.Pairwise (· < ·))
    (placed : Placed instrument draft index token draft' post) :
    draft'.rampView.Chained prior := by
  have hpush (before : Draft) (head : Nat) (content : SlotContent) (length : NoteLength)
      (offset : Nat) (hbefore : before.rampView.Chained prior)
      (hheads : (before.push head content length offset).heads.Pairwise (· < ·)) :
      (before.push head content length offset).rampView.Chained prior := by
    refine hbefore.push fun other hmem => ?_
    rw [heads_rampView, List.mem_reverse] at hmem
    rw [heads_push] at hheads
    exact (List.pairwise_append.1 hheads).2.2 other hmem head List.mem_cons_self
  cases placed with
  | slot => exact hpush draft _ _ _ _ h increase
  | chordEnd => exact hpush { draft with chord := none } _ _ _ _ h increase
  | control => rwa [rampView_follow]
  | _ => exact h

end Draft

/-- The ramps of every draft a run reaches are a chain. -/
theorem Building.chained {instrument : Instrument} {prior : Carry} {frame : Frame}
    {read : List Token} {draft : Draft} {due : List PostEvent}
    (h : Building instrument (.start instrument prior frame) read draft due)
    (alternate : ChordsAlternate false read) : draft.rampView.Chained prior := by
  induction h with
  | start => exact RampView.chained_start prior
  | place built placed ih =>
    exact Draft.chained_of_placed (ih (chordsAlternate_append.1 alternate).1)
      ((built.place placed).pairwise_heads alternate) (Draft.placed_of_place placed)
  | attach built last attached ih => exact Draft.chained_of_attachOne (ih alternate) last attached

end Shorthand

end Stave
