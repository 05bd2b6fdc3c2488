import Stave.Proofs.Draft.Step
import Stave.Proofs.TupletGroup
import Stave.Shorthand.WrittenLine

/-!
# What finishing leaves of a slot

Between the draft and the line, slots get their pitches settled, their durations scaled, and
a level and a loudness. Everything else about them stays, and they stay in order. A part of
a slot that reads none of the four is the same before and after.
-/
namespace Stave

/-- A part of a slot that finishing a line leaves alone. -/
def Slot.IsKept {α : Type} (part : Slot → α) : Prop :=
  ∀ (slot : Slot) (content : SlotContent) (duration : Nat) (level : Level) (loudness : Float32),
    part { slot with content, duration, level, loudness } = part slot

variable {α : Type}

theorem map_setLevels (part : Slot → α)
    (hpart : ∀ (slot : Slot) (level : Level) (loudness : Float32),
      part { slot with level, loudness } = part slot)
    (ramps : List Ramp) (before : Level) (index : Nat) (slots : List Slot) :
    (setLevels ramps before index slots).map part = slots.map part := by
  induction slots generalizing before index with
  | nil => rfl
  | cons slot rest ih => simp [setLevels, ih, hpart]

/-- Setting the loudness changes nothing but level and loudness. -/
theorem map_setLoudness (part : Slot → α)
    (hpart : ∀ (slot : Slot) (level : Level) (loudness : Float32),
      part { slot with level, loudness } = part slot)
    (ramps : List Ramp) (before : Level) (slots : List Slot) :
    (setLoudness ramps before slots).map part = slots.map part := by
  have hramp (covering : List Ramp) (times : Timeline) (index : Nat) (slot : Slot) :
      part (rampSlot covering times index slot) = part slot := by
    unfold rampSlot
    split
    · exact hpart ..
    · rfl
  rw [← map_setLevels part hpart (ramps.filter (·.stop.isSome)) before 0 slots]
  apply List.ext_getElem
  · simp [setLoudness]
  · intro index _ _
    simp [setLoudness, hramp]

theorem map_resolveSlots (part : Slot → α)
    (hpart : ∀ (slot : Slot) (content : SlotContent), part { slot with content } = part slot)
    (transposition : Int) (standing : Alterations) (slots : List Slot) :
    (resolveSlots transposition standing slots).map part = slots.map part := by
  induction slots generalizing standing with
  | nil => rfl
  | cons slot rest ih => simp [resolveSlots, ih, hpart]

namespace Shorthand.Draft

variable {tuplets : List TupletRange}

theorem map_resolvedSlots (part : Slot → α)
    (hpart : ∀ (slot : Slot) (content : SlotContent), part { slot with content } = part slot)
    (draft : Draft) (instrument : Instrument) :
    (draft.resolvedSlots instrument).map part =
      draft.slots.reverse.map fun slot => part slot.slot := by
  rw [resolvedSlots, resolveAccidentals, map_resolveSlots part hpart, List.map_map]
  rfl

theorem length_resolvedSlots (draft : Draft) (instrument : Instrument) :
    (draft.resolvedSlots instrument).length = draft.slots.length := by
  simpa using congrArg List.length
    (draft.map_resolvedSlots Slot.offset (fun _ _ => rfl) instrument)

theorem resolvedSlots_eq_nil {draft : Draft} {instrument : Instrument} (empty : draft.slots = []) :
    draft.resolvedSlots instrument = [] := by
  rw [← List.length_eq_zero_iff, length_resolvedSlots, empty, List.length_nil]

/-- The slots of a line are those of its draft in all that finishing leaves alone. -/
theorem map_slots_slotLine (part : Slot → α) (hpart : Slot.IsKept part)
    (hranges : ∀ range ∈ tuplets, range.start ≤ range.stop) (draft : Draft)
    (instrument : Instrument) (ledger : Ledger) (before : Level) :
    (draft.slotLine instrument ledger before tuplets).slots.map part =
      draft.slots.reverse.map fun slot => part slot.slot := by
  rw [slotLine, timedSlots]
  dsimp only
  rw [map_setLoudness part (fun slot => hpart slot slot.content slot.duration),
    map_scaleTuplets hranges part
      (fun slot duration => hpart slot slot.content duration slot.level slot.loudness),
    map_resolvedSlots part
      fun slot content => hpart slot content slot.duration slot.level slot.loudness]

theorem length_slots_slotLine (hranges : ∀ range ∈ tuplets, range.start ≤ range.stop)
    (draft : Draft) (instrument : Instrument) (ledger : Ledger) (before : Level) :
    (draft.slotLine instrument ledger before tuplets).slots.length = draft.heads.length := by
  have hmap := map_slots_slotLine Slot.offset (fun _ _ _ _ _ => rfl) hranges draft
    instrument ledger before
  simpa [heads] using congrArg List.length hmap

end Shorthand.Draft

end Stave
