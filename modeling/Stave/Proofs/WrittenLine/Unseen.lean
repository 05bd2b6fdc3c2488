import Stave.Proofs.Draft.Step
import Stave.Shorthand.WrittenLine

/-!
# What finishing does not see of a slot

Once its pitches are settled, finishing a line looks at the times of a slot, its dynamic and its
tie, and sets its duration, its level and its loudness. So a change of slots that touches none of
these may be made before or after: scaling tuplets, setting levels and loudness, and tying take
changed slots to changed slots.
-/
namespace Stave

/-- A change of slots that finishing a line does not see: it leaves alone what is looked at, and
commutes with setting what is set. -/
structure Slot.Unseen (change : Slot → Slot) : Prop where
  duration : ∀ slot, (change slot).duration = slot.duration
  displayDuration : ∀ slot, (change slot).displayDuration = slot.displayDuration
  dynamic : ∀ slot, (change slot).dynamic = slot.dynamic
  tied : ∀ slot, (change slot).tied = slot.tied
  withDuration : ∀ (slot : Slot) (duration : Nat),
    change { slot with duration } = { change slot with duration }
  withLevel : ∀ (slot : Slot) (level : Level) (loudness : Float32),
    change { slot with level, loudness } = { change slot with level, loudness }

theorem TupletRange.slotsIn_map (range : TupletRange) (change : Slot → Slot) (slots : List Slot) :
    range.slotsIn (slots.map change) = (range.slotsIn slots).map change := by
  rw [slotsIn, ← List.map_drop, ← List.map_take, slotsIn]

namespace Slot.Unseen

variable {change : Slot → Slot}

theorem map_duration (h : Unseen change) (slots : List Slot) :
    (slots.map change).map Slot.duration = slots.map Slot.duration := by
  rw [List.map_map]
  exact List.map_congr_left fun slot _ => h.duration slot

theorem map_displayDuration (h : Unseen change) (slots : List Slot) :
    (slots.map change).map Slot.displayDuration = slots.map Slot.displayDuration := by
  rw [List.map_map]
  exact List.map_congr_left fun slot _ => h.displayDuration slot

theorem onsetsFrom (h : Unseen change) (time : Nat) (slots : List Slot) :
    Line.onsetsFrom time (slots.map change) = Line.onsetsFrom time slots := by
  induction slots generalizing time with
  | nil => rfl
  | cons slot rest ih => rw [List.map_cons, Line.onsetsFrom, Line.onsetsFrom, h.duration, ih]

/-! ### Tuplets -/

theorem scaleSlot (h : Unseen change) (range : TupletRange) (slot : Slot) :
    range.scaleSlot (change slot) = change (range.scaleSlot slot) := by
  have hunits := congrArg range.scaledUnits (h.displayDuration slot)
  rw [TupletRange.scaleSlot, hunits]
  exact (h.withDuration slot _).symm

theorem scaleSlots (h : Unseen change) (range : TupletRange) (slots : List Slot) :
    range.scaleSlots (slots.map change) = (range.scaleSlots slots).map change := by
  have hscaled : (slots.map change).map range.scaleSlot =
      (slots.map range.scaleSlot).map change := by
    simp only [List.map_map, Function.comp_def, h.scaleSlot]
  unfold TupletRange.scaleSlots
  rw [hscaled, h.map_displayDuration]
  cases slots.map range.scaleSlot with
  | nil => rfl
  | cons first rest =>
    rw [List.map_cons]
    dsimp only
    rw [h.duration, List.map_cons]
    exact congrArg (· :: rest.map change) (h.withDuration first _).symm

theorem scaleTuplets (h : Unseen change) (tuplets : List TupletRange) (slots : List Slot) :
    scaleTuplets tuplets (slots.map change) = (scaleTuplets tuplets slots).map change := by
  unfold Stave.scaleTuplets
  induction tuplets generalizing slots with
  | nil => rfl
  | cons range tuplets ih =>
    have hscale : range.scale (slots.map change) = (range.scale slots).map change := by
      simp only [TupletRange.scale, TupletRange.slotsIn_map, ← List.map_drop, ← List.map_take,
        h.scaleSlots, List.map_append]
    rw [List.foldl_cons, List.foldl_cons, hscale, ih]

/-- Times fit after a change if and only if they did before. -/
theorem timesFit (h : Unseen change) (tuplets : List TupletRange) (slots : List Slot) :
    TimesFit tuplets (slots.map change) ↔ TimesFit tuplets slots := by
  have hdrawn (range : TupletRange) :
      (range.slotsIn (slots.map change)).map Slot.displayDuration =
        (range.slotsIn slots).map Slot.displayDuration := by
    rw [TupletRange.slotsIn_map, h.map_displayDuration]
  have hdurations : (Stave.scaleTuplets tuplets (slots.map change)).map Slot.duration =
      (Stave.scaleTuplets tuplets slots).map Slot.duration := by
    rw [h.scaleTuplets, h.map_duration]
  constructor
  · rintro ⟨ranges, total⟩
    exact ⟨fun range hmem => hdrawn range ▸ ranges range hmem, hdurations ▸ total⟩
  · rintro ⟨ranges, total⟩
    exact ⟨fun range hmem => (hdrawn range).symm ▸ ranges range hmem, hdurations.symm ▸ total⟩

/-! ### Levels and loudness -/

theorem setLevels (h : Unseen change) (ramps : List Ramp) (before : Level) (index : Nat)
    (slots : List Slot) :
    setLevels ramps before index (slots.map change) =
      (setLevels ramps before index slots).map change := by
  induction slots generalizing before index with
  | nil => rfl
  | cons slot rest ih =>
    have hlevel : levelFrom ramps before index (change slot) =
        levelFrom ramps before index slot := by
      unfold levelFrom
      rw [h.dynamic]
    rw [List.map_cons, Stave.setLevels, Stave.setLevels, List.map_cons, hlevel, ih]
    exact congrArg (· :: _) (h.withLevel slot _ _).symm

theorem rampSlot (h : Unseen change) (ramps : List Ramp) (times : Timeline) (index : Nat)
    (slot : Slot) :
    rampSlot ramps times index (change slot) = change (rampSlot ramps times index slot) := by
  unfold Stave.rampSlot
  split
  · exact (h.withLevel slot _ _).symm
  · rfl

theorem setLoudness (h : Unseen change) (ramps : List Ramp) (before : Level) (slots : List Slot) :
    setLoudness ramps before (slots.map change) =
      (setLoudness ramps before slots).map change := by
  have htimes : Timeline.ofSlots (slots.map change) = Timeline.ofSlots slots := by
    rw [Timeline.ofSlots, h.onsetsFrom, h.map_duration, Timeline.ofSlots]
  apply List.ext_getElem
  · simp [Stave.setLoudness, h.setLevels]
  · intro index _ _
    simp only [Stave.setLoudness, htimes, h.setLevels, List.getElem_mapIdx, List.getElem_map,
      h.rampSlot]

theorem tiesOf (h : Unseen change) (slots : List Slot) :
    Shorthand.tiesOf (slots.map change) = Shorthand.tiesOf slots := by
  have htied : (fun pair : Slot × Nat => pair.1.tied) ∘ Prod.map change id =
      fun pair : Slot × Nat => pair.1.tied := funext fun pair => h.tied pair.1
  simp only [Shorthand.tiesOf, List.zipIdx_map, List.filter_map, List.map_map, List.length_map,
    htied]
  rfl

end Slot.Unseen

end Stave
