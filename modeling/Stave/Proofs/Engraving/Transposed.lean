import Stave.Engraving.Layout
import Stave.Proofs.WrittenLine.Transposed

/-!
# Layouts of transposed lines

A layout looks at a line slot by slot, and at a slot through its time, its marks, and the staff
positions and accidentals of its pitches. None of these changes when a line is transposed, so that
a line and the transposed line have one layout. What is drawn for a text is then the same for two
instruments that differ in name and transposition: transposing changes what sounds, and nothing
else.
-/
namespace Stave

open Shorthand

namespace Engraving

variable (transposition : Int)

@[simp] theorem onsets_transposed (line : Line) :
    (line.transposed transposition).onsets = line.onsets :=
  (Slot.unseen_transposed transposition).onsetsFrom 0 line.slots

/-- A pass goes through the slots of a transposed line as it does through those of the line, if it
does so at each slot. -/
theorem mapIdx_zip_transposed {α : Type} (pass : Nat → Slot × PlacedSlot → α)
    (h : ∀ index slot placed,
      pass index (slot.transposed transposition, placed) = pass index (slot, placed))
    (line : Line) (slots : List PlacedSlot) :
    ((line.transposed transposition).slots.zip slots).mapIdx pass =
      (line.slots.zip slots).mapIdx pass := by
  refine List.ext_getElem? fun index => ?_
  simp only [Line.transposed, List.getElem?_mapIdx, List.zip_map_left, List.getElem?_map,
    Option.map_map]
  exact Option.map_congr fun pair _ => h index pair.1 pair.2

/-! ### Heads, stems and beams -/

theorem placeSlots_transposed (config : Config) (line : Line) (meter : Meter) :
    placeSlots config (line.transposed transposition) meter = placeSlots config line meter := by
  have hplace (onset : Nat) (slot : Slot) :
      placeSlot config (line.transposed transposition) meter onset
          (slot.transposed transposition) =
        placeSlot config line meter onset slot := by
    have hheads : headsOf config (line.transposed transposition)
        (slot.transposed transposition) = headsOf config line slot := by
      simp only [headsOf, Slot.pitches_transposed, List.map_map]
      rfl
    simp only [placeSlot, hheads]
    rfl
  rw [placeSlots, placeSlots, onsets_transposed]
  simp only [Line.transposed, List.zipWith_map_right] at hplace ⊢
  simp only [hplace]

theorem addStems_transposed (config : Config) (line : Line) (beams : List Beam)
    (slots : List PlacedSlot) :
    addStems config (line.transposed transposition) beams slots =
      addStems config line beams slots := by
  refine mapIdx_zip_transposed transposition _ (fun index slot placed => ?_) line slots
  simp only [addStem, hasStem, Slot.isRest_transposed]
  rfl

theorem beatRuns_transposed (beatUnits index : Nat) (current : Option BeatRun)
    (slots : List (Nat × Slot)) :
    beatRuns beatUnits index current (slots.map (Prod.map id (Slot.transposed transposition))) =
      beatRuns beatUnits index current slots := by
  induction slots generalizing index current with
  | nil => rfl
  | cons slot rest ih =>
    obtain ⟨onset, slot⟩ := slot
    have hshort : beamable (slot.transposed transposition) = beamable slot := rfl
    simp only [List.map_cons, Prod.map, id_eq, beatRuns, hshort]
    split
    · split
      · split <;> simp only [ih]
      · rw [ih]
    · rw [ih]

/-- Trimming a run looks for rests only. -/
theorem trimRun?_congr {slots others : Array Slot}
    (h : ∀ index, isRestAt slots index = isRestAt others index) (run : BeatRun) :
    trimRun? slots run = trimRun? others run := by
  have hstart (start stop : Nat) : trimRunStart slots start stop =
      trimRunStart others start stop := by
    fun_induction trimRunStart slots start stop with
    | case1 start hrest ih =>
      rw [ih, trimRunStart.eq_1 others start, ← h, if_pos hrest]
    | case2 start hrest => rw [trimRunStart, ← h, if_neg hrest]
  have hstop (start stop : Nat) : trimRunStop slots start stop =
      trimRunStop others start stop := by
    induction stop with
    | zero => rfl
    | succ stop ih => rw [trimRunStop, trimRunStop, ih, h]
  rw [trimRun?, trimRun?, hstart, hstop]

theorem beamRuns_transposed (line : Line) (meter : Meter) :
    beamRuns (line.transposed transposition) meter = beamRuns line meter := by
  have hrest (index : Nat) : isRestAt (line.transposed transposition).slots.toArray index =
      isRestAt line.slots.toArray index := by
    simp [isRestAt, Line.transposed, Function.comp_def]
  have hzip : line.onsets.zip (line.transposed transposition).slots =
      (line.onsets.zip line.slots).map (Prod.map id (Slot.transposed transposition)) :=
    List.zip_map_right ..
  rw [beamRuns, beamRuns, onsets_transposed, hzip, beatRuns_transposed]
  exact congrArg (List.filterMap · _) (funext (trimRun?_congr hrest))

theorem beamsOf_transposed (config : Config) (line : Line) (meter : Meter)
    (slots : List PlacedSlot) :
    beamsOf config (line.transposed transposition) meter slots =
      beamsOf config line meter slots := by
  rw [beamsOf, beamsOf, beamRuns_transposed]
  rfl

/-! ### Accidentals -/

/-- The head with its pitch transposed. -/
def PitchedHead.transposed (head : PitchedHead) : PitchedHead :=
  { head with pitch := head.pitch.transposed transposition }

theorem headsFromTop_transposed (slot : Slot) (placed : PlacedSlot) :
    headsFromTop (slot.transposed transposition) placed =
      (headsFromTop slot placed).map (PitchedHead.transposed transposition) := by
  have hsort (heads : List PitchedHead) :
      (heads.mergeSort fun a b => b.head.index ≤ a.head.index).map
          (PitchedHead.transposed transposition) =
        (heads.map (PitchedHead.transposed transposition)).mergeSort
          fun a b => b.head.index ≤ a.head.index :=
    List.map_mergeSort fun _ _ _ _ => rfl
  rw [headsFromTop, headsFromTop, hsort, Slot.pitches_transposed, List.zip_map_right]
  refine congrArg (List.mergeSort · _) (List.ext_getElem? fun index => ?_)
  simp only [List.getElem?_mapIdx, List.getElem?_map, Option.map_map]
  rfl

theorem signColumns_transposed (above : Option (Int × Nat)) (heads : List PitchedHead) :
    signColumns above (heads.map (PitchedHead.transposed transposition)) =
      (signColumns above heads).map (Prod.map (PitchedHead.transposed transposition) id) := by
  induction heads generalizing above with
  | nil => rfl
  | cons head rest ih =>
    simp only [List.map_cons, signColumns, ih]
    rfl

theorem slotSigns_transposed (config : Config) (previous : Option Alterations) (index : Nat)
    (slot : Slot) (placed : PlacedSlot) :
    slotSigns config previous index (slot.transposed transposition) placed =
      slotSigns config previous index slot placed := by
  rw [slotSigns, slotSigns, headsFromTop_transposed, signColumns_transposed, List.filterMap_map]
  rfl

theorem accidentalSigns_transposed (config : Config) (line : Line)
    (previous : Option Alterations) (slots : List PlacedSlot) :
    accidentalSigns config (line.transposed transposition) previous slots =
      accidentalSigns config line previous slots := by
  refine mapIdx_zip_transposed transposition _ (fun index slot placed => ?_) line slots
  simp only [slotSigns_transposed]

/-! ### Marks of slots -/

theorem addMarks_transposed (config : Config) (line : Line) (slots : List PlacedSlot) :
    addMarks config (line.transposed transposition) slots = addMarks config line slots := by
  unfold addMarks
  rw [mapIdx_zip_transposed transposition _ (fun _ _ _ => rfl)]

theorem addTexts_transposed (config : Config) (line : Line) (slots : List PlacedSlot) :
    addTexts config (line.transposed transposition) slots = addTexts config line slots := by
  unfold addTexts
  rw [mapIdx_zip_transposed transposition _ (fun _ _ _ => rfl)]

theorem ottavaRuns_transposed (index : Nat) (current : Option OttavaRun) (slots : List Slot) :
    ottavaRuns index current (slots.map (Slot.transposed transposition)) =
      ottavaRuns index current slots := by
  induction slots generalizing index current with
  | nil => rfl
  | cons slot rest ih =>
    have hlevel : (slot.transposed transposition).ottava = slot.ottava := rfl
    simp only [List.map_cons, ottavaRuns, hlevel, ih]

theorem addOttavas_transposed (config : Config) (line : Line) (slots : List PlacedSlot) :
    addOttavas config (line.transposed transposition) slots = addOttavas config line slots := by
  have hruns := ottavaRuns_transposed transposition 0 none line.slots
  rw [addOttavas, addOttavas, ← hruns]
  rfl

theorem glissandoLines_transposed (config : Config) (line : Line) (slots : List PlacedSlot) :
    glissandoLines config (line.transposed transposition) slots =
      glissandoLines config line slots := by
  simp only [glissandoLines, Line.transposed, List.zip_map_left, List.zipIdx_map,
    List.filter_map, List.filterMap_map]
  rfl

theorem dynamicMarks_transposed (config : Config) (line : Line) (slots : List PlacedSlot) :
    dynamicMarks config (line.transposed transposition) slots =
      dynamicMarks config line slots := by
  simp only [dynamicMarks, Line.transposed, List.zip_map_left, List.zipIdx_map,
    List.filterMap_map]
  rfl

theorem addDynamics_transposed (config : Config) (line : Line) (slots : List PlacedSlot) :
    addDynamics config (line.transposed transposition) slots = addDynamics config line slots := by
  simp only [addDynamics, dynamicMarks_transposed]
  rfl

/-- A transposed line has the layout of the line. -/
theorem Layout.of_transposed (config : Config) (line : Line) (meter : Meter)
    (context : Context) :
    Layout.of config (line.transposed transposition) meter context =
      Layout.of config line meter context := by
  -- Tuplets, slurs and ties are drawn without a look at the slots of the line.
  have hbrackets (beams : List Beam) (slots : List PlacedSlot) :
      addBrackets config (line.transposed transposition) beams slots =
        addBrackets config line beams slots := rfl
  have hslurs (slots : List PlacedSlot) :
      addSlurs config (line.transposed transposition) slots = addSlurs config line slots := rfl
  have hties (tiedIn : Bool) (slots : List PlacedSlot) :
      addTies config (line.transposed transposition) tiedIn slots =
        addTies config line tiedIn slots := rfl
  simp only [Layout.of, placeSlots_transposed, beamsOf_transposed, addStems_transposed,
    accidentalSigns_transposed, hbrackets, addMarks_transposed, hslurs, hties,
    addOttavas_transposed, addTexts_transposed, glissandoLines_transposed,
    addDynamics_transposed]

end Engraving

namespace Shorthand

open Engraving

/-- What a text is read to for a retuned instrument is what it is read to for the instrument, the
same error or the same line with its pitches sounding otherwise; and what is drawn for it, in
whatever bar, is the same. -/
theorem soundsOnly_retuned (text : String) (player : Instrument) (name : String)
    (transposition : Int) (prior : Carry) (frame : Frame) :
    readLine text (player.retuned name transposition) prior frame =
        (readLine text player prior frame).map (WrittenLine.transposed transposition) ∧
      ∀ config meter context,
        (readLine text (player.retuned name transposition) prior frame).map
            (fun written => Layout.of config written.line meter context) =
          (readLine text player prior frame).map
            fun written => Layout.of config written.line meter context := by
  have hread := readLine_retuned transposition player name text prior frame
  refine ⟨hread, fun config meter context => ?_⟩
  rw [hread]
  cases readLine text player prior frame with
  | error error => rfl
  | ok written =>
    exact congrArg Except.ok
      (Layout.of_transposed transposition config written.line meter context)

end Shorthand

end Stave
