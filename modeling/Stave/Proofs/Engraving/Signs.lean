import Mathlib.Data.List.Perm.Basic
import Stave.Proofs.Engraving.Passes

/-!
# Signs and the heads they stand in front of

The heads of a slot are gone through from the top, so its signs come in another order than its
pitches. Apart from the order they are the signs its pitches show, one for each, and since no
head is gone through twice, a head carries the glyph of the one sign it has, or none.
-/
namespace Stave

/-- The glyph in front of a pitch once the bar to the left is known; a rhythm staff has none. -/
def Line.glyphOf? (line : Line) (previous : Option Alterations) (pitch : Pitch) :
    Option AccidentalGlyph :=
  if line.rhythm then none
  else
    match pitch.settledDisplay previous with
    | .shown alteration => some (.ofAlteration alteration)
    | _ => none

/-- The glyphs of a slot, each with the index of its head. -/
def Line.glyphs (line : Line) (previous : Option Alterations) (slot : Slot) :
    List (Nat × AccidentalGlyph) :=
  slot.pitches.zipIdx.filterMap fun (pitch, head) => (line.glyphOf? previous pitch).map (head, ·)

variable {line : Line} {previous : Option Alterations} {slot : Slot} {head : Nat}
  {glyph : AccidentalGlyph}

theorem Line.mem_glyphs : (head, glyph) ∈ line.glyphs previous slot ↔
    ∃ pitch, slot.pitches[head]? = some pitch ∧ line.glyphOf? previous pitch = some glyph := by
  simp only [glyphs, List.mem_filterMap, Prod.exists, List.mem_zipIdx_iff_getElem?,
    Option.map_eq_some_iff, Prod.mk.injEq]
  constructor
  · rintro ⟨pitch, _, hpitch, _, hglyph, rfl, rfl⟩
    exact ⟨pitch, hpitch, hglyph⟩
  · rintro ⟨pitch, hpitch, hglyph⟩
    exact ⟨pitch, head, hpitch, glyph, hglyph, rfl, rfl⟩

/-- No head has two glyphs. -/
theorem Line.nodup_glyphs (line : Line) (previous : Option Alterations) (slot : Slot) :
    ((line.glyphs previous slot).map Prod.fst).Nodup := by
  rw [glyphs, List.map_filterMap, List.Nodup, List.pairwise_filterMap]
  refine (pairwise_zipIdx slot.pitches).imp fun hne head hhead other hother => ?_
  simp only [Option.map_map, Option.map_eq_some_iff, Function.comp_apply] at hhead hother
  obtain ⟨-, -, rfl⟩ := hhead
  obtain ⟨-, -, rfl⟩ := hother
  exact hne

namespace Engraving

variable {config : Config} {index : Nat} {placed : PlacedSlot} {slots : List PlacedSlot}
  {signs : List AccidentalSign}

/-- The slot, the head and the glyph of a sign. -/
def AccidentalSign.place (sign : AccidentalSign) : Nat × Nat × AccidentalGlyph :=
  (sign.slot, sign.head, sign.glyph)

theorem map_fst_signColumns (above : Option (Int × Nat)) (heads : List PitchedHead) :
    (signColumns above heads).map Prod.fst = heads := by
  induction heads generalizing above with
  | nil => rfl
  | cons head rest ih => simp [signColumns, ih]

/-- The signs of a slot are those its heads show, from the top down. -/
theorem map_slotSigns (hrhythm : line.rhythm = false) :
    (slotSigns config previous index slot placed).map AccidentalSign.place =
      (headsFromTop slot placed).filterMap fun head =>
        (line.glyphOf? previous head.pitch).map (index, head.index, ·) := by
  have hsign (head : PitchedHead) (column : Nat) :
      (signOfHead? config previous index placed.x head column).map AccidentalSign.place =
        (line.glyphOf? previous head.pitch).map (index, head.index, ·) := by
    unfold signOfHead? Line.glyphOf?
    rw [hrhythm]
    cases head.pitch.settledDisplay previous <;> rfl
  conv_rhs => rw [← map_fst_signColumns none (headsFromTop slot placed), List.filterMap_map]
  rw [slotSigns, List.map_filterMap]
  exact List.filterMap_congr fun pair _ => hsign pair.1 pair.2

/-- The heads of a slot from the top down are its heads in another order. -/
theorem headsFromTop_perm (hlength : placed.heads.length = slot.pitches.length) :
    ((headsFromTop slot placed).map fun head => (head.pitch, head.index)).Perm
      slot.pitches.zipIdx := by
  refine ((List.mergeSort_perm _ _).map _).trans (List.Perm.of_eq ?_)
  have hsnd := List.map_snd_zip (Nat.le_of_eq hlength.symm)
  conv_rhs => rw [← hsnd, List.zipIdx_map]
  rw [List.mapIdx_eq_zipIdx_map, List.map_map]
  rfl

theorem perm_slotSigns (hrhythm : line.rhythm = false)
    (hlength : placed.heads.length = slot.pitches.length) :
    ((slotSigns config previous index slot placed).map AccidentalSign.place).Perm
      ((line.glyphs previous slot).map (index, ·)) := by
  rw [map_slotSigns hrhythm, Line.glyphs, List.map_filterMap]
  have hperm := (headsFromTop_perm hlength).filterMap fun (pitch, head) =>
    (line.glyphOf? previous pitch).map fun glyph => (index, head, glyph)
  rw [List.filterMap_map] at hperm
  simpa [Function.comp_def] using hperm

/-- The signs of one slot of a line. -/
theorem perm_signs (hlength : placed.heads.length = slot.pitches.length) :
    ((if line.rhythm then [] else slotSigns config previous index slot placed).map
      AccidentalSign.place).Perm ((line.glyphs previous slot).map (index, ·)) := by
  cases hrhythm : line.rhythm with
  | true => simp [Line.glyphs, Line.glyphOf?, hrhythm]
  | false => simpa using perm_slotSigns hrhythm hlength

/-- The signs of a line are those its slots show, slot by slot. -/
theorem perm_accidentalSigns (config : Config) (previous : Option Alterations)
    (seats : Seats line slots) :
    ((accidentalSigns config line previous slots).flatten.map AccidentalSign.place).Perm
      (line.listed (line.glyphs previous)) := by
  have hlisted := labels_eachSlot (fun index slot _ => (line.glyphs previous slot).map (index, ·))
    seats fun index slot placed => List.map_id _
  rw [← hlisted, List.map_id, accidentalSigns, List.map_flatten, List.mapIdx_eq_zipIdx_map,
    List.mapIdx_eq_zipIdx_map, List.map_map]
  refine List.Perm.flatMap_left (line.slots.zip slots).zipIdx fun pair hmem => ?_
  obtain ⟨⟨slot, placed⟩, index⟩ := pair
  obtain ⟨hslot, hplaced⟩ :=
    List.getElem?_zip_eq_some.1 (List.mem_zipIdx_iff_getElem?.1 hmem)
  exact perm_signs (seats.length_heads_eq hplaced hslot)

/-- No head of a line has two signs. -/
theorem nodup_accidentalSigns (seats : Seats line slots) :
    ((accidentalSigns config line previous slots).flatten.map fun sign =>
      (sign.slot, sign.head)).Nodup := by
  have hperm := (perm_accidentalSigns config previous seats).map fun place => (place.1, place.2.1)
  have hheads : (line.listed (line.glyphs previous)).map (fun place => (place.1, place.2.1)) =
      line.listed fun slot => (line.glyphs previous slot).map Prod.fst := by
    simp [Line.listed, List.map_flatten, List.mapIdx_eq_zipIdx_map, Function.comp_def]
  rw [List.map_map, hheads] at hperm
  exact hperm.nodup_iff.2 (Line.nodup_listed fun slot _ => line.nodup_glyphs previous slot)

/-! ## Heads -/

theorem heads_addSign (placed : PlacedSlot) (sign : AccidentalSign) :
    (addSign config placed sign).heads =
      placed.heads.modify sign.head fun head => { head with accidental := some sign.glyph } := rfl

/-- Signs change no staff position. -/
theorem indices_foldl_addSign (config : Config) (signs : List AccidentalSign)
    (placed : PlacedSlot) :
    (signs.foldl (addSign config) placed).heads.map Head.index = placed.heads.map Head.index := by
  have hsign (placed : PlacedSlot) (sign : AccidentalSign) :
      (addSign config placed sign).heads.map Head.index = placed.heads.map Head.index := by
    refine List.ext_getElem? fun index => ?_
    simp only [heads_addSign, List.getElem?_map, List.getElem?_modify, Option.map_eq_map,
      Option.map_map]
    refine Option.map_congr fun head _ => ?_
    simp only [Function.comp_apply]
    split <;> rfl
  exact foldl_kept (fun placed => placed.heads.map Head.index) hsign signs placed

/-- A head without a sign is left as it is. -/
theorem getElem?_foldl_addSign_of_ne (hne : ∀ sign ∈ signs, sign.head ≠ head) :
    (signs.foldl (addSign config) placed).heads[head]? = placed.heads[head]? := by
  induction signs generalizing placed with
  | nil => rfl
  | cons sign rest ih =>
    rw [List.foldl_cons, ih fun other hmem => hne other (List.mem_cons_of_mem _ hmem),
      heads_addSign, List.getElem?_modify]
    simp [hne sign List.mem_cons_self]

/-- A head with one sign carries its glyph. -/
theorem accidental_foldl_addSign {sign : AccidentalSign} (hmem : sign ∈ signs)
    (hnodup : (signs.map AccidentalSign.head).Nodup) :
    (signs.foldl (addSign config) placed).heads[sign.head]?.map Head.accidental =
      placed.heads[sign.head]?.map fun _ => some sign.glyph := by
  induction signs generalizing placed with
  | nil => cases hmem
  | cons other rest ih =>
    obtain ⟨hother, hrest⟩ := List.nodup_cons.1 hnodup
    rw [List.foldl_cons]
    rcases List.mem_cons.1 hmem with rfl | hmem
    · have hne : ∀ later ∈ rest, later.head ≠ sign.head := fun later hlater heq =>
        hother (List.mem_map.2 ⟨later, hlater, heq⟩)
      rw [getElem?_foldl_addSign_of_ne hne, heads_addSign, List.getElem?_modify]
      simp [Function.comp_def]
    · rw [ih hmem hrest, heads_addSign, List.getElem?_modify]
      simp [Function.comp_def]

/-- After its signs are drawn each head of a slot carries the glyph of its pitch, or none. -/
theorem accidentals_foldl_addSign (bare : ∀ head ∈ placed.heads, head.accidental = none)
    (hlength : placed.heads.length = slot.pitches.length)
    (hsigns : (signs.map AccidentalSign.place).Perm
      ((line.glyphs previous slot).map (index, ·))) :
    (signs.foldl (addSign config) placed).heads.map Head.accidental =
      slot.pitches.map (line.glyphOf? previous) := by
  have hglyphs : (signs.map fun sign => (sign.head, sign.glyph)).Perm
      (line.glyphs previous slot) := by
    simpa [AccidentalSign.place, Function.comp_def] using hsigns.map Prod.snd
  have hnodup : (signs.map AccidentalSign.head).Nodup := by
    have hheads := hglyphs.map Prod.fst
    rw [List.map_map] at hheads
    exact hheads.nodup_iff.2 (line.nodup_glyphs previous slot)
  have hcount := congrArg List.length (indices_foldl_addSign config signs placed)
  simp only [List.length_map] at hcount
  refine List.ext_getElem? fun head => ?_
  rw [List.getElem?_map, List.getElem?_map]
  cases hpitch : slot.pitches[head]? with
  | none =>
    rw [List.getElem?_eq_none_iff] at hpitch
    rw [List.getElem?_eq_none (by omega)]
    rfl
  | some pitch =>
    have hlt : head < placed.heads.length := hlength ▸ (List.getElem?_eq_some_iff.1 hpitch).1
    have hhead := List.getElem?_eq_getElem hlt
    cases hglyph : line.glyphOf? previous pitch with
    | none =>
      have hne : ∀ sign ∈ signs, sign.head ≠ head := by
        rintro sign hmem rfl
        have hshown := hglyphs.subset (List.mem_map_of_mem hmem)
        obtain ⟨other, hother, hglyph'⟩ := Line.mem_glyphs.1 hshown
        simp_all
      rw [getElem?_foldl_addSign_of_ne hne, hhead, Option.map_some, Option.map_some, hglyph,
        bare _ (List.getElem_mem _)]
    | some glyph =>
      have hshown := hglyphs.symm.subset (Line.mem_glyphs.2 ⟨pitch, hpitch, hglyph⟩)
      obtain ⟨sign, hmem, heq⟩ := List.mem_map.1 hshown
      obtain ⟨rfl, rfl⟩ := Prod.mk.injEq .. ▸ heq
      rw [accidental_foldl_addSign hmem hnodup, hhead, Option.map_some, Option.map_some, hglyph]

/-- The slots of a line with their signs, slot by slot. -/
theorem addAccidentals_eq (config : Config) (line : Line) (previous : Option Alterations)
    (slots : List PlacedSlot) :
    addAccidentals config (accidentalSigns config line previous slots) slots =
      (line.slots.zip slots).mapIdx fun index (slot, placed) =>
        (if line.rhythm then [] else slotSigns config previous index slot placed).foldl
          (addSign config) placed := by
  refine List.ext_getElem? fun index => ?_
  simp only [addAccidentals, accidentalSigns, List.getElem?_zipWith, List.getElem?_mapIdx]
  cases hpair : (line.slots.zip slots)[index]? with
  | none => cases slots[index]? <;> rfl
  | some pair => rw [(List.getElem?_zip_eq_some.1 hpair).2]; rfl

/-- The signs of a line leave its slots where they are. -/
theorem Seats.addAccidentals (seats : Seats line slots) :
    Seats line (addAccidentals config (accidentalSigns config line previous slots) slots) := by
  rw [addAccidentals_eq]
  refine Eq.trans ?_ seats
  exact map_mapIdx_zip_right (Nat.le_of_eq seats.length_eq) fun index slot placed =>
    indices_foldl_addSign config _ placed

/-- After the signs of a line are drawn its heads carry the glyphs of its pitches. -/
theorem accidentals_addAccidentals (config : Config) (previous : Option Alterations)
    (seats : Seats line slots)
    (bare : ∀ placed ∈ slots, ∀ head ∈ placed.heads, head.accidental = none) :
    (addAccidentals config (accidentalSigns config line previous slots) slots).map
        (fun placed => placed.heads.map Head.accidental) =
      line.slots.map fun slot => slot.pitches.map (line.glyphOf? previous) := by
  have hmap : (line.slots.map fun slot => slot.pitches.map (line.glyphOf? previous)) =
      line.slots.mapIdx fun _ slot => slot.pitches.map (line.glyphOf? previous) :=
    List.ext_getElem? fun index => by simp
  rw [addAccidentals_eq, hmap]
  refine map_mapIdx_zip_left (Nat.le_of_eq seats.length_eq.symm) ?_
  intro index slot placed hslot hplaced
  have hlength := seats.length_heads_eq hplaced hslot
  exact accidentals_foldl_addSign (bare placed (List.mem_of_getElem? hplaced)) hlength
    (perm_signs hlength)

end Engraving

end Stave
