import Stave.Proofs.Engraving.BeatRuns
import Stave.Proofs.Engraving.Passes
import Stave.Proofs.WrittenLine.Sounding

/-!
# Stems and their directions

Beams lie apart, so a slot looks for its beam and finds the only one there is. In a beam it gets a
stem just if it has heads, and outside of beams just if it has one by itself. Both come to the same,
since what is in a beam is shorter than a quarter, and what is no rest has heads. The direction is
voted for by heads, which stems leave alone: by all those of a beam together, or by those of the
slot.

## Main statements

* `Shorthand.stemmed_of_readLine`: stems of every line that is read, in whatever bar it is drawn.
-/
namespace Stave

namespace Engraving

/-- Stems over these heads go up: on a rhythm staff, or if no more heads are above the middle line
than below it. -/
def GoesUp (line : Line) (heads : List Head) : Prop :=
  line.rhythm = true ∨ heads.countP (·.index > line.clef.middleLine) ≤
    heads.countP (·.index < line.clef.middleLine)

/-- The heads of the slots a beam goes over. -/
def headsOver (beam : Beam) (slots : List PlacedSlot) : List Head :=
  ((slots.drop beam.start).take (beam.stop + 1 - beam.start)).flatMap PlacedSlot.heads

/-- The slots of a line have their stems, and each stem its direction. -/
structure Stemmed (line : Line) (meter : Meter) (beams : List Beam) (slots : List PlacedSlot) :
    Prop where
  seats : Seats line slots
  stem_iff : ∀ (index : Nat) slot placed, line.slots[index]? = some slot →
    slots[index]? = some placed →
      (placed.stem.isSome ↔ slot.isRest = false ∧ slot.displayDuration < wholeUnits)
  tip_iff : ∀ placed ∈ slots, (placed.stemTip.isSome ↔ placed.stem.isSome)
  /-- Beams go over the runs of the line, and no slot is in two of them. -/
  ranges : beams.map (fun beam => (beam.start, beam.stop)) = beamRuns line meter
  once : ∀ index, beams.countP (·.contains index) ≤ 1
  /-- The stems of a beam have its direction, voted for by all heads it goes over. -/
  beamed : ∀ beam ∈ beams, ∀ (index : Nat) placed, beam.contains index →
    slots[index]? = some placed → ∀ direction ∈ placed.stem, direction = beam.direction
  beam_up_iff : ∀ beam ∈ beams, (beam.direction = .up ↔ GoesUp line (headsOver beam slots))
  /-- The direction of any other stem is voted for by the heads of its slot. -/
  free_up_iff : ∀ (index : Nat) placed, slots[index]? = some placed →
    (∀ beam ∈ beams, ¬beam.contains index = true) →
      ∀ direction ∈ placed.stem, (direction = .up ↔ GoesUp line placed.heads)

variable {config : Config} {line : Line} {meter : Meter} {beam : Beam} {beams : List Beam}
  {slots : List PlacedSlot} {placed : PlacedSlot} {slot : Slot} {index : Nat}
  {direction : StemDirection} {run : Nat × Nat}

/-! ### Votes -/

theorem directionOf_votes (line : Line) (heads : List Head) :
    directionOf line.rhythm (votes line.clef.middleLine heads) = .up ↔ GoesUp line heads := by
  have hvotes : votes line.clef.middleLine heads ≥ 0 ↔
      heads.countP (·.index > line.clef.middleLine) ≤
        heads.countP (·.index < line.clef.middleLine) := by
    unfold votes
    omega
  unfold directionOf GoesUp
  rw [← hvotes]
  cases line.rhythm <;> simp

/-! ### The stem of a slot -/

theorem anchor?_eq_none_iff : anchor? direction placed = none ↔ placed.heads = [] := by
  unfold anchor? headSpan?
  cases placed.heads <;> simp

/-- What a slot without a stem gets from its direction: a stem with a tip, if it has heads. -/
structure StemGiven (direction : StemDirection) (placed stemmed : PlacedSlot) : Prop where
  stem_eq : stemmed.stem = if placed.heads = [] then none else some direction
  tip_iff : stemmed.stemTip.isSome ↔ stemmed.stem.isSome

/-- A stem is drawn from the head it grows from, and a slot that has none stays as it is. -/
theorem StemGiven.of_anchor {stemmed : PlacedSlot}
    (bare : placed.stem = none ∧ placed.stemTip = none)
    (hnone : anchor? direction placed = none → stemmed = placed)
    (hsome : ∀ y, anchor? direction placed = some y →
      stemmed.stem = some direction ∧ stemmed.stemTip.isSome) :
    StemGiven direction placed stemmed := by
  cases hanchor : anchor? direction placed with
  | none =>
    rw [hnone hanchor]
    have hheads := anchor?_eq_none_iff.1 hanchor
    exact ⟨by rw [if_pos hheads, bare.1], by simp [bare]⟩
  | some y =>
    obtain ⟨hstem, htip⟩ := hsome y hanchor
    have hheads : placed.heads ≠ [] := fun h => by simp [anchor?_eq_none_iff.2 h] at hanchor
    exact ⟨by rw [if_neg hheads, hstem], by simp [hstem, htip]⟩

theorem stemGiven_stemInBeam (bare : placed.stem = none ∧ placed.stemTip = none) :
    StemGiven beam.direction placed (stemInBeam config beam placed) := by
  refine .of_anchor bare (fun h => ?_) fun y h => ?_ <;> unfold stemInBeam <;> rw [h]
  exact ⟨rfl, rfl⟩

theorem stemGiven_freeStem (bare : placed.stem = none ∧ placed.stemTip = none) :
    StemGiven direction placed (freeStem config direction placed) := by
  refine .of_anchor bare (fun h => ?_) fun y h => ?_ <;> unfold freeStem <;> rw [h]
  exact ⟨rfl, rfl⟩

/-- No slot has a stem before stems are added. -/
theorem bare_of_mem_placeSlots (h : placed ∈ placeSlots config line meter) :
    placed.stem = none ∧ placed.stemTip = none := by
  rw [placeSlots, ← List.map_uncurry_zip_eq_zipWith] at h
  obtain ⟨pair, -, rfl⟩ := List.mem_map.1 h
  exact ⟨rfl, rfl⟩

theorem getElem?_addStems {stemmed : PlacedSlot}
    (h : (addStems config line beams slots)[index]? = some stemmed) :
    ∃ slot placed, line.slots[index]? = some slot ∧ slots[index]? = some placed ∧
      stemmed = addStem config line beams index slot placed := by
  rw [addStems, List.getElem?_mapIdx] at h
  obtain ⟨⟨slot, placed⟩, hpair, rfl⟩ := Option.map_eq_some_iff.1 h
  obtain ⟨hslot, hplaced⟩ := List.getElem?_zip_eq_some.1 hpair
  exact ⟨slot, placed, hslot, hplaced, rfl⟩

/-! ### Beams lie apart -/

/-- Of what holds of no two entries, a search finds the only one. -/
theorem find?_eq_some_of_pairwise {α : Type} {p : α → Bool} {list : List α} {item : α}
    (apart : list.Pairwise fun first second => ¬(p first = true ∧ p second = true))
    (hmem : item ∈ list) (hitem : p item = true) : list.find? p = some item := by
  induction list with
  | nil => cases hmem
  | cons first rest ih =>
    obtain ⟨hfirst, hrest⟩ := List.pairwise_cons.1 apart
    rcases List.mem_cons.1 hmem with rfl | hmem
    · exact List.find?_cons_of_pos hitem
    · have hnot : ¬p first = true := fun h => hfirst item hmem ⟨h, hitem⟩
      rw [List.find?_cons_of_neg hnot]
      exact ih hrest hmem

theorem countP_le_one_of_pairwise {α : Type} {p : α → Bool} {list : List α}
    (apart : list.Pairwise fun first second => ¬(p first = true ∧ p second = true)) :
    list.countP p ≤ 1 := by
  induction list with
  | nil => exact Nat.zero_le _
  | cons first rest ih =>
    obtain ⟨hfirst, hrest⟩ := List.pairwise_cons.1 apart
    by_cases hp : p first = true
    · have hnone : rest.countP p = 0 :=
        List.countP_eq_zero.2 fun other hmem hother => hfirst other hmem ⟨hp, hother⟩
      rw [List.countP_cons_of_pos hp, hnone]
    · rw [List.countP_cons_of_neg hp]
      exact ih hrest

theorem Beam.contains_iff :
    beam.contains index = true ↔ beam.start ≤ index ∧ index ≤ beam.stop := by
  simp [contains]

/-- A beam goes over the slots of its run. -/
theorem range_beamOfRun (config : Config) (hrun : run ∈ beamRuns line meter)
    (hlength : slots.length = line.slots.length) :
    (beamOfRun config line slots run).start = run.1 ∧
      (beamOfRun config line slots run).stop = run.2 := by
  obtain ⟨first, last⟩ := run
  have hbounds := bounds_of_mem_beamRuns hrun
  refine ⟨rfl, ?_⟩
  simp only [beamOfRun, beamOver, Beam.shifted, List.length_take, List.length_drop]
  omega

theorem map_range_beamsOf (hlength : slots.length = line.slots.length) :
    (beamsOf config line meter slots).map (fun beam => (beam.start, beam.stop)) =
      beamRuns line meter := by
  rw [beamsOf, List.map_map]
  refine (List.map_congr_left fun run hrun => ?_).trans (List.map_id _)
  obtain ⟨hstart, hstop⟩ := range_beamOfRun config hrun hlength
  exact Prod.ext hstart hstop

theorem direction_beamOfRun (hrun : run ∈ beamRuns line meter)
    (hlength : slots.length = line.slots.length) :
    (beamOfRun config line slots run).direction = .up ↔
      GoesUp line (headsOver (beamOfRun config line slots run) slots) := by
  obtain ⟨hstart, hstop⟩ := range_beamOfRun config hrun hlength
  rw [headsOver, hstart, hstop]
  exact directionOf_votes line _

theorem apart_beamsOf (hlength : slots.length = line.slots.length) (index : Nat) :
    (beamsOf config line meter slots).Pairwise fun first second =>
      ¬(first.contains index = true ∧ second.contains index = true) := by
  have hranges := (cutFromBeats_beamRuns line meter).increasing
  rw [← map_range_beamsOf hlength] at hranges
  refine (List.pairwise_map.1 hranges).imp fun {first second} hlt hboth => ?_
  have hfirst := Beam.contains_iff.1 hboth.1
  have hsecond := Beam.contains_iff.1 hboth.2
  dsimp only at hlt
  omega

/-- What a beam goes over is shorter than a quarter. -/
theorem lt_quarterUnits_of_contains (hlength : slots.length = line.slots.length)
    (hbeam : beam ∈ beamsOf config line meter slots) (hindex : beam.contains index = true)
    (hslot : line.slots[index]? = some slot) : slot.displayDuration < quarterUnits := by
  obtain ⟨run, hrun, rfl⟩ := List.mem_map.1 hbeam
  obtain ⟨hstart, hstop⟩ := range_beamOfRun config hrun hlength
  obtain ⟨hle, hge⟩ := Beam.contains_iff.1 hindex
  obtain ⟨-, beat, hinside⟩ := (cutFromBeats_beamRuns line meter).joinsNotes.oneBeat run hrun
  have hbeat := hinside index (hstart ▸ hle) (hstop ▸ hge)
  unfold Line.shortBeat? at hbeat
  obtain ⟨onset, -, hbeat⟩ := Option.bind_eq_some_iff.1 hbeat
  obtain ⟨same, hsame, hbeat⟩ := Option.bind_eq_some_iff.1 hbeat
  rw [hslot] at hsame
  cases hsame
  exact (Option.ite_none_right_eq_some.1 hbeat).1

/-! ### The stems of a line -/

/-- What becomes of a slot: it gets the stem of the first beam it is in, else one of its own if it
has one, and else it stays as it is. -/
inductive StemAdded (line : Line) (beams : List Beam) (index : Nat) (slot : Slot)
    (placed stemmed : PlacedSlot) : Prop where
  | beamed {beam : Beam} (found : beams.find? (·.contains index) = some beam)
      (given : StemGiven beam.direction placed stemmed)
  | free (outside : beams.find? (·.contains index) = none) (has : hasStem slot = true)
      (given : StemGiven (directionOf line.rhythm (votes line.clef.middleLine placed.heads)) placed
        stemmed)
  | bare (outside : beams.find? (·.contains index) = none) (lacks : hasStem slot = false)
      (same : stemmed = placed)

theorem stemAdded_addStem (bare : placed.stem = none ∧ placed.stemTip = none) :
    StemAdded line beams index slot placed (addStem config line beams index slot placed) := by
  unfold addStem
  cases hfind : beams.find? (·.contains index) with
  | some beam => exact .beamed hfind (stemGiven_stemInBeam bare)
  | none =>
    dsimp only
    split
    case isTrue has => exact .free hfind has (stemGiven_freeStem bare)
    case isFalse lacks => exact .bare hfind (by simpa using lacks) rfl

namespace StemAdded

variable {stemmed : PlacedSlot}

/-- A slot that has heads unless it is a rest, and is short if it is in a beam, gets a stem just if
it has one by itself. -/
theorem isSome_iff (h : StemAdded line beams index slot placed stemmed)
    (bare : placed.stem = none) (hheads : placed.heads = [] ↔ slot.isRest = true)
    (hshort : ∀ beam ∈ beams, beam.contains index = true → slot.displayDuration < quarterUnits) :
    stemmed.stem.isSome ↔ slot.isRest = false ∧ slot.displayDuration < wholeUnits := by
  have hgiven {direction : StemDirection} (given : StemGiven direction placed stemmed) :
      stemmed.stem.isSome ↔ slot.isRest = false := by
    rw [given.stem_eq, ← Bool.not_eq_true, ← hheads]
    by_cases hnone : placed.heads = [] <;> simp [hnone]
  cases h with
  | beamed found given =>
    have hcontains := List.find?_some found
    have hquarter := hshort _ (List.mem_of_find?_eq_some found) hcontains
    have hwhole : slot.displayDuration < wholeUnits := Nat.lt_trans hquarter (by decide)
    rw [hgiven given, and_iff_left hwhole]
  | free outside has given =>
    have hwhole : slot.displayDuration < wholeUnits := by
      simp only [hasStem, Bool.and_eq_true, decide_eq_true_eq] at has
      exact has.2
    rw [hgiven given, and_iff_left hwhole]
  | bare outside lacks same =>
    have hlacks : ¬(slot.isRest = false ∧ slot.displayDuration < wholeUnits) := by
      simpa [hasStem] using lacks
    rw [same, bare]
    simp only [Option.isSome_none, Bool.false_eq_true, false_iff]
    exact hlacks

theorem tip_iff (h : StemAdded line beams index slot placed stemmed)
    (bare : placed.stem = none ∧ placed.stemTip = none) :
    stemmed.stemTip.isSome ↔ stemmed.stem.isSome := by
  cases h with
  | beamed found given => exact given.tip_iff
  | free outside has given => exact given.tip_iff
  | bare outside lacks same => rw [same, bare.1, bare.2]; rfl

/-- In the only beam that contains it, a slot has the direction of the beam. -/
theorem direction_eq (h : StemAdded line beams index slot placed stemmed)
    (only : beams.find? (·.contains index) = some beam)
    (hdirection : direction ∈ stemmed.stem) : direction = beam.direction := by
  cases h with
  | beamed found given =>
    rw [only] at found
    cases found
    rw [given.stem_eq] at hdirection
    exact (Option.some.inj (Option.ite_none_left_eq_some.1 hdirection).2).symm
  | free outside => simp [only] at outside
  | bare outside => simp [only] at outside

/-- Outside of beams, the heads of a slot vote for the direction. -/
theorem up_iff (h : StemAdded line beams index slot placed stemmed) (bare : placed.stem = none)
    (outside : beams.find? (·.contains index) = none) (hdirection : direction ∈ stemmed.stem) :
    direction = .up ↔ GoesUp line placed.heads := by
  cases h with
  | beamed found => simp [outside] at found
  | free outside has given =>
    rw [given.stem_eq] at hdirection
    rw [← Option.some.inj (Option.ite_none_left_eq_some.1 hdirection).2]
    exact directionOf_votes line placed.heads
  | bare outside lacks same => simp [same, bare] at hdirection

end StemAdded

theorem headsOver_addStems (seats : Seats line slots) (beams : List Beam) (beam : Beam) :
    headsOver beam (addStems config line beams slots) = headsOver beam slots := by
  have hheads : allHeads (addStems config line beams slots) = allHeads slots :=
    allHeads_addStems seats beams
  simp only [allHeads] at hheads
  simp only [headsOver, List.flatMap_def, List.map_take, List.map_drop, hheads]

/-- The slots of a line have their stems, if what is no rest in it sounds. -/
theorem stemmed_of_sounding (sounding : line.Sounding) (config : Config) (meter : Meter) :
    Stemmed line meter (beamsOf config line meter (placeSlots config line meter))
      (addStems config line (beamsOf config line meter (placeSlots config line meter))
        (placeSlots config line meter)) := by
  have seats := seats_placeSlots config line meter
  have hlength := seats.length_eq
  have hbare (placed) (hmem : placed ∈ placeSlots config line meter) := bare_of_mem_placeSlots hmem
  generalize placeSlots config line meter = slots at *
  have hadded {index : Nat} {stemmed : PlacedSlot}
      (h : (addStems config line (beamsOf config line meter slots) slots)[index]? = some stemmed) :
      ∃ slot placed, line.slots[index]? = some slot ∧ slots[index]? = some placed ∧
        stemmed.heads = placed.heads ∧ (placed.stem = none ∧ placed.stemTip = none) ∧
        StemAdded line (beamsOf config line meter slots) index slot placed stemmed := by
    obtain ⟨slot, placed, hslot, hplaced, rfl⟩ := getElem?_addStems h
    have bare := hbare placed (List.mem_of_getElem? hplaced)
    exact ⟨slot, placed, hslot, hplaced, heads_addStem .., bare, stemAdded_addStem bare⟩
  refine
    { seats := seats.of_allHeads (allHeads_addStems seats _)
      stem_iff := fun index slot stemmed hslot hstemmed => ?_
      tip_iff := fun stemmed hmem => ?_
      ranges := map_range_beamsOf hlength
      once := fun index => countP_le_one_of_pairwise (apart_beamsOf hlength index)
      beamed := fun beam hbeam index stemmed hindex hstemmed direction hdirection => ?_
      beam_up_iff := fun beam hbeam => ?_
      free_up_iff := fun index stemmed hstemmed houtside direction hdirection => ?_ }
  · obtain ⟨same, placed, hsame, hplaced, -, bare, added⟩ := hadded hstemmed
    rw [hslot] at hsame
    cases hsame
    refine added.isSome_iff bare.1 ?_ fun beam hbeam hindex =>
      lt_quarterUnits_of_contains hlength hbeam hindex hslot
    rw [← List.length_eq_zero_iff, seats.length_heads_eq hplaced hslot, List.length_eq_zero_iff]
    exact (sounding slot (List.mem_of_getElem? hslot)).symm
  · obtain ⟨index, hindex⟩ := List.mem_iff_getElem?.1 hmem
    obtain ⟨slot, placed, -, -, -, bare, added⟩ := hadded hindex
    exact added.tip_iff bare
  · obtain ⟨slot, placed, -, -, -, -, added⟩ := hadded hstemmed
    exact added.direction_eq
      (find?_eq_some_of_pairwise (apart_beamsOf hlength index) hbeam hindex) hdirection
  · rw [headsOver_addStems seats]
    obtain ⟨run, hrun, rfl⟩ := List.mem_map.1 hbeam
    exact direction_beamOfRun hrun hlength
  · obtain ⟨slot, placed, -, -, hheads, bare, added⟩ := hadded hstemmed
    rw [hheads]
    exact added.up_iff bare.1 (List.find?_eq_none.2 houtside) hdirection

end Engraving

namespace Shorthand

open Engraving

variable {text : String} {instrument : Instrument} {prior : Carry} {frame : Frame}
  {written : WrittenLine}

/-- **What is no rest and shorter than a whole note has a stem**, in every line that is read and
whatever bar it is drawn in, and the heads of its beam or its own vote for the direction. -/
theorem stemmed_of_readLine (h : readLine text instrument prior frame = .ok written)
    (config : Config) (meter : Meter) :
    let placed := placeSlots config written.line meter
    let beams := beamsOf config written.line meter placed
    Stemmed written.line meter beams (addStems config written.line beams placed) :=
  stemmed_of_sounding (sounding_of_readLine h) config meter

/-- A beam between rests that three heads vote up against one, and notes of their own that go down,
up, and up on an even vote. -/
theorem stemmed_between_rests :
    ∃ written,
      readLine "r16 c'16 <e' g' c'''>16 r16 c'''4 d'8 r8 <e' c'''>4" (.named "flute") .initial
          ⟨.common, .moderate⟩ = .ok written ∧
        beamRuns written.line .common = [(1, 2)] ∧
        (let placed := placeSlots .default written.line .common
          let beams := beamsOf .default written.line .common placed
          (addStems .default written.line beams placed).map PlacedSlot.stem =
              [none, some .up, some .up, none, some .down, some .up, none, some .up] ∧
            Stemmed written.line .common beams
              (addStems .default written.line beams placed)) := by
  have hparts : (readLine "r16 c'16 <e' g' c'''>16 r16 c'''4 d'8 r8 <e' c'''>4"
      (.named "flute") .initial ⟨.common, .moderate⟩).toOption.map (fun written =>
        let placed := placeSlots .default written.line .common
        (beamRuns written.line .common,
          (addStems .default written.line (beamsOf .default written.line .common placed)
            placed).map PlacedSlot.stem)) =
      some ([(1, 2)],
        [none, some .up, some .up, none, some .down, some .up, none, some .up]) := by
    decide +kernel
  obtain ⟨written, hread, heq⟩ := Option.map_eq_some_iff.1 hparts
  obtain ⟨hruns, hstems⟩ := Prod.mk.injEq .. ▸ heq
  have h := toOption_eq_some_iff.1 hread
  exact ⟨written, h, hruns, hstems, stemmed_of_readLine h .default .common⟩

end Shorthand

end Stave
