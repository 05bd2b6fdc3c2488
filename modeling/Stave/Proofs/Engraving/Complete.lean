import Stave.Proofs.Engraving.Runs
import Stave.Proofs.Engraving.Signs
import Stave.Proofs.Score.BarLine

/-!
# Nothing of a line is lost in its layout

A layout draws what a line has by going to slots by their indices. Whatever line was read, in
whatever bar it is drawn, the indices are those of slots that are there, since the marks of a
line end at slots of it and every pass hands on as many slots as it got. So no mark is passed
over on the way: what is drawn, read off as what it was drawn for, is what the line has.
-/
namespace Stave

/-- A line has slots, and what it says of them by index it says of slots it has. -/
structure Line.Anchored (line : Line) : Prop where
  nonempty : line.slots ≠ []
  tuplets : ∀ range ∈ line.tuplets, range.Within line.slots.length
  slurs : ∀ link ∈ line.slurs, link.Within (List.range line.slots.length)
  ties : ∀ link ∈ line.ties, link.start ≠ none ∧ link.Within (List.range line.slots.length)
  ramps : ∀ ramp ∈ line.ramps, ramp.link.Within (List.range line.slots.length)

namespace Shorthand

variable {text : String} {instrument : Instrument} {prior : Carry} {frame : Frame}
  {written : WrittenLine}

/-- Whatever is read, full rests included, the line that is built of it is anchored. -/
theorem anchored_of_readLine (h : readLine text instrument prior frame = .ok written) :
    written.line.Anchored := by
  have hties : ∀ link ∈ written.line.ties,
      link.start ≠ none ∧ link.Within (List.range written.line.slots.length) := by
    rw [ties_of_readLine h]
    intro link hmem
    obtain ⟨index, slot, -, -, rfl⟩ := Line.mem_tiesOf_iff.1 hmem
    exact ⟨Option.some_ne_none index, within_of_mem_tiesOf hmem⟩
  obtain ⟨tokens, htokens, hbuild⟩ := readLine_eq_ok.1 h
  have readAll := allRead_of_readTokens htokens
  obtain ⟨groups, draft, hscan, built, finished⟩ := exists_finished_of_buildLine hbuild
  have groupsWithin := built.groupsWithin readAll hscan
  cases finished with
  | rest closed empty => exact ⟨List.cons_ne_nil _ _, nofun, nofun, hties, nofun⟩
  | slots closed nonempty =>
    have hcount := Draft.length_slots_slotLine (start_le_of_groupsWithin groupsWithin) draft
      instrument (Ledger.scan tokens) prior.level
    have hheads : draft.heads.length = draft.slots.length := by simp [Draft.heads]
    refine ⟨fun hnil => nonempty ?_, ?_, (built.slursConsistent readAll groupsWithin).within,
      hties, (built.rampsChained readAll groupsWithin).within⟩
    · rw [hnil, hheads] at hcount
      exact List.eq_nil_of_length_eq_zero hcount.symm
    · intro range hmem
      obtain ⟨group, hgroup, rfl⟩ := List.mem_map.1 hmem
      rw [hcount, hheads]
      exact groupsWithin group hgroup

end Shorthand

namespace Engraving

/-- The slots of a line as the passes of its layout hand them on. -/
structure Passes where
  placed : List PlacedSlot
  stemmed : List PlacedSlot
  signed : List PlacedSlot
  bracketed : List PlacedSlot
  articulated : List PlacedSlot
  slurred : List PlacedSlot
  tied : List PlacedSlot
  shifted : List PlacedSlot
  lettered : List PlacedSlot

namespace Passes

/-- The slots between the passes of a layout. -/
def of (config : Config) (line : Line) (meter : Meter) (context : Context) : Passes :=
  let placed := placeSlots config line meter
  let beams := beamsOf config line meter placed
  let stemmed := addStems config line beams placed
  let signs := accidentalSigns config line context.previousFinals stemmed
  let signed := addAccidentals config signs stemmed
  let bracketed := (addBrackets config line beams signed).1
  let articulated := (addMarks config line bracketed).1
  let slurred := (addSlurs config line articulated).1
  let tied := (addTies config line context.tiedIn slurred).1
  let shifted := (addOttavas config line tied).1
  let lettered := (addTexts config line shifted).1
  ⟨placed, stemmed, signed, bracketed, articulated, slurred, tied, shifted, lettered⟩

/-- Every pass gets as many slots as the line has, and heads for the pitches of each. -/
structure Seated (passes : Passes) (line : Line) : Prop where
  placed : Seats line passes.placed
  stemmed : Seats line passes.stemmed
  signed : Seats line passes.signed
  bracketed : Seats line passes.bracketed
  articulated : Seats line passes.articulated
  slurred : Seats line passes.slurred
  tied : Seats line passes.tied
  shifted : Seats line passes.shifted
  lettered : Seats line passes.lettered

end Passes

/-- What a layout looks up by index is there. A pass goes through slots by the indices of the
line, and through the heads of a slot by those of its pitches. Any other index is one that a mark
of the line or a run of its slots has. -/
structure LooksUpInside (config : Config) (line : Line) (meter : Meter) (context : Context) :
    Prop where
  seated : (Passes.of config line meter context).Seated line
  /-- Tuplets, slurs, ties and ramps are drawn from and to slots of the line. -/
  anchored : line.Anchored
  /-- Rests are looked for between the ends of a run. -/
  beats : ∀ run ∈ beatRuns (max meter.beatUnits 1) 0 none (line.onsets.zip line.slots),
    run.Before line.slots.length
  /-- A beam is drawn over the slots from its first to its last. -/
  beams : ∀ run ∈ beamRuns line meter, run.1 < run.2 ∧ run.2 < line.slots.length
  /-- So is an octave bracket. -/
  ottavas : ∀ run ∈ ottavaRuns 0 none line.slots,
    run.start ≤ run.stop ∧ run.stop < line.slots.length
  /-- The ink of a dynamic is added at its slot. -/
  dynamics : ∀ mark ∈ (Layout.of config line meter context).dynamics,
    mark.slot < line.slots.length

/-- A layout draws what a line has. -/
structure Layout.Complete (layout : Layout) (line : Line) (context : Context) : Prop where
  /-- There is a slot for each of the line, with a head for each of its pitches. -/
  slots : Seats line layout.slots
  slurs : layout.slurs.map Curve.link = line.slurs
  tuplets : layout.tuplets.map TupletBracket.tuplet =
    line.tuplets.map fun range => (range.start, range.stop, range.numeral)
  hairpins : layout.hairpins.map Hairpin.ramp =
    line.ramps.map fun ramp => (ramp.direction, ramp.link)
  dynamics : layout.dynamics.map (fun mark => (mark.slot, mark.name)) =
    line.listed fun slot => slot.dynamic.toList.map Dynamic.name
  texts : layout.texts.map (fun mark => (mark.slot, mark.staffText)) =
    line.listed fun slot => slot.staffText.toList
  articulations : layout.articulations.map (fun mark => (mark.slot, mark.articulation)) =
    line.listed Slot.articulations
  /-- A tie is a curve for each head of its first slot, and so is one from the bar before. -/
  ties : layout.ties.map Curve.link = tieLinks line context.tiedIn
  /-- The signs are those of the pitches that show one. -/
  signs : (layout.accidentals.map AccidentalSign.place).Perm
    (line.listed (line.glyphs context.previousFinals))
  /-- No head has two signs. -/
  once : (layout.accidentals.map fun sign => (sign.slot, sign.head)).Nodup
  /-- A head carries the glyph of its sign, or none. -/
  glyphs : layout.slots.map (fun placed => placed.heads.map Head.accidental) =
    line.slots.map fun slot => slot.pitches.map (line.glyphOf? context.previousFinals)
  /-- A slot with a shift is under one octave bracket, of its level, and others under none. -/
  ottavas : ∀ (index : Nat) slot, line.slots[index]? = some slot →
    (layout.ottavas.filter (·.run.contains index)).map OttavaBracket.level =
      if slot.ottava = 0 then [] else [slot.ottava]

variable {config : Config} {line : Line} {meter : Meter} {context : Context}

/-- What is drawn in a bar, pass by pass, and the slots it is drawn at. -/
theorem layout_eq (config : Config) (line : Line) (meter : Meter) (context : Context) :
    Layout.of config line meter context =
      let passes := Passes.of config line meter context
      let beams := beamsOf config line meter passes.placed
      let dynamics := dynamicMarks config line passes.lettered
      { width := config.barWidth
        slots := (addDynamics config line passes.lettered).1
        beams := beams
        accidentals :=
          (accidentalSigns config line context.previousFinals passes.stemmed).flatten
        tuplets := (addBrackets config line beams passes.signed).2
        articulations := (addMarks config line passes.bracketed).2
        slurs := (addSlurs config line passes.articulated).2
        ties := (addTies config line context.tiedIn passes.slurred).2
        glissandi := glissandoLines config line passes.tied
        ottavas := (addOttavas config line passes.tied).2
        texts := (addTexts config line passes.shifted).2
        dynamics := dynamics
        hairpins := line.ramps.filterMap (hairpinOf? config passes.lettered dynamics) } :=
  rfl

/-- No bracket of an anchored line is left out. -/
theorem rangeFits_of_anchored (anchored : line.Anchored) {slots : List PlacedSlot}
    (seats : Seats line slots) : ∀ range ∈ line.tuplets, rangeFits slots.length range := by
  intro range hmem
  obtain ⟨hle, hlt⟩ := anchored.tuplets range hmem
  simp [rangeFits, seats.length_eq, hle, hlt]

theorem ottavaRuns_lt {slots : List PlacedSlot} (seats : Seats line slots) :
    ∀ run ∈ ottavaRuns 0 none line.slots, run.stop < slots.length := by
  intro run hmem
  have := (tiled_ottavaRuns line.slots).bounds run hmem
  rw [seats.length_eq]
  omega

/-- Where a bracket stands over each run with a shift, a slot is under that of its own shift. -/
theorem levels_of_runs {brackets : List OttavaBracket}
    (h : brackets.map OttavaBracket.run =
      (ottavaRuns 0 none line.slots).filter fun run => run.level != 0)
    {index : Nat} {slot : Slot} (hslot : line.slots[index]? = some slot) :
    (brackets.filter (·.run.contains index)).map OttavaBracket.level =
      if slot.ottava = 0 then [] else [slot.ottava] := by
  have hlevels := (tiled_ottavaRuns line.slots).levels hslot
  rw [Nat.zero_add] at hlevels
  calc (brackets.filter (·.run.contains index)).map OttavaBracket.level
    _ = ((brackets.map OttavaBracket.run).filter (·.contains index)).map OttavaRun.level := by
      rw [List.filter_map, List.map_map]
      rfl
    _ = (((ottavaRuns 0 none line.slots).filter (·.contains index)).map OttavaRun.level).filter
          (· != 0) := by
      rw [h, List.filter_map, List.filter_filter, List.filter_filter]
      simp only [Bool.and_comm, Function.comp_def]
    _ = if slot.ottava = 0 then [] else [slot.ottava] := by
      rw [hlevels]
      by_cases hzero : slot.ottava = 0 <;> simp [hzero]

/-- Every pass gets the slots of the line, and from the signs on none changes a head. -/
theorem seated_passes (anchored : line.Anchored) (config : Config) (meter : Meter)
    (context : Context) :
    (Passes.of config line meter context).Seated line ∧
      allHeads (Layout.of config line meter context).slots =
        allHeads (Passes.of config line meter context).signed := by
  let passes := Passes.of config line meter context
  have placed : Seats line passes.placed := seats_placeSlots config line meter
  have stemmed : Seats line passes.stemmed := placed.of_allHeads (allHeads_addStems placed _)
  have signed : Seats line passes.signed := stemmed.addAccidentals
  have bracketed : allHeads passes.bracketed = allHeads passes.signed :=
    (draws_addBrackets _ (rangeFits_of_anchored anchored signed)).kept
  have articulated : allHeads passes.articulated = allHeads passes.signed :=
    (draws_addMarks (signed.of_allHeads bracketed)).kept.trans bracketed
  have slurred : allHeads passes.slurred = allHeads passes.signed :=
    draws_addSlurs.kept.trans articulated
  have tied : allHeads passes.tied = allHeads passes.signed :=
    (draws_addTies (signed.of_allHeads slurred) _).kept.trans slurred
  have shifted : allHeads passes.shifted = allHeads passes.signed :=
    (draws_addOttavas _ (ottavaRuns_lt (signed.of_allHeads tied))).kept.trans tied
  have lettered : allHeads passes.lettered = allHeads passes.signed :=
    (draws_addTexts (signed.of_allHeads shifted)).kept.trans shifted
  exact ⟨⟨placed, stemmed, signed, signed.of_allHeads bracketed, signed.of_allHeads articulated,
    signed.of_allHeads slurred, signed.of_allHeads tied, signed.of_allHeads shifted,
    signed.of_allHeads lettered⟩, (allHeads_addDynamics config line passes.lettered).trans lettered⟩

/-- The heads that signs are put in front of have none before. -/
theorem bare_stemmed (config : Config) (line : Line) (meter : Meter) (context : Context) :
    ∀ placed ∈ (Passes.of config line meter context).stemmed,
      ∀ head ∈ placed.heads, head.accidental = none := by
  have hstemmed : allHeads (Passes.of config line meter context).stemmed =
      allHeads (placeSlots config line meter) :=
    allHeads_addStems (seats_placeSlots config line meter) _
  intro placed hplaced head hhead
  have hmem : placed.heads ∈ allHeads (placeSlots config line meter) :=
    hstemmed ▸ List.mem_map_of_mem hplaced
  obtain ⟨bare, hbare, heq⟩ := List.mem_map.1 hmem
  rw [← heq] at hhead
  exact bare_placeSlots hbare hhead

theorem complete_of_anchored (anchored : line.Anchored) (config : Config) (meter : Meter)
    (context : Context) : (Layout.of config line meter context).Complete line context := by
  obtain ⟨seated, hheads⟩ := seated_passes anchored config meter context
  have hnonempty : (Passes.of config line meter context).lettered ≠ [] := by
    rw [← List.length_pos_iff, seated.lettered.length_eq]
    exact List.length_pos_iff.2 anchored.nonempty
  have hdrawn :
      allHeads (addDynamics config line (Passes.of config line meter context).lettered).1 =
        allHeads (Passes.of config line meter context).signed := hheads
  rw [layout_eq]
  refine
    { slots := seated.signed.of_allHeads hdrawn
      slurs := draws_addSlurs.labels
      tuplets := (draws_addBrackets _ (rangeFits_of_anchored anchored seated.signed)).labels
      hairpins := ramps_hairpins _ hnonempty ?hairpins
      dynamics := labels_dynamicMarks seated.lettered
      texts := (draws_addTexts seated.shifted).labels
      articulations := (draws_addMarks seated.bracketed).labels
      ties := (draws_addTies seated.slurred context.tiedIn).labels
      signs := perm_accidentalSigns config context.previousFinals seated.stemmed
      once := ?once
      glyphs := ?glyphs
      ottavas := ?ottavas }
  case hairpins =>
    rw [seated.lettered.length_eq]
    exact anchored.ramps
  case once => exact nodup_accidentalSigns seated.stemmed
  case glyphs =>
    have hsigned := accidentals_addAccidentals config context.previousFinals seated.stemmed
      (bare_stemmed config line meter context)
    have hglyphs := congrArg (List.map (List.map Head.accidental)) hdrawn
    simp only [allHeads, List.map_map, Function.comp_def] at hglyphs
    exact hglyphs.trans hsigned
  case ottavas =>
    intro index slot hslot
    have hruns := (draws_addOttavas config (ottavaRuns_lt seated.tied)).labels
    exact levels_of_runs hruns hslot

theorem lookups_of_anchored (anchored : line.Anchored) (config : Config) (meter : Meter)
    (context : Context) : LooksUpInside config line meter context := by
  refine ⟨(seated_passes anchored config meter context).1, anchored,
    fun run => before_of_mem_runs, fun run => bounds_of_mem_beamRuns, fun run hmem => ?_,
    fun mark hmem => ?_⟩
  · have := (tiled_ottavaRuns line.slots).bounds run hmem
    omega
  · have hlisted := List.mem_map_of_mem (f := fun mark => (mark.slot, mark.name)) hmem
    rw [(complete_of_anchored anchored config meter context).dynamics, Line.mem_listed] at hlisted
    obtain ⟨slot, hslot, -⟩ := hlisted
    exact (List.getElem?_eq_some_iff.1 hslot).1

end Engraving

namespace Shorthand

variable {text : String} {instrument : Instrument} {prior : Carry} {frame : Frame}
  {written : WrittenLine}

open Engraving

/-- Whatever line was read, its layout in whatever bar looks up slots that are there, and draws
all the line has. -/
theorem completeLayout_of_readLine (h : readLine text instrument prior frame = .ok written)
    (config : Config) (meter : Meter) (context : Context) :
    LooksUpInside config written.line meter context ∧
      (Layout.of config written.line meter context).Complete written.line context :=
  ⟨lookups_of_anchored (anchored_of_readLine h) config meter context,
    complete_of_anchored (anchored_of_readLine h) config meter context⟩

/-- A bar with a sharp and a tie before it. -/
def afterSharp : Context := ⟨some (.ofList [(⟨0, 2⟩, 2)]), true⟩

/-- A triplet under a slur and over a crescendo, with a tie, marks, a text and an octave shift. -/
theorem completeLayout_triplet :
    ∃ written,
      readLine ("\\tuplet 3/2 \x7b fis'8~\\p\\<( <d' f'>-.-> e' \x7d " ++
          "\\ottava 1 c''4^\"espr.\") d''\\f~ \\ottava 0 b'4")
          (.named "flute") .initial ⟨.common, .moderate⟩ = .ok written ∧
        (written.line.slurs, written.line.ties, written.line.ramps.map Ramp.link) =
          ([⟨some 0, some 3⟩], [⟨some 0, some 1⟩, ⟨some 4, some 5⟩], [⟨some 0, some 4⟩]) ∧
        (written.line.tuplets.map TupletRange.stop, written.line.slots.map Slot.ottava) =
          ([2], [0, 0, 0, 1, 1, 0]) ∧
        LooksUpInside .default written.line .common afterSharp ∧
        (Layout.of .default written.line .common afterSharp).Complete written.line
          afterSharp := by
  have hparts : (readLine ("\\tuplet 3/2 \x7b fis'8~\\p\\<( <d' f'>-.-> e' \x7d " ++
      "\\ottava 1 c''4^\"espr.\") d''\\f~ \\ottava 0 b'4")
      (.named "flute") .initial ⟨.common, .moderate⟩).toOption.map (fun written =>
        ((written.line.slurs, written.line.ties, written.line.ramps.map Ramp.link),
          (written.line.tuplets.map TupletRange.stop, written.line.slots.map Slot.ottava))) =
      some (([⟨some 0, some 3⟩], [⟨some 0, some 1⟩, ⟨some 4, some 5⟩], [⟨some 0, some 4⟩]),
        ([2], [0, 0, 0, 1, 1, 0])) := by
    decide +kernel
  obtain ⟨written, hread, heq⟩ := Option.map_eq_some_iff.1 hparts
  obtain ⟨hlinks, hranges⟩ := Prod.mk.injEq .. ▸ heq
  have h := toOption_eq_some_iff.1 hread
  exact ⟨written, h, hlinks, hranges, completeLayout_of_readLine h .default .common afterSharp⟩

end Shorthand

end Stave
