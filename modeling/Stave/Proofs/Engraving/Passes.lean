import Mathlib.Data.List.Nodup
import Stave.Engraving.Layout
import Stave.Proofs.Draft.Ramps

/-!
# What the passes of a layout keep and draw

A pass hands the slots of a line on to the next one, with more ink, and with them what it has
drawn. What a mark was drawn for can be read off it: the slots of a curve, the numeral of a
bracket, the name of a dynamic. So a pass is specified by two things, that it leaves the heads
of the slots alone, and which marks it draws in which order, given as a list of what they were
drawn for. A pass that goes through a list of marks has both from its step, and one that goes
through the slots has them from what it does at a slot.
-/
namespace Stave

/-- What the slots of a line have of some kind, each with the index of its slot. -/
def Line.listed {α : Type} (line : Line) (marks : Slot → List α) : List (Nat × α) :=
  (line.slots.mapIdx fun index slot => (marks slot).map (index, ·)).flatten

/-- The number of heads of a slot, none if there is no such slot. -/
def Line.headCount (line : Line) (slot : Nat) : Nat :=
  ((line.slots[slot]?).map fun slot => slot.pitches.length).getD 0

theorem Line.mem_listed {α : Type} {line : Line} {marks : Slot → List α} {index : Nat}
    {mark : α} : (index, mark) ∈ line.listed marks ↔
      ∃ slot, line.slots[index]? = some slot ∧ mark ∈ marks slot := by
  simp only [listed, List.mapIdx_eq_zipIdx_map, List.mem_flatten, List.mem_map, Prod.exists,
    List.mem_zipIdx_iff_getElem?]
  constructor
  · rintro ⟨_, ⟨slot, _, hslot, rfl⟩, hmem⟩
    obtain ⟨other, hother, heq⟩ := List.mem_map.1 hmem
    cases heq
    exact ⟨slot, hslot, hother⟩
  · rintro ⟨slot, hslot, hmem⟩
    exact ⟨_, ⟨slot, index, hslot, rfl⟩, List.mem_map_of_mem hmem⟩

/-- No two places of a list have one index. -/
theorem pairwise_zipIdx {α : Type} (list : List α) :
    list.zipIdx.Pairwise fun pair other => pair.2 ≠ other.2 := by
  rw [← List.pairwise_map (R := (· ≠ ·)), List.zipIdx_map_snd]
  exact List.nodup_range'

/-- What slots have without repeating it is listed without repeating it. -/
theorem Line.nodup_listed {α : Type} {line : Line} {marks : Slot → List α}
    (h : ∀ slot ∈ line.slots, (marks slot).Nodup) : (line.listed marks).Nodup := by
  rw [listed, List.mapIdx_eq_zipIdx_map, List.nodup_flatten]
  constructor
  · intro list hmem
    obtain ⟨⟨slot, index⟩, hslot, rfl⟩ := List.mem_map.1 hmem
    have hnodup := h slot (List.mem_of_getElem? (List.mem_zipIdx_iff_getElem?.1 hslot))
    exact hnodup.map fun mark other heq => (Prod.mk.inj heq).2
  · rw [List.pairwise_map]
    refine (pairwise_zipIdx line.slots).imp fun hne => ?_
    rintro mark hmem hother
    obtain ⟨_, -, rfl⟩ := List.mem_map.1 hmem
    obtain ⟨_, -, heq⟩ := List.mem_map.1 hother
    exact hne (Prod.mk.inj heq).1.symm

namespace Engraving

variable {σ κ α β γ : Type} {kept : σ → κ} {label : β → γ} {before : σ} {done : List γ}
  {drawn : σ × List β}

/-- What was drawn from a state on is `labels`, by what each mark was drawn for, and of the
state that is left some part is what it was. -/
structure Draws (kept : σ → κ) (label : β → γ) (before : σ) (labels : List γ)
    (drawn : σ × List β) : Prop where
  kept : kept drawn.1 = kept before
  labels : drawn.2.map label = labels

theorem Draws.nothing : Draws kept label before [] (before, []) := ⟨rfl, rfl⟩

/-- A pass that draws one thing after another draws what its steps draw. -/
theorem Draws.foldl {step : σ × List β → α → σ × List β} {labels : α → List γ}
    (hstep : ∀ drawn done item, Draws kept label before done drawn →
      Draws kept label before (done ++ labels item) (step drawn item))
    (h : Draws kept label before done drawn) (items : List α) :
    Draws kept label before (done ++ items.flatMap labels) (items.foldl step drawn) := by
  induction items generalizing drawn done with
  | nil => simpa using h
  | cons item rest ih => simpa using ih (hstep drawn done item h)

/-- A pass whose steps draw one thing each draws as many as it has steps. -/
theorem Draws.foldl_each {step : σ × List β → α → σ × List β} {source : α → γ}
    (hstep : ∀ drawn done item, Draws kept label before done drawn →
      Draws kept label before (done ++ [source item]) (step drawn item)) (items : List α) :
    Draws kept label before (items.map source) (items.foldl step (before, [])) := by
  rw [List.map_eq_flatMap]
  exact Draws.foldl hstep .nothing items

theorem Draws.foldl_same {step : σ × List β → γ → σ × List β}
    (hstep : ∀ drawn done item, Draws kept label before done drawn →
      Draws kept label before (done ++ [item]) (step drawn item)) (items : List γ) :
    Draws kept label before items (items.foldl step (before, [])) := by
  have h : Draws kept label before (items.map id) (items.foldl step (before, [])) :=
    Draws.foldl_each hstep items
  simpa using h

/-- A pass whose steps leave a part of the state alone leaves it alone. -/
theorem foldl_kept (kept : σ → κ) {step : σ → α → σ}
    (hstep : ∀ state item, kept (step state item) = kept state) (items : List α) (state : σ) :
    kept (items.foldl step state) = kept state := by
  induction items generalizing state with
  | nil => rfl
  | cons item rest ih => exact (ih (step state item)).trans (hstep state item)

/-! ## Slots that belong to a line -/

/-- The heads of every slot. -/
def allHeads (slots : List PlacedSlot) : List (List Head) := slots.map PlacedSlot.heads

/-- The slots are those of the line, one for one, each with the heads that are drawn for its
pitches. -/
def Seats (line : Line) (slots : List PlacedSlot) : Prop :=
  slots.map (fun placed => placed.heads.map Head.index) =
    line.slots.map fun slot => slot.pitches.map (drawnIndex line slot)

variable {line : Line} {slots others : List PlacedSlot} {config : Config}

theorem Seats.length_eq (h : Seats line slots) : slots.length = line.slots.length := by
  simpa using congrArg List.length h

/-- Whether slots belong to a line is seen from their heads. -/
theorem Seats.of_allHeads (h : Seats line slots) (heads : allHeads others = allHeads slots) :
    Seats line others := by
  have hindices := congrArg (List.map (List.map Head.index)) heads
  simp only [allHeads, List.map_map, Function.comp_def] at hindices
  exact hindices.trans h

/-- At a slot there are as many heads as the line has pitches there. -/
theorem Seats.length_heads (h : Seats line slots) (index : Nat) :
    ((slots[index]?).map fun placed => placed.heads.length).getD 0 = line.headCount index := by
  have hat := congrArg (fun lists => (lists[index]?).map List.length) h
  simp only [List.getElem?_map, Option.map_map, Function.comp_def, List.length_map] at hat
  rw [hat, Line.headCount]

theorem Seats.length_heads_eq {index : Nat} {placed : PlacedSlot} {slot : Slot}
    (h : Seats line slots) (hplaced : slots[index]? = some placed)
    (hslot : line.slots[index]? = some slot) : placed.heads.length = slot.pitches.length := by
  have heq := h.length_heads index
  rwa [Line.headCount, hplaced, hslot] at heq

/-- What is looked at of a step over two lists at once may be what the second one has there. -/
theorem map_mapIdx_zip_right {f : Nat → α × β → γ} {g : γ → κ} {k : β → κ} {xs : List α}
    {ys : List β} (hlength : ys.length ≤ xs.length) (h : ∀ index x y, g (f index (x, y)) = k y) :
    ((xs.zip ys).mapIdx f).map g = ys.map k := by
  have hsnd := congrArg (List.map k) (List.map_snd_zip hlength)
  rw [← hsnd, List.map_map]
  refine List.ext_getElem? fun index => ?_
  simp only [List.getElem?_map, List.getElem?_mapIdx, Option.map_map]
  exact Option.map_congr fun pair _ => h index pair.1 pair.2

/-- So it may be what the first one has, together with the index. -/
theorem map_mapIdx_zip_left {f : Nat → α × β → γ} {g : γ → κ} {k : Nat → α → κ} {xs : List α}
    {ys : List β} (hlength : xs.length ≤ ys.length)
    (h : ∀ (index : Nat) x y, xs[index]? = some x → ys[index]? = some y →
      g (f index (x, y)) = k index x) :
    ((xs.zip ys).mapIdx f).map g = xs.mapIdx k := by
  have hfst := congrArg (List.mapIdx k) (List.map_fst_zip hlength)
  rw [← hfst]
  refine List.ext_getElem? fun index => ?_
  simp only [List.getElem?_map, List.getElem?_mapIdx, Option.map_map]
  refine Option.map_congr fun pair hpair => ?_
  obtain ⟨hx, hy⟩ := List.getElem?_zip_eq_some.1 hpair
  exact h index pair.1 pair.2 hx hy

/-- What is drawn slot by slot is what the slots of the line list. -/
theorem labels_eachSlot (parts : Nat → Slot → PlacedSlot → List β) {marks : Slot → List α}
    {label : β → Nat × α} (seats : Seats line slots)
    (h : ∀ index slot placed, (parts index slot placed).map label = (marks slot).map (index, ·)) :
    ((line.slots.zip slots).mapIdx fun index (slot, placed) =>
      parts index slot placed).flatten.map label = line.listed marks := by
  rw [List.map_flatten]
  refine congrArg List.flatten ?_
  exact map_mapIdx_zip_left (Nat.le_of_eq seats.length_eq.symm)
    fun index slot placed _ _ => h index slot placed

/-- A pass that goes through the slots draws what the slots of the line list. -/
theorem draws_eachSlot {pass : Nat → Slot → PlacedSlot → PlacedSlot × κ} (parts : κ → List β)
    {marks : Slot → List α} {label : β → Nat × α} (seats : Seats line slots)
    (hpass : ∀ index slot placed, Draws PlacedSlot.heads label placed
      ((marks slot).map (index, ·))
      ((pass index slot placed).1, parts (pass index slot placed).2)) :
    let drawn := (line.slots.zip slots).mapIdx fun index (slot, placed) => pass index slot placed
    Draws allHeads label slots (line.listed marks)
      (drawn.map (·.1), drawn.flatMap fun part => parts part.2) := by
  constructor
  · simp only [allHeads, List.map_map]
    exact map_mapIdx_zip_right (Nat.le_of_eq seats.length_eq) fun index slot placed =>
      (hpass index slot placed).kept
  · rw [List.flatMap_def, List.map_flatten, List.map_map]
    refine congrArg List.flatten ?_
    exact map_mapIdx_zip_left (Nat.le_of_eq seats.length_eq.symm)
      fun index slot placed _ _ => (hpass index slot placed).labels

/-! ## Ink -/

theorem allHeads_changeSpan {change : PlacedSlot → PlacedSlot}
    (h : ∀ placed, (change placed).heads = placed.heads) (slots : List PlacedSlot)
    (start stop : Nat) : allHeads (changeSpan slots start stop change) = allHeads slots := by
  refine List.ext_getElem? fun index => ?_
  simp only [allHeads, changeSpan, List.getElem?_map, List.getElem?_mapIdx, Option.map_map]
  refine Option.map_congr fun placed _ => ?_
  simp only [Function.comp_apply]
  split
  · exact h placed
  · rfl

theorem allHeads_set {index : Nat} {placed redrawn : PlacedSlot}
    (hplaced : slots[index]? = some placed) (h : redrawn.heads = placed.heads) :
    allHeads (slots.set index redrawn) = allHeads slots := by
  refine List.ext_getElem? fun other => ?_
  rw [allHeads, allHeads, List.getElem?_map, List.getElem?_map]
  rcases eq_or_ne index other with rfl | hne
  · have hlt := (List.getElem?_eq_some_iff.1 hplaced).1
    rw [List.getElem?_set_self hlt, hplaced, Option.map_some, Option.map_some, h]
  · rw [List.getElem?_set_ne hne]

/-! ## Heads, stems and beams -/

theorem seats_placeSlots (config : Config) (line : Line) (meter : Meter) :
    Seats line (placeSlots config line meter) := by
  have hlength : line.slots.length ≤ line.onsets.length := by simp [Line.onsets]
  have hsnd := congrArg (List.map fun slot => slot.pitches.map (drawnIndex line slot))
    (List.map_snd_zip hlength)
  rw [Seats, placeSlots, ← List.map_uncurry_zip_eq_zipWith, List.map_map, ← hsnd, List.map_map]
  refine List.map_congr_left fun pair _ => ?_
  obtain ⟨onset, slot⟩ := pair
  simp [placeSlot, headsOf, Function.comp_def]

theorem bare_placeSlots {meter : Meter} {placed : PlacedSlot} {head : Head}
    (hplaced : placed ∈ placeSlots config line meter) (hhead : head ∈ placed.heads) :
    head.accidental = none := by
  rw [placeSlots, ← List.map_uncurry_zip_eq_zipWith] at hplaced
  obtain ⟨pair, -, rfl⟩ := List.mem_map.1 hplaced
  obtain ⟨pitch, -, rfl⟩ := List.mem_map.1 hhead
  rfl

theorem heads_addStem (config : Config) (line : Line) (beams : List Beam) (index : Nat)
    (slot : Slot) (placed : PlacedSlot) :
    (addStem config line beams index slot placed).heads = placed.heads := by
  unfold addStem stemInBeam freeStem
  repeat' split
  all_goals rfl

theorem allHeads_addStems (seats : Seats line slots) (beams : List Beam) :
    allHeads (addStems config line beams slots) = allHeads slots :=
  map_mapIdx_zip_right (Nat.le_of_eq seats.length_eq) (heads_addStem config line beams)

/-! ## Curves and brackets -/

/-- The slots a curve joins. -/
def Curve.link (curve : Curve) : Link := ⟨curve.start, curve.stop⟩

/-- The range and the numeral of a bracket. -/
def TupletBracket.tuplet (bracket : TupletBracket) : Nat × Nat × String :=
  (bracket.start, bracket.stop, bracket.numeral)

theorem draws_addBrackets (beams : List Beam)
    (fits : ∀ range ∈ line.tuplets, rangeFits slots.length range) :
    Draws allHeads TupletBracket.tuplet slots
      (line.tuplets.map fun range => (range.start, range.stop, range.numeral))
      (addBrackets config line beams slots) := by
  rw [addBrackets, List.filter_eq_self.2 fits]
  refine Draws.foldl_each ?_ _
  intro drawn done range h
  constructor
  · simp only [addBracket]
    exact (allHeads_changeSpan (by intro placed; rfl) ..).trans h.kept
  · simp [addBracket, bracketOver, TupletBracket.tuplet, h.labels]

theorem draws_addMarks (seats : Seats line slots) :
    Draws allHeads (fun mark => (mark.slot, mark.articulation)) slots
      (line.listed Slot.articulations) (addMarks config line slots) := by
  refine draws_eachSlot id seats fun index slot placed => ?_
  unfold addSlotMarks
  refine Draws.foldl_each ?_ _
  intro drawn done articulation h
  exact ⟨h.kept, by simp [addMark, h.labels]⟩

theorem heads_inkCurve (config : Config) (curve : Curve) (placed : PlacedSlot) :
    (inkCurve config curve placed).heads = placed.heads := by
  unfold inkCurve
  dsimp only
  split <;> rfl

theorem draws_addSlurs :
    Draws allHeads Curve.link slots line.slurs (addSlurs config line slots) := by
  refine Draws.foldl_same ?_ _
  intro drawn done link h
  constructor
  · simpa [allHeads, addSlur, heads_inkCurve, Function.comp_def] using h.kept
  · simp [addSlur, slurCurve, Curve.arc, Curve.link, h.labels]

/-- A tie is one curve for every head. -/
theorem draws_tieSlot (config : Config) (placed : PlacedSlot) (start stop : Option Nat)
    (x0 x1 : Float32) :
    Draws PlacedSlot.heads Curve.link placed
      (List.replicate placed.heads.length ⟨start, stop⟩)
      (tieSlot config placed start stop x0 x1) := by
  have hlength : (headsByHeight placed).zipIdx.length = placed.heads.length := by
    simp [headsByHeight]
  rw [← hlength, ← List.map_const', tieSlot]
  refine Draws.foldl_each ?_ _
  intro drawn done head h
  exact ⟨h.kept, by simp [Curve.arc, Curve.link, h.labels]⟩

theorem draws_addTiesIn (seats : Seats line slots) :
    Draws allHeads Curve.link slots (List.replicate (line.headCount 0) ⟨none, some 0⟩)
      (addTiesIn config slots) := by
  rw [← seats.length_heads]
  cases slots with
  | nil => exact .nothing
  | cons first rest =>
    have hdrawn := draws_tieSlot config first none (some 0) 0.0 first.x
    unfold addTiesIn
    dsimp only
    split
    case isTrue hrest =>
      rw [PlacedSlot.isRest, List.isEmpty_iff] at hrest
      simpa [hrest] using Draws.nothing
    case isFalse =>
      refine ⟨?_, by simpa using hdrawn.labels⟩
      simp only [allHeads, List.map_cons, hdrawn.kept]

theorem draws_addTie (seats : Seats line slots) {drawn : List PlacedSlot × List Curve}
    {done : List Link} (h : Draws allHeads Curve.link slots done drawn) (link : Link) :
    Draws allHeads Curve.link slots
      (done ++ List.replicate ((link.start.map line.headCount).getD 0) link)
      (addTie config drawn link) := by
  obtain ⟨start, stop⟩ := link
  cases start with
  | none => simpa [addTie] using h
  | some start =>
    have hheads := (seats.of_allHeads h.kept).length_heads start
    unfold addTie
    dsimp only
    split
    case h_1 hnone =>
      rw [hnone] at hheads
      simpa [← hheads] using h
    case h_2 placed hplaced =>
      rw [hplaced, Option.map_some, Option.getD_some] at hheads
      obtain ⟨hkept, hlabels⟩ := draws_tieSlot config placed (some start) stop
        (placed.x + config.noteheadWidth)
        (((stop.bind (drawn.1[·]?)).map PlacedSlot.x).getD config.barWidth)
      constructor
      · exact (allHeads_set hplaced hkept).trans h.kept
      · rw [List.map_append, h.labels, hlabels, Option.map_some, Option.getD_some, hheads]

/-- The links of the ties that are drawn: one for every head tied from the bar before, and for
every tie of the line one for every head of its first slot. -/
def tieLinks (line : Line) (tiedIn : Bool) : List Link :=
  (if tiedIn then List.replicate (line.headCount 0) ⟨none, some 0⟩ else []) ++
    line.ties.flatMap fun link => List.replicate ((link.start.map line.headCount).getD 0) link

theorem draws_addTies (seats : Seats line slots) (tiedIn : Bool) :
    Draws allHeads Curve.link slots (tieLinks line tiedIn)
      (addTies config line tiedIn slots) := by
  refine Draws.foldl (fun _ _ link h => draws_addTie seats h link) ?_ line.ties
  cases tiedIn with
  | false => exact .nothing
  | true => exact draws_addTiesIn seats

/-- The run of slots an octave bracket stands over. -/
def OttavaBracket.run (bracket : OttavaBracket) : OttavaRun :=
  ⟨bracket.start, bracket.stop, bracket.level⟩

theorem draws_addOttavas (config : Config)
    (fits : ∀ run ∈ ottavaRuns 0 none line.slots, run.stop < slots.length) :
    Draws allHeads OttavaBracket.run slots
      ((ottavaRuns 0 none line.slots).filter fun run => run.level != 0)
      (addOttavas config line slots) := by
  have hfilter : ((ottavaRuns 0 none line.slots).filter fun run =>
      run.level != 0 && run.stop < slots.length) =
        (ottavaRuns 0 none line.slots).filter fun run => run.level != 0 :=
    List.filter_congr fun run hmem => by simp [fits run hmem]
  rw [addOttavas, hfilter]
  refine Draws.foldl_same ?_ _
  intro drawn done run h
  constructor
  · exact (allHeads_changeSpan (by intro placed; rfl) ..).trans h.kept
  · simp [addOttava, OttavaBracket.run, h.labels]

/-! ## Texts, dynamics and hairpins -/

/-- The text that is drawn at a slot. -/
def TextMark.staffText (mark : TextMark) : StaffText := ⟨mark.text, mark.placement⟩

theorem draws_addTexts (seats : Seats line slots) :
    Draws allHeads (fun mark => (mark.slot, mark.staffText)) slots
      (line.listed fun slot => slot.staffText.toList) (addTexts config line slots) := by
  simp only [addTexts, List.filterMap_eq_flatMap_toList]
  refine draws_eachSlot Option.toList seats fun index slot placed => ?_
  unfold addSlotText
  cases slot.staffText with
  | none => exact .nothing
  | some text =>
    obtain ⟨text, placement⟩ := text
    cases placement <;> exact ⟨rfl, rfl⟩

theorem labels_dynamicMarks (seats : Seats line slots) :
    (dynamicMarks config line slots).map (fun mark => (mark.slot, mark.name)) =
      line.listed fun slot => slot.dynamic.toList.map Dynamic.name := by
  have hmarks : dynamicMarks config line slots =
      ((line.slots.zip slots).mapIdx fun index (slot, placed) =>
        (dynamicMark? config index slot placed).toList).flatten := by
    simp [dynamicMarks, List.mapIdx_eq_zipIdx_map, List.filterMap_eq_flatMap_toList,
      List.flatMap_def]
  rw [hmarks]
  refine labels_eachSlot (fun index slot placed =>
    (dynamicMark? config index slot placed).toList) seats fun index slot placed => ?_
  cases h : slot.dynamic <;> simp [dynamicMark?, h]

/-- The direction of a hairpin and the slots it joins. -/
def Hairpin.ramp (hairpin : Hairpin) : RampDirection × Link :=
  (hairpin.direction, ⟨hairpin.start, hairpin.stop⟩)

/-- A ramp between slots that are there, in their order, has a hairpin. -/
theorem exists_hairpinOf? {ramp : Ramp} (config : Config) (dynamics : List DynamicMark)
    (nonempty : slots ≠ []) (h : ramp.link.Within (List.range slots.length)) :
    ∃ hairpin, hairpinOf? config slots dynamics ramp = some hairpin ∧
      hairpin.ramp = (ramp.direction, ramp.link) := by
  have hpos := List.length_pos_iff.2 nonempty
  have hordered : min (ramp.start.getD 0) (slots.length - 1) ≤
      min (ramp.stop.getD (slots.length - 1)) (slots.length - 1) := by
    cases hstart : ramp.start with
    | none => simp
    | some a =>
      have ha := List.mem_range.1 (h.start_mem a hstart)
      cases hstop : ramp.stop with
      | none => simp only [Option.getD_some, Option.getD_none]; omega
      | some b =>
        have hab := h.start_le a b hstart hstop
        simp only [Option.getD_some]
        omega
  have hrefused : ¬(slots.isEmpty ∨ min (ramp.start.getD 0) (slots.length - 1) >
      min (ramp.stop.getD (slots.length - 1)) (slots.length - 1)) := by
    rintro (hempty | hcrossed)
    · exact nonempty (List.isEmpty_iff.1 hempty)
    · exact Nat.not_lt.2 hordered hcrossed
  exact ⟨_, by rw [hairpinOf?, if_neg hrefused], rfl⟩

theorem ramps_hairpins {ramps : List Ramp} (dynamics : List DynamicMark) (nonempty : slots ≠ [])
    (within : ∀ ramp ∈ ramps, ramp.link.Within (List.range slots.length)) :
    (ramps.filterMap (hairpinOf? config slots dynamics)).map Hairpin.ramp =
      ramps.map fun ramp => (ramp.direction, ramp.link) := by
  induction ramps with
  | nil => rfl
  | cons ramp rest ih =>
    obtain ⟨hairpin, hsome, hramp⟩ := exists_hairpinOf? config dynamics nonempty
      (within ramp List.mem_cons_self)
    rw [List.filterMap_cons_some hsome, List.map_cons, List.map_cons, hramp,
      ih fun ramp hmem => within ramp (List.mem_cons_of_mem _ hmem)]

theorem allHeads_inkHairpin (hairpin : Hairpin) (slots : List PlacedSlot) :
    allHeads (inkHairpin slots hairpin) = allHeads slots := by
  simp only [allHeads, inkHairpin, List.map_map]
  refine List.map_congr_left fun placed _ => ?_
  simp only [Function.comp_apply]
  split <;> rfl

theorem allHeads_inkDynamic (config : Config) (mark : DynamicMark) (slots : List PlacedSlot) :
    allHeads (inkDynamic config slots mark) = allHeads slots := by
  refine List.ext_getElem? fun index => ?_
  simp only [allHeads, inkDynamic, List.getElem?_map, List.getElem?_modify, Option.map_eq_map,
    Option.map_map]
  refine Option.map_congr fun placed _ => ?_
  simp only [Function.comp_apply]
  split <;> rfl

theorem allHeads_addDynamics (config : Config) (line : Line) (slots : List PlacedSlot) :
    allHeads (addDynamics config line slots).1 = allHeads slots :=
  (foldl_kept allHeads (fun slots hairpin => allHeads_inkHairpin hairpin slots) _ _).trans
    (foldl_kept allHeads (fun slots mark => allHeads_inkDynamic config mark slots) _ _)

end Engraving

end Stave
