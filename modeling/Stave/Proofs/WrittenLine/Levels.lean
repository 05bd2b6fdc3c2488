import Stave.Proofs.Draft.Levels
import Stave.Proofs.WrittenLine.Ramps

/-!
# The levels of a line

The level of a line is told twice. The draft follows it from one post-event to the next, and what
it comes to is what the line leaves to the next bar. The slots get theirs only when the line is
finished, from the one dynamic each of them has kept and the ramps that stop there, and in this
order: a dynamic counts first. Outside ramps the two agree unless a ramp has ended after a dynamic
on the same slot, at another level; from there to the next level that is set, the slots have the
level of the dynamic.
-/
namespace Stave

open Shorthand

/-- The stops of the ramps that stop in a line, and the levels they reach. -/
def Line.rampEnds (line : Line) : List (Option Nat × Level) :=
  (line.ramps.filter (·.stop.isSome)).map fun ramp => (ramp.stop, ramp.toLevel)

/-- A slot is not strictly inside a ramp of the line. -/
def Line.OutsideRamps (line : Line) (slot : Nat) : Prop :=
  ∀ ramp ∈ line.ramps, ramp.covers line.slots.length slot = false

/-- The levels of a line against those its post-events set one after another. -/
structure Line.LevelsFollow (line : Line) (prior : Carry) (events : List (Nat × PostEvent)) :
    Prop where
  /-- The line ends at the level that is set last. -/
  closing : line.closing.level = (LevelTrail.ofEvents prior events).level
  /-- The ramps stop where the post-events end them, at the same levels. -/
  ends : line.rampEnds =
    (LevelTrail.ofEvents prior events).ends.map fun ending => (some ending.slot, ending.level)
  /-- Outside ramps a slot has the level set last up to it, but a dynamic counts for more than
  the ends of ramps on its slot. -/
  level (index : Nat) (slot : Slot) (hslot : line.slots[index]? = some slot)
    (houtside : line.OutsideRamps index) :
    slot.level = LevelSetting.markedLevel prior.level (LevelTrail.upTo prior events index).settings
  /-- So a slot has the level in effect there unless a dynamic is overtaken. -/
  level_iff (index : Nat) (slot : Slot) (hslot : line.slots[index]? = some slot)
    (houtside : line.OutsideRamps index) :
    slot.level = (LevelTrail.upTo prior events index).level ↔
      ¬ LevelSetting.Overtaken (LevelTrail.upTo prior events index).settings
  /-- With no ramp left open the same holds of the last slot and the level the line leaves. -/
  last_iff (hopen : line.closing.openRamp = none) (slot : Slot)
    (hlast : line.slots.getLast? = some slot) :
    slot.level = line.closing.level ↔
      ¬ LevelSetting.Overtaken (LevelTrail.ofEvents prior events).settings

/-- The level of a slot by its dynamic and the ramp that stops last there. -/
theorem levelFrom_eq (ramps : List Ramp) (before : Level) (index : Nat) (slot : Slot) :
    levelFrom ramps before index slot =
      ((slot.dynamic.map Dynamic.level).or
        ((ramps.reverse.find? fun ramp => ramp.stop = some index).map Ramp.toLevel)).getD
          before := by
  unfold levelFrom
  cases slot.dynamic with
  | some dynamic => rfl
  | none =>
    cases hfind : ramps.reverse.find? fun ramp => ramp.stop = some index <;> simp

/-- The levels in force along a line, if its dynamics and the stops of its ramps are those of a
list of settings. -/
theorem level_of_setLevels {ramps : List Ramp} {settings : List LevelSetting} {before : Level}
    (sorted : settings.Pairwise fun first second => first.slot ≤ second.slot)
    (hramps : ∀ place, (ramps.reverse.find? fun ramp => ramp.stop = some place).map Ramp.toLevel =
      (LevelSetting.endAt settings place).map LevelSetting.level)
    {slots : List Slot} {first : Nat}
    (hdynamics : ∀ index slot, slots[index]? = some slot → slot.dynamic.map Dynamic.level =
      (LevelSetting.dynamicAt settings (first + index)).map LevelSetting.level)
    {index : Nat} {slot : Slot}
    (hslot : (setLevels ramps
      (LevelSetting.markedLevel before (settings.filter (·.slot < first))) first slots)[index]? =
        some slot) :
    slot.level = LevelSetting.markedLevel before (settings.filter (·.slot ≤ first + index)) := by
  induction slots generalizing first index with
  | nil => simp [setLevels] at hslot
  | cons head rest ih =>
    have hlevel : levelFrom ramps
        (LevelSetting.markedLevel before (settings.filter (·.slot < first))) first head =
          LevelSetting.markedLevel before (settings.filter (·.slot ≤ first)) := by
      have hhead := hdynamics 0 head rfl
      rw [Nat.add_zero] at hhead
      rw [levelFrom_eq, LevelSetting.markedLevel_filter_le sorted, hhead, hramps, Option.map_or]
    simp only [setLevels, hlevel] at hslot
    cases index with
    | zero =>
      cases Option.some.inj hslot
      rfl
    | succ index =>
      have hnext : slot.level =
          LevelSetting.markedLevel before (settings.filter (·.slot ≤ first + 1 + index)) := by
        refine ih (fun index slot hslot => ?_)
          (by simpa only [Nat.lt_succ_iff, List.getElem?_cons_succ] using hslot)
        rw [Nat.add_assoc, Nat.add_comm 1 index]
        exact hdynamics (index + 1) slot hslot
      rwa [Nat.add_assoc, Nat.add_comm 1 index] at hnext

/-- The ramp that stops last at a place, among ramps that stop where a list of settings says. -/
theorem find?_stop_eq {ramps : List Ramp} {ends : List LevelSetting}
    (h : ramps.map (fun ramp => (ramp.stop, ramp.toLevel)) =
      ends.map fun ending => (some ending.slot, ending.level)) (place : Nat) :
    (ramps.reverse.find? fun ramp => ramp.stop = some place).map Ramp.toLevel =
      (ends.filter (·.slot = place)).getLast?.map LevelSetting.level := by
  have hat := congrArg (fun pairs : List (Option Nat × Level) =>
    ((pairs.filter (·.1 = some place)).getLast?).map Prod.snd) h
  rw [← List.head?_filter, List.filter_reverse, List.head?_reverse]
  simpa [List.filter_map, Function.comp_def] using hat

/-- A slot that no ramp has inside keeps the level in force. -/
theorem level_of_setLoudness {ramps : List Ramp} {before : Level} {index : Nat} {slots : List Slot}
    {slot : Slot} (hslot : (setLoudness ramps before slots)[index]? = some slot)
    (houtside : ∀ ramp ∈ ramps,
      ramp.covers (setLoudness ramps before slots).length index = false) :
    (setLevels (ramps.filter (·.stop.isSome)) before 0 slots)[index]? = some slot := by
  have hcount : (Timeline.ofSlots slots).count = (setLoudness ramps before slots).length := by
    have hlength := congrArg List.length
      (map_setLoudness Slot.offset (fun _ _ _ => rfl) ramps before slots)
    simpa [Timeline.count, Timeline.ofSlots] using hlength.symm
  obtain ⟨raw, hraw, rfl⟩ := Option.map_eq_some_iff.1 (List.getElem?_mapIdx ▸ hslot)
  rw [hraw, rampSlot]
  split
  case h_1 ramp hfind =>
    have hmem := List.mem_reverse.1 (List.mem_of_find?_eq_some hfind)
    have hcovers := List.find?_some hfind
    rw [hcount, houtside ramp (List.mem_filter.1 hmem).1] at hcovers
    cases hcovers
  case h_2 => rfl

/-- With no ramp left open the last slot is at the end of every ramp or after it. -/
theorem Line.RampsChained.outsideRamps_last {line : Line} {prior : Carry}
    (h : line.RampsChained prior) (hopen : line.closing.openRamp = none) :
    line.OutsideRamps (line.slots.length - 1) := by
  intro ramp hmem
  obtain ⟨number, hnumber⟩ := List.mem_iff_getElem?.1 hmem
  have hnone : ramp.stop ≠ none := fun hnone => (h.endless number ramp hnumber hnone).2 hopen
  obtain ⟨stop, hstop⟩ := Option.ne_none_iff_exists'.1 hnone
  have hlt := List.mem_range.1 ((h.within ramp hmem).stop_mem stop hstop)
  simp only [Ramp.covers, Ramp.endInside, hstop, Option.getD_some, Bool.and_eq_false_iff,
    decide_eq_false_iff_not]
  omega

namespace Shorthand

variable {text : String} {instrument : Instrument} {prior : Carry} {frame : Frame}
  {tokens : List Token} {draft : Draft} {groups : List TupletGroup} {written : WrittenLine}
  {trail : LevelTrail} {events : List (Nat × PostEvent)}

/-- The ramps that stop in a line are those that have stopped in its draft. -/
theorem Draft.RampsTracked.rampEnds (h : draft.RampsTracked trail)
    (hheads : draft.heads = Ledger.headsFrom 0 false tokens) :
    ((draft.allRamps.map (rebaseRamp (Ledger.scan tokens))).filter (·.stop.isSome)).map
        (fun ramp => (ramp.stop, ramp.toLevel)) =
      trail.ends.map fun ending => (some ending.slot, ending.level) := by
  have hstopped : draft.allRamps.filter (·.stop.isSome) = draft.ramps.reverse := by
    have hopened : ((draft.openRamp.map fun ramp => ramp.close none ramp.target).toList).filter
        (·.stop.isSome) = [] := by
      cases draft.openRamp <;> simp [OpenRamp.close]
    have hstops : ∀ ramp ∈ draft.ramps.reverse, ramp.stop.isSome := fun ramp hmem => by
      obtain ⟨ending, hending, heq⟩ :=
        List.mem_map.1 (h.stopped ▸ List.mem_map_of_mem hmem)
      have hlt := h.slot_lt ending (List.mem_filter.1 hending).1
      rw [← (Prod.mk.inj heq).1, List.getElem?_eq_getElem hlt]
      rfl
    rw [Draft.allRamps, List.filter_append, hopened, List.append_nil, List.filter_eq_self.2 hstops]
  have hmoved : (draft.ramps.reverse.map fun ramp => (ramp.stop, ramp.toLevel)).map
      (fun place => (place.1.map (Ledger.scan tokens).rebase, place.2)) =
        trail.ends.map fun ending => (some ending.slot, ending.level) := by
    rw [h.stopped, List.map_map]
    refine List.map_congr_left fun ending hmem => ?_
    have hlt := h.slot_lt ending (List.mem_filter.1 hmem).1
    rw [hheads] at hlt
    have hhead := List.getElem?_eq_getElem hlt
    simp [hheads, hhead, Ledger.rebase_of_getElem? hhead]
  rw [← hmoved, ← hstopped]
  simp [List.filter_map, Function.comp_def, rebaseRamp]

/-- Outside ramps the slots of a line have the levels that the dynamics and the ends of ramps of
its draft come to. -/
theorem Draft.LevelsTracked.level_eq {tuplets : List TupletRange} {index : Nat} {slot : Slot}
    (h : draft.LevelsTracked (.ofEvents prior events))
    (hwritten : events.Pairwise fun first second => first.1 ≤ second.1)
    (hheads : draft.heads = Ledger.headsFrom 0 false tokens)
    (hranges : ∀ range ∈ tuplets, range.start ≤ range.stop)
    (hslot : (draft.slotLine instrument (Ledger.scan tokens) prior.level tuplets).slots[index]? =
      some slot)
    (houtside : (draft.slotLine instrument (Ledger.scan tokens) prior.level tuplets).OutsideRamps
      index) :
    slot.level =
      LevelSetting.markedLevel prior.level (LevelTrail.upTo prior events index).settings := by
  let marked (slot : Slot) : Option Level := slot.dynamic.map Dynamic.level
  have hfinished := map_setLoudness marked (fun _ _ _ => rfl)
    (draft.allRamps.map (rebaseRamp (Ledger.scan tokens))) prior.level
    (draft.timedSlots instrument tuplets)
  have hdrafted := Draft.map_slots_slotLine marked (fun _ _ _ _ _ => rfl) hranges draft instrument
    (Ledger.scan tokens) prior.level
  have hdynamics := (hfinished.symm.trans hdrafted).trans h.dynamics
  have hstart : LevelSetting.markedLevel prior.level
      ((LevelTrail.ofEvents prior events).settings.filter (·.slot < 0)) = prior.level := by
    rw [List.filter_eq_nil_iff.2 (by simp)]
    rfl
  rw [LevelTrail.settings_upTo hwritten, ← Nat.zero_add index]
  refine level_of_setLevels (LevelTrail.pairwise_settings hwritten prior) (fun place => ?_)
    (fun place other hother => ?_) (hstart.symm ▸ level_of_setLoudness hslot houtside)
  · rw [find?_stop_eq (h.rampEnds hheads), LevelTrail.ends, List.filter_filter]
    rfl
  · have hat := congrArg (·[place]?) hdynamics
    simp only [List.getElem?_map, hother, Option.map_some] at hat
    obtain ⟨number, hnumber, heq⟩ := Option.map_eq_some_iff.1 hat.symm
    obtain ⟨hlt, hplace⟩ := List.getElem?_eq_some_iff.1 hnumber
    rw [List.getElem_range] at hplace
    rw [Nat.zero_add, hplace, heq]

/-- The levels of the slots of a draft and its line are those of its post-events. -/
theorem Building.levelsFollow (readAll : Token.AllRead false tokens)
    (h : Building instrument (.start instrument prior frame) tokens draft [])
    (groupsWithin : ∀ group ∈ groups, group.range.Within draft.slots.length) :
    (draft.slotLine instrument (Ledger.scan tokens) prior.level
      (groups.map TupletGroup.range)).LevelsFollow prior (slottedPost false 0 tokens) := by
  have tracked := h.keep_slottedPost (keptBySteps_levelsTracked instrument prior frame) readAll
  have hwritten := pairwise_slottedPost false 0 tokens
  generalize slottedPost false 0 tokens = events at tracked hwritten ⊢
  have hheads := (h.heads_eq_headsFrom readAll.alternate readAll.closed).2
  have hranges := start_le_of_groupsWithin groupsWithin
  have hcount := Draft.length_slots_slotLine hranges draft instrument (Ledger.scan tokens)
    prior.level
  have hchained := h.rampsChained readAll groupsWithin
  have hclosing : draft.closing.level = (LevelTrail.ofEvents prior events).level := tracked.level
  refine ⟨hclosing, tracked.rampEnds hheads,
    fun index slot => tracked.level_eq hwritten hheads hranges,
    fun index slot hslot houtside => ?_, fun hopen slot hslot => ?_⟩
  · rw [tracked.level_eq hwritten hheads hranges hslot houtside, LevelTrail.upTo,
      LevelTrail.level_ofEvents]
    exact LevelSetting.markedLevel_eq_lastLevel_iff
  · -- every setting is at the last slot or before it
    have hall : (LevelTrail.upTo prior events (draft.heads.length - 1)).settings =
        (LevelTrail.ofEvents prior events).settings := by
      rw [LevelTrail.settings_upTo hwritten, List.filter_eq_self.2 fun setting hmem => ?_]
      have := tracked.slot_lt setting hmem
      simp only [decide_eq_true_eq]
      omega
    rw [List.getLast?_eq_getElem?] at hslot
    rw [tracked.level_eq hwritten hheads hranges hslot (hchained.outsideRamps_last hopen), hcount,
      hall]
    exact (hclosing.trans (LevelTrail.level_ofEvents ..)).symm ▸
      LevelSetting.markedLevel_eq_lastLevel_iff

/-- Nothing sets a level in a text without a slot. -/
theorem Draft.RampsTracked.level_of_empty (h : draft.RampsTracked (.ofEvents prior events))
    (hempty : draft.slots = []) : draft.level = prior.level := by
  have hsettings : (LevelTrail.ofEvents prior events).settings = [] := by
    refine List.eq_nil_iff_forall_not_mem.2 fun setting hmem => ?_
    have hlt := h.slot_lt setting hmem
    simp [heads, hempty] at hlt
  rw [h.level, LevelTrail.level_ofEvents, hsettings]
  rfl

/-- **Slots have the level in effect unless a dynamic is overtaken.** Whatever is typed, a slot of
the line outside ramps has the level its post-events and those before it set last, but for a ramp
that ends after a dynamic on the same slot. The rest of a line in which no slot is written is at
the initial level, whatever level the line starts and ends at. -/
theorem levelsFollow_of_readLine (h : readLine text instrument prior frame = .ok written) :
    ∃ tokens, readTokens text = .ok tokens ∧
      (writesSlot text → written.line.LevelsFollow prior (slottedPost false 0 tokens)) ∧
      (¬ writesSlot text → written.line.closing.level = prior.level ∧
        ∀ slot ∈ written.line.slots, slot.level = initialLevel) := by
  obtain ⟨tokens, htokens, hbuild⟩ := readLine_eq_ok.1 h
  obtain ⟨groups, draft, hscan, built, finished⟩ := exists_finished_of_buildLine hbuild
  have readAll := allRead_of_readTokens htokens
  refine ⟨tokens, htokens, fun hslot => ?_, fun hnone => ?_⟩
  · cases finished with
    | rest closed empty => exact absurd empty ((built.slots_ne_nil_iff htokens).2 hslot)
    | slots => exact built.levelsFollow readAll (built.groupsWithin readAll hscan)
  · cases finished with
    | rest closed empty =>
      have tracked := built.keep_slottedPost (keptBySteps_levelsTracked instrument prior frame)
        readAll
      refine ⟨tracked.level_of_empty empty, fun slot hmem => ?_⟩
      rw [List.mem_singleton.1 hmem]
      rfl
    | slots closed nonempty => exact absurd ((built.slots_ne_nil_iff htokens).1 nonempty) hnone

/-- A crescendo from a dynamic ends on the same slot: the slot stays at the level of the dynamic,
and the next bar starts at the level the crescendo reaches. -/
theorem levelsFollow_overtaken :
    ∃ written,
      readLine "c1\\p\\<\\!" (.named "flute") .initial ⟨.common, .moderate⟩ = .ok written ∧
        written.line.slots.map Slot.level = [2] ∧ written.line.rampEnds = [(some 0, 3)] ∧
        written.line.closing.level = 3 ∧
        ∃ tokens, readTokens "c1\\p\\<\\!" = .ok tokens ∧
          written.line.LevelsFollow .initial (slottedPost false 0 tokens) ∧
          (LevelTrail.upTo .initial (slottedPost false 0 tokens) 0).settings =
            [⟨0, 2, true⟩, ⟨0, 3, false⟩] := by
  have hparts : (readLine "c1\\p\\<\\!" (.named "flute") .initial
      ⟨.common, .moderate⟩).toOption.map
        (fun written => (written.line.slots.map Slot.level, written.line.rampEnds,
          written.line.closing.level)) = some ([2], [(some 0, 3)], 3) := by
    decide +kernel
  have hsettings : (readTokens "c1\\p\\<\\!").toOption.map
      (fun tokens => (LevelTrail.upTo .initial (slottedPost false 0 tokens) 0).settings) =
        some [⟨0, 2, true⟩, ⟨0, 3, false⟩] := by
    decide +kernel
  obtain ⟨written, hread, heq⟩ := Option.map_eq_some_iff.1 hparts
  have h := toOption_eq_some_iff.1 hread
  obtain ⟨tokens, htokens, hfollow, -⟩ := levelsFollow_of_readLine h
  rw [htokens] at hsettings
  have hslot : writesSlot "c1\\p\\<\\!" := by decide +kernel
  simp only [Prod.mk.injEq] at heq
  exact ⟨written, h, heq.1, heq.2.1, heq.2.2, tokens, htokens, hfollow hslot,
    Option.some.inj hsettings⟩

end Shorthand

end Stave
