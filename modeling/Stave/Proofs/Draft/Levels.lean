import Stave.Proofs.Draft.Ramps
import Stave.Proofs.Draft.Slotted

/-!
# What sets the level

Two things set the level of a line: a dynamic, and the end of a ramp, which reaches the level of
the dynamic that stops it or else goes one level on. A slot may have several of both in any
order. A trail follows the post-events of a line in the order they are written and notes every
level that is set; the last one is in effect. The draft of a line keeps less of it: of the
dynamics only the last one of each slot, and of the ends of ramps a ramp each. Whether a ramp
that stops at a slot ended before or after the dynamic of the slot is not kept.
-/
namespace Stave.Shorthand

/-- What comes early in a list comes before the rest if nothing early comes after something
that is not. -/
theorem filter_append_filter_not {α : Type} (early : α → Bool) {xs : List α}
    (h : xs.Pairwise fun first second => early second → early first) :
    xs.filter early ++ xs.filter (!early ·) = xs := by
  induction xs with
  | nil => rfl
  | cons first rest ih =>
    obtain ⟨hfirst, hrest⟩ := List.pairwise_cons.1 h
    cases hearly : early first with
    | true => simpa [hearly] using ih hrest
    | false =>
      have hlate (other : α) (hmem : other ∈ rest) : early other = false := by
        simpa [hearly] using hfirst other hmem
      have hnone : rest.filter early = [] :=
        List.filter_eq_nil_iff.2 fun other hmem => by simp [hlate other hmem]
      simpa [hearly, hnone] using ih hrest

/-- A level that is set at a slot, by a dynamic or else by the end of a ramp. -/
structure LevelSetting where
  slot : Nat
  level : Level
  byDynamic : Bool
deriving DecidableEq

namespace LevelSetting

variable {settings : List LevelSetting} {before : Level} {slot : Nat}

/-- The last dynamic at a slot. -/
def dynamicAt (settings : List LevelSetting) (slot : Nat) : Option LevelSetting :=
  (settings.filter fun setting => setting.slot = slot && setting.byDynamic).getLast?

/-- The end of a ramp that comes last at a slot. -/
def endAt (settings : List LevelSetting) (slot : Nat) : Option LevelSetting :=
  (settings.filter fun setting => setting.slot = slot && !setting.byDynamic).getLast?

/-- The level that is set last. -/
def lastLevel (before : Level) (settings : List LevelSetting) : Level :=
  (settings.getLast?.map level).getD before

/-- The level that is set last if a dynamic counts for more than the ends of ramps on its slot,
wherever it stands among them. -/
def markedLevel (before : Level) (settings : List LevelSetting) : Level :=
  match settings.getLast? with
  | none => before
  | some last => ((dynamicAt settings last.slot).getD last).level

/-- A ramp ends after a dynamic on the same slot, at another level, and nothing comes after it. -/
def Overtaken (settings : List LevelSetting) : Prop :=
  ∃ ending dynamic, settings.getLast? = some ending ∧ ending.byDynamic = false ∧
    dynamicAt settings ending.slot = some dynamic ∧ dynamic.level ≠ ending.level

theorem dynamicAt_of_last {last : LevelSetting} (hlast : settings.getLast? = some last)
    (hdynamic : last.byDynamic) : dynamicAt settings last.slot = some last := by
  obtain ⟨others, rfl⟩ := List.getLast?_eq_some_iff.1 hlast
  simp [dynamicAt, List.filter_append, hdynamic]

/-- The two ways to tell the level disagree exactly if a dynamic is overtaken. -/
theorem markedLevel_eq_lastLevel_iff :
    markedLevel before settings = lastLevel before settings ↔ ¬ Overtaken settings := by
  cases hlast : settings.getLast? with
  | none => simp [markedLevel, lastLevel, Overtaken, hlast]
  | some last =>
    have hmarked : markedLevel before settings =
        ((dynamicAt settings last.slot).getD last).level := by simp [markedLevel, hlast]
    have hlevel : lastLevel before settings = last.level := by simp [lastLevel, hlast]
    rw [hmarked, hlevel]
    constructor
    · rintro heq ⟨ending, dynamic, hending, -, hdynamic, hne⟩
      cases hlast.symm.trans hending
      rw [hdynamic] at heq
      exact hne heq
    · intro hnot
      cases hdynamic : dynamicAt settings last.slot with
      | none => rfl
      | some dynamic =>
        by_cases hby : last.byDynamic
        · cases hdynamic.symm.trans (dynamicAt_of_last hlast hby)
          rfl
        · have hby : last.byDynamic = false := by simpa using hby
          by_cases heq : dynamic.level = last.level
          · exact heq
          · exact absurd ⟨last, dynamic, hlast, hby, hdynamic, heq⟩ hnot

/-- The settings up to a slot are those before it and its own. -/
theorem filter_le_eq (sorted : settings.Pairwise fun first second => first.slot ≤ second.slot)
    (slot : Nat) :
    settings.filter (·.slot ≤ slot) =
      settings.filter (·.slot < slot) ++ settings.filter (·.slot = slot) := by
  have hsplit := filter_append_filter_not (fun setting : LevelSetting => setting.slot < slot)
    ((sorted.filter (·.slot ≤ slot)).imp fun hle hlt => by
      simp only [decide_eq_true_eq] at hlt ⊢
      omega)
  rw [← hsplit, List.filter_filter, List.filter_filter]
  congr 1 <;> refine List.filter_congr fun setting _ => ?_
  all_goals
    rw [Bool.eq_iff_iff]
    simp only [Bool.and_eq_true, Bool.not_eq_true', decide_eq_true_eq, decide_eq_false_iff_not]
    omega

/-- The setting that comes last at a slot is its last dynamic or its last end of a ramp. -/
theorem at_of_last {last : LevelSetting}
    (hlast : (settings.filter (·.slot = slot)).getLast? = some last) :
    (if last.byDynamic then dynamicAt settings slot else endAt settings slot) = some last := by
  obtain ⟨others, hhere⟩ := List.getLast?_eq_some_iff.1 hlast
  have hdynamic : dynamicAt settings slot =
      ((settings.filter (·.slot = slot)).filter (·.byDynamic)).getLast? := by
    simp [dynamicAt, List.filter_filter, Bool.and_comm]
  have hend : endAt settings slot =
      ((settings.filter (·.slot = slot)).filter (!·.byDynamic)).getLast? := by
    simp [endAt, List.filter_filter, Bool.and_comm]
  rw [hdynamic, hend, hhere]
  cases hby : last.byDynamic <;> simp [List.filter_append, hby]

/-- A dynamic of a slot counts first, then the end of a ramp, then what was in force before. -/
theorem markedLevel_filter_le
    (sorted : settings.Pairwise fun first second => first.slot ≤ second.slot) :
    markedLevel before (settings.filter (·.slot ≤ slot)) =
      (((dynamicAt settings slot).or (endAt settings slot)).map level).getD
        (markedLevel before (settings.filter (·.slot < slot))) := by
  cases hlast : (settings.filter (·.slot = slot)).getLast? with
  | none =>
    have hnone : settings.filter (·.slot = slot) = [] := List.getLast?_eq_none_iff.1 hlast
    have hother (setting : LevelSetting) (hmem : setting ∈ settings) : setting.slot ≠ slot := by
      simpa using List.filter_eq_nil_iff.1 hnone setting hmem
    have hdynamic : dynamicAt settings slot = none := by
      simp +contextual [dynamicAt, hother]
    have hend : endAt settings slot = none := by
      simp +contextual [endAt, hother]
    simp [filter_le_eq sorted, hnone, hdynamic, hend]
  | some last =>
    have hslot : last.slot = slot := by
      simpa using (List.mem_filter.1 (List.mem_of_getLast? hlast)).2
    have hdynamic : dynamicAt (settings.filter (·.slot ≤ slot)) slot = dynamicAt settings slot := by
      simp only [dynamicAt, List.filter_filter]
      congr 1
      refine List.filter_congr fun setting _ => ?_
      by_cases heq : setting.slot = slot <;> simp [heq]
    have hall : (settings.filter (·.slot ≤ slot)).getLast? = some last := by
      simp [filter_le_eq sorted, List.getLast?_append, hlast]
    have hat := at_of_last hlast
    simp only [markedLevel, hall, hslot, hdynamic]
    cases hby : dynamicAt settings slot with
    | some dynamic => rfl
    | none =>
      cases hlastBy : last.byDynamic <;> simp_all

end LevelSetting

/-- What has set the level of a line, and the ramp that is open. -/
structure LevelTrail where
  /-- The level the line starts at. -/
  before : Level
  /-- The levels that were set, in order. -/
  settings : List LevelSetting
  /-- The direction of the open ramp, if there is one, and the level it started from. -/
  opened : Option (RampDirection × Level)

namespace LevelTrail

/-- The trail before the first post-event. -/
def start (prior : Carry) : LevelTrail :=
  ⟨prior.level, [], prior.openRamp.map fun direction => (direction, prior.level)⟩

/-- The level in effect. -/
def level (trail : LevelTrail) : Level := LevelSetting.lastLevel trail.before trail.settings

/-- Set the level at a slot. -/
def set (trail : LevelTrail) (slot : Nat) (level : Level) (byDynamic : Bool) : LevelTrail :=
  { trail with settings := trail.settings ++ [⟨slot, level, byDynamic⟩] }

/-- End the open ramp at a slot; without a target it goes one level on. -/
def endRamp (trail : LevelTrail) (slot : Nat) (target : Option Level) : LevelTrail :=
  match trail.opened with
  | none => trail
  | some ramp =>
    { trail.set slot (target.getD (ramp.1.target ramp.2)) false with opened := none }

/-- Follow a post-event of a slot. A dynamic stops the ramp that is open, and so does the start
of another ramp. -/
def follow (trail : LevelTrail) (slot : Nat) : PostEvent → LevelTrail
  | .dynamic dynamic => (trail.endRamp slot (some dynamic.level)).set slot dynamic.level true
  | .rampStart direction =>
    let ended := trail.endRamp slot none
    { ended with opened := some (direction, ended.level) }
  | .rampStop => trail.endRamp slot none
  | _ => trail

/-- Follow the post-events of several slots in order. -/
def followAll (trail : LevelTrail) (events : List (Nat × PostEvent)) : LevelTrail :=
  events.foldl (fun trail event => trail.follow event.1 event.2) trail

/-- The trail of post-events with the slots they attach to. -/
def ofEvents (prior : Carry) (events : List (Nat × PostEvent)) : LevelTrail :=
  (start prior).followAll events

/-- The trail of the post-events of the slots up to one. -/
def upTo (prior : Carry) (events : List (Nat × PostEvent)) (slot : Nat) : LevelTrail :=
  ofEvents prior (events.filter (·.1 ≤ slot))

/-- The ends of ramps. -/
def ends (trail : LevelTrail) : List LevelSetting := trail.settings.filter (!·.byDynamic)

variable {trail : LevelTrail} {prior : Carry} {events : List (Nat × PostEvent)} {slot : Nat}

@[simp] theorem level_set (trail : LevelTrail) (slot : Nat) (level : Level) (byDynamic : Bool) :
    (trail.set slot level byDynamic).level = level := by
  simp [LevelTrail.level, set, LevelSetting.lastLevel]

theorem follow_of_not_setsLevel {event : PostEvent} (h : event.setsLevel = false)
    (trail : LevelTrail) (slot : Nat) : trail.follow slot event = trail := by
  cases event <;> first | rfl | cases h

@[simp] theorem before_endRamp (trail : LevelTrail) (slot : Nat) (target : Option Level) :
    (trail.endRamp slot target).before = trail.before := by
  unfold endRamp
  split <;> rfl

/-- A post-event adds settings at its own slot. -/
theorem exists_settings_follow (trail : LevelTrail) (slot : Nat) (event : PostEvent) :
    ∃ more, (trail.follow slot event).settings = trail.settings ++ more ∧
      ∀ setting ∈ more, setting.slot = slot := by
  have hend (target : Option Level) : ∃ more,
      (trail.endRamp slot target).settings = trail.settings ++ more ∧
        ∀ setting ∈ more, setting.slot = slot := by
    unfold endRamp
    split
    · exact ⟨[], by simp, by simp⟩
    · exact ⟨_, rfl, by simp⟩
  cases event with
  | dynamic dynamic =>
    obtain ⟨more, hmore, hslots⟩ := hend (some dynamic.level)
    refine ⟨more ++ [⟨slot, dynamic.level, true⟩], by simp [follow, set, hmore], ?_⟩
    simpa [or_imp, forall_and] using hslots
  | rampStart direction => exact hend none
  | rampStop => exact hend none
  | _ => exact ⟨[], by simp [follow], by simp⟩

theorem before_follow (trail : LevelTrail) (slot : Nat) (event : PostEvent) :
    (trail.follow slot event).before = trail.before := by
  cases event <;> simp [follow, set]

theorem before_followAll (trail : LevelTrail) (events : List (Nat × PostEvent)) :
    (trail.followAll events).before = trail.before := by
  induction events generalizing trail with
  | nil => rfl
  | cons event rest ih => exact (ih _).trans (before_follow ..)

theorem level_ofEvents (prior : Carry) (events : List (Nat × PostEvent)) :
    (ofEvents prior events).level =
      LevelSetting.lastLevel prior.level (ofEvents prior events).settings := by
  rw [LevelTrail.level, ofEvents, before_followAll]
  rfl

/-- Post-events add settings at their own slots. -/
theorem exists_settings_followAll (trail : LevelTrail) (events : List (Nat × PostEvent)) :
    ∃ more, (trail.followAll events).settings = trail.settings ++ more ∧
      ∀ setting ∈ more, ∃ event ∈ events, setting.slot = event.1 := by
  induction events generalizing trail with
  | nil => exact ⟨[], by simp [followAll], by simp⟩
  | cons event rest ih =>
    obtain ⟨own, hown, hslot⟩ := exists_settings_follow trail event.1 event.2
    obtain ⟨more, hmore, hslots⟩ := ih (trail.follow event.1 event.2)
    refine ⟨own ++ more, by rw [← List.append_assoc, ← hown]; exact hmore, fun setting hmem => ?_⟩
    rcases List.mem_append.1 hmem with hmem | hmem
    · exact ⟨event, List.mem_cons_self, hslot setting hmem⟩
    · obtain ⟨other, hother, heq⟩ := hslots setting hmem
      exact ⟨other, List.mem_cons_of_mem _ hother, heq⟩

/-- Post-events that are written slot by slot set levels slot by slot. -/
theorem pairwise_settings_followAll
    (sorted : events.Pairwise fun first second => first.1 ≤ second.1)
    (hsettings : trail.settings.Pairwise fun first second => first.slot ≤ second.slot)
    (hbefore : ∀ setting ∈ trail.settings, ∀ event ∈ events, setting.slot ≤ event.1) :
    (trail.followAll events).settings.Pairwise fun first second => first.slot ≤ second.slot := by
  induction events generalizing trail with
  | nil => exact hsettings
  | cons event rest ih =>
    obtain ⟨hfirst, hrest⟩ := List.pairwise_cons.1 sorted
    obtain ⟨own, hown, hslot⟩ := exists_settings_follow trail event.1 event.2
    refine ih hrest ?_ ?_
    · rw [hown]
      refine List.pairwise_append.2 ⟨hsettings, ?_, fun first hmem second hsecond => ?_⟩
      · refine List.pairwise_of_forall_mem_list fun first hmem second hsecond => ?_
        exact Nat.le_of_eq ((hslot first hmem).trans (hslot second hsecond).symm)
      · rw [hslot second hsecond]
        exact hbefore first hmem event List.mem_cons_self
    · rw [hown]
      intro setting hmem other hother
      rcases List.mem_append.1 hmem with hmem | hmem
      · exact hbefore setting hmem other (List.mem_cons_of_mem _ hother)
      · rw [hslot setting hmem]
        exact hfirst other hother

theorem pairwise_settings (sorted : events.Pairwise fun first second => first.1 ≤ second.1)
    (prior : Carry) :
    (ofEvents prior events).settings.Pairwise fun first second => first.slot ≤ second.slot :=
  pairwise_settings_followAll sorted .nil nofun

/-- The settings up to a slot are those of the post-events up to it. -/
theorem settings_upTo (sorted : events.Pairwise fun first second => first.1 ≤ second.1)
    (prior : Carry) (slot : Nat) :
    (upTo prior events slot).settings =
      (ofEvents prior events).settings.filter (·.slot ≤ slot) := by
  have hsplit := filter_append_filter_not (fun event : Nat × PostEvent => event.1 ≤ slot)
    (sorted.imp fun hle hlate => by
      simp only [decide_eq_true_eq] at hlate ⊢
      omega)
  obtain ⟨early, hearly, hle⟩ := exists_settings_followAll (start prior)
    (events.filter (·.1 ≤ slot))
  obtain ⟨late, hlate, hgt⟩ := exists_settings_followAll (upTo prior events slot)
    (events.filter fun event => !decide (event.1 ≤ slot))
  have hearly : (upTo prior events slot).settings = early := hearly
  have hall : ofEvents prior events =
      (upTo prior events slot).followAll (events.filter fun event => !decide (event.1 ≤ slot)) := by
    rw [ofEvents, followAll, ← hsplit, List.foldl_append, hsplit]
    rfl
  rw [hall, hlate, List.filter_append, List.filter_eq_self.2, List.filter_eq_nil_iff.2,
    List.append_nil]
  · intro setting hmem
    obtain ⟨event, hevent, heq⟩ := hgt setting hmem
    simpa [heq] using (List.mem_filter.1 hevent).2
  · intro setting hmem
    obtain ⟨event, hevent, heq⟩ := hle setting (hearly ▸ hmem)
    simpa [heq] using (List.mem_filter.1 hevent).2

/-- The end of a ramp is no dynamic. -/
theorem dynamicAt_endRamp (trail : LevelTrail) (place : Nat) (target : Option Level) (slot : Nat) :
    LevelSetting.dynamicAt (trail.endRamp place target).settings slot =
      LevelSetting.dynamicAt trail.settings slot := by
  unfold endRamp
  split
  · rfl
  · simp [LevelSetting.dynamicAt, set, List.filter_append]

theorem dynamicAt_set (trail : LevelTrail) (place : Nat) (level : Level) (slot : Nat) :
    LevelSetting.dynamicAt (trail.set place level true).settings slot =
      if slot = place then some ⟨place, level, true⟩
      else LevelSetting.dynamicAt trail.settings slot := by
  by_cases heq : slot = place
  · simp [LevelSetting.dynamicAt, set, List.filter_append, heq]
  · simp [LevelSetting.dynamicAt, set, List.filter_append, heq, Ne.symm heq]

theorem ends_set_dynamic (trail : LevelTrail) (slot : Nat) (level : Level) :
    (trail.set slot level true).ends = trail.ends := by
  simp [ends, set, List.filter_append]

end LevelTrail

namespace Draft

variable {instrument : Instrument} {prior : Carry} {draft draft' : Draft} {index head : Nat}
  {token : Token} {post : List PostEvent} {event : PostEvent} {trail : LevelTrail}

/-- The level of the dynamic of every slot. -/
def markedLevels (draft : Draft) : List (Option Level) :=
  draft.slots.reverse.map fun slot => slot.slot.dynamic.map Dynamic.level

/-- The level and the ramps of a draft are those of a trail. -/
structure RampsTracked (draft : Draft) (trail : LevelTrail) : Prop where
  level : draft.level = trail.level
  opened : (draft.openRamp.map fun ramp => (ramp.direction, ramp.fromLevel)) = trail.opened
  stopped : draft.ramps.reverse.map (fun ramp => (ramp.stop, ramp.toLevel)) =
    trail.ends.map fun ending => (draft.heads[ending.slot]?, ending.level)
  slot_lt : ∀ setting ∈ trail.settings, setting.slot < draft.heads.length

/-- So are the dynamics, of which every slot has its last one. -/
structure LevelsTracked (draft : Draft) (trail : LevelTrail) : Prop extends
    draft.RampsTracked trail where
  dynamics : draft.markedLevels = (List.range draft.heads.length).map fun slot =>
    (LevelSetting.dynamicAt trail.settings slot).map LevelSetting.level

theorem getElem?_heads_of_lastHead? (hlast : draft.lastHead? = some head) :
    draft.heads.length - 1 < draft.heads.length ∧
      draft.heads[draft.heads.length - 1]? = some head := by
  obtain ⟨last, before, hslots, rfl⟩ := exists_last hlast
  simp [heads, hslots]

theorem RampsTracked.mark (h : draft.RampsTracked trail) (change : Slot → Slot) :
    (draft.mark change).RampsTracked trail where
  level := by simpa using h.level
  opened := by simpa using h.opened
  stopped := by simpa using h.stopped
  slot_lt := by simpa using h.slot_lt

theorem RampsTracked.endRamp (h : draft.RampsTracked trail) (hlast : draft.lastHead? = some head)
    (target : Option Level) :
    (draft.closeRamp head target).RampsTracked
      (trail.endRamp (draft.heads.length - 1) target) := by
  obtain ⟨hlt, hhead⟩ := getElem?_heads_of_lastHead? hlast
  have hopened := h.opened
  unfold closeRamp LevelTrail.endRamp
  cases hopen : draft.openRamp with
  | none =>
    simp only [hopen, Option.map_none] at hopened
    simpa [← hopened] using h
  | some ramp =>
    simp only [hopen, Option.map_some] at hopened
    simp only [← hopened]
    refine RampsTracked.mark ⟨?_, rfl, ?_, ?_⟩ _
    · simp [LevelTrail.level, LevelTrail.set, LevelSetting.lastLevel, OpenRamp.target]
    · have hends : LevelTrail.ends { trail.set (draft.heads.length - 1)
          (target.getD (ramp.direction.target ramp.fromLevel)) false with opened := none } =
            trail.ends ++ [⟨draft.heads.length - 1,
              target.getD (ramp.direction.target ramp.fromLevel), false⟩] := by
        simp [LevelTrail.ends, LevelTrail.set, List.filter_append]
      rw [hends, List.reverse_cons, List.map_append, List.map_append, h.stopped, List.map_singleton,
        List.map_singleton]
      simp only [OpenRamp.close, OpenRamp.target, ← hhead]
      rfl
    · intro setting hmem
      rcases List.mem_append.1 hmem with hmem | hmem
      · exact h.slot_lt setting hmem
      · rw [List.mem_singleton.1 hmem]
        exact hlt

/-- A mark that is no dynamic leaves the dynamics alone. -/
theorem markedLevels_mark {change : Slot → Slot}
    (h : ∀ slot, (change slot).dynamic = slot.dynamic) :
    (draft.mark change).markedLevels = draft.markedLevels := by
  unfold mark
  split
  · rfl
  case h_2 hslots => simp [markedLevels, hslots, h]

theorem markedLevels_closeRamp (draft : Draft) (head : Nat) (target : Option Level) :
    (draft.closeRamp head target).markedLevels = draft.markedLevels := by
  unfold closeRamp
  split
  · rfl
  · exact markedLevels_mark fun _ => rfl

/-- Only slots, level and ramps matter here. -/
theorem LevelsTracked.congr (h : draft.LevelsTracked trail) (hslots : draft'.slots = draft.slots)
    (hlevel : draft'.level = draft.level) (hramps : draft'.ramps = draft.ramps)
    (hopen : draft'.openRamp = draft.openRamp) : draft'.LevelsTracked trail := by
  have hheads : draft'.heads = draft.heads := by rw [heads, hslots, heads]
  refine ⟨⟨hlevel.trans h.level, by rw [hopen, h.opened], ?_, by rw [hheads]; exact h.slot_lt⟩, ?_⟩
  · rw [hramps, hheads, h.stopped]
  · rw [markedLevels, hslots, hheads]
    exact h.dynamics

theorem LevelsTracked.endRamp (h : draft.LevelsTracked trail) (hlast : draft.lastHead? = some head)
    (target : Option Level) :
    (draft.closeRamp head target).LevelsTracked
      (trail.endRamp (draft.heads.length - 1) target) where
  toRampsTracked := h.toRampsTracked.endRamp hlast target
  dynamics := by
    rw [markedLevels_closeRamp, heads_closeRamp, h.dynamics]
    simp only [LevelTrail.dynamicAt_endRamp]

theorem LevelsTracked.mark (h : draft.LevelsTracked trail) {change : Slot → Slot}
    (hchange : ∀ slot, (change slot).dynamic = slot.dynamic) :
    (draft.mark change).LevelsTracked trail where
  toRampsTracked := h.toRampsTracked.mark change
  dynamics := by
    rw [markedLevels_mark hchange, heads_mark]
    exact h.dynamics

/-- A dynamic is the last of its slot, and ends the ramp that is open. -/
theorem LevelsTracked.setDynamic (h : draft.LevelsTracked trail)
    (hlast : draft.lastHead? = some head) (dynamic : Dynamic) :
    (draft.setDynamic head dynamic).LevelsTracked
      (trail.follow (draft.heads.length - 1) (.dynamic dynamic)) := by
  let change (slot : Slot) : Slot := { slot with dynamic := some dynamic }
  have hmarked := h.toRampsTracked.mark change
  have hlastMarked : (draft.mark change).lastHead? = some head := by
    rwa [lastHead?_eq_of_unmarked (unmarked_mark fun _ => rfl)]
  have hended := hmarked.endRamp hlastMarked (some dynamic.level)
  rw [heads_mark] at hended
  refine ⟨⟨?_, hended.opened, ?_, ?_⟩, ?_⟩
  · simp [Draft.setDynamic, LevelTrail.follow]
  · rw [LevelTrail.follow, LevelTrail.ends_set_dynamic]
    exact hended.stopped
  · intro setting hmem
    rcases List.mem_append.1 hmem with hmem | hmem
    · exact hended.slot_lt setting hmem
    · rw [List.mem_singleton.1 hmem]
      change draft.heads.length - 1 < ((draft.mark change).closeRamp head _).heads.length
      rw [heads_closeRamp, heads_mark]
      exact (getElem?_heads_of_lastHead? hlast).1
  · change ((draft.mark change).closeRamp head _).markedLevels =
      (List.range ((draft.mark change).closeRamp head _).heads.length).map _
    rw [markedLevels_closeRamp, heads_closeRamp, heads_mark]
    simp only [LevelTrail.follow, LevelTrail.dynamicAt_set, LevelTrail.dynamicAt_endRamp]
    have hdynamics := h.dynamics
    obtain ⟨last, before, hslots, rfl⟩ := exists_last hlast
    have hlength : draft.heads.length = before.length + 1 := by simp [heads, hslots]
    simp only [markedLevels, hslots, hlength, List.range_succ, List.reverse_cons, List.map_append,
      List.map_singleton, Draft.mark, Nat.add_sub_cancel] at hdynamics ⊢
    -- the slots before the last one keep their dynamics
    rw [(List.append_inj' hdynamics rfl).1]
    rw [if_pos trivial]
    refine congrArg (· ++ _) (List.map_congr_left fun slot hmem => ?_)
    rw [if_neg (Nat.ne_of_lt (List.mem_range.1 hmem))]

/-- A post-event is followed by the trail. -/
theorem LevelsTracked.attachOne (h : draft.LevelsTracked trail)
    (hlast : draft.lastHead? = some head) (hattach : draft.attachOne head event = .ok draft') :
    draft'.LevelsTracked (trail.follow (draft.heads.length - 1) event) := by
  cases levelMove_of_attachOne hattach with
  | marked other slots level ramps openRamp dynamic role =>
    rw [LevelTrail.follow_of_not_setsLevel other]
    exact (h.congr slots level ramps openRamp).mark dynamic
  | dynamic dynamic => exact h.setDynamic hlast dynamic
  | rampStart direction =>
    have hended := h.endRamp hlast none
    unfold Draft.startRamp
    apply LevelsTracked.mark
    · refine ⟨⟨hended.level, ?_, hended.stopped, hended.slot_lt⟩, hended.dynamics⟩
      simp [LevelTrail.follow, hended.level]
    · exact fun _ => rfl
  | rampStop => exact h.endRamp hlast none

theorem LevelsTracked.push (h : draft.LevelsTracked trail) (head : Nat) (content : SlotContent)
    (length : NoteLength) (offset : Nat) :
    (draft.push head content length offset).LevelsTracked trail := by
  have hnew : LevelSetting.dynamicAt trail.settings draft.heads.length = none := by
    refine List.getLast?_eq_none_iff.2 (List.filter_eq_nil_iff.2 fun setting hmem hat => ?_)
    have hlt := h.slot_lt setting hmem
    simp only [Bool.and_eq_true, decide_eq_true_eq] at hat
    omega
  refine ⟨⟨h.level, h.opened, ?_, ?_⟩, ?_⟩
  · rw [heads_push]
    refine h.stopped.trans (List.map_congr_left fun ending hmem => ?_)
    rw [List.getElem?_append_left (h.slot_lt ending (List.mem_filter.1 hmem).1)]
  · intro setting hmem
    rw [heads_push, List.length_append]
    exact Nat.lt_add_right _ (h.slot_lt setting hmem)
  · rw [heads_push, List.length_append, List.length_singleton, List.range_succ, List.map_append,
      ← h.dynamics, List.map_singleton, hnew]
    simp [markedLevels, Draft.push, Slot.of]

/-- Placing a token leaves the levels alone but for a slot without a dynamic that may come
last. -/
theorem LevelsTracked.placed (h : draft.LevelsTracked trail)
    (placed : Placed instrument draft index token draft' post) : draft'.LevelsTracked trail := by
  cases placed with
  | slot => exact h.push ..
  | chordEnd =>
    refine LevelsTracked.push ?_ _ _ _ _
    exact h.congr rfl rfl rfl rfl
  | control =>
    unfold Draft.follow
    split <;> exact h.congr rfl rfl rfl rfl
  | _ => exact h.congr rfl rfl rfl rfl

end Draft

/-- The trail of the post-events attached so far is the draft's. -/
theorem keptBySteps_levelsTracked (instrument : Instrument) (prior : Carry) (frame : Frame) :
    KeptBySteps instrument prior frame fun draft attached =>
      draft.LevelsTracked (.ofEvents prior attached) where
  start := by
    refine ⟨⟨rfl, ?_, rfl, nofun⟩, rfl⟩
    simp [Draft.start, LevelTrail.ofEvents, LevelTrail.start, LevelTrail.followAll,
      Function.comp_def]
  place placed h := h.placed placed
  attach built alternate last hattach h := by
    simpa [LevelTrail.ofEvents, LevelTrail.followAll] using h.attachOne last hattach

end Stave.Shorthand
