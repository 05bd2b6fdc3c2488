import Stave.Proofs.Engraving.Runs

/-!
# Beams go over whole beats

A run of short slots is as wide as its beat allows: no slot next to it is short and begins in the
same beat. So two such runs that meet are one, and they are determined by the slots alone,
whatever walk finds them. What a beam goes over is such a run without the rests at its ends, if two
slots are left of it. Hence beams lie apart, begin and end at notes, stay within a beat, and leave
no two neighbouring short notes of a beat unjoined.

## Main statements

* `Engraving.beamRuns_joinBeats`: beams go over just the runs that are cut out of beats so.
-/
namespace Stave

namespace Line

/-- The beat a slot shorter than a quarter begins in, where a beat lasts a unit at least. A longer
slot has none here, nor has an index without a slot. -/
def shortBeat? (line : Line) (meter : Meter) (index : Nat) : Option Nat := do
  let onset ← line.onsets[index]?
  let slot ← line.slots[index]?
  if slot.displayDuration < quarterUnits then some (onset / max meter.beatUnits 1) else none

/-- Whether the slot of an index is a rest. -/
def RestAt (line : Line) (index : Nat) : Prop :=
  ∃ slot, line.slots[index]? = some slot ∧ slot.isRest

/-- A range of slots without the rests at both of its ends. -/
structure CutOfRests (line : Line) (first last start stop : Nat) : Prop where
  first_le : first ≤ start
  le_last : stop ≤ last
  before : ∀ index, first ≤ index → index < start → line.RestAt index
  after : ∀ index, stop < index → index ≤ last → line.RestAt index
  startSounds : ¬line.RestAt start
  stopSounds : ¬line.RestAt stop

end Line

/-- The beats of a meter that can be written last. -/
theorem Meter.beatUnits_pos {meter : Meter} (legal : meter.Legal) : 0 < meter.beatUnits := by
  have hunit : ∀ digit ∈ [1, 2, 4, 8, 16, 32, 64, 128], 0 < wholeUnits / digit := by decide
  have hdenominator : meter.denominator ∈ [1, 2, 4, 8, 16, 32, 64, 128] := by
    have hdigit := legal.2.2
    unfold digitUnits? at hdigit
    split at hdigit
    case isTrue hmem => exact hmem
    case isFalse => cases hdigit
  have hpos := hunit meter.denominator hdenominator
  unfold beatUnits
  dsimp only
  split <;> omega

/-! ### Ranges in one beat -/

/-- Neighbouring slots that are all short and begin in one beat, given the beats of short slots. -/
def OneBeat (beatAt : Nat → Option Nat) (first last : Nat) : Prop :=
  first ≤ last ∧ ∃ beat, ∀ index, first ≤ index → index ≤ last → beatAt index = some beat

/-- A range of slots in one beat that no wider one contains. -/
structure WidestBeat (beatAt : Nat → Option Nat) (first last : Nat) : Prop where
  oneBeat : OneBeat beatAt first last
  widest : ∀ first' last', first' ≤ first → last ≤ last' → OneBeat beatAt first' last' →
    first' = first ∧ last' = last

variable {beatAt : Nat → Option Nat} {first last first' last' index beat : Nat}

/-- Ranges in one beat that share a slot are together in one beat. -/
theorem OneBeat.union (h : OneBeat beatAt first last) (h' : OneBeat beatAt first' last')
    (hindex : first ≤ index ∧ index ≤ last) (hindex' : first' ≤ index ∧ index ≤ last') :
    OneBeat beatAt (min first first') (max last last') := by
  obtain ⟨-, beat, hbeat⟩ := h
  obtain ⟨-, beat', hbeat'⟩ := h'
  have hsame : beat = beat' := by
    have hboth := (hbeat index hindex.1 hindex.2).symm.trans (hbeat' index hindex'.1 hindex'.2)
    exact Option.some.inj hboth
  subst hsame
  refine ⟨by omega, beat, fun other hfirst hlast => ?_⟩
  by_cases hin : first ≤ other ∧ other ≤ last
  · exact hbeat other hin.1 hin.2
  · exact hbeat' other (by omega) (by omega)

/-- A widest range contains every range in one beat that it meets. -/
theorem WidestBeat.contains (h : WidestBeat beatAt first last)
    (h' : OneBeat beatAt first' last') (hindex : first ≤ index ∧ index ≤ last)
    (hindex' : first' ≤ index ∧ index ≤ last') : first ≤ first' ∧ last' ≤ last := by
  obtain ⟨hfirst, hlast⟩ := h.widest (min first first') (max last last') (by omega) (by omega)
    (h.oneBeat.union h' hindex hindex')
  omega

/-- Widest ranges that meet are one. -/
theorem WidestBeat.eq (h : WidestBeat beatAt first last) (h' : WidestBeat beatAt first' last')
    (hindex : first ≤ index ∧ index ≤ last) (hindex' : first' ≤ index ∧ index ≤ last') :
    first = first' ∧ last = last' := by
  have hleft := h.contains h'.oneBeat hindex hindex'
  have hright := h'.contains h.oneBeat hindex' hindex
  omega

namespace Engraving

/-! ### The runs a walk finds -/

/-- A run of short slots of its beat, next to none of which is another one. -/
structure BeatRun.Whole (beatAt : Nat → Option Nat) (run : BeatRun) : Prop where
  ordered : run.start ≤ run.stop
  inside : ∀ index, run.start ≤ index → index ≤ run.stop → beatAt index = some run.beat
  starts : ∀ index, index + 1 = run.start → beatAt index ≠ some run.beat
  stops : beatAt (run.stop + 1) ≠ some run.beat

/-- The runs of the slots from `start` on, where `before` is the beat of the slot before: none if
that is not short, or is not there. -/
inductive BeatsFound (beatAt : Nat → Option Nat) : Option Nat → Nat → List BeatRun → Prop where
  | done {before : Option Nat} {start : Nat}
      (empty : ∀ index, start ≤ index → beatAt index = none) : BeatsFound beatAt before start []
  | skip {before : Option Nat} {start : Nat} {runs : List BeatRun} (long : beatAt start = none)
      (found : BeatsFound beatAt none (start + 1) runs) : BeatsFound beatAt before start runs
  | run {before : Option Nat} {run : BeatRun} {runs : List BeatRun}
      (ordered : run.start ≤ run.stop)
      (inside : ∀ index, run.start ≤ index → index ≤ run.stop → beatAt index = some run.beat)
      (starts : before ≠ some run.beat)
      (found : BeatsFound beatAt (some run.beat) (run.stop + 1) runs) :
      BeatsFound beatAt before run.start (run :: runs)

/-- The walk at an index: between runs, or in one that goes up to the index. What it finds is from
`start` on, before which the beat is `before`. -/
inductive Walking (beatAt : Nat → Option Nat) : Option Nat → Nat → Nat → Option BeatRun → Prop where
  | between (index : Nat) : Walking beatAt none index index none
  | within {before : Option Nat} (run : BeatRun) (ordered : run.start ≤ run.stop)
      (inside : ∀ index, run.start ≤ index → index ≤ run.stop → beatAt index = some run.beat)
      (starts : before ≠ some run.beat) :
      Walking beatAt before run.start (run.stop + 1) (some run)

/-- The beat of a slot with its onset, if the slot is short. -/
def timedBeat? (units : Nat) (timed : Nat × Slot) : Option Nat :=
  if beamable timed.2 then some (timed.1 / units) else none

/-- What a walk finds are runs as the beats of the slots have them. -/
theorem found_beatRuns {units start : Nat} {before : Option Nat} {current : Option BeatRun}
    {timed : List (Nat × Slot)} (walking : Walking beatAt before start index current)
    (reads : ∀ place, beatAt (index + place) = timed[place]?.bind (timedBeat? units)) :
    BeatsFound beatAt before start (beatRuns units index current timed) := by
  induction timed generalizing index current before start with
  | nil =>
    have hempty (other : Nat) (hle : index ≤ other) : beatAt other = none := by
      simpa [Nat.add_sub_of_le hle] using reads (other - index)
    cases walking with
    | between => exact .done hempty
    | within run ordered inside starts => exact .run ordered inside starts (.done hempty)
  | cons pair rest ih =>
    obtain ⟨onset, slot⟩ := pair
    have hlater (place : Nat) :
        beatAt (index + 1 + place) = rest[place]?.bind (timedBeat? units) := by
      simpa [Nat.add_assoc, Nat.add_comm 1] using reads (place + 1)
    unfold beatRuns
    dsimp only
    split
    case isTrue short =>
      have hbeat : beatAt index = some (onset / units) := by simpa [timedBeat?, short] using reads 0
      have hnew {last : Option Nat} (hne : last ≠ some (onset / units)) :
          Walking beatAt last index (index + 1) (some ⟨index, index, onset / units⟩) :=
        .within ⟨index, index, onset / units⟩ (Nat.le_refl index)
          (fun other hle hge => by rwa [Nat.le_antisymm hge hle]) hne
      cases walking with
      | between => exact ih (hnew (Option.some_ne_none _).symm) hlater
      | within run ordered inside starts =>
        dsimp only
        split
        case isTrue same =>
          refine ih (.within ⟨run.start, run.stop + 1, run.beat⟩ (Nat.le_succ_of_le ordered)
            (fun other hle hge => ?_) starts) hlater
          rcases Nat.eq_or_lt_of_le hge with rfl | hlt
          · exact hbeat.trans (congrArg some same.symm)
          · exact inside other hle (Nat.le_of_lt_succ hlt)
        case isFalse other =>
          exact .run ordered inside starts (ih (hnew fun heq => other (Option.some.inj heq)) hlater)
    case isFalse long =>
      have hlong : beatAt index = none := by simpa [timedBeat?, long] using reads 0
      have hrest := ih (.between (index + 1)) hlater
      cases walking with
      | between => exact .skip hlong hrest
      | within run ordered inside starts => exact .run ordered inside starts (.skip hlong hrest)

namespace BeatsFound

variable {before : Option Nat} {start : Nat} {runs : List BeatRun} {run : BeatRun}

theorem start_le (h : BeatsFound beatAt before start runs) : ∀ run ∈ runs, start ≤ run.start := by
  induction h with
  | done => exact nofun
  | skip long found ih => exact fun run hmem => Nat.le_of_succ_le (ih run hmem)
  | @run before first runs ordered inside starts found ih =>
    intro run hmem
    rcases List.mem_cons.1 hmem with rfl | hmem
    · exact Nat.le_refl _
    · have := ih run hmem
      omega

/-- The runs follow one another. -/
theorem pairwise (h : BeatsFound beatAt before start runs) :
    runs.Pairwise fun run next => run.stop < next.start := by
  induction h with
  | done => exact .nil
  | skip long found ih => exact ih
  | run ordered inside starts found ih => exact .cons found.start_le ih

/-- The run after another one has another beat, if it follows at once. -/
theorem first_ne (h : BeatsFound beatAt (some beat) start runs) : beatAt start ≠ some beat := by
  cases h with
  | done empty => simp [empty start (Nat.le_refl start)]
  | skip long => simp [long]
  | run ordered inside starts =>
    rw [inside _ (Nat.le_refl _) ordered]
    exact starts.symm

/-- Every run that is found is whole, if the beat before the first slot is the one that is known. -/
theorem whole (h : BeatsFound beatAt before start runs)
    (hbefore : ∀ index, index + 1 = start → beatAt index = before) :
    ∀ run ∈ runs, run.Whole beatAt := by
  induction h with
  | done => exact nofun
  | skip long found ih =>
    refine ih fun index heq => ?_
    rw [Nat.succ.inj heq]
    exact long
  | @run before first runs ordered inside starts found ih =>
    refine List.forall_mem_cons.2
      ⟨⟨ordered, inside, fun index heq => ?_, found.first_ne⟩, ih fun index heq => ?_⟩
    · rw [hbefore index heq]
      exact starts
    · rw [Nat.succ.inj heq]
      exact inside _ ordered (Nat.le_refl _)

/-- Every short slot is in a run. -/
theorem covers (h : BeatsFound beatAt before start runs) (hle : start ≤ index)
    (hbeat : beatAt index = some beat) : ∃ run ∈ runs, run.start ≤ index ∧ index ≤ run.stop := by
  induction h with
  | done empty => simp [empty index hle] at hbeat
  | @skip before start runs long found ih =>
    refine ih (Nat.lt_of_le_of_ne hle ?_)
    rintro rfl
    simp [long] at hbeat
  | @run before first runs ordered inside starts found ih =>
    rcases Nat.lt_or_ge first.stop index with hlt | hge
    · obtain ⟨run, hmem, hin⟩ := ih hlt
      exact ⟨run, List.mem_cons_of_mem _ hmem, hin⟩
    · exact ⟨first, List.mem_cons_self, hle, hge⟩

end BeatsFound

/-- A whole run goes over a widest range. -/
theorem BeatRun.Whole.widest {run : BeatRun} (h : run.Whole beatAt) :
    WidestBeat beatAt run.start run.stop := by
  refine ⟨⟨h.ordered, run.beat, h.inside⟩, fun first last hfirst hlast ⟨_, beat, hbeat⟩ => ?_⟩
  have hsame : beat = run.beat := by
    have := h.inside run.start (Nat.le_refl _) h.ordered
    have hbeat := hbeat run.start hfirst (Nat.le_trans h.ordered hlast)
    exact Option.some.inj (hbeat.symm.trans this)
  subst hsame
  have hordered := h.ordered
  refine ⟨Nat.le_antisymm hfirst (Nat.le_of_not_lt fun hlt => ?_),
    Nat.le_antisymm (Nat.le_of_not_lt fun hlt => ?_) hlast⟩
  · exact h.starts (run.start - 1) (by omega) (hbeat (run.start - 1) (by omega) (by omega))
  · exact h.stops (hbeat (run.stop + 1) (by omega) (by omega))

/-- The runs that are found in a line, by their beats. -/
theorem found_runs (line : Line) (meter : Meter) :
    BeatsFound (line.shortBeat? meter) none 0
      (beatRuns (max meter.beatUnits 1) 0 none (line.onsets.zip line.slots)) := by
  refine found_beatRuns (.between 0) fun place => ?_
  rw [Nat.zero_add, Line.shortBeat?, List.zip, List.getElem?_zipWith]
  cases line.onsets[place]? with
  | none => rfl
  | some onset =>
    cases line.slots[place]? with
    | none => rfl
    | some slot => simp [timedBeat?, beamable]

theorem widest_of_mem_runs {line : Line} {meter : Meter} {run : BeatRun}
    (h : run ∈ beatRuns (max meter.beatUnits 1) 0 none (line.onsets.zip line.slots)) :
    WidestBeat (line.shortBeat? meter) run.start run.stop := by
  have hfirst (index : Nat) (heq : index + 1 = 0) : line.shortBeat? meter index = none :=
    absurd heq (Nat.succ_ne_zero index)
  exact ((found_runs line meter).whole hfirst run h).widest

/-- The runs of a line are the widest ranges of slots in one beat. -/
theorem exists_run_iff_widest {line : Line} {meter : Meter} :
    (∃ run ∈ beatRuns (max meter.beatUnits 1) 0 none (line.onsets.zip line.slots),
      run.start = first ∧ run.stop = last) ↔ WidestBeat (line.shortBeat? meter) first last := by
  constructor
  · rintro ⟨run, hmem, rfl, rfl⟩
    exact widest_of_mem_runs hmem
  · intro h
    obtain ⟨hordered, beat, hbeat⟩ := h.oneBeat
    obtain ⟨run, hmem, hin⟩ :=
      (found_runs line meter).covers (Nat.zero_le first) (hbeat first (Nat.le_refl _) hordered)
    exact ⟨run, hmem, (widest_of_mem_runs hmem).eq h hin ⟨Nat.le_refl _, hordered⟩⟩

/-! ### The rests at the ends -/

variable {start stop : Nat}

theorem isRestAt_iff {line : Line} :
    isRestAt line.slots.toArray index = true ↔ line.RestAt index := by
  unfold isRestAt Line.RestAt
  cases hslot : line.slots[index]? <;> simp [hslot]

/-- Moving the start stops at the first slot that is no rest. -/
theorem trimRunStart_spec (slots : Array Slot) (start stop : Nat) :
    (∀ index, start ≤ index → index < trimRunStart slots start stop → isRestAt slots index = true) ∧
      (trimRunStart slots start stop ≤ stop →
        isRestAt slots (trimRunStart slots start stop) = false) := by
  fun_induction trimRunStart slots start stop with
  | case1 start hrest ih =>
    refine ⟨fun index hle hlt => ?_, ih.2⟩
    rcases Nat.eq_or_lt_of_le hle with rfl | hlater
    · exact hrest.2
    · exact ih.1 index hlater hlt
  | case2 start hnot =>
    refine ⟨fun index hle hlt => absurd hlt (Nat.not_lt.2 hle), fun hle => ?_⟩
    simpa [hle] using hnot

/-- Moving the end stops at the last slot that is no rest. -/
theorem trimRunStop_spec (slots : Array Slot) (start stop : Nat) :
    (∀ index, trimRunStop slots start stop < index → index ≤ stop → isRestAt slots index = true) ∧
      (start < trimRunStop slots start stop →
        isRestAt slots (trimRunStop slots start stop) = false) := by
  fun_induction trimRunStop slots start stop with
  | case1 =>
    exact ⟨fun index hlt hle => absurd hlt (Nat.not_lt.2 hle),
      fun hlt => absurd hlt (Nat.not_lt_zero start)⟩
  | case2 stop hrest ih =>
    refine ⟨fun index hlt hle => ?_, ih.2⟩
    rcases Nat.eq_or_lt_of_le hle with rfl | hearlier
    · exact hrest.2
    · exact ih.1 index hlt (Nat.le_of_lt_succ hearlier)
  | case3 stop hnot =>
    refine ⟨fun index hlt hle => absurd hlt (Nat.not_lt.2 hle), fun hlt => ?_⟩
    simpa [hlt] using hnot

/-- A run is cut to what is left without the rests at its ends, if that is two slots. -/
theorem trimRun?_eq_some_iff {line : Line} {run : BeatRun} :
    trimRun? line.slots.toArray run = some (start, stop) ↔
      start < stop ∧ line.CutOfRests run.start run.stop start stop := by
  have hstart := trimRunStart_spec line.slots.toArray run.start run.stop
  have hstop := trimRunStop_spec line.slots.toArray (trimRunStart line.slots.toArray run.start
    run.stop) run.stop
  have hle := le_trimRunStart line.slots.toArray run.start run.stop
  have hge := trimRunStop_le line.slots.toArray (trimRunStart line.slots.toArray run.start
    run.stop) run.stop
  simp only [trimRun?, Option.ite_none_right_eq_some, Option.some.injEq, Prod.mk.injEq,
    ← Bool.not_eq_true, isRestAt_iff] at hstart hstop ⊢
  generalize trimRunStart line.slots.toArray run.start run.stop = first at *
  generalize trimRunStop line.slots.toArray first run.stop = last at *
  constructor
  · rintro ⟨hlt, rfl, rfl⟩
    exact ⟨hlt, hle, hge, hstart.1, hstop.1, hstart.2 (by omega), hstop.2 hlt⟩
  · rintro ⟨hlt, hcut⟩
    have hfirst_le := hcut.first_le
    have hle_last := hcut.le_last
    -- each end has stopped where the other description has it, since it is no rest
    have hfirst : first = start := by
      rcases Nat.lt_trichotomy first start with hbelow | heq | habove
      · exact absurd (hcut.before first hle hbelow) (hstart.2 (by omega))
      · exact heq
      · exact absurd (hstart.1 start hcut.first_le habove) hcut.startSounds
    have hlast : last = stop := by
      rcases Nat.lt_trichotomy last stop with hbelow | heq | habove
      · exact absurd (hstop.1 stop hbelow hcut.le_last) hcut.stopSounds
      · exact heq
      · exact absurd (hcut.after last habove hge) (hstop.2 (by omega))
    exact ⟨by omega, hfirst, hlast⟩

/-- Two notes of a run are in what it is cut to. -/
theorem exists_cut {line : Line} {run : BeatRun} {note other : Nat} (hlt : note < other)
    (hstart : run.start ≤ note) (hstop : other ≤ run.stop) (hnote : ¬line.RestAt note)
    (hother : ¬line.RestAt other) :
    ∃ cut, trimRun? line.slots.toArray run = some cut ∧ cut.1 ≤ note ∧ other ≤ cut.2 := by
  have hbefore := (trimRunStart_spec line.slots.toArray run.start run.stop).1 note hstart
  have hafter := (trimRunStop_spec line.slots.toArray (trimRunStart line.slots.toArray run.start
    run.stop) run.stop).1 other
  rw [isRestAt_iff] at hbefore hafter
  have hfirst := Nat.le_of_not_lt fun hbelow => hnote (hbefore hbelow)
  have hlast := Nat.le_of_not_lt fun habove => hother (hafter habove hstop)
  exact ⟨_, if_pos (by omega), hfirst, hlast⟩

/-! ### What beams go over -/

/-- Runs in order that are what is left of the widest ranges in one beat without the rests at their
ends, if that is two slots. -/
structure CutFromBeats (line : Line) (meter : Meter) (runs : List (Nat × Nat)) : Prop where
  mem_iff : ∀ start stop, (start, stop) ∈ runs ↔ start < stop ∧ ∃ first last,
    WidestBeat (line.shortBeat? meter) first last ∧ line.CutOfRests first last start stop
  increasing : runs.Pairwise fun run next => run.2 < next.1

/-- What follows for the slots: a run begins and ends at notes and stays in a beat, and two notes
are in one run if they and what is between them are short and in one beat. -/
structure JoinsNotes (line : Line) (meter : Meter) (runs : List (Nat × Nat)) : Prop where
  oneBeat : ∀ run ∈ runs, OneBeat (line.shortBeat? meter) run.1 run.2
  sounds : ∀ run ∈ runs, ¬line.RestAt run.1 ∧ ¬line.RestAt run.2
  joined : ∀ note other, note < other → OneBeat (line.shortBeat? meter) note other →
    ¬line.RestAt note → ¬line.RestAt other → ∃ run ∈ runs, run.1 ≤ note ∧ other ≤ run.2

variable {line : Line} {meter : Meter} {runs others : List (Nat × Nat)}

theorem cutFromBeats_beamRuns (line : Line) (meter : Meter) :
    CutFromBeats line meter (beamRuns line meter) := by
  constructor
  · intro start stop
    simp only [beamRuns, List.mem_filterMap, trimRun?_eq_some_iff]
    constructor
    · rintro ⟨run, hmem, hlt, hcut⟩
      exact ⟨hlt, run.start, run.stop, exists_run_iff_widest.1 ⟨run, hmem, rfl, rfl⟩, hcut⟩
    · rintro ⟨hlt, first, last, hwidest, hcut⟩
      obtain ⟨run, hmem, rfl, rfl⟩ := exists_run_iff_widest.2 hwidest
      exact ⟨run, hmem, hlt, hcut⟩
  · refine List.Pairwise.filterMap _ (fun run next hlt => ?_) (found_runs line meter).pairwise
    rintro ⟨start, stop⟩ hcut ⟨start', stop'⟩ hcut'
    have := bounds_of_trimRun? hcut
    have := bounds_of_trimRun? hcut'
    dsimp only
    omega

/-- No other runs are cut from the beats. -/
theorem CutFromBeats.eq (h : CutFromBeats line meter runs) (h' : CutFromBeats line meter others) :
    runs = others := by
  have hmem (run : Nat × Nat) : run ∈ runs ↔ run ∈ others :=
    (h.mem_iff ..).trans (h'.mem_iff ..).symm
  have hlt (run : Nat × Nat) (hrun : run ∈ runs) : run.1 < run.2 := ((h.mem_iff ..).1 hrun).1
  have hnodup {list : List (Nat × Nat)} (hlist : ∀ run ∈ list, run.1 < run.2)
      (hincreasing : list.Pairwise fun run next => run.2 < next.1) : list.Nodup := by
    refine List.Pairwise.imp_of_mem (fun hrun _ hafter => ?_) hincreasing
    rintro rfl
    exact absurd (hlist _ hrun) (Nat.lt_asymm hafter)
  have hperm : runs.Perm others :=
    (List.perm_ext_iff_of_nodup (hnodup hlt h.increasing)
      (hnodup (fun run hrun => hlt run ((hmem run).2 hrun)) h'.increasing)).2 hmem
  refine hperm.eq_of_pairwise (fun run next hrun hnext hafter hbefore => ?_) h.increasing
    h'.increasing
  have := hlt run hrun
  have := hlt next ((hmem next).2 hnext)
  omega

theorem CutFromBeats.joinsNotes (h : CutFromBeats line meter (beamRuns line meter)) :
    JoinsNotes line meter (beamRuns line meter) := by
  have hcut (run : Nat × Nat) (hmem : run ∈ beamRuns line meter) := (h.mem_iff run.1 run.2).1 hmem
  refine ⟨fun run hmem => ?_, fun run hmem => ?_, fun note other hlt hbeat hnote hother => ?_⟩
  · obtain ⟨hlt, first, last, hwidest, hcut⟩ := hcut run hmem
    obtain ⟨-, beat, hinside⟩ := hwidest.oneBeat
    exact ⟨Nat.le_of_lt hlt, beat, fun index hle hge =>
      hinside index (Nat.le_trans hcut.first_le hle) (Nat.le_trans hge hcut.le_last)⟩
  · obtain ⟨-, first, last, -, hcut⟩ := hcut run hmem
    exact ⟨hcut.startSounds, hcut.stopSounds⟩
  · have ⟨hordered, beat, hinside⟩ := hbeat
    obtain ⟨run, hrun, hrange⟩ := (found_runs line meter).covers (Nat.zero_le note)
      (hinside note (Nat.le_refl _) hordered)
    have hcontains := (widest_of_mem_runs hrun).contains hbeat hrange ⟨Nat.le_refl _, hordered⟩
    obtain ⟨cut, htrim, hin⟩ := exists_cut hlt hcontains.1 hcontains.2 hnote hother
    exact ⟨cut, List.mem_filterMap.2 ⟨run, hrun, htrim⟩, hin⟩

end Engraving

end Stave
