import Mathlib.Data.List.Sort
import Stave.Music.Bar

/-!
# Completed bars

Completing a bar is a matter of one instrument at a time: what it leaves under a name
depends on the line under that name alone. A bar is full when its lines stand under exactly
the names of the roster and all of them last as long as the bar; completing makes a bar full
as soon as no line is out of the roster and every line of another length is a rest that was
put in.
-/
namespace Stave

namespace Table

variable {κ α β : Type} [Ord κ]

theorem keys_increasing (table : Table κ α) :
    table.keys.Pairwise fun a b => compare a b = .lt := by
  simpa [keys, List.pairwise_map] using table.increasing

theorem keys_nodup [Std.ReflOrd κ] (table : Table κ α) : table.keys.Nodup := by
  refine table.keys_increasing.imp ?_
  rintro a b hlt rfl
  simp [Std.compare_self] at hlt

/-- Tables in which the same keys have a value list the same keys. -/
theorem keys_eq_of_isSome [Std.TransOrd κ] [DecidableEq κ] {first : Table κ α} {second : Table κ β}
    (h : ∀ key, (first.get? key).isSome ↔ (second.get? key).isSome) :
    first.keys = second.keys := by
  have hperm : first.keys.Perm second.keys :=
    (List.perm_ext_iff_of_nodup first.keys_nodup second.keys_nodup).2 fun key => by
      rw [mem_keys, mem_keys, h]
  refine hperm.eq_of_pairwise ?_ first.keys_increasing second.keys_increasing
  intro a b _ _ hab hba
  exact absurd (Std.TransCmp.lt_trans hab hba) (by simp [Std.compare_self])

omit [Ord κ] in
theorem mem_of_find [DecidableEq κ] {key : κ} {value : α} {entries : List (κ × α)}
    (h : find key entries = some value) : (key, value) ∈ entries := by
  induction entries with
  | nil => cases h
  | cons entry rest ih =>
    by_cases hkey : key = entry.1
    · simp only [find, hkey, if_true, Option.some.injEq] at h
      exact List.mem_cons.2 (.inl (Prod.ext hkey h.symm))
    · simp only [find, hkey, if_false] at h
      exact List.mem_cons_of_mem _ (ih h)

/-- The entries are what look-ups find. -/
theorem mem_entries_iff [Std.ReflOrd κ] [DecidableEq κ] {table : Table κ α} {entry : κ × α} :
    entry ∈ table.entries ↔ table.get? entry.1 = some entry.2 := by
  constructor
  · intro h
    have hkey : entry.1 ∈ table.keys := List.mem_map_of_mem h
    obtain ⟨value, hvalue⟩ := Option.isSome_iff_exists.1 (mem_keys.1 hkey)
    have hinj := List.inj_on_of_nodup_map table.keys_nodup
    rw [hvalue, ← hinj (mem_of_find hvalue) h rfl]
  · exact mem_of_find

/-- Tables with the same look-ups are the same. -/
theorem ext_get? [Std.TransOrd κ] [DecidableEq κ] {first second : Table κ α}
    (h : ∀ key, first.get? key = second.get? key) : first = second := by
  have hperm : first.entries.Perm second.entries :=
    (List.perm_ext_iff_of_nodup first.keys_nodup.of_map second.keys_nodup.of_map).2 fun entry => by
      rw [mem_entries_iff, mem_entries_iff, h]
  have hentries : first.entries = second.entries := by
    refine hperm.eq_of_pairwise ?_ first.increasing second.increasing
    intro a b _ _ hab hba
    exact absurd (Std.TransCmp.lt_trans hab hba) (by simp [Std.compare_self])
  cases first
  cases second
  cases hentries
  rfl

end Table

namespace Roster

theorem mem_toList {roster : Roster} {instrument : Instrument}
    (h : instrument ∈ roster.toList) : (roster.get? instrument.name).isSome := by
  obtain ⟨entry, hentry, rfl⟩ := List.mem_map.1 h
  refine Table.mem_keys.1 (List.mem_map.2 ⟨entry, hentry, ?_⟩)
  exact roster.named entry hentry

end Roster

namespace Bar

/-- A bar with one line for every instrument of the roster and no other, all of them as long
as the bar. -/
structure Full (bar : Bar) (roster : Roster) : Prop where
  names : bar.lines.keys = roster.names
  fits : ∀ name line, bar.line? name = some line → line.totalDuration = bar.meter.barUnits

variable {bar : Bar} {roster : Roster}

/-- A bar is its id, meter and tempo, and what is found under each name. -/
theorem ext_line? {first second : Bar} (hid : first.id = second.id)
    (hmeter : first.meter = second.meter) (htempo : first.tempo = second.tempo)
    (hline : ∀ name, first.line? name = second.line? name) : first = second := by
  have hlines : first.lines = second.lines := Table.ext_get? hline
  cases first
  cases second
  simp_all only

theorem line?_fillInstrument (bar : Bar) (instrument : Instrument) (name : String) :
    (bar.fillInstrument instrument).line? name =
      if name = instrument.name ∧ bar.needsRest name then
        some (.fullRest bar.meter instrument)
      else bar.line? name := by
  unfold fillInstrument
  by_cases hname : name = instrument.name
  · subst hname
    by_cases hrest : bar.needsRest instrument.name <;> simp [hrest]
  · by_cases hrest : bar.needsRest instrument.name <;> simp [hrest, hname]

theorem needsRest_congr {first second : Bar} {name : String} (hmeter : first.meter = second.meter)
    (hline : first.line? name = second.line? name) :
    first.needsRest name = second.needsRest name := by
  simp [needsRest, fits, hmeter, hline]

theorem line?_foldl_fillInstrument (entries : List (String × Instrument))
    (hnamed : ∀ entry ∈ entries, entry.1 = entry.2.name) (hnodup : (entries.map (·.1)).Nodup)
    (bar : Bar) (name : String) :
    ((entries.map (·.2)).foldl fillInstrument bar).line? name =
      match Table.find name entries with
      | some instrument =>
        if bar.needsRest name then some (.fullRest bar.meter instrument) else bar.line? name
      | none => bar.line? name := by
  induction entries generalizing bar with
  | nil => rfl
  | cons entry rest ih =>
    obtain ⟨key, instrument⟩ := entry
    obtain ⟨hkey, hrest⟩ := List.nodup_cons.1 hnodup
    obtain rfl : key = instrument.name := hnamed _ List.mem_cons_self
    have ih := ih (fun entry h => hnamed entry (List.mem_cons_of_mem _ h)) hrest
      (bar.fillInstrument instrument)
    rw [List.map_cons, List.foldl_cons, ih]
    by_cases hname : name = instrument.name
    · subst hname
      have hnone : Table.find instrument.name rest = none := by
        rw [← Option.not_isSome_iff_eq_none, Table.isSome_find]
        exact hkey
      simp [hnone, Table.find, line?_fillInstrument]
    · have hline : (bar.fillInstrument instrument).line? name = bar.line? name := by
        simp [line?_fillInstrument, hname]
      rw [needsRest_congr (meter_fillInstrument bar instrument) hline, hline]
      simp [Table.find, hname]

/-- What stands under a name after completing: a new rest where one is needed, and else
the line as it was. -/
theorem line?_complete (bar : Bar) (roster : Roster) (name : String) :
    (bar.complete roster).line? name =
      match roster.get? name with
      | some instrument =>
        if bar.needsRest name then some (.fullRest bar.meter instrument) else bar.line? name
      | none => bar.line? name :=
  line?_foldl_fillInstrument roster.instruments.entries roster.named
    roster.instruments.keys_nodup bar name

@[simp] theorem meter_complete (bar : Bar) (roster : Roster) :
    (bar.complete roster).meter = bar.meter := by
  unfold complete
  induction roster.toList generalizing bar with
  | nil => rfl
  | cons instrument rest ih => rw [List.foldl_cons, ih, meter_fillInstrument]

@[simp] theorem tempo_fillInstrument (bar : Bar) (instrument : Instrument) :
    (bar.fillInstrument instrument).tempo = bar.tempo := by
  unfold fillInstrument
  split <;> rfl

@[simp] theorem tempo_complete (bar : Bar) (roster : Roster) :
    (bar.complete roster).tempo = bar.tempo := by
  unfold complete
  induction roster.toList generalizing bar with
  | nil => rfl
  | cons instrument rest ih => rw [List.foldl_cons, ih, tempo_fillInstrument]

/-- A bar in which no instrument of the roster needs a rest is left as it is. -/
theorem complete_eq_self (h : ∀ name, (roster.get? name).isSome → bar.needsRest name = false) :
    bar.complete roster = bar := by
  have hnone : ∀ instrument ∈ roster.toList, bar.needsRest instrument.name = false :=
    fun instrument hmem => h _ (Roster.mem_toList hmem)
  unfold complete
  revert hnone
  induction roster.toList with
  | nil => exact fun _ => rfl
  | cons instrument rest ih =>
    intro hnone
    have hfirst : bar.fillInstrument instrument = bar := by
      simp [fillInstrument, hnone instrument List.mem_cons_self]
    rw [List.foldl_cons, hfirst]
    exact ih fun other hmem => hnone other (List.mem_cons_of_mem _ hmem)

/-- After completing no instrument of the roster needs a rest. -/
theorem needsRest_complete {name : String} (h : (roster.get? name).isSome) :
    (bar.complete roster).needsRest name = false := by
  obtain ⟨instrument, hget⟩ := Option.isSome_iff_exists.1 h
  have hline := bar.line?_complete roster name
  simp only [hget] at hline
  by_cases hrest : bar.needsRest name
  · rw [if_pos hrest] at hline
    simp [needsRest, hline, fits, Line.totalDuration_fullRest]
  · rw [if_neg hrest] at hline
    rw [needsRest_congr (meter_complete bar roster) hline]
    simpa using hrest

@[simp] theorem complete_complete (bar : Bar) (roster : Roster) :
    (bar.complete roster).complete roster = bar.complete roster :=
  complete_eq_self fun _ => needsRest_complete

theorem isSome_line?_complete (bar : Bar) (roster : Roster) (name : String) :
    ((bar.complete roster).line? name).isSome ↔
      (bar.line? name).isSome ∨ (roster.get? name).isSome := by
  rw [line?_complete]
  cases hroster : roster.get? name with
  | none => simp
  | some instrument =>
    cases hline : bar.line? name with
    | none => simp [needsRest, hline]
    | some line => by_cases hrest : bar.needsRest name <;> simp [hrest]

/-- A line of a completed bar fits if the one before was a rest put in, or fitted. -/
theorem fits_of_line?_complete {name : String} {line : Line}
    (hroster : (roster.get? name).isSome)
    (hold : ∀ old, bar.line? name = some old → old.filler ∨ bar.fits old)
    (hline : (bar.complete roster).line? name = some line) :
    line.totalDuration = bar.meter.barUnits := by
  obtain ⟨instrument, hget⟩ := Option.isSome_iff_exists.1 hroster
  simp only [line?_complete, hget] at hline
  by_cases hrest : bar.needsRest name
  · simp only [hrest, if_true, Option.some.injEq] at hline
    rw [← hline, Line.totalDuration_fullRest]
  · simp only [hrest, Bool.false_eq_true, if_false] at hline
    have hfits : bar.fits line := by
      rcases hold line hline with hfiller | hfits
      · simpa [needsRest, hline, hfiller] using hrest
      · exact hfits
    simpa [fits] using hfits

/-- Completing makes a bar full if all its lines are of the roster, and those that do not
fit are rests put in. -/
theorem full_complete
    (hroster : ∀ name, (bar.line? name).isSome → (roster.get? name).isSome)
    (hold : ∀ name line, bar.line? name = some line → line.filler ∨ bar.fits line) :
    (bar.complete roster).Full roster where
  names := Table.keys_eq_of_isSome fun name =>
    (isSome_line?_complete bar roster name).trans
      ⟨fun h => h.elim (hroster name) fun h => h, .inr⟩
  fits name line hline := by
    have hsome : (roster.get? name).isSome := by
      rcases (isSome_line?_complete bar roster name).1 (by simp [hline]) with h | h
      · exact hroster name h
      · exact h
    rw [meter_complete]
    exact fits_of_line?_complete hsome (hold name) hline

/-- Dropping the lines of other instruments leaves those of the roster. -/
@[simp] theorem line?_restrictTo (bar : Bar) (roster : Roster) (name : String) :
    (bar.restrictTo roster).line? name =
      if (roster.get? name).isSome then bar.line? name else none := by
  refine (Table.get?_filter ..).trans ?_
  cases hline : bar.lines.get? name <;> simp [line?, hline, Option.filter]

theorem Full.isSome_line? (h : bar.Full roster) {name : String} :
    (bar.line? name).isSome ↔ (roster.get? name).isSome := by
  unfold line? Roster.get?
  rw [← Table.mem_keys, ← Table.mem_keys, h.names]
  rfl

theorem Full.fits_line (h : bar.Full roster) {name : String} {line : Line}
    (hline : bar.line? name = some line) : bar.fits line := by
  simpa [Bar.fits] using h.fits name line hline

end Bar

end Stave
