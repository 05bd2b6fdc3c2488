import Stave.Proofs.Score.LinesWritten

/-!
# Meters in a declaration

A declaration carries the meter from one of its lines to the next, also into bars that are
there already. Where a line has a meter directive of its own and another instrument has a
written line in the bar, a change of meter is refused. A carried meter is not looked at: the
bar takes it, and the other instrument's line keeps its length. So a declaration that is
taken leaves every bar complete exactly if no line without a meter directive carries a meter
of another length into a bar where another instrument of the roster has a written line.
-/
namespace Stave

open Shorthand

namespace Bar

variable {bar : Bar} {roster : Roster} {name : String} {written : WrittenLine}

/-- A bar is complete when every name of the roster has a line that fits. -/
theorem isComplete_iff : bar.isComplete roster = true ↔
    ∀ other, (roster.get? other).isSome → ∃ line, bar.line? other = some line ∧ bar.fits line := by
  simp only [isComplete, List.all_eq_true]
  constructor
  · intro h other hsome
    obtain ⟨instrument, hget⟩ := Option.isSome_iff_exists.1 hsome
    have hentry := Table.mem_of_find hget
    have hall := h instrument (List.mem_map.2 ⟨_, hentry, rfl⟩)
    rw [← roster.named _ hentry] at hall
    cases hline : bar.line? other with
    | none => simp [hline] at hall
    | some line => exact ⟨line, rfl, by simpa [hline] using hall⟩
  · intro h instrument hmem
    obtain ⟨line, hline, hfits⟩ := h _ (Roster.mem_toList hmem)
    simpa [hline] using hfits

/-- No instrument of the roster needs a rest in a complete bar. -/
theorem needsRest_of_isComplete (h : bar.isComplete roster = true)
    (hname : (roster.get? name).isSome) : bar.needsRest name = false := by
  obtain ⟨line, hline, hfits⟩ := isComplete_iff.1 h name hname
  simp [needsRest, hline, hfits]

theorem isComplete_empty_write {id : BarId}
    (hlength : written.line.totalDuration = written.frame.meter.barUnits)
    (hname : (roster.get? name).isSome) :
    ((Bar.empty id written.frame.meter written.frame.tempo).write roster name written).isComplete
      roster = true := by
  have hfull : ((Bar.empty id written.frame.meter written.frame.tempo).write roster name
      written).Full roster := by
    apply full_write _ hname hlength
    · intro other line _ hline
      simp [Bar.empty, line?] at hline
    · intro other hsome
      simp [Bar.empty, line?] at hsome
  refine isComplete_iff.2 fun other hsome => ?_
  obtain ⟨line, hline⟩ := Option.isSome_iff_exists.1 (hfull.isSome_line?.2 hsome)
  exact ⟨line, hline, hfull.fits_line hline⟩

/-- A bar in which a line has been written is complete exactly if the other instruments'
lines are rests put in, or last as long as the new meter says. -/
theorem isComplete_write_iff
    (hlength : written.line.totalDuration = written.frame.meter.barUnits) :
    (bar.write roster name written).isComplete roster = true ↔
      ∀ other, other ≠ name → (roster.get? other).isSome → ∀ line, bar.line? other = some line →
        line.filler ∨ line.totalDuration = written.frame.meter.barUnits := by
  have hunits : (bar.write roster name written).meter.barUnits = written.frame.meter.barUnits :=
    congrArg Meter.barUnits (meter_complete _ _)
  rw [isComplete_iff]
  constructor
  · intro h other hother hsome line hline
    by_cases hfiller : line.filler
    · exact .inl hfiller
    · right
      obtain ⟨instrument, hget⟩ := Option.isSome_iff_exists.1 hsome
      obtain ⟨kept, hkept, hfits⟩ := h other hsome
      have hrest : (bar.unfilled name written).needsRest other = false := by
        simp [needsRest, line?_unfilled, hother, hline, hfiller]
      have hsame : (bar.write roster name written).line? other = some line := by
        rw [write_eq_complete, line?_complete]
        simp [hget, hrest, line?_unfilled, hother, hline]
      obtain rfl : line = kept := Option.some.inj (hsame.symm.trans hkept)
      simpa [fits, hunits] using hfits
  · intro h other hsome
    have hline : ((bar.write roster name written).line? other).isSome :=
      (isSome_line?_complete _ roster other).2 (.inr hsome)
    obtain ⟨line, hline⟩ := Option.isSome_iff_exists.1 hline
    refine ⟨line, hline, ?_⟩
    have hold (old : Line) (hold : (bar.unfilled name written).line? other = some old) :=
      filler_or_fits_unfilled hlength (fun hother => h other hother hsome) hold
    rw [write_eq_complete] at hline
    have hfits := fits_of_line?_complete hsome hold hline
    simp only [fits, hunits, beq_iff_eq]
    exact hfits

end Bar

namespace Shorthand

variable {player : Instrument} {lines : List WrittenLine} {after : Cursor}

theorem totalDuration_of_buildBars {cursor : Cursor} {found : List WrittenLine}
    {bars : List (List Token)}
    (h : buildBars player cursor found bars = .ok (lines, after))
    (hfound : ∀ line ∈ found, line.line.totalDuration = line.frame.meter.barUnits) :
    ∀ line ∈ lines, line.line.totalDuration = line.frame.meter.barUnits := by
  induction bars generalizing cursor found with
  | nil =>
    cases h
    simpa using hfound
  | cons bar rest ih =>
    simp only [buildBars] at h
    split at h
    · cases h
    case h_2 written hwritten =>
      apply ih h
      intro line hline
      rcases List.mem_cons.1 hline with rfl | hline
      · exact totalDuration_of_buildLine hwritten
      · exact hfound line hline

/-- Every line of a declaration lasts as long as its bar. -/
theorem totalDuration_of_readBars {text : String} {cursor : Cursor}
    (h : readBars text player cursor = .ok (lines, after)) :
    ∀ line ∈ lines, line.line.totalDuration = line.frame.meter.barUnits := by
  unfold readBars at h
  obtain ⟨tokens, -, h⟩ := bind_ok_iff.1 h
  exact totalDuration_of_buildBars h (by simp)

end Shorthand

namespace Score

/-- Every bar has a line of the right length for every instrument of the roster. -/
def Complete (score : Score) : Prop :=
  ∀ bar ∈ score.shelf.toList, bar.isComplete score.roster = true

instance (score : Score) : Decidable score.Complete :=
  inferInstanceAs (Decidable (∀ bar ∈ score.shelf.toList, bar.isComplete score.roster = true))

/-- The bar at a place. -/
def barAt? (score : Score) (position : Nat) : Option Bar :=
  (score.shelf.idAt? position).bind score.shelf.get?

/-- Some line has a meter directive, and is to stand in a bar of another meter where another
instrument has a written line. -/
def DirectsMeter (score : Score) (name : String) (position : Nat) (lines : List WrittenLine) :
    Prop :=
  ∃ index line bar, lines[index]? = some line ∧ score.barAt? (position + index) = some bar ∧
    line.timeOffset ≠ none ∧ line.frame.meter ≠ bar.meter ∧ bar.hasOtherContent name = true

/-- Some line has no meter directive, and is to stand in a bar of another length where
another instrument of the roster has a written line. -/
def CarriesMeter (score : Score) (name : String) (position : Nat) (lines : List WrittenLine) :
    Prop :=
  ∃ index line bar, lines[index]? = some line ∧ score.barAt? (position + index) = some bar ∧
    line.timeOffset = none ∧ line.frame.meter.barUnits ≠ bar.meter.barUnits ∧
    ∃ other old, other ≠ name ∧ (score.roster.get? other).isSome ∧
      bar.line? other = some old ∧ old.filler = false

variable {score next : Score} {name text : String} {position : Nat} {lines : List WrittenLine}

theorem isSome_meterConflict? {bar : Bar} {line : WrittenLine} :
    (bar.meterConflict? name line).isSome ↔ line.timeOffset ≠ none ∧
      line.frame.meter ≠ bar.meter ∧ bar.hasOtherContent name = true := by
  unfold Bar.meterConflict?
  cases line.timeOffset <;> simp

theorem isSome_declarationConflict? :
    (score.declarationConflict? name position lines).isSome ↔
      score.DirectsMeter name position lines := by
  induction lines generalizing position with
  | nil => simp [declarationConflict?, DirectsMeter]
  | cons line rest ih =>
    have hfirst : (∃ bar, score.barAt? position = some bar ∧
        (bar.meterConflict? name line).isSome) ↔
        ((score.barAt? position).bind (·.meterConflict? name line)).isSome := by
      cases score.barAt? position <;> simp
    have hrest : score.DirectsMeter name position (line :: rest) ↔
        (∃ bar, score.barAt? position = some bar ∧ (bar.meterConflict? name line).isSome) ∨
          score.DirectsMeter name (position + 1) rest := by
      constructor
      · rintro ⟨index, written, bar, hline, hbar, h⟩
        cases index with
        | zero =>
          obtain rfl : line = written := by simpa using hline
          exact .inl ⟨bar, hbar, isSome_meterConflict?.2 h⟩
        | succ index =>
          refine .inr ⟨index, written, bar, by simpa using hline, ?_, h⟩
          rwa [Nat.add_assoc, Nat.add_comm 1]
      · rintro (⟨bar, hbar, h⟩ | ⟨index, written, bar, hline, hbar, h⟩)
        · exact ⟨0, line, bar, rfl, hbar, isSome_meterConflict?.1 h⟩
        · refine ⟨index + 1, written, bar, by simpa using hline, ?_, h⟩
          rwa [Nat.add_comm index, ← Nat.add_assoc]
    rw [hrest, hfirst, ← ih, declarationConflict?]
    cases hconflict : (score.barAt? position).bind (·.meterConflict? name line) with
    | none =>
      simp only [barAt?] at hconflict
      simp [bind, hconflict]
    | some error =>
      simp only [barAt?] at hconflict
      simp [bind, hconflict]

theorem fault_of_declarationConflict? {error : LineError}
    (h : score.declarationConflict? name position lines = some error) :
    ∃ meter existing offset, error = .build ⟨.meterConflict meter existing, offset⟩ := by
  induction lines generalizing position with
  | nil => cases h
  | cons line rest ih =>
    simp only [declarationConflict?] at h
    split at h
    case h_2 => exact ih h
    case h_1 found hfound =>
      cases h
      obtain ⟨bar, -, hconflict⟩ := Option.bind_eq_some_iff.1 hfound
      unfold Bar.meterConflict? at hconflict
      split at hconflict
      · cases hconflict
      · split at hconflict
        · cases hconflict
          exact ⟨_, _, _, rfl⟩
        · cases hconflict

theorem mem_of_get?_complete {id : BarId} {bar : Bar} (h : score.Complete)
    (hbar : score.shelf.get? id = some bar) : bar.isComplete score.roster = true :=
  h bar (BarShelf.mem_toList_iff.2 ⟨id, hbar⟩)

/-- A written line of a complete bar lasts as long as the bar. -/
theorem totalDuration_of_isComplete {bar : Bar} {roster : Roster} {line : Line}
    (h : bar.isComplete roster = true) (hname : (roster.get? name).isSome)
    (hline : bar.line? name = some line) : line.totalDuration = bar.meter.barUnits := by
  obtain ⟨found, hfound, hfits⟩ := Bar.isComplete_iff.1 h name hname
  obtain rfl : line = found := Option.some.inj (hline.symm.trans hfound)
  simpa [Bar.fits] using hfits

/-- Bars that took the lines of a declaration are complete exactly if none of the lines
carried a meter of another length. -/
theorem complete_linesWritten_iff (hcomplete : score.Complete)
    (hname : (score.roster.get? name).isSome)
    (hlines : ∀ line ∈ lines, line.line.totalDuration = line.frame.meter.barUnits)
    (hmeters : ¬ score.DirectsMeter name position lines)
    (h : LinesWritten score next name position lines) :
    next.Complete ↔ ¬ score.CarriesMeter name position lines := by
  constructor
  · rintro hnext ⟨index, line, bar, hline, hplace, -, hunits, other, old, hother, hsome, hold,
      hfiller⟩
    obtain ⟨id, hid, hbar⟩ := Option.bind_eq_some_iff.1 hplace
    have hwritten := h.written index line id bar hline hid hbar
    have hdone := mem_of_get?_complete hnext hwritten
    rw [h.roster_eq, Bar.isComplete_write_iff (hlines line (List.mem_of_getElem? hline))] at hdone
    rcases hdone other hother hsome old hold with hrest | hlength
    · simp [hfiller] at hrest
    · apply hunits
      rw [← hlength]
      exact totalDuration_of_isComplete (mem_of_get?_complete hcomplete hbar) hsome hold
  · intro hcarries bar hmem
    obtain ⟨id, hbar⟩ := BarShelf.mem_toList_iff.1 hmem
    rw [h.roster_eq]
    cases hold : score.shelf.get? id with
    | none =>
      obtain ⟨line, hline, made, rfl⟩ := h.fresh id bar hbar hold
      exact Bar.isComplete_empty_write (hlines line hline) hname
    | some old =>
      have hdone := mem_of_get?_complete hcomplete hold
      by_cases hplace : ∃ index < lines.length, score.shelf.idAt? (position + index) = some id
      · obtain ⟨index, hindex, hid⟩ := hplace
        have hline := List.getElem?_eq_getElem hindex
        have hwritten := h.written index _ id old hline hid hold
        obtain rfl := Option.some.inj (hbar.symm.trans hwritten)
        have hat : score.barAt? (position + index) = some old := by simp [barAt?, hid, hold]
        refine (Bar.isComplete_write_iff (hlines _ (List.mem_of_getElem? hline))).2 ?_
        intro other hother hsome line hother'
        have hlength := totalDuration_of_isComplete hdone hsome hother'
        by_cases hfiller : line.filler
        · exact .inl hfiller
        · right
          rw [hlength]
          by_contra hunits
          by_cases htime : (lines[index]).timeOffset = none
          · exact hcarries ⟨index, _, old, hline, hat, htime, fun heq => hunits heq.symm, other,
              line, hother, hsome, hother', by simpa using hfiller⟩
          · have hcontent : old.hasOtherContent name = true := by
              by_contra hnone
              exact hfiller (Bar.filler_of_hasOtherContent (by simpa using hnone) hother hother')
            exact hmeters ⟨index, _, old, hline, hat, htime,
              fun heq => hunits (by rw [heq]), hcontent⟩
      · have hkept := h.kept id old hold fun index hindex hid => hplace ⟨index, hindex, hid⟩
        obtain rfl := Option.some.inj (hbar.symm.trans hkept)
        exact hdone

/-- The result of a declaration whose text can be read, in a score of complete bars: a
change of meter by a directive beside written lines is refused, and all else is taken; then
the bars are complete exactly if no line carried a meter of another length. -/
theorem complete_declareBars_iff {player : Instrument} {cursor after : Cursor}
    (hcomplete : score.Complete) (hplayer : score.roster.get? name = some player)
    (hread : readBars text player cursor = .ok (lines, after)) :
    (score.DirectsMeter name cursor.position lines →
      ∃ meter existing offset, score.declareBars name text cursor =
        .error (.line (.build ⟨.meterConflict meter existing, offset⟩))) ∧
    (¬ score.DirectsMeter name cursor.position lines →
      ∃ next ids, score.declareBars name text cursor = .ok (next, after, ids) ∧
        (next.Complete ↔ ¬ score.CarriesMeter name cursor.position lines)) := by
  have hinstrument : score.instrument name = .ok player := by simp [instrument, hplayer]
  constructor
  · intro hmeters
    obtain ⟨error, herror⟩ := Option.isSome_iff_exists.1 (isSome_declarationConflict?.2 hmeters)
    obtain ⟨meter, existing, offset, rfl⟩ := fault_of_declarationConflict? herror
    refine ⟨meter, existing, offset, ?_⟩
    refine bind_error_iff.2 (.inr ⟨player, hinstrument, ?_⟩)
    refine bind_error_iff.2 (.inr ⟨(lines, after), mapError_ok_iff.2 hread, ?_⟩)
    simp only [herror]
  · intro hmeters
    have hnone : score.declarationConflict? name cursor.position lines = none := by
      rw [← Option.not_isSome_iff_eq_none, isSome_declarationConflict?]
      exact hmeters
    obtain ⟨next, ids, hwrite, hwritten⟩ :=
      score.exists_linesWritten name cursor.position lines
    refine ⟨next, ids, ?_, complete_linesWritten_iff hcomplete (by simp [hplayer])
      (totalDuration_of_readBars hread) hmeters hwritten⟩
    refine bind_ok_iff.2 ⟨player, hinstrument, ?_⟩
    refine bind_ok_iff.2 ⟨(lines, after), mapError_ok_iff.2 hread, ?_⟩
    simp only [hnone]
    exact bind_ok_iff.2 ⟨(next, ids), hwrite, rfl⟩

/-- A roster of two instruments, and a score of a bar in common time and a bar of three
quarters, in which the second instrument has a written line. -/
def duet : Score :=
  (empty (.ofList [.named "flute", .named "oboe"])).performAll
    [.insertBar 0, .insertBar 1, .setLine ⟨1⟩ "oboe" "\\time 3/4 d2."]

/-- Two plain bars of common time, declared over the duet, leave a bar that is not complete. -/
theorem not_complete_duet_declared :
    ∃ next after ids, duet.declareBars "flute" "c1 | c1" (duet.cursor "flute" 0) =
      .ok (next, after, ids) ∧ ¬ next.Complete := by
  have hcomplete : duet.Complete := by decide +kernel
  have hplayer : duet.roster.get? "flute" = some (.named "flute") := by decide +kernel
  have hlines : (readBars "c1 | c1" (.named "flute") (duet.cursor "flute" 0)).toOption.map
      (fun result => result.1.map fun line => (line.timeOffset, line.frame.meter)) =
      some [(none, .common), (none, .common)] := by decide +kernel
  have hplace : (duet.barAt? 1).map (fun bar =>
      (bar.meter, (bar.line? "oboe").map Line.filler)) = some (⟨3, 4, by decide⟩, some false) := by
    decide +kernel
  obtain ⟨⟨lines, after⟩, hread, hmap⟩ : ∃ result, readBars "c1 | c1" (.named "flute")
      (duet.cursor "flute" 0) = .ok result ∧
      result.1.map (fun line => (line.timeOffset, line.frame.meter)) =
        [(none, .common), (none, .common)] := by
    cases hread : readBars "c1 | c1" (.named "flute") (duet.cursor "flute" 0) with
    | error error => simp [hread, Except.toOption] at hlines
    | ok result => exact ⟨result, rfl, by simpa [hread, Except.toOption] using hlines⟩
  have hsecond := congrArg (·[1]?) hmap
  simp only [List.getElem?_map, List.getElem?_cons_succ, List.getElem?_cons_zero,
    Option.map_eq_some_iff, Prod.mk.injEq] at hsecond
  obtain ⟨line, hline, htime, hmeter⟩ := hsecond
  have hfrom : (duet.cursor "flute" 0).position = 0 := by decide +kernel
  obtain ⟨bar, hbar, hat⟩ := Option.map_eq_some_iff.1 hplace
  obtain ⟨hthree, hoboe⟩ := Prod.mk.injEq .. ▸ hat
  obtain ⟨old, hold, hfiller⟩ := Option.map_eq_some_iff.1 hoboe
  obtain ⟨-, htaken⟩ := complete_declareBars_iff hcomplete hplayer hread
  have hmeters : ¬ duet.DirectsMeter "flute" (duet.cursor "flute" 0).position lines := by
    rintro ⟨index, written, other, hwritten, -, hdirected, -⟩
    have hmem := List.mem_map_of_mem (f := fun line : WrittenLine =>
      (line.timeOffset, line.frame.meter)) (List.mem_of_getElem? hwritten)
    simp only [hmap, List.mem_cons, List.not_mem_nil, or_false, or_self, Prod.mk.injEq] at hmem
    exact hdirected hmem.1
  obtain ⟨next, ids, hdeclare, hiff⟩ := htaken hmeters
  refine ⟨next, after, ids, hdeclare, fun hnext => hiff.1 hnext ?_⟩
  refine ⟨1, line, bar, hline, by rwa [hfrom], htime, ?_, "oboe", old, by decide,
    by decide +kernel, hold, hfiller⟩
  rw [hmeter, hthree]
  decide

end Score

end Stave
