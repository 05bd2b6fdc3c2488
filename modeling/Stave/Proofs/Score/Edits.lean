import Stave.Proofs.Score.Completion
import Stave.Proofs.WrittenLine.Built
import Stave.Score.Edit

/-!
# Edited scores are full

A score is edited by inserting and removing bars, typing lines, and changing the roster. An
edit that fails leaves the score as it was. Each edit keeps every bar full: a line that is
taken lasts as long as the bar it is written in, and where it brings another meter the lines
it stands beside are rests, which are renewed.
-/
namespace Stave

open Shorthand

namespace Bar

variable {bar : Bar} {roster : Roster} {name : String} {written : WrittenLine}

/-- Without other content every line of another instrument is a rest put in. -/
theorem filler_of_hasOtherContent {other : String} {line : Line}
    (h : bar.hasOtherContent name = false) (hother : other ≠ name)
    (hline : bar.line? other = some line) : line.filler := by
  have hall := List.any_eq_false.1 h _ (Table.mem_of_find hline)
  simpa [hother] using hall

/-- A line without conflict keeps the meter, or stands beside rests only. -/
theorem of_meterConflict? (h : bar.meterConflict? name written = none)
    (htime : written.timeOffset ≠ none) :
    written.frame.meter = bar.meter ∨ bar.hasOtherContent name = false := by
  unfold meterConflict? at h
  split at h
  case h_1 hnone => exact absurd hnone htime
  case h_2 =>
    by_cases hmeter : written.frame.meter = bar.meter
    · exact .inl hmeter
    · right
      simpa [hmeter] using h

/-- A line that keeps the meter meets no conflict. -/
theorem meterConflict?_eq_none (h : written.frame.meter = bar.meter) :
    bar.meterConflict? name written = none := by
  unfold meterConflict?
  split
  · rfl
  · simp [h]

/-- The bar with a line written in it, before rests are put in. -/
def unfilled (bar : Bar) (name : String) (written : WrittenLine) : Bar :=
  { bar with meter := written.frame.meter, tempo := written.frame.tempo }.withLine name
    written.line

theorem write_eq_complete (bar : Bar) (roster : Roster) (name : String) (written : WrittenLine) :
    bar.write roster name written = (bar.unfilled name written).complete roster := rfl

theorem line?_unfilled (bar : Bar) (name : String) (written : WrittenLine) (other : String) :
    (bar.unfilled name written).line? other =
      if other = name then some written.line else bar.line? other := by
  rw [unfilled, line?_withLine]
  rfl

/-- A line of the bar is a rest put in or fits, if the line written does and the others do. -/
theorem filler_or_fits_unfilled {other : String} {line : Line}
    (hlength : written.line.totalDuration = written.frame.meter.barUnits)
    (hother : other ≠ name → ∀ line, bar.line? other = some line →
      line.filler ∨ line.totalDuration = written.frame.meter.barUnits)
    (hline : (bar.unfilled name written).line? other = some line) :
    line.filler ∨ (bar.unfilled name written).fits line := by
  rw [line?_unfilled] at hline
  split at hline
  case isTrue =>
    cases hline
    exact .inr (by simpa [fits, unfilled, withLine] using hlength)
  case isFalse hname =>
    rcases hother hname line hline with hfiller | hfits
    · exact .inl hfiller
    · exact .inr (by simpa [fits, unfilled, withLine] using hfits)

/-- A bar in which a line is written is full if the lines of the other instruments are
rests put in, or last as long as the new meter says. -/
theorem full_write
    (hroster : ∀ other, (bar.line? other).isSome → (roster.get? other).isSome)
    (hname : (roster.get? name).isSome)
    (hlength : written.line.totalDuration = written.frame.meter.barUnits)
    (hothers : ∀ other line, other ≠ name → bar.line? other = some line →
      line.filler ∨ line.totalDuration = written.frame.meter.barUnits) :
    (bar.write roster name written).Full roster := by
  rw [write_eq_complete]
  apply full_complete
  · intro other hsome
    rw [line?_unfilled] at hsome
    split at hsome
    case isTrue hother => rwa [hother]
    case isFalse => exact hroster other hsome
  · intro other line hline
    exact filler_or_fits_unfilled hlength (fun hother line => hothers other line hother) hline

end Bar

/-- A change of a score. -/
inductive Edit where
  | insertBar (position : Nat)
  | removeBar (id : BarId)
  | setLine (id : BarId) (name text : String)
  | withRoster (roster : Roster)

namespace Score

/-- The score after an edit; one that fails changes nothing. -/
def perform (score : Score) : Edit → Score
  | .insertBar position => (score.insertBar position).1
  | .removeBar id =>
    match score.removeBar id with
    | .ok (left, _) => left
    | .error _ => score
  | .setLine id name text =>
    match score.setLine id name text with
    | .ok next => next
    | .error _ => score
  | .withRoster roster => score.withRoster roster

/-- The score after edits from left to right. -/
def performAll (score : Score) (edits : List Edit) : Score := edits.foldl perform score

/-- Every bar of the score is full. -/
def Full (score : Score) : Prop :=
  ∀ id bar, score.shelf.get? id = some bar → bar.Full score.roster

variable {score next : Score} {id : BarId} {name text : String}

theorem instrument_eq_ok {player : Instrument} (h : score.instrument name = .ok player) :
    score.roster.get? name = some player := by
  unfold instrument at h
  split at h
  · cases h
    assumption
  · cases h

theorem bar_eq_ok {bar : Bar} (h : score.bar id = .ok bar) : score.shelf.get? id = some bar := by
  unfold Score.bar at h
  split at h
  · cases h
    assumption
  · cases h

/-- What a line that is set comes from. -/
theorem exists_written_of_setLine (h : score.setLine id name text = .ok next) :
    ∃ player bar written, score.roster.get? name = some player ∧
      score.shelf.get? id = some bar ∧
      readLine text player (score.priorState id name) bar.frame = .ok written ∧
      bar.meterConflict? name written = none ∧
      next =
        { score with shelf := score.shelf.replace id (bar.write score.roster name written) } := by
  unfold setLine at h
  obtain ⟨player, hplayer, h⟩ := bind_ok_iff.1 h
  obtain ⟨bar, hbar, h⟩ := bind_ok_iff.1 h
  obtain ⟨written, hread, h⟩ := bind_ok_iff.1 h
  split at h
  · cases h
  case h_2 hconflict =>
    cases h
    exact ⟨player, bar, written, instrument_eq_ok hplayer, bar_eq_ok hbar,
      mapError_ok_iff.1 hread, hconflict, rfl⟩

/-- A line that is read without conflict is set. -/
theorem setLine_of_written {player : Instrument} {bar : Bar} {written : WrittenLine}
    (hplayer : score.roster.get? name = some player) (hbar : score.shelf.get? id = some bar)
    (hread : readLine text player (score.priorState id name) bar.frame = .ok written)
    (hconflict : bar.meterConflict? name written = none) :
    score.setLine id name text =
      .ok { score with
        shelf := score.shelf.replace id (bar.write score.roster name written) } := by
  refine bind_ok_iff.2 ⟨player, by simp [instrument, hplayer], ?_⟩
  refine bind_ok_iff.2 ⟨bar, by simp [Score.bar, hbar], ?_⟩
  refine bind_ok_iff.2 ⟨written, mapError_ok_iff.2 hread, ?_⟩
  simp only [hconflict]

theorem full_empty (roster : Roster) : (empty roster).Full := by
  intro id bar h
  simp [empty] at h

/-- The bar that is inserted is filled up, and the others are as they were. -/
theorem get?_insertBar (score : Score) (position : Nat) (other : BarId) :
    (score.insertBar position).1.shelf.get? other =
      if other = score.shelf.nextId then
        some ((Bar.empty score.shelf.nextId (score.frameBefore position).meter
          (score.frameBefore position).tempo).complete score.roster)
      else score.shelf.get? other := by
  simp only [insertBar, BarShelf.get?_replace, BarShelf.get?_insert]
  by_cases hother : other = score.shelf.nextId
  · simp [hother, BarShelf.insert]
  · simp [hother, BarShelf.insert]

theorem get?_insertBar_self (score : Score) (position : Nat) :
    (score.insertBar position).1.shelf.get? (score.insertBar position).2 =
      some ((Bar.empty score.shelf.nextId (score.frameBefore position).meter
        (score.frameBefore position).tempo).complete score.roster) :=
  (get?_insertBar ..).trans (if_pos rfl)

theorem full_insertBar (h : score.Full) (position : Nat) : (score.insertBar position).1.Full := by
  intro id bar hbar
  rw [get?_insertBar] at hbar
  split at hbar
  · cases hbar
    apply Bar.full_complete
    · intro name hname
      simp [Bar.empty, Bar.line?] at hname
    · intro name line hline
      simp [Bar.empty, Bar.line?] at hline
  · exact h id bar hbar

/-- A bar that is taken away leaves the other bars and the roster as they are. -/
theorem left_of_removeBar {left : Score} {bar : Bar}
    (hremove : score.removeBar id = .ok (left, bar)) :
    left.roster = score.roster ∧
      ∀ other, left.shelf.get? other = if other = id then none else score.shelf.get? other := by
  unfold removeBar at hremove
  split at hremove
  case h_1 shelf old hshelf =>
    cases hremove
    exact ⟨rfl, BarShelf.get?_of_remove? hshelf⟩
  case h_2 => cases hremove

theorem full_removeBar {left : Score} {bar : Bar} (h : score.Full)
    (hremove : score.removeBar id = .ok (left, bar)) : left.Full := by
  obtain ⟨hroster, hbars⟩ := left_of_removeBar hremove
  intro other kept hkept
  rw [hbars] at hkept
  split at hkept
  · cases hkept
  · rw [hroster]
    exact h other kept hkept

theorem full_setLine (h : score.Full) (hset : score.setLine id name text = .ok next) :
    next.Full := by
  obtain ⟨player, bar, written, hplayer, hbar, hread, hconflict, rfl⟩ :=
    exists_written_of_setLine hset
  obtain ⟨tokens, -, hbuilt⟩ := readLine_eq_ok.1 hread
  have hfull := h id bar hbar
  have hothers : ∀ other line, other ≠ name → bar.line? other = some line →
      line.filler ∨ line.totalDuration = written.frame.meter.barUnits := by
    intro other line hother hline
    have hmeter : written.frame.meter = bar.meter ∨ bar.hasOtherContent name = false := by
      by_cases htime : written.timeOffset = none
      · exact .inl (meter_of_buildLine hbuilt htime)
      · exact Bar.of_meterConflict? hconflict htime
    rcases hmeter with hmeter | hrests
    · right
      rw [hmeter]
      exact hfull.fits other line hline
    · exact .inl (Bar.filler_of_hasOtherContent hrests hother hline)
  intro other kept hkept
  simp only [BarShelf.get?_replace, Option.map_eq_some_iff] at hkept
  obtain ⟨old, hold, rfl⟩ := hkept
  split
  · exact Bar.full_write (fun other hsome => hfull.isSome_line?.1 hsome) (by simp [hplayer])
      (totalDuration_of_buildLine hbuilt) hothers
  · exact h other old hold

theorem full_withRoster (h : score.Full) (roster : Roster) : (score.withRoster roster).Full := by
  intro id bar hbar
  simp only [withRoster, BarShelf.get?_map, Option.map_eq_some_iff] at hbar
  obtain ⟨old, hold, rfl⟩ := hbar
  have hfull := h id old hold
  apply Bar.full_complete
  · intro name hname
    by_contra hroster
    simp [hroster] at hname
  · intro name line hline
    rw [Bar.line?_restrictTo] at hline
    split at hline
    · exact .inr (hfull.fits_line hline)
    · cases hline

/-- No edit makes a bar of a full score less than full. -/
theorem full_perform (h : score.Full) (edit : Edit) : (score.perform edit).Full := by
  cases edit with
  | insertBar position => exact full_insertBar h position
  | removeBar id =>
    simp only [perform]
    split
    case h_1 hremove => exact full_removeBar h hremove
    case h_2 => exact h
  | setLine id name text =>
    simp only [perform]
    split
    case h_1 hset => exact full_setLine h hset
    case h_2 => exact h
  | withRoster roster => exact full_withRoster h roster

/-- Whatever edits are made, and whether they succeed or fail, every bar of the score has
exactly one line for every instrument of the roster, and all of them fill the bar. -/
theorem full_performAll (roster : Roster) (edits : List Edit) :
    ((empty roster).performAll edits).Full := by
  suffices hrun : ∀ score : Score, score.Full → (score.performAll edits).Full from
    hrun _ (full_empty roster)
  induction edits with
  | nil => exact fun score h => h
  | cons edit rest ih => exact fun score h => ih _ (full_perform h edit)

end Score

end Stave
