import Stave.Proofs.WrittenLine.Finish
import Stave.Proofs.WrittenLine.Slots
import Stave.Shorthand.Declaration

/-!
# What a built line says of its bar

A line that is built is the finish of a draft that the run of its tokens reaches: a full
rest if it has no slot, and else its slots, which have been checked. Either way it lasts
exactly as long as a bar of its meter, and that meter is the one the bar had unless the line
has a meter directive of its own.
-/
namespace Stave.Shorthand

theorem readTokens_ne_build {text : String} {error : BuildError} :
    readTokens text ≠ .error (.build error) := by
  intro h
  unfold readTokens at h
  rcases bind_error_iff.1 h with h | ⟨expansion, -, h⟩
  · obtain ⟨fault, -, heq⟩ := mapError_error_iff.1 h
    cases heq
  · obtain ⟨fault, -, heq⟩ := mapError_error_iff.1 h
    cases heq

/-- A line that is read is built from the tokens of the text. -/
theorem readLine_eq_ok {text : String} {instrument : Instrument} {prior : Carry} {frame : Frame}
    {written : WrittenLine} :
    readLine text instrument prior frame = .ok written ↔
      ∃ tokens, readTokens text = .ok tokens ∧
        buildLine tokens instrument prior frame = .ok written := by
  simp only [readLine, bind_ok_iff, mapError_ok_iff]

/-- A building error comes from the tokens of the text. -/
theorem readLine_eq_build {text : String} {instrument : Instrument} {prior : Carry}
    {frame : Frame} {error : BuildError} :
    readLine text instrument prior frame = .error (.build error) ↔
      ∃ tokens, readTokens text = .ok tokens ∧
        buildLine tokens instrument prior frame = .error error := by
  simp only [readLine, bind_error_iff, mapError_error_iff, readTokens_ne_build, false_or,
    LineError.build.injEq, exists_eq_right]

variable {instrument : Instrument} {prior : Carry} {frame : Frame} {tokens : List Token}
  {ledger : Ledger} {groups : List TupletGroup} {draft : Draft} {written : WrittenLine}

theorem checkTuplets_eq_ok (h : ∀ group ∈ groups, group.range.Within draft.slots.length) :
    draft.checkTuplets groups = .ok () := by
  unfold Draft.checkTuplets
  split
  case h_1 group hfind =>
    have hwithin := h group (List.mem_of_find?_eq_some hfind)
    have hbad := List.find?_some hfind
    have hstart := hwithin.start_le
    have hstop := hwithin.stop_lt
    simp only [Bool.or_eq_true, decide_eq_true_eq] at hbad
    omega
  case h_2 => rfl

/-- A draft whose chords are closed and whose tuplets lie within its slots is only refused if its
times do not fit or do not fill the bar. -/
theorem Refused.fault {error : BuildError} (h : Refused draft instrument tokens groups error)
    (closed : draft.chord = none)
    (inside : ∀ group ∈ groups, group.range.Within draft.slots.length) :
    error.fault = .overflow ∨ ∃ expected actual, error.fault = .barLength expected actual := by
  cases h with
  | chord opened =>
    rw [closed] at opened
    cases opened
  | tuplets closed nonempty mem outside =>
    have hstart := (inside _ mem).start_le
    have hstop := (inside _ mem).stop_lt
    omega
  | times => exact .inl rfl
  | length => exact .inr ⟨_, _, rfl⟩

/-- A line that is built finishes a draft reached by the run of its tokens. -/
theorem exists_finished_of_buildLine
    (h : buildLine tokens instrument prior frame = .ok written) :
    ∃ groups draft, TupletGroup.scan tokens (Ledger.scan tokens) = .ok groups ∧
      Building instrument (.start instrument prior frame) tokens draft [] ∧
      Finished draft instrument prior (Ledger.scan tokens) groups written := by
  unfold buildLine at h
  obtain ⟨groups, hgroups, h⟩ := bind_ok_iff.1 h
  obtain ⟨draft, hdraft, h⟩ := bind_ok_iff.1 h
  exact ⟨groups, draft, hgroups, Building.start.append hdraft, finished_of_finish h⟩

/-- A finished line lasts as long as its bar. -/
theorem Finished.totalDuration_eq (h : Finished draft instrument prior ledger groups written) :
    written.line.totalDuration = written.frame.meter.barUnits := by
  cases h with
  | rest => exact Line.totalDuration_fullRest draft.frame.meter instrument
  | slots closed nonempty inside fills =>
    rw [Line.totalDuration, Draft.slotLine, map_setLoudness Slot.duration fun _ _ _ => rfl]
    exact fills

/-- A line that is read finishes a draft reached by the run of its tokens. -/
theorem exists_finished_of_readLine {text : String} (htokens : readTokens text = .ok tokens)
    (h : readLine text instrument prior frame = .ok written) :
    ∃ groups draft, TupletGroup.scan tokens (Ledger.scan tokens) = .ok groups ∧
      Building instrument (.start instrument prior frame) tokens draft [] ∧
      Finished draft instrument prior (Ledger.scan tokens) groups written := by
  obtain ⟨same, hsame, hbuild⟩ := readLine_eq_ok.1 h
  rw [htokens] at hsame
  cases hsame
  exact exists_finished_of_buildLine hbuild

/-- Only a meter directive changes the meter, and it leaves its place. -/
theorem Draft.meter_follow {token : Token} (h : (draft.follow token).timeOffset = none) :
    draft.timeOffset = none ∧ (draft.follow token).frame.meter = draft.frame.meter := by
  unfold Draft.follow at h ⊢
  split at h <;> simp_all

theorem Building.meter_eq {start : Draft} {read : List Token} {due : List PostEvent}
    (h : Building instrument start read draft due) (hunset : draft.timeOffset = none) :
    draft.frame.meter = start.frame.meter := by
  induction h with
  | start => rfl
  | @place read token draft draft' post built placed ih =>
    cases Draft.placed_of_place placed with
    | slot => exact ih hunset
    | chordStart => exact ih hunset
    | chordNote => exact ih hunset
    | chordPost => exact ih hunset
    | chordEnd => exact ih hunset
    | free => exact ih hunset
    | control kind =>
      obtain ⟨hbefore, hmeter⟩ := Draft.meter_follow hunset
      rw [hmeter]
      exact ih hbefore
  | attach built last attached ih =>
    have heq := Draft.unmarked_of_attachOne attached
    have hframe := congrArg Draft.frame heq
    have htime := congrArg Draft.timeOffset heq
    simp only [Draft.unmarked] at hframe htime
    rw [hframe]
    exact ih (htime.symm.trans hunset)

theorem totalDuration_of_buildLine
    (h : buildLine tokens instrument prior frame = .ok written) :
    written.line.totalDuration = written.frame.meter.barUnits := by
  obtain ⟨groups, draft, -, -, finished⟩ := exists_finished_of_buildLine h
  exact finished.totalDuration_eq

theorem totalDuration_of_readLine {text : String}
    (h : readLine text instrument prior frame = .ok written) :
    written.line.totalDuration = written.frame.meter.barUnits := by
  obtain ⟨tokens, -, hbuilt⟩ := readLine_eq_ok.1 h
  exact totalDuration_of_buildLine hbuilt

/-- Without a meter directive a line leaves the meter of its bar. -/
theorem meter_of_buildLine (h : buildLine tokens instrument prior frame = .ok written)
    (hunset : written.timeOffset = none) : written.frame.meter = frame.meter := by
  obtain ⟨groups, draft, -, built, finished⟩ := exists_finished_of_buildLine h
  cases finished with
  | rest => exact built.meter_eq hunset
  | slots => exact built.meter_eq hunset

end Stave.Shorthand
