import Stave.Proofs.Score.Edits

/-!
# Rests that were put in

A bar is filled up with full rests, and such a rest is renewed only when it has the wrong length.
So in every bar the rests that were put in are those of the bar's meter, each for an instrument
that some roster had under its name. A roster that describes an instrument with another clef or
kind of staff leaves its rests as they are: they go on as the roster before had them, while bars
that are inserted later get the new ones.
-/
namespace Stave

open Shorthand

namespace Line

variable {first second : Meter} {player other : Instrument}

/-- A full rest knows no more of the meter than how long it is. -/
theorem fullRest_congr (h : first.barUnits = second.barUnits) (player : Instrument) :
    fullRest first player = fullRest second player := by
  simp only [fullRest, h]

/-- A full rest knows no more of the instrument than clef and kind of staff. -/
theorem fullRest_eq_iff {meter : Meter} :
    fullRest meter other = fullRest meter player ↔
      other.clef = player.clef ∧ other.rhythm = player.rhythm := by
  simp [fullRest, blank]

end Line

namespace Bar

/-- Every rest that was put in is the full rest of the bar's meter, for an instrument that is
described under its name. -/
def RestsFrom (bar : Bar) (described : String → Instrument → Prop) : Prop :=
  ∀ name line, bar.line? name = some line → line.filler = true →
    ∃ player, described name player ∧ line = .fullRest bar.meter player

/-- Every rest that was put in for an instrument of a roster has the clef and the kind of staff
that the roster gives the instrument. -/
def Suits (bar : Bar) (roster : Roster) : Prop :=
  ∀ name line player, bar.line? name = some line → line.filler = true →
    roster.get? name = some player → line.clef = player.clef ∧ line.rhythm = player.rhythm

variable {bar : Bar} {roster next : Roster} {described : String → Instrument → Prop}
  {name : String} {written : WrittenLine}

/-- Completing puts in the rests of the roster, and keeps those that are there and fit. -/
theorem restsFrom_complete
    (hroster : ∀ name player, roster.get? name = some player → described name player)
    (hkept : ∀ name line, bar.line? name = some line → line.filler = true →
      bar.needsRest name = false →
      ∃ player, described name player ∧ line = .fullRest bar.meter player)
    (hnames : ∀ name, (bar.line? name).isSome → (roster.get? name).isSome) :
    (bar.complete roster).RestsFrom described := by
  intro name line hline hfiller
  have hsome : (roster.get? name).isSome :=
    ((isSome_line?_complete bar roster name).1 (by simp [hline])).elim (hnames name) fun h => h
  obtain ⟨player, hplayer⟩ := Option.isSome_iff_exists.1 hsome
  simp only [line?_complete, hplayer] at hline
  rw [meter_complete]
  split at hline
  case isTrue =>
    cases hline
    exact ⟨player, hroster name player hplayer, rfl⟩
  case isFalse hrest => exact hkept name line hline hfiller (by simpa using hrest)

/-- A line that is written is no rest put in, and the rests beside it follow its meter. -/
theorem restsFrom_write (h : bar.RestsFrom described) (hfull : bar.Full roster)
    (hroster : ∀ name player, roster.get? name = some player → described name player)
    (hname : (roster.get? name).isSome) (hwritten : written.line.filler = false) :
    (bar.write roster name written).RestsFrom described := by
  rw [write_eq_complete]
  apply restsFrom_complete hroster
  · intro other line hline hfiller hrest
    rw [line?_unfilled] at hline
    split at hline
    case isTrue =>
      cases hline
      rw [hwritten] at hfiller
      cases hfiller
    case isFalse hother =>
      obtain ⟨player, hplayer, hold⟩ := h other line hline hfiller
      have hunfilled : (bar.unfilled name written).line? other = some line := by
        rw [line?_unfilled, if_neg hother, hline]
      have hfits : line.totalDuration = (bar.unfilled name written).meter.barUnits := by
        simpa [needsRest, hunfilled, hfiller, fits] using hrest
      refine ⟨player, hplayer, hold.trans (Line.fullRest_congr ?_ player)⟩
      rw [← hfits, hold, Line.totalDuration_fullRest]
  · intro other hsome
    rw [line?_unfilled] at hsome
    split at hsome
    case isTrue hother => rwa [hother]
    case isFalse => exact hfull.isSome_line?.1 hsome

/-- In a full bar the rests are those of the roster if they suit it. -/
theorem restsFrom_roster_iff (h : bar.RestsFrom described) (hfull : bar.Full roster) :
    bar.RestsFrom (fun name player => roster.get? name = some player) ↔ bar.Suits roster := by
  constructor
  · intro hfresh name line player hline hfiller hplayer
    obtain ⟨found, hfound, rfl⟩ := hfresh name line hline hfiller
    obtain rfl := Option.some.inj (hplayer.symm.trans hfound)
    exact ⟨rfl, rfl⟩
  · intro hsuits name line hline hfiller
    have hsome := hfull.isSome_line?.1 (Option.isSome_iff_exists.2 ⟨line, hline⟩)
    obtain ⟨player, hplayer⟩ := Option.isSome_iff_exists.1 hsome
    obtain ⟨other, -, rfl⟩ := h name line hline hfiller
    exact ⟨player, hplayer, Line.fullRest_eq_iff.2 (hsuits name _ player hline hfiller hplayer)⟩

/-! ### Another roster -/

@[simp] theorem meter_restrictTo (bar : Bar) (roster : Roster) :
    (bar.restrictTo roster).meter = bar.meter := rfl

/-- Under another roster a full bar keeps the lines of the instruments that stay and gets rests for
those that are new. -/
theorem line?_complete_restrictTo (hfull : bar.Full roster) (next : Roster) (name : String) :
    ((bar.restrictTo next).complete next).line? name =
      (next.get? name).map fun player => (bar.line? name).getD (.fullRest bar.meter player) := by
  rw [line?_complete]
  cases hplayer : next.get? name with
  | none => simp [hplayer]
  | some player =>
    have hkept : (bar.restrictTo next).line? name = bar.line? name := by simp [hplayer]
    cases hline : bar.line? name with
    | none => simp [needsRest, hkept, hline]
    | some line =>
      have hfits : (bar.restrictTo next).fits line = true := hfull.fits_line hline
      simp [needsRest, hkept, hline, hfits]

/-- The rests of the bar are those of the other roster if they suit it. -/
theorem restsFrom_complete_restrictTo_iff (h : bar.RestsFrom described)
    (hfull : bar.Full roster) :
    ((bar.restrictTo next).complete next).RestsFrom (fun name player =>
        next.get? name = some player) ↔ bar.Suits next := by
  have hmeter : ((bar.restrictTo next).complete next).meter = bar.meter := by
    rw [meter_complete, meter_restrictTo]
  constructor
  · intro hfresh name line player hline hfiller hplayer
    have hkept : ((bar.restrictTo next).complete next).line? name = some line := by
      rw [line?_complete_restrictTo hfull, hplayer, hline]
      rfl
    obtain ⟨found, hfound, rfl⟩ := hfresh name line hkept hfiller
    obtain rfl := Option.some.inj (hplayer.symm.trans hfound)
    exact ⟨rfl, rfl⟩
  · intro hsuits name line hline hfiller
    rw [line?_complete_restrictTo hfull] at hline
    obtain ⟨player, hplayer, rfl⟩ := Option.map_eq_some_iff.1 hline
    refine ⟨player, hplayer, ?_⟩
    rw [hmeter]
    cases hold : bar.line? name with
    | none => rfl
    | some line =>
      rw [hold, Option.getD_some] at hfiller
      obtain ⟨other, -, rfl⟩ := h name line hold hfiller
      exact Line.fullRest_eq_iff.2 (hsuits name _ player hold hfiller hplayer)

/-- A bar in which nobody has written comes to the lines of an inserted bar if its rests suit the
roster. -/
theorem lines_complete_restrictTo_eq_iff {id : BarId} {tempo : Tempo}
    (h : bar.RestsFrom described) (hfull : bar.Full roster)
    (hrests : ∀ name line, bar.line? name = some line → line.filler = true) :
    ((bar.restrictTo next).complete next).lines =
        ((empty id bar.meter tempo).complete next).lines ↔ bar.Suits next := by
  have hinserted (name : String) : ((empty id bar.meter tempo).complete next).line? name =
      (next.get? name).map fun player => .fullRest bar.meter player := by
    rw [line?_complete]
    cases next.get? name <;> simp [needsRest, empty, line?]
  constructor
  · intro hsame name line player hline hfiller hplayer
    have heq : ((bar.restrictTo next).complete next).line? name =
        ((empty id bar.meter tempo).complete next).line? name :=
      congrArg (Table.get? · name) hsame
    rw [line?_complete_restrictTo hfull, hinserted, hplayer, hline] at heq
    obtain rfl : line = .fullRest bar.meter player := Option.some.inj heq
    exact ⟨rfl, rfl⟩
  · intro hsuits
    refine Table.ext_get? fun name => ?_
    refine (line?_complete_restrictTo hfull next name).trans (Eq.trans ?_ (hinserted name).symm)
    refine Option.map_congr fun player hplayer => ?_
    cases hold : bar.line? name with
    | none => rfl
    | some line =>
      obtain ⟨other, -, rfl⟩ := h name line hold (hrests name line hold)
      exact Line.fullRest_eq_iff.2
        (hsuits name _ player hold (hrests name _ hold) hplayer)

end Bar

/-- A line that is typed counts as written, even if it is empty. -/
theorem Shorthand.filler_of_readLine {text : String} {player : Instrument} {prior : Carry}
    {frame : Frame} {written : WrittenLine}
    (h : readLine text player prior frame = .ok written) : written.line.filler = false := by
  obtain ⟨tokens, -, hbuilt⟩ := readLine_eq_ok.1 h
  obtain ⟨groups, draft, -, -, finished⟩ := exists_finished_of_buildLine hbuilt
  cases finished with
  | rest => rfl
  | slots => rfl

namespace Score

variable {score next : Score} {described : String → Instrument → Prop} {id : BarId}
  {name text : String}

/-- Every rest that was put in is the full rest of its bar for an instrument that is described
under its name. -/
def RestsFrom (score : Score) (described : String → Instrument → Prop) : Prop :=
  ∀ id bar, score.shelf.get? id = some bar → bar.RestsFrom described

/-- Every rest that was put in is the full rest of its bar for its instrument as the roster has
it. -/
def Fresh (score : Score) : Prop :=
  score.RestsFrom fun name player => score.roster.get? name = some player

/-- The rests of every bar suit a roster. -/
def Suits (score : Score) (roster : Roster) : Prop :=
  ∀ id bar, score.shelf.get? id = some bar → bar.Suits roster

theorem restsFrom_empty (roster : Roster) : (empty roster).RestsFrom described := by
  intro id bar hbar
  simp [empty] at hbar

theorem restsFrom_insertBar (h : score.RestsFrom described)
    (hroster : ∀ name player, score.roster.get? name = some player → described name player)
    (position : Nat) : (score.insertBar position).1.RestsFrom described := by
  intro id bar hbar
  rw [get?_insertBar] at hbar
  split at hbar
  · cases hbar
    apply Bar.restsFrom_complete hroster
    · intro name line hline
      simp [Bar.empty, Bar.line?] at hline
    · intro name hname
      simp [Bar.empty, Bar.line?] at hname
  · exact h id bar hbar

theorem restsFrom_removeBar {left : Score} {bar : Bar} (h : score.RestsFrom described)
    (hremove : score.removeBar id = .ok (left, bar)) : left.RestsFrom described := by
  intro other kept hkept
  rw [(left_of_removeBar hremove).2] at hkept
  split at hkept
  · cases hkept
  · exact h other kept hkept

theorem restsFrom_setLine (h : score.RestsFrom described) (hfull : score.Full)
    (hroster : ∀ name player, next.roster.get? name = some player → described name player)
    (hset : score.setLine id name text = .ok next) : next.RestsFrom described := by
  obtain ⟨player, bar, written, hplayer, hbar, hread, -, rfl⟩ := exists_written_of_setLine hset
  intro other kept hkept
  simp only [BarShelf.get?_replace, Option.map_eq_some_iff] at hkept
  obtain ⟨old, hold, rfl⟩ := hkept
  split
  · exact Bar.restsFrom_write (h id bar hbar) (hfull id bar hbar) hroster (by simp [hplayer])
      (filler_of_readLine hread)
  · exact h other old hold

@[simp] theorem get?_withRoster (score : Score) (roster : Roster) (id : BarId) :
    (score.withRoster roster).shelf.get? id =
      (score.shelf.get? id).map fun bar => (bar.restrictTo roster).complete roster :=
  BarShelf.get?_map ..

theorem restsFrom_withRoster (h : score.RestsFrom described) {roster : Roster}
    (hroster : ∀ name player, roster.get? name = some player → described name player) :
    (score.withRoster roster).RestsFrom described := by
  intro id bar hbar
  rw [get?_withRoster] at hbar
  obtain ⟨old, hold, rfl⟩ := Option.map_eq_some_iff.1 hbar
  apply Bar.restsFrom_complete hroster
  · intro name line hline hfiller _
    rw [Bar.line?_restrictTo] at hline
    split at hline
    · exact h id old hold name line hline hfiller
    · cases hline
  · intro name hname
    by_contra hnone
    simp [hnone] at hname

/-- An edit puts in rests of the roster it leaves, and keeps others as they are. -/
theorem restsFrom_perform (h : score.RestsFrom described) (hfull : score.Full) (edit : Edit)
    (hroster : ∀ name player,
      (score.perform edit).roster.get? name = some player → described name player) :
    (score.perform edit).RestsFrom described := by
  cases edit with
  | insertBar position => exact restsFrom_insertBar h hroster position
  | removeBar id =>
    simp only [perform]
    split
    case h_1 hremove => exact restsFrom_removeBar h hremove
    case h_2 => exact h
  | setLine id name text =>
    simp only [perform] at hroster ⊢
    split at hroster
    case h_1 hset => exact restsFrom_setLine h hfull hroster hset
    case h_2 => exact h
  | withRoster roster => exact restsFrom_withRoster h hroster

/-- Whatever edits are made, the rests that were put in are those of rosters that were in place on
the way. -/
theorem restsFrom_performAll (edits : List Edit) (h : score.RestsFrom described)
    (hfull : score.Full)
    (hroster : ∀ past, past <+: edits → ∀ name player,
      (score.performAll past).roster.get? name = some player → described name player) :
    (score.performAll edits).RestsFrom described := by
  induction edits generalizing score with
  | nil => exact h
  | cons edit rest ih =>
    have hlonger {past : List Edit} (hpast : past <+: rest) : edit :: past <+: edit :: rest :=
      (List.prefix_cons_inj edit).2 hpast
    have hedit := restsFrom_perform h hfull edit (hroster [edit] (hlonger List.nil_prefix))
    exact ih hedit (full_perform hfull edit) fun past hpast =>
      hroster (edit :: past) (hlonger hpast)

/-- Only another roster changes the roster. -/
theorem roster_perform {edit : Edit} (h : ∀ roster, edit ≠ .withRoster roster) (score : Score) :
    (score.perform edit).roster = score.roster := by
  cases edit with
  | insertBar position => rfl
  | removeBar id =>
    simp only [perform]
    split
    case h_1 hremove => exact (left_of_removeBar hremove).1
    case h_2 => rfl
  | setLine id name text =>
    simp only [perform]
    split
    case h_1 hset =>
      obtain ⟨player, bar, written, -, -, -, -, rfl⟩ := exists_written_of_setLine hset
      rfl
    case h_2 => rfl
  | withRoster roster => exact absurd rfl (h roster)

/-- The rests are those of the roster in place exactly if they suit it. -/
theorem fresh_iff (h : score.RestsFrom described) (hfull : score.Full) :
    score.Fresh ↔ score.Suits score.roster :=
  forall_congr' fun id => forall_congr' fun bar => forall_congr' fun hbar =>
    Bar.restsFrom_roster_iff (h id bar hbar) (hfull id bar hbar)

/-- Another roster leaves all rests as it describes them exactly if they suit it. -/
theorem fresh_withRoster_iff (h : score.RestsFrom described) (hfull : score.Full)
    (roster : Roster) : (score.withRoster roster).Fresh ↔ score.Suits roster := by
  constructor
  · intro hfresh id bar hbar
    rw [← Bar.restsFrom_complete_restrictTo_iff (h id bar hbar) (hfull id bar hbar)]
    exact hfresh id _ (by rw [get?_withRoster, hbar]; rfl)
  · intro hsuits id changed hchanged
    rw [get?_withRoster] at hchanged
    obtain ⟨bar, hbar, rfl⟩ := Option.map_eq_some_iff.1 hchanged
    exact (Bar.restsFrom_complete_restrictTo_iff (h id bar hbar) (hfull id bar hbar)).2
      (hsuits id bar hbar)

/-- In every score that edits come to, a rest that was put in is the full rest of its bar for its
instrument as some roster on the way described it. All of them are those of the roster in place
exactly if they have the clef and the kind of staff that it gives their instruments. Every other
edit keeps all rests fresh, and another roster leaves them fresh exactly if they suit it. So a bar
in which nobody has written has the lines of a bar inserted under the new roster exactly if its
rests suit that roster. -/
theorem fresh_perform_iff (roster : Roster) (edits : List Edit) :
    let score := (empty roster).performAll edits
    (score.RestsFrom fun name player => ∃ past, past <+: edits ∧
        ((empty roster).performAll past).roster.get? name = some player) ∧
      (score.Fresh ↔ score.Suits score.roster) ∧
      (∀ edit, (∀ next, edit ≠ .withRoster next) → score.Fresh → (score.perform edit).Fresh) ∧
      (∀ next, (score.withRoster next).Fresh ↔ score.Suits next) ∧
      ∀ next id bar position, score.shelf.get? id = some bar →
        (∀ name line, bar.line? name = some line → line.filler = true) →
        ∃ kept inserted, (score.withRoster next).shelf.get? id = some kept ∧
          ((score.withRoster next).insertBar position).1.shelf.get?
            ((score.withRoster next).insertBar position).2 = some inserted ∧
          (inserted.meter = bar.meter → (kept.lines = inserted.lines ↔ bar.Suits next)) := by
  dsimp only
  have hfull := full_performAll roster edits
  have hrests : ((empty roster).performAll edits).RestsFrom fun name player =>
      ∃ past, past <+: edits ∧ ((empty roster).performAll past).roster.get? name = some player :=
    restsFrom_performAll edits (restsFrom_empty roster) (full_empty roster)
      fun past hpast name player hplayer => ⟨past, hpast, hplayer⟩
  refine ⟨hrests, fresh_iff hrests hfull, ?_, fresh_withRoster_iff hrests hfull, ?_⟩
  · intro edit hedit hfresh
    refine restsFrom_perform ?_ hfull edit fun _ _ hplayer => hplayer
    rw [roster_perform hedit]
    exact hfresh
  · intro next id bar position hbar hfillers
    have hkept := get?_withRoster ((empty roster).performAll edits) next id
    rw [hbar, Option.map_some] at hkept
    have hinserted :=
      get?_insertBar_self (((empty roster).performAll edits).withRoster next) position
    refine ⟨_, _, hkept, hinserted, fun hmeter => ?_⟩
    rw [Bar.meter_complete] at hmeter
    rw [← Bar.lines_complete_restrictTo_eq_iff (hrests id bar hbar) (hfull id bar hbar) hfillers,
      ← hmeter]
    rfl

/-- A cello that is moved to the bass clef keeps its rests in the treble clef. -/
theorem not_fresh_withRoster_cello :
    ¬ (((empty (.ofList [.named "cello"])).performAll [.insertBar 0]).withRoster
      (.ofList [{ Instrument.named "cello" with clef := .bass }])).Fresh := by
  obtain ⟨-, -, -, hiff, -⟩ := fresh_perform_iff (.ofList [.named "cello"]) [.insertBar 0]
  have hrest : (((empty (.ofList [.named "cello"])).performAll [.insertBar 0]).shelf.get? ⟨0⟩).bind
      (fun bar => (bar.line? "cello").map fun line => (line.filler, line.clef)) =
        some (true, .treble) := by decide +kernel
  obtain ⟨bar, hbar, hmap⟩ := Option.bind_eq_some_iff.1 hrest
  obtain ⟨line, hline, heq⟩ := Option.map_eq_some_iff.1 hmap
  obtain ⟨hfiller, hclef⟩ := Prod.mk.inj heq
  rw [hiff]
  intro hsuits
  have hbass := (hsuits ⟨0⟩ bar hbar "cello" line { Instrument.named "cello" with clef := .bass }
    hline hfiller (by decide +kernel)).1
  rw [hclef] at hbass
  cases hbass

end Score

end Stave
