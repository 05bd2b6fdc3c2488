import Stave.Proofs.Score.DeclaredMeters
import Stave.Proofs.WrittenLine.Frames

/-!
# Edits in another order, and edits made twice

Reading a line looks at what the same instrument leaves in the bar before, and at the meter and
tempo of the bar. So in a score of complete bars an edit that leaves the meter and tempo of its
bar as they are does no more than put one line in place: no rest has to be renewed, and no other
instrument can tell. Two such edits by different instruments may be made in either order, in one
bar or in two.

An edit that does bring another meter or tempo reads its text in the old ones of the bar, and when
it is made again, in its own. That gives the same line; the bar is in its meter already, and no
rest is left to renew. So an edit made twice is an edit made once.
-/
namespace Stave

open Shorthand

/-! ### A line put in place -/

namespace BarShelf

/-- Change the bar of an id, if there is one. -/
def modify (shelf : BarShelf) (id : BarId) (change : Bar → Bar) : BarShelf :=
  { shelf with
    bars := shelf.bars.modify id change
    mem_order := fun other => by simp [shelf.mem_order] }

@[simp] theorem get?_modify (shelf : BarShelf) (id other : BarId) (change : Bar → Bar) :
    (shelf.modify id change).get? other =
      (shelf.get? other).map fun bar => if other = id then change bar else bar :=
  Table.get?_modify ..

/-- A shelf is its order, the number of its next bar, and what is found under each id. -/
theorem ext_get? {first second : BarShelf} (horder : first.order = second.order)
    (hnext : first.nextNumber = second.nextNumber)
    (hget : ∀ id, first.get? id = second.get? id) : first = second := by
  have hbars : first.bars = second.bars := Table.ext_get? hget
  cases first
  cases second
  simp_all only

theorem replace_eq_modify {shelf : BarShelf} {id : BarId} {bar : Bar} (change : Bar → Bar)
    (h : shelf.get? id = some bar) : shelf.replace id (change bar) = shelf.modify id change := by
  refine ext_get? rfl rfl fun other => ?_
  rw [get?_replace, get?_modify]
  by_cases hother : other = id
  · simp [hother, h]
  · simp [hother]

/-- A bar may be put in its own place. -/
theorem replace_self {shelf : BarShelf} {id : BarId} {bar : Bar} (h : shelf.get? id = some bar) :
    shelf.replace id bar = shelf := by
  refine ext_get? rfl rfl fun other => ?_
  rw [get?_replace]
  by_cases hother : other = id
  · simp [hother, h]
  · simp [hother]

end BarShelf

namespace Bar

variable {bar : Bar} {roster : Roster} {name : String}

/-- Lines under different names may be put in in either order. -/
theorem withLine_comm {other : String} (h : name ≠ other) (first second : Line) :
    (bar.withLine name first).withLine other second =
      (bar.withLine other second).withLine name first := by
  refine ext_line? rfl rfl rfl fun found => ?_
  simp only [line?_withLine]
  by_cases hfound : found = name
  · simp [hfound, h]
  · simp [hfound]

theorem isComplete_withLine {line : Line} (h : bar.isComplete roster = true)
    (hline : line.totalDuration = bar.meter.barUnits) :
    (bar.withLine name line).isComplete roster = true := by
  refine isComplete_iff.2 fun other hsome => ?_
  by_cases hother : other = name
  · exact ⟨line, by simp [hother], by simpa [fits, withLine] using hline⟩
  · obtain ⟨old, hold, hfits⟩ := isComplete_iff.1 h other hsome
    exact ⟨old, by simp [hother, hold], hfits⟩

/-- Writing a line that keeps meter and tempo in a complete bar does not touch a rest. -/
theorem write_eq_withLine {written : WrittenLine} (h : bar.isComplete roster = true)
    (hframe : written.frame = bar.frame)
    (hlength : written.line.totalDuration = written.frame.meter.barUnits) :
    bar.write roster name written = bar.withLine name written.line := by
  have hunfilled : bar.unfilled name written = bar.withLine name written.line := by
    simp only [unfilled, hframe]
    rfl
  have hcomplete : (bar.withLine name written.line).isComplete roster = true :=
    isComplete_withLine h (by rw [hlength, hframe]; rfl)
  rw [write_eq_complete, hunfilled]
  exact complete_eq_self fun _ hsome => needsRest_of_isComplete hcomplete hsome

@[simp] theorem frame_withLine (bar : Bar) (name : String) (line : Line) :
    (bar.withLine name line).frame = bar.frame := rfl

@[simp] theorem frame_write (bar : Bar) (roster : Roster) (name : String)
    (written : WrittenLine) : (bar.write roster name written).frame = written.frame := by
  rw [write_eq_complete, frame, meter_complete, tempo_complete]
  rfl

end Bar

namespace Score

/-- The meter and tempo of a bar of the score. -/
def frame? (score : Score) (id : BarId) : Option Frame := (score.shelf.get? id).map Bar.frame

/-- The score with one line put in place, and nothing else done. -/
def withLine (score : Score) (id : BarId) (name : String) (line : Line) : Score :=
  { score with shelf := score.shelf.modify id (·.withLine name line) }

variable {score : Score} {id other : BarId} {name rival text : String} {line : Line}

@[simp] theorem frame?_withLine (score : Score) (id other : BarId) (name : String)
    (line : Line) : (score.withLine id name line).frame? other = score.frame? other := by
  simp only [frame?, withLine, BarShelf.get?_modify, Option.map_map]
  refine Option.map_congr fun bar _ => ?_
  by_cases hother : other = id <;> simp [hother]

/-- What an instrument carries into a bar is what it has in the other bars. -/
theorem priorState_congr {first second : Score} (horder : first.shelf.order = second.shelf.order)
    (hline : ∀ other, other ≠ id →
      (first.shelf.get? other).bind (·.line? name) =
        (second.shelf.get? other).bind (·.line? name)) :
    first.priorState id name = second.priorState id name := by
  have hposition : first.shelf.position? id = second.shelf.position? id := by
    simp only [BarShelf.position?, horder]
  have hidAt (place : Nat) : first.shelf.idAt? place = second.shelf.idAt? place := by
    simp only [BarShelf.idAt?, horder]
  simp only [priorState, closingOf, BarShelf.previous?, hposition, hidAt]
  split
  case h_2 => rfl
  case h_1 place hplace =>
    rw [BarShelf.position?_eq_some_iff] at hplace
    cases hprevious : second.shelf.idAt? place with
    | none => rfl
    | some other =>
      -- the bar just before stands at another place, so it is another bar
      have hother : other ≠ id := by
        rintro rfl
        exact absurd (BarShelf.idAt?_inj hprevious hplace) (Nat.ne_of_lt (Nat.lt_succ_self _))
      simp only [Option.bind_some, hline other hother]

theorem priorState_withLine (h : rival ≠ name) (score : Score) (id other : BarId) (line : Line) :
    (score.withLine id name line).priorState other rival = score.priorState other rival := by
  refine priorState_congr rfl fun bar _ => ?_
  simp only [withLine, BarShelf.get?_modify, Option.bind_map]
  refine congrArg _ (funext fun found => ?_)
  by_cases hbar : bar = id <;> simp [hbar, h]

/-- Lines of different instruments may be put in place in either order. -/
theorem withLine_comm (h : name ≠ rival) (first second : Line) :
    (score.withLine id name first).withLine other rival second =
      (score.withLine other rival second).withLine id name first := by
  have hshelf : (score.shelf.modify id (·.withLine name first)).modify other
        (·.withLine rival second) =
      (score.shelf.modify other (·.withLine rival second)).modify id (·.withLine name first) := by
    refine BarShelf.ext_get? rfl rfl fun bar => ?_
    simp only [BarShelf.get?_modify, Option.map_map]
    refine Option.map_congr fun found _ => ?_
    by_cases hid : bar = id
    · subst hid
      by_cases hother : bar = other
      · simp only [Function.comp_apply, hother, if_true, Bar.withLine_comm h]
      · simp only [Function.comp_apply, hother, if_false]
    · simp only [Function.comp_apply, hid, if_false]
  simp only [withLine, hshelf]

theorem complete_withLine (h : score.Complete)
    (hline : ∀ frame, score.frame? id = some frame →
      line.totalDuration = frame.meter.barUnits) :
    (score.withLine id name line).Complete := by
  intro bar hmem
  obtain ⟨other, hbar⟩ := BarShelf.mem_toList_iff.1 hmem
  simp only [withLine, BarShelf.get?_modify, Option.map_eq_some_iff] at hbar
  obtain ⟨old, hold, rfl⟩ := hbar
  have hdone := mem_of_get?_complete h hold
  by_cases hother : other = id
  · subst hother
    simp only [if_true]
    exact Bar.isComplete_withLine hdone (hline old.frame (by simp [frame?, hold]))
  · rwa [if_neg hother]

/-! ### Edits that keep meter and tempo -/

/-- A text is read in its place as a line that leaves meter and tempo as they are. -/
def Reads (score : Score) (id : BarId) (name text : String) (written : WrittenLine) : Prop :=
  ∃ player, score.roster.get? name = some player ∧ score.frame? id = some written.frame ∧
    readLine text player (score.priorState id name) written.frame = .ok written

/-- In a score of complete bars, an edit that keeps meter and tempo puts a line in place and
does nothing else. -/
theorem setLine_iff_reads {next : Score} (hcomplete : score.Complete) :
    score.setLine id name text = .ok next ∧ next.frame? id = score.frame? id ↔
      ∃ written, score.Reads id name text written ∧
        next = score.withLine id name written.line := by
  constructor
  · rintro ⟨hset, hkept⟩
    obtain ⟨player, bar, written, hplayer, hbar, hread, -, rfl⟩ := exists_written_of_setLine hset
    have hframe : written.frame = bar.frame := by
      simpa [frame?, hbar] using hkept
    have hlength := totalDuration_of_readLine hread
    refine ⟨written, ⟨player, hplayer, by simp [frame?, hbar, hframe], ?_⟩, ?_⟩
    · rwa [hframe]
    · rw [Bar.write_eq_withLine (mem_of_get?_complete hcomplete hbar) hframe hlength]
      exact congrArg (Score.mk _)
        (BarShelf.replace_eq_modify (·.withLine name written.line) hbar)
  · rintro ⟨written, ⟨player, hplayer, hframe, hread⟩, rfl⟩
    refine ⟨?_, frame?_withLine ..⟩
    obtain ⟨bar, hbar, hkept⟩ := Option.map_eq_some_iff.1 hframe
    have hlength := totalDuration_of_readLine hread
    rw [setLine_of_written hplayer hbar (by rwa [hkept])
      (Bar.meterConflict?_eq_none (congrArg Frame.meter hkept.symm))]
    rw [Bar.write_eq_withLine (mem_of_get?_complete hcomplete hbar) hkept.symm hlength]
    exact congrArg (Except.ok ∘ Score.mk _)
      (BarShelf.replace_eq_modify (·.withLine name written.line) hbar)

/-- What is read for an instrument does not depend on the lines of another. -/
theorem reads_withLine_iff (h : rival ≠ name) {written : WrittenLine} :
    (score.withLine id name line).Reads other rival text written ↔
      score.Reads other rival text written := by
  simp only [Reads, frame?_withLine, priorState_withLine h]
  rfl

theorem Reads.complete_withLine {written : WrittenLine} (h : score.Reads id name text written)
    (hcomplete : score.Complete) : (score.withLine id name written.line).Complete := by
  obtain ⟨player, -, hframe, hread⟩ := h
  refine Score.complete_withLine hcomplete fun frame hfound => ?_
  obtain rfl := Option.some.inj (hframe.symm.trans hfound)
  exact totalDuration_of_readLine hread

/-- Two edits by different instruments that keep the meter and tempo of their bars may be made in
the other order, and come to the same score. -/
theorem setLine_swap {mid last : Score} {later : String} (hcomplete : score.Complete)
    (hnames : name ≠ rival) (hfirst : score.setLine id name text = .ok mid)
    (hsecond : mid.setLine other rival later = .ok last)
    (hframe : mid.frame? id = score.frame? id) (hlater : last.frame? other = mid.frame? other) :
    ∃ swapped, score.setLine other rival later = .ok swapped ∧
      swapped.setLine id name text = .ok last := by
  obtain ⟨first, hreads, rfl⟩ := (setLine_iff_reads hcomplete).1 ⟨hfirst, hframe⟩
  have hmid := hreads.complete_withLine hcomplete
  obtain ⟨second, hrival, rfl⟩ := (setLine_iff_reads hmid).1 ⟨hsecond, hlater⟩
  rw [reads_withLine_iff hnames.symm] at hrival
  obtain ⟨hset, -⟩ := (setLine_iff_reads hcomplete).2 ⟨second, hrival, rfl⟩
  have hswapped := hrival.complete_withLine hcomplete
  obtain ⟨hagain, -⟩ := (setLine_iff_reads hswapped).2
    ⟨first, (reads_withLine_iff hnames).2 hreads, rfl⟩
  exact ⟨score.withLine other rival second.line, hset, by rw [hagain, withLine_comm hnames]⟩

/-- The flute writes in the first bar of the duet and the oboe in the bar after, or the other way
round. -/
theorem duet_setLine_swapped : ∃ mid last swapped,
    duet.setLine ⟨0⟩ "flute" "c4 d e f" = .ok mid ∧ mid.setLine ⟨1⟩ "oboe" "g2." = .ok last ∧
      duet.setLine ⟨1⟩ "oboe" "g2." = .ok swapped ∧
      swapped.setLine ⟨0⟩ "flute" "c4 d e f" = .ok last := by
  have hcomplete : duet.Complete := by decide +kernel
  have hruns : (duet.setLine ⟨0⟩ "flute" "c4 d e f").toOption.bind (fun mid =>
      (mid.setLine ⟨1⟩ "oboe" "g2.").toOption.map fun last =>
        decide (mid.frame? ⟨0⟩ = duet.frame? ⟨0⟩ ∧ last.frame? ⟨1⟩ = mid.frame? ⟨1⟩)) =
      some true := by decide +kernel
  obtain ⟨mid, hfirst, hrest⟩ := Option.bind_eq_some_iff.1 hruns
  obtain ⟨last, hsecond, hframes⟩ := Option.map_eq_some_iff.1 hrest
  rw [toOption_eq_some_iff] at hfirst hsecond
  obtain ⟨hframe, hlater⟩ := of_decide_eq_true hframes
  obtain ⟨swapped, hset, hagain⟩ :=
    setLine_swap hcomplete (by decide) hfirst hsecond hframe hlater
  exact ⟨mid, last, swapped, hfirst, hsecond, hset, hagain⟩

end Score

/-! ### Edits made twice -/

namespace Bar

variable {bar : Bar} {roster : Roster} {name : String} {written : WrittenLine}

theorem line?_write_self
    (hlength : written.line.totalDuration = written.frame.meter.barUnits) :
    (bar.write roster name written).line? name = some written.line := by
  have hline : (bar.unfilled name written).line? name = some written.line := by
    simp [line?_unfilled]
  have hfits : (bar.unfilled name written).fits written.line = true := by
    simpa [fits, unfilled, withLine] using hlength
  have hrest : (bar.unfilled name written).needsRest name = false := by
    simp [needsRest, hline, hfits]
  rw [write_eq_complete, line?_complete, hrest, hline]
  cases roster.get? name <;> rfl

/-- A line that is in the bar already changes nothing when it is written again. -/
theorem write_write (hlength : written.line.totalDuration = written.frame.meter.barUnits) :
    (bar.write roster name written).write roster name written =
      bar.write roster name written := by
  have hunfilled : (bar.write roster name written).unfilled name written =
      bar.write roster name written := by
    have hframe := bar.frame_write roster name written
    refine ext_line? rfl (congrArg Frame.meter hframe).symm (congrArg Frame.tempo hframe).symm
      fun other => ?_
    rw [line?_unfilled]
    split
    case isTrue hother => rw [hother, line?_write_self hlength]
    case isFalse => rfl
  rw [write_eq_complete, hunfilled]
  exact complete_complete ..

end Bar

namespace Score

variable {score : Score} {id : BarId} {name text : String}

/-- An edit does not change what its instrument carries into the bar. -/
theorem priorState_replace (score : Score) (id : BarId) (name : String) (bar : Bar) :
    { score with shelf := score.shelf.replace id bar }.priorState id name =
      score.priorState id name := by
  refine priorState_congr rfl fun other hother => ?_
  simp [hother]

/-- An edit that has been made can be made again, and then changes nothing, whatever directives
its text has. -/
theorem setLine_again {next : Score} (h : score.setLine id name text = .ok next) :
    next.setLine id name text = .ok next := by
  obtain ⟨player, bar, written, hplayer, hbar, hread, -, hnext⟩ := exists_written_of_setLine h
  have hroster : next.roster = score.roster := by rw [hnext]
  have hkept : next.shelf.get? id = some (bar.write score.roster name written) := by
    simp [hnext, hbar]
  have hframe := bar.frame_write score.roster name written
  have hprior : next.priorState id name = score.priorState id name := by
    rw [hnext, priorState_replace]
  have hreread : readLine text player (next.priorState id name)
      (bar.write score.roster name written).frame = .ok written := by
    rw [hprior, hframe]
    exact readLine_again hread
  rw [setLine_of_written (by rwa [hroster]) hkept hreread
    (Bar.meterConflict?_eq_none (congrArg Frame.meter hframe).symm)]
  rw [hroster, Bar.write_write (totalDuration_of_readLine hread), BarShelf.replace_self hkept,
    ← hroster]

/-- The oboe brings another meter and tempo into the second bar of the duet, and then brings them
again. -/
theorem duet_setLine_again : ∃ next,
    duet.setLine ⟨1⟩ "oboe" "\\time 6/8 \\tempo 4.=60 d4. e4." = .ok next ∧
      next ≠ duet ∧ next.setLine ⟨1⟩ "oboe" "\\time 6/8 \\tempo 4.=60 d4. e4." = .ok next := by
  have hrun : (duet.setLine ⟨1⟩ "oboe" "\\time 6/8 \\tempo 4.=60 d4. e4.").toOption.map
      (fun next => decide (next.frame? ⟨1⟩ = duet.frame? ⟨1⟩)) = some false := by decide +kernel
  obtain ⟨next, hset, hframe⟩ := Option.map_eq_some_iff.1 hrun
  rw [toOption_eq_some_iff] at hset
  refine ⟨next, hset, ?_, setLine_again hset⟩
  rintro rfl
  exact of_decide_eq_false hframe rfl

end Score

end Stave
