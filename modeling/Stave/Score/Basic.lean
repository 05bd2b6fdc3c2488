import Stave.Score.BarShelf
import Stave.Shorthand.Declaration

/-!
# Scores

A score is a roster and a shelf of bars. Every bar of a score is kept complete: bars
are filled up with rests when they are inserted, when a line is written and when the
roster changes. A new bar takes meter and tempo from the bar before it.
-/
namespace Stave

open Shorthand (Frame Cursor WrittenLine LineError)

/-- What can go wrong with an edit or a look-up. -/
inductive ScoreError where
  | line (error : LineError)
  | unknownBar (id : BarId)
  | unknownInstrument (name : String)
deriving DecidableEq

namespace ScoreError

/-- The name of an error. -/
def kind : ScoreError → String
  | line error => error.kind
  | unknownBar _ => "unknown_bar"
  | unknownInstrument _ => "unknown_instrument"

/-- The wording of an error. -/
def message : ScoreError → String
  | line error => error.message
  | unknownBar id => "no bar with id " ++ id.text
  | unknownInstrument name => "instrument '" ++ name ++ "' is not registered"

end ScoreError

/-- The meter and tempo of a bar. -/
def Bar.frame (bar : Bar) : Frame := ⟨bar.meter, bar.tempo⟩

/-- All bars of a piece and its instruments. -/
structure Score where
  roster : Roster
  shelf : BarShelf
deriving Inhabited

namespace Score

/-- A score without bars. -/
def empty (roster : Roster) : Score := ⟨roster, .empty⟩

/-- The bar of an id. -/
def bar (score : Score) (id : BarId) : Except ScoreError Bar :=
  match score.shelf.get? id with
  | some bar => .ok bar
  | none => .error (.unknownBar id)

/-- The instrument of a name. -/
def instrument (score : Score) (name : String) : Except ScoreError Instrument :=
  match score.roster.get? name with
  | some instrument => .ok instrument
  | none => .error (.unknownInstrument name)

/-- The line of an instrument in a bar. -/
def line (score : Score) (id : BarId) (name : String) : Except ScoreError Line := do
  match (← score.bar id).line? name with
  | some line => .ok line
  | none => .error (.unknownInstrument name)

/-- Put another roster in place: lines of dropped instruments go, and every bar is
completed. -/
def withRoster (score : Score) (roster : Roster) : Score where
  roster := roster
  shelf := score.shelf.map fun bar => (bar.restrictTo roster).complete roster

/-- The meter and tempo before a place: those of the bar before it, or of the last bar
if the place is beyond the end. -/
def frameBefore (score : Score) : Nat → Frame
  | 0 => ⟨.common, .moderate⟩
  | position + 1 =>
    match (score.shelf.idAt? (min position (score.shelf.size - 1))).bind score.shelf.get? with
    | some bar => bar.frame
    | none => ⟨.common, .moderate⟩

/-- Insert a bar of rests at a place. -/
def insertBar (score : Score) (position : Nat) : Score × BarId :=
  let frame := score.frameBefore position
  let (shelf, id) := score.shelf.insert position frame.meter frame.tempo
  let filled := (Bar.empty id frame.meter frame.tempo).complete score.roster
  ({ score with shelf := shelf.replace id filled }, id)

/-- Take a bar away. -/
def removeBar (score : Score) (id : BarId) : Except ScoreError (Score × Bar) :=
  match score.shelf.remove? id with
  | some (shelf, bar) => .ok ({ score with shelf := shelf }, bar)
  | none => .error (.unknownBar id)

/-- What an instrument carries out of a bar, if there is one. -/
def closingOf (bar : Option Bar) (instrument : String) : Carry :=
  ((bar.bind (·.line? instrument)).map Line.closing).getD .initial

/-- What an instrument carries into a bar. -/
def priorState (score : Score) (id : BarId) (instrument : String) : Carry :=
  closingOf (score.shelf.previous? id) instrument

/-- Where a declaration that starts at a place gets its state, meter and tempo. -/
def cursor (score : Score) (instrument : String) (position : Nat) : Cursor :=
  match score.shelf.idAt? position with
  | some id =>
    let frame := match score.shelf.get? id with
      | some bar => bar.frame
      | none => score.frameBefore position
    ⟨position, score.priorState id instrument, frame⟩
  | none =>
    let before := match position with
      | 0 => none
      | position + 1 => (score.shelf.idAt? position).bind score.shelf.get?
    ⟨position, closingOf before instrument, score.frameBefore position⟩

end Score

end Stave
