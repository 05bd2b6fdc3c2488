import Stave.Score.Basic

/-!
# Editing a score

A typed line replaces the line of one instrument in one bar, a declaration the lines
of one instrument in several bars. Either the whole edit is made or the score stays as
it was. A change of meter is refused where another instrument has a written line in
the old one.
-/
namespace Stave

open Shorthand

namespace Bar

/-- The bar after a line has been written in it: it takes the line's meter and tempo,
and the other instruments' rests follow. -/
def write (bar : Bar) (roster : Roster) (instrument : String) (written : WrittenLine) : Bar :=
  (({ bar with meter := written.frame.meter, tempo := written.frame.tempo }).withLine
    instrument written.line).complete roster

/-- The error of a line that sets another meter than the one in which another
instrument of the bar has a written line. -/
def meterConflict? (bar : Bar) (instrument : String) (written : WrittenLine) :
    Option LineError :=
  match written.timeOffset with
  | none => none
  | some offset =>
    if written.frame.meter ≠ bar.meter ∧ bar.hasOtherContent instrument then
      some (.build ⟨.meterConflict written.frame.meter bar.meter, offset⟩)
    else none

end Bar

namespace Score

/-- Write the line of an instrument in a bar. -/
def setLine (score : Score) (id : BarId) (name : String) (text : String) :
    Except ScoreError Score := do
  let player ← score.instrument name
  let bar ← score.bar id
  let written ← (readLine text player (score.priorState id name) bar.frame).mapError .line
  match bar.meterConflict? name written with
  | some error => .error (.line error)
  | none =>
    .ok { score with shelf := score.shelf.replace id (bar.write score.roster name written) }

/-- The first conflict of lines that are to stand from a place on with the meters of
the bars there. -/
def declarationConflict? (score : Score) (name : String) (position : Nat) :
    List WrittenLine → Option LineError
  | [] => none
  | written :: rest =>
    let conflict := do
      let bar ← (score.shelf.idAt? position).bind score.shelf.get?
      bar.meterConflict? name written
    match conflict with
    | some error => some error
    | none => score.declarationConflict? name (position + 1) rest

/-- The bar at a place, or a new one there in the meter and tempo of a line. -/
def barFor (score : Score) (position : Nat) (written : WrittenLine) : Score × BarId :=
  match score.shelf.idAt? position with
  | some id => (score, id)
  | none =>
    let (shelf, id) := score.shelf.insert position written.frame.meter written.frame.tempo
    ({ score with shelf := shelf }, id)

/-- Write lines of an instrument into the bars from a place on; bars that are missing
are put at the end. -/
def writeLines (score : Score) (name : String) (position : Nat) :
    List WrittenLine → Except ScoreError (Score × List BarId)
  | [] => .ok (score, [])
  | written :: rest => do
    let (score, id) := score.barFor position written
    let bar ← score.bar id
    let shelf := score.shelf.replace id (bar.write score.roster name written)
    let (score, ids) ← Score.writeLines { score with shelf := shelf } name (position + 1) rest
    .ok (score, id :: ids)

/-- Write the bars of a declaration from a cursor on: the score, the cursor after the
last bar, and the bars written. -/
def declareBars (score : Score) (name : String) (text : String) (cursor : Cursor) :
    Except ScoreError (Score × Cursor × List BarId) := do
  let player ← score.instrument name
  let (lines, next) ← (readBars text player cursor).mapError .line
  match score.declarationConflict? name cursor.position lines with
  | some error => .error (.line error)
  | none =>
    let (score, ids) ← score.writeLines name cursor.position lines
    .ok (score, next, ids)

end Score

end Stave
