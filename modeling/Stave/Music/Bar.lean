import Stave.Music.Line
import Stave.Music.Tempo

/-!
# Bars

A bar has a meter, a tempo and one line per instrument, found by the instrument's
name. A bar is complete when every instrument of the roster has a line that lasts as
long as the meter says; completing a bar puts full rests where lines are missing and
renews those rests that have the wrong length.
-/
namespace Stave

/-- The lasting name of a bar, whatever its place in the score. -/
structure BarId where
  number : Nat
deriving DecidableEq, Inhabited

namespace BarId

/-- The name as it appears in messages. -/
def text (id : BarId) : String := "bar#" ++ toString id.number

instance : Ord BarId := ⟨compareOn BarId.number⟩

instance : Std.TransOrd BarId := inferInstanceAs (Std.TransCmp (compareOn BarId.number))

instance : Std.LawfulEqOrd BarId where
  compare_self := Std.compare_self
  eq_of_compare {a b} h := by
    have h : compare a.number b.number = .eq := h
    have h : a.number = b.number := Std.LawfulEqCmp.eq_of_compare h
    cases a; cases b; simp_all

end BarId

/-- One bar of the score. -/
structure Bar where
  id : BarId
  meter : Meter
  tempo : Tempo
  lines : Table String Line
deriving Inhabited

namespace Bar

/-- A bar in which no instrument has a line. -/
def empty (id : BarId) (meter : Meter) (tempo : Tempo) : Bar := ⟨id, meter, tempo, .empty⟩

/-- The line of an instrument. -/
def line? (bar : Bar) (instrument : String) : Option Line := bar.lines.get? instrument

/-- Whether an instrument other than the named one has a line that was written. -/
def hasOtherContent (bar : Bar) (instrument : String) : Bool :=
  bar.lines.entries.any fun (name, line) => name != instrument && !line.filler

/-- Whether a line lasts as long as the bar. -/
def fits (bar : Bar) (line : Line) : Bool := line.totalDuration == bar.meter.barUnits

/-- Put a line in, over any line of the same instrument. -/
def withLine (bar : Bar) (instrument : String) (line : Line) : Bar :=
  { bar with lines := bar.lines.insert instrument line }

/-- Drop the lines of instruments that are not in the roster. -/
def restrictTo (bar : Bar) (roster : Roster) : Bar :=
  { bar with lines := bar.lines.filter fun name _ => (roster.get? name).isSome }

/-- Whether an instrument has no line, or a rest of the wrong length. -/
def needsRest (bar : Bar) (instrument : String) : Bool :=
  match bar.line? instrument with
  | none => true
  | some line => line.filler && !bar.fits line

/-- Give one instrument a full rest if it needs one. -/
def fillInstrument (bar : Bar) (instrument : Instrument) : Bar :=
  if bar.needsRest instrument.name then
    bar.withLine instrument.name (.fullRest bar.meter instrument)
  else bar

/-- Give every instrument of the roster that needs one a full rest. -/
def complete (bar : Bar) (roster : Roster) : Bar :=
  roster.toList.foldl fillInstrument bar

/-- Whether every instrument of the roster has a line as long as the bar. -/
def isComplete (bar : Bar) (roster : Roster) : Bool :=
  roster.toList.all fun instrument =>
    match bar.line? instrument.name with
    | none => false
    | some line => bar.fits line

@[simp] theorem line?_withLine (bar : Bar) (instrument name : String) (line : Line) :
    (bar.withLine instrument line).line? name =
      if name = instrument then some line else bar.line? name :=
  Table.get?_insert ..

@[simp] theorem meter_fillInstrument (bar : Bar) (instrument : Instrument) :
    (bar.fillInstrument instrument).meter = bar.meter := by
  unfold fillInstrument
  split <;> rfl

end Bar

end Stave
