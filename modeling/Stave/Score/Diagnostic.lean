import Stave.Music.Bar
import Stave.Score.LinkWarning
import Stave.Shorthand.Declaration

/-!
# Diagnostics

A mark points at a byte of a typed line. An error mark means that the bar kept what
it had, a warning mark that the bar is drawn in spite of a link nothing meets.
-/
namespace Stave

/-- How serious a mark is. -/
inductive Severity where
  | error
  | warning
  | info
deriving DecidableEq, Inhabited

/-- A marked stretch of a typed line. -/
structure Mark where
  bar : Option BarId
  instrument : Option String
  /-- The byte of the typed line the stretch begins at. -/
  offset : Nat
  /-- The bytes of the stretch. -/
  length : Nat
  severity : Severity
  kind : String
  message : String
deriving DecidableEq

namespace Mark

/-- A mark one byte long, of no bar or instrument. -/
def of (offset : Nat) (severity : Severity) (kind message : String) : Mark :=
  ⟨none, none, offset, 1, severity, kind, message⟩

/-- The mark with another length. -/
def withLength (mark : Mark) (length : Nat) : Mark := { mark with length := length }

/-- The mark in a bar of an instrument. -/
def inBar (mark : Mark) (bar : BarId) (instrument : String) : Mark :=
  { mark with bar := some bar, instrument := some instrument }

/-- The mark for an instrument, its bar unknown. -/
def forInstrument (mark : Mark) (instrument : String) : Mark :=
  { mark with instrument := some instrument }

/-- The mark of a warning about a link. -/
def ofWarning (bar : BarId) (instrument : String) (warning : LinkWarning) : Mark :=
  (of warning.offset .warning warning.kind warning.message).inBar bar instrument

/-- The mark of a typed line that could not be read. -/
def ofError (bar : BarId) (instrument : String) (error : Shorthand.LineError) : Mark :=
  (of error.offset .error error.kind error.message).inBar bar instrument

end Mark

/-- The marks of one edit or one bar. -/
structure Diagnostics where
  marks : List Mark
deriving DecidableEq

namespace Diagnostics

/-- No marks. -/
def empty : Diagnostics := ⟨[]⟩

instance : Inhabited Diagnostics := ⟨empty⟩

/-- Add a mark after the others. -/
def add (diagnostics : Diagnostics) (mark : Mark) : Diagnostics := ⟨diagnostics.marks ++ [mark]⟩

/-- Whether a mark is an error. -/
def hasErrors (diagnostics : Diagnostics) : Bool :=
  diagnostics.marks.any fun mark => mark.severity = .error

/-- The warnings among the marks. -/
def warnings (diagnostics : Diagnostics) : List Mark :=
  diagnostics.marks.filter fun mark => mark.severity = .warning

/-- Whether there are no marks. -/
def isEmpty (diagnostics : Diagnostics) : Bool := diagnostics.marks.isEmpty

end Diagnostics

end Stave
