import Stave.Engraving.Layout
import Stave.Score.Basic
import Stave.Score.Diagnostic

/-!
# Views of a score

A bar is laid out within a list of visible bars, which need not be neighbours in the
score. The visible bar to its left settles its naturals and the ties into it; a link
that finds no partner in the visible neighbours is drawn open and warned about.
-/
namespace Stave

open Engraving

/-- One bar of one instrument as it is shown. -/
structure BarView where
  bar : BarId
  instrument : String
  layout : Layout
  diagnostics : Diagnostics
deriving Inhabited

namespace Score

/-- The line of an instrument in a bar that may be missing. -/
def lineIn? (score : Score) (instrument : String) (id : Option BarId) : Option Line := do
  let bar ← score.shelf.get? (← id)
  bar.line? instrument

/-- The bars shown left and right of a bar; of a bar shown twice the first place counts. -/
def neighbours (visible : List BarId) (id : BarId) : Option BarId × Option BarId :=
  match visible.idxOf? id with
  | none => (none, none)
  | some 0 => (none, visible[1]?)
  | some (index + 1) => (visible[index]?, visible[index + 2]?)

/-- Lay out one bar of one instrument among the visible bars. -/
def view (score : Score) (id : BarId) (instrument : String) (visible : List BarId)
    (config : Config) : Except ScoreError BarView := do
  let bar ← score.bar id
  let line ← score.line id instrument
  let (left, right) := neighbours visible id
  let previous := score.lineIn? instrument left
  let next := score.lineIn? instrument right
  let context : Context := ⟨previous.map Line.finalAlterations, Line.tiedIn previous line⟩
  .ok
    { bar := id
      instrument := instrument
      layout := .of config line bar.meter context
      diagnostics := ⟨(Line.linkWarnings previous line next).map (Mark.ofWarning id instrument)⟩ }

end Score

end Stave
