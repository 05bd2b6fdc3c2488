import Stave.Decimal.Style
import Stave.Engraving.Ink

/-!
# Curves

A curve goes from one point to another with two control points, at a third and at two
thirds of its width and equally far off its chord. In the middle it is three quarters
as far from the chord as they are, so a height of `h` asks for `4 h / 3`.
-/
namespace Stave.Engraving

/-- A curve drawn for a slur or a tie. -/
structure Curve where
  /-- The slot it begins at, none for the edge of the bar. -/
  start : Option Nat
  /-- The slot it ends at, none for the edge of the bar. -/
  stop : Option Nat
  above : Bool
  x0 : Float32
  y0 : Float32
  controlX1 : Float32
  controlY1 : Float32
  controlX2 : Float32
  controlY2 : Float32
  x1 : Float32
  y1 : Float32
deriving Inhabited

namespace Curve

/-- A point. -/
structure Point where
  x : Float32
  y : Float32
deriving Inhabited

/-- How far off the chord the control points of a curve of a given height are. -/
def controlOffset (height : Float32) : Float32 := height * 4.0 / 3.0

/-- The curve between two points that rises to a height on one side. -/
def arc (start stop : Option Nat) (left right : Point) (height : Float32) (above : Bool) :
    Curve :=
  let offset := sideSign above * controlOffset height
  let width := right.x - left.x
  { start := start
    stop := stop
    above := above
    x0 := left.x
    y0 := left.y
    controlX1 := left.x + width / 3.0
    controlY1 := left.y + (right.y - left.y) / 3.0 + offset
    controlX2 := left.x + width * 2.0 / 3.0
    controlY2 := left.y + (right.y - left.y) * 2.0 / 3.0 + offset
    x1 := right.x
    y1 := right.y }

/-- How far the curve is from its chord at a fraction of its width. -/
def bulge (curve : Curve) (t : Float32) : Float32 :=
  let offset := (curve.controlY1 - (curve.y0 + (curve.y1 - curve.y0) / 3.0)).abs
  3.0 * offset * t * (1.0 - t)

/-- Numbers in paths have the fewest digits, no exponent, and a point only if needed. -/
def pathStyle : Decimal.Style := ⟨.upward, none, none, false⟩

/-- A number in a path. -/
def pathNumber (x : Float32) : String :=
  match pathStyle.writeSingle? x with
  | some text => text
  | none => if x.isNaN then "NaN" else if x < 0.0 then "-inf" else "inf"

/-- The curve as path data: a move and a cubic curve. -/
def path (curve : Curve) : String :=
  " ".intercalate
    ["M", pathNumber curve.x0, pathNumber curve.y0, "C",
     pathNumber curve.controlX1, pathNumber curve.controlY1,
     pathNumber curve.controlX2, pathNumber curve.controlY2,
     pathNumber curve.x1, pathNumber curve.y1]

end Curve

end Stave.Engraving
