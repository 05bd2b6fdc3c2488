/-!
# Ink

The vertical extent that has been drawn at a slot, and the comparisons of single
precision it is made with. `y` grows downwards, so the upper edge is the smaller one.
Of two equal numbers the first is kept, which matters for the sign of zero alone.
-/
namespace Stave.Engraving

/-- The smaller of two numbers; one that is no number gives way. -/
def lesser (x y : Float32) : Float32 := if y < x || x.isNaN then y else x

/-- The larger of two numbers; one that is no number gives way. -/
def greater (x y : Float32) : Float32 := if y > x || x.isNaN then y else x

/-- The one of two numbers that lies further out on a side. -/
def outer (above : Bool) (x y : Float32) : Float32 := if above then lesser x y else greater x y

/-- One with the sign of a number; zeros have signs too. -/
def signOf (x : Float32) : Float32 :=
  if x.isNaN then x else if x.toBits ≥ 0x80000000 then -1.0 else 1.0

/-- The distance between one and the next number. -/
def epsilon : Float32 := Float32.ofBits 0x34000000

/-- The largest finite number. -/
def largest : Float32 := Float32.ofBits 0x7f7fffff

/-- Minus one above, one below: the direction away from the staff. -/
def sideSign (above : Bool) : Float32 := if above then -1.0 else 1.0

/-- The vertical extent of what has been drawn. -/
structure Ink where
  top : Float32
  bottom : Float32
deriving Inhabited

namespace Ink

/-- Extend the ink to a height. -/
def extend (ink : Ink) (y : Float32) : Ink := ⟨lesser ink.top y, greater ink.bottom y⟩

/-- The edge of the ink on a side. -/
def edge (ink : Ink) (above : Bool) : Float32 := if above then ink.top else ink.bottom

end Ink

end Stave.Engraving
