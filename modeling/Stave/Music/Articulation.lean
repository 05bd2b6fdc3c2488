/-!
# Articulations

Seven marks, each written with one symbol after a dash.
-/
namespace Stave

/-- A mark on how a slot is played. -/
inductive Articulation where
  | staccato
  | tenuto
  | accent
  | marcato
  | staccatissimo
  | stopped
  /-- A line with a dot. -/
  | portato
deriving DecidableEq, Inhabited

namespace Articulation

/-- The mark of a symbol. -/
def ofSymbol? : Char → Option Articulation
  | '.' => some .staccato
  | '-' => some .tenuto
  | '>' => some .accent
  | '^' => some .marcato
  | '!' => some .staccatissimo
  | '+' => some .stopped
  | '_' => some .portato
  | _ => none

/-- The number of a mark, from one. -/
def code : Articulation → Nat
  | staccato => 1
  | tenuto => 2
  | accent => 3
  | marcato => 4
  | staccatissimo => 5
  | stopped => 6
  | portato => 7

/-- The glyphs stacked to draw a mark. -/
def glyphCount : Articulation → Nat
  | portato => 2
  | _ => 1

end Articulation

end Stave
