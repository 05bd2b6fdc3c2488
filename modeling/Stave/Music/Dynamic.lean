/-!
# Dynamics

A dynamic has a coarse level from 0 to 7, and each level a loudness. A crescendo or
diminuendo moves from the level in force to a level given by the mark that ends it,
or by one level if no mark does.
-/
namespace Stave

/-- The highest level. -/
def highestLevel : Nat := 7

/-- A coarse level, from zero to the highest. -/
abbrev Level : Type := Fin (highestLevel + 1)

/-- The level of a number, which is the highest if the number is larger. -/
def Level.clamp (number : Nat) : Level :=
  ⟨min number highestLevel, Nat.lt_succ_of_le (Nat.min_le_right ..)⟩

/-- The level in force before any dynamic is written. -/
def initialLevel : Level := 4

/-- The loudness of every level. -/
def loudnesses : Vector Float32 (highestLevel + 1) :=
  #v[16.0, 33.0, 49.0, 64.0, 80.0, 96.0, 112.0, 127.0]

/-- The loudness of a level. -/
def loudnessOf (level : Level) : Float32 := loudnesses[level]

/-- An absolute dynamic. -/
structure Dynamic where
  name : String
  level : Level
deriving DecidableEq

namespace Dynamic

/-- The names of the absolute dynamics and their levels. -/
def levels : List (String × Level) :=
  [("ppp", 0), ("pp", 1), ("p", 2), ("mp", 3), ("mf", 4), ("f", 5), ("ff", 6), ("fff", 7),
   ("sfz", 6)]

/-- The dynamic of a name. -/
def named? (name : String) : Option Dynamic :=
  (levels.lookup name).map fun level => ⟨name, level⟩

/-- The loudness of a dynamic. -/
def loudness (dynamic : Dynamic) : Float32 := loudnessOf dynamic.level

end Dynamic

/-- The direction of a gradual change of level. -/
inductive RampDirection where
  | crescendo
  | diminuendo
deriving DecidableEq, Inhabited

/-- The level a ramp reaches when nothing says otherwise: one level on, within the range. -/
def RampDirection.target (direction : RampDirection) (level : Level) : Level :=
  match direction with
  | .crescendo => .clamp (level.val + 1)
  | .diminuendo => .clamp (level.val - 1)

/-- The part a slot plays in the ramps of its line. -/
inductive RampRole where
  | start
  | stop
  /-- One ramp ends and the next starts. -/
  | both
deriving DecidableEq, Inhabited

/-- The part played after a further one is added. -/
def RampRole.merge : Option RampRole → RampRole → RampRole
  | none, role => role
  | some known, role => if known = role then known else .both

end Stave
