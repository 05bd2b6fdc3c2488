import Stave.Data.Yaml.Cursor

/-!
# Gaps inside scalars

Between two words of a scalar over several lines there may be blanks or breaks. Blanks
are kept if no break follows them. A first line feed is a space if it is the only
break, and nothing if others follow, which are kept; any other first break is kept too.
Blanks after a break are dropped.
-/
namespace Stave.Yaml

/-- What stands between two words. -/
inductive Gap where
  /-- Blanks, last one first. -/
  | blanks (found : List Char)
  /-- A first break, none if it is escaped, and the others, last one first. -/
  | breaks (first : Option Char) (others : List Char)
deriving Inhabited

namespace Gap

/-- No gap. -/
def none : Gap := blanks []

/-- Whether there is nothing between the words. -/
def isNone : Gap → Bool
  | blanks found => found.isEmpty
  | breaks .. => false

/-- Whether the gap reaches into another line. -/
def isBroken : Gap → Bool
  | blanks _ => false
  | breaks .. => true

/-- The gap with one more blank. -/
def addBlank (gap : Gap) (c : Char) : Gap :=
  match gap with
  | blanks found => blanks (c :: found)
  | breaks first others => breaks first others

/-- The gap with one more break. -/
def addBreak (gap : Gap) (c : Char) : Gap :=
  match gap with
  | blanks _ => breaks (some c) []
  | breaks first others => breaks first (c :: others)

/-- What the gap is in the text of the scalar, last character first. -/
def text : Gap → List Char
  | blanks found => found
  | breaks (some '\n') [] => [' ']
  | breaks (some '\n') others => others
  | breaks first others => others ++ first.toList

end Gap

end Stave.Yaml
