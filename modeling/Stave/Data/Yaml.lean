/-!
# YAML

Values of the YAML format as they are written. Whether a scalar is a number or a truth
value is decided by who asks for it, so a scalar keeps its text, its style and its tag.
An anchored value has the number of its anchor, by which aliases refer to it.
-/
namespace Stave

/-- How a scalar is written. -/
inductive ScalarStyle where
  | plain
  | singleQuoted
  | doubleQuoted
  /-- A block that keeps its line breaks. -/
  | literal
  /-- A block whose lines are joined. -/
  | folded
deriving DecidableEq, Inhabited

/-- A value as it is written. -/
inductive Yaml where
  | scalar (style : ScalarStyle) (tag : Option String) (text : String)
  | list (items : List Yaml)
  | mapping (fields : List (Yaml × Yaml))
  /-- The value of an anchor. -/
  | reference (anchor : Nat)
  /-- A value that aliases may refer to. -/
  | anchored (anchor : Nat) (value : Yaml)
deriving Inhabited

namespace Yaml

/-- A value that says nothing. -/
def nothing : Yaml := scalar .plain none ""

mutual

/-- The anchored parts of a value. -/
def anchors : Yaml → List (Nat × Yaml)
  | scalar .. => []
  | reference _ => []
  | list items => anchorsOfItems items
  | mapping fields => anchorsOfFields fields
  | anchored anchor value => (anchor, value) :: anchors value

/-- The anchored parts of some values. -/
def anchorsOfItems : List Yaml → List (Nat × Yaml)
  | [] => []
  | item :: rest => anchors item ++ anchorsOfItems rest

/-- The anchored parts of some keys and their values. -/
def anchorsOfFields : List (Yaml × Yaml) → List (Nat × Yaml)
  | [] => []
  | (key, value) :: rest => anchors key ++ anchors value ++ anchorsOfFields rest

end

/-- A value without its anchor, or the one an alias stands for. -/
def content (known : List (Nat × Yaml)) : Yaml → Yaml
  | anchored _ value => value
  | reference anchor => (known.lookup anchor).getD nothing
  | value => value

end Yaml

end Stave
