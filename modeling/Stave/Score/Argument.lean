import Stave.Text.Blank

/-!
# Arguments of edits

Checks on what an editor is given before it touches a score.
-/
namespace Stave

/-- What can be wrong with an argument. -/
inductive ArgumentError where
  /-- A place is more than one past the last bar. -/
  | positionOutOfBounds (position count : Nat)
  | namelessInstrument
deriving DecidableEq

namespace ArgumentError

/-- The wording of an error. -/
def message : ArgumentError → String
  | positionOutOfBounds position count =>
    "Bar position " ++ toString position ++ " out of bounds (max: " ++ toString count ++ ")"
  | namelessInstrument => "Instrument name must not be empty"

end ArgumentError

/-- Check a place to insert a bar among `count` bars. -/
def checkPosition (position count : Nat) : Except ArgumentError Unit :=
  if position > count then .error (.positionOutOfBounds position count) else .ok ()

/-- Check the name of an instrument, in which a character that is not blank must be. -/
def checkName (name : String) : Except ArgumentError Unit :=
  if name.toList.all Text.isBlank then .error .namelessInstrument else .ok ()

end Stave
