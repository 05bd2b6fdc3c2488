/-!
# JSON

Values of the JSON format. A number keeps its text, so that whole numbers, the sign of
zero and every digit survive. The fields of an object keep their order and may repeat.
A string may be written with half of a pair of surrogates. It then has no text, but what
it stands in can be read as long as nobody asks for it.
-/
namespace Stave

/-- A JSON value. -/
inductive Json where
  | null
  | bool (value : Bool)
  /-- A number by its text. -/
  | number (text : String)
  | string (text : String)
  | array (items : List Json)
  | object (fields : List (String × Json))
  /-- A string without a text, or an object with such a string as the name of a field. -/
  | broken
deriving Inhabited

namespace Json

/-- A whole number. -/
def ofNat (n : Nat) : Json := number (toString n)

/-- A whole number with its sign. -/
def ofInt (n : Int) : Json := number (toString n)

/-- A value or null. -/
def ofOption {α : Type} (encode : α → Json) (value : Option α) : Json :=
  match value with
  | some value => encode value
  | none => null

/-- A list of values. -/
def ofList {α : Type} (encode : α → Json) (values : List α) : Json := array (values.map encode)

/-- A string, given its text if it has one. -/
def ofText (text : Option String) : Json :=
  match text with
  | some text => string text
  | none => broken

/-- An object, given the names of its fields as far as they have a text. -/
def ofFields (fields : List (Option String × Json)) : Json :=
  match fields.mapM fun (name, value) => name.map (·, value) with
  | some fields => object fields
  | none => broken

/-- The values of a field, in order. -/
def fieldValues (name : String) : Json → List Json
  | object fields => (fields.filter fun field => field.1 = name).map (·.2)
  | _ => []

end Json

end Stave
