import Stave.Data.Json.Reading
import Stave.Data.Yaml.Reading
import Stave.Music.Instrument
import Stave.Text.Numeral

/-!
# Rosters as text

A roster is read from a JSON or YAML record whose one field, `instruments`, lists the
instruments; it may be missing. An instrument has a `name` and may have a
`transposition`, a `rhythm` flag and a `clef`. Other fields are ignored, a known field
given twice is an error, and so is an instrument declared twice.
-/
namespace Stave

/-- What can be wrong with the text of a roster. -/
inductive RosterError where
  /-- The text is no record of instruments. -/
  | unreadable
  | duplicate (name : String)
deriving DecidableEq

namespace RosterError

/-- The wording of an error. -/
def message : RosterError → String
  | unreadable => "the text does not list instruments"
  | duplicate name => "instrument '" ++ name ++ "' is declared twice"

end RosterError

/-- How the values of a file format are understood. Each reading fails on a value of
another kind. -/
structure ValueReading (ν : Type) where
  /-- The fields of a record, given the names it may have. -/
  fields? : List String → ν → Option (List (String × ν))
  items? : ν → Option (List ν)
  text? : ν → Option String
  /-- A whole number between two others. -/
  integer? : Int → Int → ν → Option Int
  truth? : ν → Option Bool
  /-- One name out of a few. -/
  word? : ν → Option String

namespace ValueReading

variable {ν α : Type}

/-- The value of a field; one that is given more than once cannot be read. -/
def fieldOr (fields : List (String × ν)) (name : String) (missing : Option α)
    (read : ν → Option α) : Option α :=
  match fields.filter fun field => field.1 = name with
  | [] => missing
  | [(_, value)] => read value
  | _ => none

/-- Read an instrument. -/
def instrument? (reading : ValueReading ν) (value : ν) : Option Instrument := do
  let fields ← reading.fields? ["name", "transposition", "rhythm", "clef"] value
  let name ← fieldOr fields "name" none reading.text?
  let transposition ← fieldOr fields "transposition" (some 0) (reading.integer? (-128) 127)
  let rhythm ← fieldOr fields "rhythm" (some false) reading.truth?
  let clef ← fieldOr fields "clef" (some .treble) fun value =>
    (reading.word? value).bind Clef.ofKeyword?
  some ⟨name, transposition, rhythm, clef⟩

/-- Read the instruments of a roster in the order they are declared. -/
def instruments? (reading : ValueReading ν) (value : ν) : Option (List Instrument) := do
  let fields ← reading.fields? ["instruments"] value
  fieldOr fields "instruments" (some []) fun list => do
    (← reading.items? list).mapM reading.instrument?

/-- Read a roster. -/
def roster (reading : ValueReading ν) (value : Option ν) : Except RosterError Roster :=
  match value.bind reading.instruments? with
  | none => .error .unreadable
  | some instruments => (Roster.ofDistinct instruments).mapError .duplicate

end ValueReading

/-! ## JSON -/

/-- Read a record: an object, or the values of its fields in order. -/
def Json.record? (names : List String) : Json → Option (List (String × Json))
  | object fields => some fields
  | array values => if values.length ≤ names.length then some (names.zip values) else none
  | _ => none

/-- Read a whole number written without a point or an exponent; minus zero is none. -/
def Json.integer? (least largest : Int) : Json → Option Int
  | number text => if text = "-0" then none else Text.integer? least largest text.toList
  | _ => none

/-- Read a name out of a few: a string, or an object whose one field is null. -/
def Json.word? : Json → Option String
  | string text => some text
  | object [(name, null)] => some name
  | _ => none

/-- How JSON values are understood. -/
def Json.reading : ValueReading Json where
  fields? := Json.record?
  items? | array items => some items | _ => none
  text? | string text => some text | _ => none
  integer? := Json.integer?
  truth? | bool value => some value | _ => none
  word? := Json.word?

/-! ## YAML -/

/-- The value of a digit in a base up to sixteen. -/
def Yaml.digit? (base : Nat) (c : Char) : Option Nat := (Text.hexDigit? c).filter (· < base)

/-- The value of a nonempty run of digits that fills the whole list. -/
def Yaml.digits? (base : Nat) (cs : List Char) : Option Nat :=
  if cs.isEmpty then none
  else (cs.mapM (digit? base)).map (·.foldl (fun value digit => base * value + digit) 0)

/-- The value of an unsigned number, in base sixteen, eight or two after `0x`, `0o` or
`0b`; a further digit after a leading zero makes it a text. -/
def Yaml.natural? : List Char → Option Nat
  | '0' :: 'x' :: rest => digits? 16 rest
  | '0' :: 'o' :: rest => digits? 8 rest
  | '0' :: 'b' :: rest => digits? 2 rest
  | '0' :: _ :: _ => none
  | cs => digits? 10 cs

/-- The text of a scalar that may be more than a string: a plain one, or a literal block
tagged as what is asked for. -/
def Yaml.bareText? (tag : String) : Yaml → Option String
  | scalar .plain _ text => some text
  | scalar .literal (some given) text => if given = tag then some text else none
  | _ => none

/-- Read a whole number with an optional sign. -/
def Yaml.integer? (least largest : Int) (value : Yaml) : Option Int := do
  let text ← bareText? "tag:yaml.org,2002:int" value
  let number ← (match text.toList with
    | '-' :: rest => (natural? rest).map fun n => -(n : Int)
    | '+' :: rest => (natural? rest).map Int.ofNat
    | cs => (natural? cs).map Int.ofNat)
  if least ≤ number ∧ number ≤ largest then some number else none

/-- Read a truth value in one of its three spellings. -/
def Yaml.truth? (value : Yaml) : Option Bool := do
  let text ← bareText? "tag:yaml.org,2002:bool" value
  if ["true", "True", "TRUE"].contains text then some true
  else if ["false", "False", "FALSE"].contains text then some false
  else none

/-- Whether a value is null: it says nothing or says so. -/
def Yaml.isNull (value : Yaml) : Bool :=
  ((bareText? "tag:yaml.org,2002:null" value).map
    ["", "~", "null", "Null", "NULL"].contains).getD false

/-- The text of a scalar of any style. -/
def Yaml.text? : Yaml → Option String
  | scalar _ _ text => some text
  | _ => none

/-- Read a name out of a few: a scalar, or null with the name for a tag. -/
def Yaml.word? (value : Yaml) : Option String :=
  match value with
  | scalar _ (some tag) text =>
    match tag.toList with
    | '!' :: c :: name => if value.isNull then some (String.ofList (c :: name)) else none
    | _ => some text
  | value => value.text?

/-- How YAML values are understood, given what aliases stand for; a value left out is an
empty list or record. -/
def Yaml.reading (known : List (Nat × Yaml)) : ValueReading Yaml where
  fields? _ value :=
    match value.content known with
    | mapping fields => fields.mapM fun (key, value) => (key.content known).text?.map (·, value)
    | scalar .plain _ "" => some []
    | _ => none
  items? value :=
    match value.content known with
    | list items => some items
    | scalar .plain _ "" => some []
    | _ => none
  text? value := (value.content known).text?
  integer? least largest value := Yaml.integer? least largest (value.content known)
  truth? value := (value.content known).truth?
  word? value := (value.content known).word?

namespace Roster

/-- Read a roster from JSON. -/
def ofJson (text : String) : Except RosterError Roster := Json.reading.roster (Json.read? text)

/-- Read a roster from YAML. -/
def ofYaml (text : String) : Except RosterError Roster :=
  match Yaml.read? text with
  | none => .error .unreadable
  | some (value, known) => (Yaml.reading known).roster (some value)

end Roster

end Stave
