import Stave.Data.Json
import Stave.Decimal.Style

/-!
# Writing JSON

Values are written without blanks. A float is written with its shortest digits and
always has a point or an exponent.
-/
namespace Stave.Json

/-- Floats have the fewest digits and always a point or an exponent. -/
def singleStyle : Decimal.Style := ⟨.toEven, some 13, some 5, true⟩

/-- Floats of double precision are written in full up to sixteen digits. -/
def doubleStyle : Decimal.Style := ⟨.toEven, some 16, some 4, true⟩

/-- A number of single precision; null if it is not finite. -/
def ofSingle (x : Float32) : Json :=
  match singleStyle.writeSingle? x with
  | some text => number text
  | none => null

/-- A number of double precision; null if it is not finite. -/
def ofDouble (x : Float) : Json :=
  match doubleStyle.writeDouble? x with
  | some text => number text
  | none => null

/-- The text of a character inside quotes. -/
def escaped (c : Char) : String :=
  if c = '"' then "\\\""
  else if c = '\\' then "\\\\"
  else if c.toNat < 0x20 then
    let digits := String.ofList (Nat.toDigits 16 c.toNat)
    "\\u" ++ String.ofList (List.replicate (4 - digits.length) '0') ++ digits
  else String.singleton c

/-- Write a string in quotes after a text. -/
def writeString (out : String) (text : String) : String :=
  (text.toList.foldl (fun out c => out ++ escaped c) (out ++ "\"")) ++ "\""

mutual

/-- Write a value after a text; one without a text is written as null. -/
def writeTo (out : String) : Json → String
  | null => out ++ "null"
  | broken => out ++ "null"
  | bool true => out ++ "true"
  | bool false => out ++ "false"
  | number text => out ++ text
  | string text => writeString out text
  | array items => writeItems (out ++ "[") true items ++ "]"
  | object fields => writeFields (out ++ "\x7b") true fields ++ "\x7d"

/-- Write items with commas between them. -/
def writeItems (out : String) (first : Bool) : List Json → String
  | [] => out
  | item :: rest =>
    let out := if first then out else out ++ ","
    writeItems (writeTo out item) false rest

/-- Write fields with commas between them. -/
def writeFields (out : String) (first : Bool) : List (String × Json) → String
  | [] => out
  | (name, value) :: rest =>
    let out := if first then out else out ++ ","
    writeFields (writeTo (writeString out name ++ ":") value) false rest

end

/-- The text of a value. -/
def write (value : Json) : String := writeTo "" value

end Stave.Json
