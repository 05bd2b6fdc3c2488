import Stave.Data.Json
import Stave.Text.Numeral

/-!
# Reading JSON

Reading is strict: no comments, no trailing commas, no control characters in strings,
and nothing after the value. A surrogate on its own breaks its string and no more.
-/
namespace Stave.Json

/-- Whether a character may stand between the parts of a value. -/
def isBlank (c : Char) : Bool := c = ' ' || c = '\t' || c = '\n' || c = '\r'

/-- Drop the blanks in front. -/
def skip (cs : List Char) : List Char := cs.dropWhile isBlank

/-- Read four hexadecimal digits. -/
def hex4? : List Char → Option (Nat × List Char)
  | a :: b :: c :: d :: rest => do
    let a ← Text.hexDigit? a
    let b ← Text.hexDigit? b
    let c ← Text.hexDigit? c
    let d ← Text.hexDigit? d
    some (((a * 16 + b) * 16 + c) * 16 + d, rest)
  | _ => none

/-- The character of two surrogates. -/
def joinSurrogates (high low : Nat) : Char :=
  Char.ofNat (0x10000 + (high - 0xD800) * 0x400 + (low - 0xDC00))

/-- Read the character of a unicode escape, two of them for a pair of surrogates; a
surrogate on its own is no character. -/
def unicodeEscape? (cs : List Char) : Option (Option Char × List Char) := do
  let (unit, rest) ← hex4? cs
  if 0xD800 ≤ unit ∧ unit < 0xDC00 then
    match rest with
    | '\\' :: 'u' :: after =>
      match hex4? after with
      | some (low, after) =>
        if 0xDC00 ≤ low ∧ low < 0xE000 then some (some (joinSurrogates unit low), after)
        else some (none, rest)
      | none => none
    | _ => some (none, rest)
  else if 0xDC00 ≤ unit ∧ unit < 0xE000 then some (none, rest)
  else some (some (Char.ofNat unit), rest)

/-- Read the character after a backslash. -/
def escape? : List Char → Option (Option Char × List Char)
  | '"' :: rest => some (some '"', rest)
  | '\\' :: rest => some (some '\\', rest)
  | '/' :: rest => some (some '/', rest)
  | 'b' :: rest => some (some '\x08', rest)
  | 'f' :: rest => some (some '\x0c', rest)
  | 'n' :: rest => some (some '\n', rest)
  | 'r' :: rest => some (some '\r', rest)
  | 't' :: rest => some (some '\t', rest)
  | 'u' :: rest => unicodeEscape? rest
  | _ => none

/-- Read a string after its opening quote: its text, if it has one. `found` is the text so
far, last character first; `fuel` bounds the number of characters. -/
def readString (fuel : Nat) (found : Option (List Char)) (cs : List Char) :
    Option (Option String × List Char) :=
  match fuel, cs with
  | 0, _ => none
  | _, [] => none
  | fuel + 1, c :: rest =>
    if c = '"' then some (found.map fun text => String.ofList text.reverse, rest)
    else if c = '\\' then
      match escape? rest with
      | some (some escaped, rest) => readString fuel (found.map (escaped :: ·)) rest
      | some (none, rest) => readString fuel none rest
      | none => none
    else if c.toNat < 0x20 then none
    else readString fuel (found.map (c :: ·)) rest

/-- Cut off a run of digits, of which there must be one. -/
def digitRun? (cs : List Char) : Option (List Char × List Char) :=
  let digits := cs.takeWhile Char.isDigit
  if digits.isEmpty then none else some (digits, cs.dropWhile Char.isDigit)

/-- Cut off the whole part of a number: zero, or digits that do not begin with zero. -/
def wholePart? : List Char → Option (List Char × List Char)
  | '0' :: rest => some (['0'], rest)
  | cs => digitRun? cs

/-- Cut off a point and digits, if there is a point. -/
def fractionPart? : List Char → Option (List Char × List Char)
  | '.' :: rest => (digitRun? rest).map fun (digits, rest) => ('.' :: digits, rest)
  | cs => some ([], cs)

/-- Cut off an exponent, if there is one. -/
def exponentPart? : List Char → Option (List Char × List Char)
  | c :: rest =>
    if c = 'e' || c = 'E' then
      let (sign, rest) := rest.splitAt (if rest.head? = some '+' || rest.head? = some '-' then 1 else 0)
      (digitRun? rest).map fun (digits, rest) => (c :: sign ++ digits, rest)
    else some ([], c :: rest)
  | [] => some ([], [])

/-- Read a number. -/
def readNumber (cs : List Char) : Option (Json × List Char) := do
  let (sign, rest) := cs.splitAt (if cs.head? = some '-' then 1 else 0)
  let (whole, rest) ← wholePart? rest
  let (fraction, rest) ← fractionPart? rest
  let (exponent, rest) ← exponentPart? rest
  some (number (String.ofList (sign ++ whole ++ fraction ++ exponent)), rest)

/-- Read a word that stands for a value. -/
def readWord (word : String) (value : Json) (cs : List Char) : Option (Json × List Char) :=
  if word.toList.isPrefixOf cs then some (value, cs.drop word.toList.length) else none

mutual

/-- Read a value; `fuel` bounds the number of characters. -/
def readValue (fuel : Nat) (cs : List Char) : Option (Json × List Char) :=
  match fuel, skip cs with
  | 0, _ => none
  | _, [] => none
  | fuel + 1, c :: rest =>
    if c = '"' then (readString fuel (some []) rest).map fun (text, rest) => (ofText text, rest)
    else if c = '[' then
      match skip rest with
      | ']' :: rest => some (array [], rest)
      | rest => readItems fuel [] rest
    else if c = '\x7b' then
      match skip rest with
      | '\x7d' :: rest => some (object [], rest)
      | rest => readFields fuel [] rest
    else if c = 'n' then readWord "null" null (c :: rest)
    else if c = 't' then readWord "true" (bool true) (c :: rest)
    else if c = 'f' then readWord "false" (bool false) (c :: rest)
    else readNumber (c :: rest)

/-- Read the items of an array, of which there is at least one more. -/
def readItems (fuel : Nat) (found : List Json) (cs : List Char) : Option (Json × List Char) :=
  match fuel with
  | 0 => none
  | fuel + 1 =>
    match readValue fuel cs with
    | none => none
    | some (item, rest) =>
      match skip rest with
      | ',' :: rest => readItems fuel (item :: found) rest
      | ']' :: rest => some (array (item :: found).reverse, rest)
      | _ => none

/-- Read the fields of an object, of which there is at least one more. -/
def readFields (fuel : Nat) (found : List (Option String × Json)) (cs : List Char) :
    Option (Json × List Char) :=
  match fuel, skip cs with
  | fuel + 1, '"' :: rest =>
    match readString fuel (some []) rest with
    | none => none
    | some (name, rest) =>
      match skip rest with
      | ':' :: rest =>
        match readValue fuel rest with
        | none => none
        | some (value, rest) =>
          match skip rest with
          | ',' :: rest => readFields fuel ((name, value) :: found) rest
          | '\x7d' :: rest => some (ofFields ((name, value) :: found).reverse, rest)
          | _ => none
      | _ => none
  | _, _ => none

end

/-- Read a text that is one value and nothing else. -/
def read? (text : String) : Option Json := do
  let cs := text.toList
  let (value, rest) ← readValue (cs.length + 1) cs
  if (skip rest).isEmpty then some value else none

end Stave.Json
