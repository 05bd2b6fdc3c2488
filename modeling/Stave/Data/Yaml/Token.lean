import Stave.Data.Yaml
import Stave.Data.Yaml.Cursor
import Stave.Text.Numeral

/-!
# Tokens of YAML

Where blocks begin and end is a token too, told from the indentation, and so is every
key and value. Anchors and aliases come as numbers. A tag is a handle and a suffix, the
handle being empty if the tag is written in full.
-/
namespace Stave.Yaml

/-- A part of a YAML text. -/
inductive Token where
  | versionDirective (major minor : Nat)
  /-- What a handle stands for in tags. -/
  | tagDirective (handle stem : String)
  | documentStart
  | documentEnd
  | blockSequenceStart
  | blockMappingStart
  | blockEnd
  | flowSequenceStart
  | flowSequenceEnd
  | flowMappingStart
  | flowMappingEnd
  /-- A dash. -/
  | blockEntry
  /-- A comma. -/
  | flowEntry
  | key
  | value
  | reference (anchor : Nat)
  | anchor (anchor : Nat)
  | tag (handle suffix : String)
  | scalar (style : ScalarStyle) (text : String)
deriving DecidableEq, Inhabited

/-- The name of an anchor or alias after its first character. -/
def readName? (cursor : Cursor) : Option (String × Cursor) :=
  let name := cursor.rest.takeWhile isNameChar
  let after := cursor.advance name.length
  let ends := atWordEnd after.rest ||
    (after.rest.head?.map ['?', ':', ',', ']', '\x7d', '%', '@', '\x60'].contains).getD false
  if name.isEmpty || !ends then none else some (String.ofList name, after)

/-! ## Tags -/

/-- Whether a character may stand in a tag; `full` says whether the tag is written in full. -/
def isTagChar (full : Bool) (c : Char) : Bool :=
  isNameChar c || ";/?:@&=+$.!~*'()%".toList.contains c || (full && [',', '[', ']'].contains c)

/-- The number of bytes of a character in UTF-8, by the first of them. -/
def encodedSize? (byte : Nat) : Option Nat :=
  if byte < 0x80 then some 1
  else if 0xC0 ≤ byte && byte < 0xE0 then some 2
  else if 0xE0 ≤ byte && byte < 0xF0 then some 3
  else if 0xF0 ≤ byte && byte < 0xF8 then some 4
  else none

/-- Read an escaped byte: a percent sign and two hexadecimal digits. -/
def escapedByte? : List Char → Option (Nat × List Char)
  | '%' :: high :: low :: rest => do
    some (16 * (← Text.hexDigit? high) + (← Text.hexDigit? low), rest)
  | _ => none

/-- Drop escaped bytes that go on a character. -/
def dropContinuation? : Nat → List Char → Option (List Char)
  | 0, cs => some cs
  | count + 1, cs => do
    let (byte, rest) ← escapedByte? cs
    if 0x80 ≤ byte && byte < 0xC0 then dropContinuation? count rest else none

/-- Replace the escapes of a tag by characters; one beyond ASCII has no name to match and
is left open. -/
def unescapeTag? (fuel : Nat) (cs : List Char) : Option (List Char) :=
  match fuel, cs with
  | _, [] => some []
  | 0, _ => none
  | fuel + 1, c :: rest =>
    if c ≠ '%' then (unescapeTag? fuel rest).map (c :: ·)
    else do
      let (byte, rest) ← escapedByte? (c :: rest)
      let size ← encodedSize? byte
      let rest ← dropContinuation? (size - 1) rest
      let char := if size = 1 then Char.ofNat byte else '\ufffd'
      (unescapeTag? fuel rest).map (char :: ·)

/-- Read the characters of a tag. -/
def readTagChars? (full : Bool) (cursor : Cursor) : Option (List Char × Cursor) := do
  let chars := cursor.rest.takeWhile (isTagChar full)
  some (← unescapeTag? chars.length chars, cursor.advance chars.length)

/-- Read a handle: an exclamation mark, a name, and perhaps another mark. -/
def readHandle? (cursor : Cursor) : Option (List Char × Cursor) :=
  match cursor.rest with
  | '!' :: rest =>
    let name := rest.takeWhile isNameChar
    let last := if (rest.drop name.length).head? = some '!' then ['!'] else []
    let handle := '!' :: name ++ last
    some (handle, cursor.advance handle.length)
  | _ => none

/-- Whether a handle has a mark at its end apart from the first one. -/
def isWholeHandle (handle : List Char) : Bool :=
  1 < handle.length && handle.getLast? = some '!'

/-- Read a tag: in full between angle brackets, with a handle, or with an exclamation mark
alone in place of a handle. -/
def readTag? (flow : Bool) (cursor : Cursor) : Option (Token × Cursor) := do
  let (token, after) ←
    if cursor.rest.take 2 = ['!', '<'] then do
      let (suffix, after) ← readTagChars? true (cursor.advance 2)
      if suffix.isEmpty || after.rest.head? ≠ some '>' then none
      else some (Token.tag "" (String.ofList suffix), after.advance 1)
    else do
      let (handle, after) ← readHandle? cursor
      let (suffix, after) ← readTagChars? false after
      if isWholeHandle handle then
        if suffix.isEmpty then none
        else some (Token.tag (String.ofList handle) (String.ofList suffix), after)
      else
        let suffix := handle.drop 1 ++ suffix
        if suffix.isEmpty then some (Token.tag "" "!", after)
        else some (Token.tag "!" (String.ofList suffix), after)
  if atWordEnd after.rest || (flow && after.rest.head? = some ',') then some (token, after)
  else none

/-! ## Directives -/

/-- Read a number of at most nine digits. -/
def readVersionNumber? (cursor : Cursor) : Option (Nat × Cursor) :=
  let digits := cursor.rest.takeWhile Char.isDigit
  if digits.isEmpty || 9 < digits.length then none
  else some (Text.digitsValue digits, cursor.advance digits.length)

/-- Read the version a directive asks for. -/
def readVersion? (cursor : Cursor) : Option (Token × Cursor) := do
  let (major, after) ← readVersionNumber? cursor.skipBlanks
  if after.rest.head? ≠ some '.' then none
  else do
    let (minor, after) ← readVersionNumber? (after.advance 1)
    some (.versionDirective major minor, after)

/-- Read the handle of a directive and what it stands for. -/
def readTagDirective? (cursor : Cursor) : Option (Token × Cursor) := do
  let (handle, after) ← readHandle? cursor.skipBlanks
  if (!isWholeHandle handle && handle ≠ ['!']) || !(after.rest.head?.map isBlank).getD false then
    none
  else do
    let (stem, after) ← readTagChars? true after.skipBlanks
    if stem.isEmpty || !atWordEnd after.rest then none
    else some (.tagDirective (String.ofList handle) (String.ofList stem), after)

/-- Read a directive after its percent sign, to the end of its line. -/
def readDirective? (cursor : Cursor) : Option (Token × Cursor) := do
  let name := cursor.rest.takeWhile isNameChar
  let after := cursor.advance name.length
  if name.isEmpty || !atWordEnd after.rest then none
  else do
    let (token, after) ←
      if name = "YAML".toList then readVersion? after
      else if name = "TAG".toList then readTagDirective? after
      else none
    some (token, ← after.finishLine?)

end Stave.Yaml
