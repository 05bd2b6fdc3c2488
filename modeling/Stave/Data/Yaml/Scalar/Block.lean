import Stave.Data.Yaml.Cursor

/-!
# Block scalars

A block scalar begins after its header with the next line. Its indentation is given by
the header or found from its first line that is not empty. In a folded one a line feed
between two lines that do not begin with a blank is a space, or nothing if empty lines
follow. The header also says what becomes of the breaks at the end.
-/
namespace Stave.Yaml

/-- What becomes of the breaks at the end of a block. -/
inductive Chomping where
  /-- None is kept. -/
  | strip
  /-- The first is kept. -/
  | clip
  /-- All are kept. -/
  | keep
deriving DecidableEq, Inhabited

/-- The chomping a sign asks for. -/
def Chomping.ofSign? : Char → Option Chomping
  | '+' => some .keep
  | '-' => some .strip
  | _ => none

/-- The header of a block. -/
structure BlockHeader where
  chomping : Chomping
  /-- By how much the block is indented further, zero if it does not say. -/
  further : Nat
  /-- The number of characters of the header. -/
  size : Nat

/-- Read the header of a block: a sign and a digit other than zero in any order, either of
which may be left out. -/
def BlockHeader.read? (cs : List Char) : Option BlockHeader :=
  let digit? (c : Char) : Option Nat :=
    if c.isDigit then some (c.toNat - '0'.toNat) else none
  let first := cs.head?
  let second := (cs.drop 1).head?
  let header : BlockHeader :=
    match first.bind Chomping.ofSign?, first.bind digit? with
    | some chomping, _ =>
      match second.bind digit? with
      | some further => ⟨chomping, further, 2⟩
      | none => ⟨chomping, 0, 1⟩
    | none, some further =>
      match second.bind Chomping.ofSign? with
      | some chomping => ⟨chomping, further, 2⟩
      | none => ⟨.clip, further, 1⟩
    | none, none => ⟨.clip, 0, 0⟩
  if (cs.take header.size).contains '0' then none else some header

/-- The empty lines before a line of a block. -/
structure BlockGap where
  /-- The indentation of the block. -/
  indent : Nat
  /-- The breaks of the empty lines, last one first. -/
  breaks : List Char
  cursor : Cursor

/-- Go over the indentation of a line and over empty lines before it. `indent` is the
indentation of the block, zero if it is not known yet; it is then the deepest column
that was reached, `deepest` so far, but no less than `least`. -/
def readBlockGap (least indent deepest : Nat) (breaks : List Char) (place : Place) :
    List Char → Option BlockGap
  | [] => some ⟨if indent = 0 then max least (max deepest place.column) else indent, breaks,
      ⟨place, []⟩⟩
  | c :: rest =>
    let isShort := indent = 0 || place.column < indent
    if c = ' ' && isShort then readBlockGap least indent deepest breaks place.next rest
    else
      let deepest := max deepest place.column
      if c = '\t' && isShort then none
      else if isBreak c then readBlockGap least indent deepest (c :: breaks) place.nextLine rest
      else
        some ⟨if indent = 0 then max least deepest else indent, breaks, ⟨place, c :: rest⟩⟩

/-- What has been read of a block. -/
structure BlockText where
  /-- The text so far without the last line break, last character first. -/
  text : List Char
  /-- The break that ended the last line, if there is one. -/
  ending : Option Char
  /-- The last line begins with a blank. -/
  beganBlank : Bool
  gap : BlockGap

namespace BlockText

/-- The text of the block before a further line that may begin with a blank. -/
def joined (block : BlockText) (folded beginsBlank : Bool) : List Char :=
  if folded && block.ending = some '\n' && !block.beganBlank && !beginsBlank then
    (if block.gap.breaks.isEmpty then [' '] else block.gap.breaks) ++ block.text
  else block.gap.breaks ++ (block.ending.toList ++ block.text)

/-- Read the further lines of a block; `fuel` bounds their number. -/
def readLines (least : Nat) (folded : Bool) (block : BlockText) : Nat → Option BlockText
  | 0 => some block
  | fuel + 1 =>
    match block.gap.cursor.rest with
    | [] => some block
    | c :: rest =>
      if block.gap.cursor.place.column ≠ block.gap.indent then some block
      else do
        let line := (c :: rest).takeWhile (!isBreak ·)
        let after := block.gap.cursor.advance line.length
        let next := after.skipBreak
        let gap ← readBlockGap least block.gap.indent 0 [] next.place next.rest
        readLines least folded
          { text := line.reverse ++ block.joined folded (isBlank c)
            ending := after.rest.head?
            beganBlank := isBlank c
            gap := gap } fuel

/-- The text of the whole block, last character first. -/
def chomped (block : BlockText) : Chomping → List Char
  | .strip => block.text
  | .clip => block.ending.toList ++ block.text
  | .keep => block.gap.breaks ++ (block.ending.toList ++ block.text)

end BlockText

/-- Read a block scalar after its first character, in a block indented by one less than
`least`: its text, last character first, and what follows it. -/
def readBlockScalar (least : Nat) (folded : Bool) (cursor : Cursor) :
    Option (List Char × Cursor) := do
  let header ← BlockHeader.read? cursor.rest
  let cursor ← (cursor.advance header.size).finishLine?
  let indent := if header.further = 0 then 0 else (least - 1) + header.further
  let gap ← readBlockGap (max least 1) indent 0 [] cursor.place cursor.rest
  let block ← BlockText.readLines (max least 1) folded ⟨[], none, false, gap⟩ cursor.rest.length
  some (block.chomped header.chomping, block.gap.cursor)

end Stave.Yaml
