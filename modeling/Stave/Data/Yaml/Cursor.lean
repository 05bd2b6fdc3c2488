import Stave.Data.Yaml.Character

/-!
# Places in a text

A place counts the characters, the lines and the characters of the line before it. A
cursor is a place and what follows it.
-/
namespace Stave.Yaml

/-- A place in a text. -/
structure Place where
  index : Nat
  line : Nat
  column : Nat
deriving DecidableEq, Inhabited

namespace Place

/-- The place some characters further on in the line. -/
def after (place : Place) (count : Nat) : Place :=
  { place with index := place.index + count, column := place.column + count }

/-- The place after a character that is no break. -/
def next (place : Place) : Place := place.after 1

/-- The place after a break. -/
def nextLine (place : Place) : Place := ⟨place.index + 1, place.line + 1, 0⟩

end Place

/-- A place and the characters from there on. -/
structure Cursor where
  place : Place
  rest : List Char
deriving Inhabited

namespace Cursor

/-- Go over some characters of the line. -/
def advance (cursor : Cursor) (count : Nat) : Cursor :=
  ⟨cursor.place.after count, cursor.rest.drop count⟩

/-- Go over a run of characters of the line. -/
def skipWhile (test : Char → Bool) (cursor : Cursor) : Cursor :=
  cursor.advance (cursor.rest.takeWhile test).length

/-- Go over blanks. -/
def skipBlanks (cursor : Cursor) : Cursor := cursor.skipWhile isBlank

/-- Go over a comment, if one begins here. -/
def skipComment (cursor : Cursor) : Cursor :=
  if cursor.rest.head? = some '#' then cursor.skipWhile (!isBreak ·) else cursor

/-- Go over a break, if one is here. -/
def skipBreak (cursor : Cursor) : Cursor :=
  match cursor.rest with
  | c :: rest => if isBreak c then ⟨cursor.place.nextLine, rest⟩ else cursor
  | [] => cursor

/-- Go to the next line over blanks and a comment; none if anything else is in the way. -/
def finishLine? (cursor : Cursor) : Option Cursor :=
  let cursor := cursor.skipBlanks.skipComment
  if atLineEnd cursor.rest then some cursor.skipBreak else none

end Cursor

end Stave.Yaml
