import Stave.Data.Yaml.Scalar.Gap

/-!
# Plain scalars

A plain scalar ends before a colon that ends a word and before a comment, which needs
a gap in front. It goes on over following lines as long as they are indented further
than what it stands in. Inside brackets it ends at a comma or a bracket as well, and
further lines need no indentation.
-/
namespace Stave.Yaml

/-- The characters that end a plain scalar inside brackets. -/
def flowIndicators : List Char := [',', '[', ']', '\x7b', '\x7d']

/-- Whether a plain scalar ends here, in the middle of a word or not. -/
def endsPlain (flow : Bool) : List Char → Bool
  | [] => true
  | c :: rest => (c = ':' && atWordEnd rest) || (flow && flowIndicators.contains c)

/-- Whether a colon stands here that is not allowed inside brackets. -/
def atStrayColon : List Char → Bool
  | ':' :: c :: _ => c = '?' || flowIndicators.contains c
  | _ => false

/-- Whether a plain scalar does not go on here after a gap; `indent` is the least column
of its further lines. -/
def endsAfterGap (flow : Bool) (indent : Nat) (place : Place) (cs : List Char) : Bool :=
  (!flow && place.column < indent) || (place.column = 0 && atDocumentMark cs) ||
    cs.head? = some '#'

/-- A plain scalar and what follows it. -/
structure PlainScalar where
  /-- The characters of its text, last one first. -/
  text : List Char
  /-- The gap behind it reaches into another line. -/
  isBroken : Bool
  cursor : Cursor

/-- Read a plain scalar. `text` is what was found so far, last character first, and `gap`
what follows it. -/
def readPlain (flow : Bool) (indent : Nat) (text : List Char) (gap : Gap) (place : Place) :
    List Char → Option PlainScalar
  | [] => some ⟨text, gap.isBroken, ⟨place, []⟩⟩
  | c :: rest =>
    if isBreak c then readPlain flow indent text (gap.addBreak c) place.nextLine rest
    else if isBlank c then
      if gap.isBroken && place.column < indent && c = '\t' then none
      else readPlain flow indent text (gap.addBlank c) place.next rest
    else if !gap.isNone && endsAfterGap flow indent place (c :: rest) then
      some ⟨text, gap.isBroken, ⟨place, c :: rest⟩⟩
    else if flow && atStrayColon (c :: rest) then none
    else if endsPlain flow (c :: rest) then some ⟨text, gap.isBroken, ⟨place, c :: rest⟩⟩
    else readPlain flow indent (c :: (gap.text ++ text)) .none place.next rest

end Stave.Yaml
