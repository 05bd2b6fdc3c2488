import Stave.Data.Yaml.Scalar.Gap
import Stave.Text.Numeral

/-!
# Quoted scalars

In single quotes a quote is doubled and all else is itself. In double quotes a
backslash begins an escape; before a break it joins the lines. Lines are folded in
both, and no line inside may begin or end a document.
-/
namespace Stave.Yaml

/-- Read a scalar in single quotes after the first of them. `text` is what was found so
far, last character first, and `gap` what follows it. -/
def readSingleQuoted (text : List Char) (gap : Gap) (place : Place) :
    List Char → Option (List Char × Cursor)
  | [] => none
  | '\'' :: '\'' :: rest =>
    readSingleQuoted ('\'' :: (gap.text ++ text)) .none (place.after 2) rest
  | '\'' :: rest => some (gap.text ++ text, ⟨place.next, rest⟩)
  | c :: rest =>
    if isBlank c then readSingleQuoted text (gap.addBlank c) place.next rest
    else if isBreak c then readSingleQuoted text (gap.addBreak c) place.nextLine rest
    else if place.column = 0 && atDocumentMark (c :: rest) then none
    else readSingleQuoted (c :: (gap.text ++ text)) .none place.next rest

/-- The character that a number of hexadecimal digits stands for. -/
def hexChar? (count : Nat) (cs : List Char) : Option Char := do
  let digits ← (cs.take count).mapM Text.hexDigit?
  let code := digits.foldl (fun code digit => 16 * code + digit) 0
  if digits.length = count ∧ code.isValidChar then some (Char.ofNat code) else none

/-- The character that an escape stands for, given by what follows the backslash, and
the number of characters it takes. -/
def escape? : List Char → Option (Char × Nat)
  | [] => none
  | c :: rest =>
    match c with
    | '0' => some ('\x00', 1)
    | 'a' => some ('\x07', 1)
    | 'b' => some ('\x08', 1)
    | 't' => some ('\t', 1)
    | '\t' => some ('\t', 1)
    | 'n' => some ('\n', 1)
    | 'v' => some ('\x0b', 1)
    | 'f' => some ('\x0c', 1)
    | 'r' => some ('\r', 1)
    | 'e' => some ('\x1b', 1)
    | ' ' => some (' ', 1)
    | '"' => some ('"', 1)
    | '/' => some ('/', 1)
    | '\\' => some ('\\', 1)
    | 'N' => some ('\u0085', 1)
    | '_' => some ('\u00a0', 1)
    | 'L' => some ('\u2028', 1)
    | 'P' => some ('\u2029', 1)
    | 'x' => (hexChar? 2 rest).map (·, 3)
    | 'u' => (hexChar? 4 rest).map (·, 5)
    | 'U' => (hexChar? 8 rest).map (·, 9)
    | _ => none

/-- Read a scalar in double quotes after the first of them. `text` is what was found so
far, last character first, and `gap` what follows it. -/
def readDoubleQuoted (text : List Char) (gap : Gap) (place : Place) :
    List Char → Option (List Char × Cursor)
  | [] => none
  | c :: rest =>
    if isBlank c then readDoubleQuoted text (gap.addBlank c) place.next rest
    else if isBreak c then readDoubleQuoted text (gap.addBreak c) place.nextLine rest
    else if place.column = 0 && atDocumentMark (c :: rest) then none
    else if c = '"' then some (gap.text ++ text, ⟨place.next, rest⟩)
    else if c = '\\' then
      if (rest.head?.map isBreak).getD false then
        readDoubleQuoted (gap.text ++ text) (.breaks none []) place.next.nextLine (rest.drop 1)
      else
        match escape? rest with
        | none => none
        | some (escaped, count) =>
          readDoubleQuoted (escaped :: (gap.text ++ text)) .none (place.after (count + 1))
            (rest.drop count)
    else readDoubleQuoted (c :: (gap.text ++ text)) .none place.next rest
termination_by cs => cs.length
decreasing_by all_goals simp only [List.length_cons, List.length_drop]; omega

end Stave.Yaml
