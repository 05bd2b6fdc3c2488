/-!
# The characters of YAML

A text may hold printable characters, tabs and line breaks. A line feed, a carriage
return, both together and a next-line character are one and the same break; the line
and the paragraph separator are breaks of their own.
-/
namespace Stave.Yaml

/-- Whether a text may hold a character. -/
def isAllowed (c : Char) : Bool :=
  c = '\t' || c = '\n' || c = '\r' || (' ' ≤ c && c ≤ '~') || c = '\u0085' ||
    ('\u00a0' ≤ c && c ≤ '\ufffd') || 0x10000 ≤ c.toNat

/-- Write every break that stands for a line feed as one. -/
def unifyBreaks : List Char → List Char
  | '\r' :: '\n' :: rest => '\n' :: unifyBreaks rest
  | '\r' :: rest => '\n' :: unifyBreaks rest
  | '\u0085' :: rest => '\n' :: unifyBreaks rest
  | c :: rest => c :: unifyBreaks rest
  | [] => []

/-- The characters of a text with unified breaks; none if one is not allowed. -/
def characters? (text : String) : Option (List Char) :=
  if text.toList.all isAllowed then some (unifyBreaks text.toList) else none

/-- Whether a character ends a line, breaks being unified. -/
def isBreak (c : Char) : Bool := c = '\n' || c = '\u2028' || c = '\u2029'

/-- Whether a character separates the parts of a line. -/
def isBlank (c : Char) : Bool := c = ' ' || c = '\t'

/-- Whether a character may stand in the name of an anchor or a handle. -/
def isNameChar (c : Char) : Bool := c.isAlphanum || c = '_' || c = '-'

/-- Whether a line ends here. -/
def atLineEnd : List Char → Bool
  | [] => true
  | c :: _ => isBreak c

/-- Whether a word ends here. -/
def atWordEnd : List Char → Bool
  | [] => true
  | c :: _ => isBlank c || isBreak c

/-- Whether a mark of three equal characters stands here as a word. -/
def atMark (c : Char) (cs : List Char) : Bool :=
  [c, c, c].isPrefixOf cs && atWordEnd (cs.drop 3)

/-- Whether a line that begins here begins or ends a document. -/
def atDocumentMark (cs : List Char) : Bool := atMark '-' cs || atMark '.' cs

end Stave.Yaml
