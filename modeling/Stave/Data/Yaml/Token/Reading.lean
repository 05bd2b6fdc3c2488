import Stave.Data.Yaml.Scalar.Block
import Stave.Data.Yaml.Scalar.Plain
import Stave.Data.Yaml.Scalar.Quoted
import Stave.Data.Yaml.Token

/-!
# Reading the tokens of YAML

Whether something is a key shows at the colon after it, so the reader remembers where
the last possible key began, for each pair of brackets around. A key stands on one line
and its colon follows within 1024 characters. At a key or a dash further to the right a
block begins, and blocks end where a line begins further to the left.
-/
namespace Stave.Yaml

/-- Where a key may have begun. -/
structure KeyCandidate where
  /-- Nothing but a key can stand there. -/
  required : Bool
  /-- The number of tokens before it. -/
  tokens : Nat
  place : Place

/-- The most characters from the start of a key to its colon. -/
def longestKey : Nat := 1024

/-- Whether a place is too far for the colon of a key. -/
def KeyCandidate.isStale (candidate : KeyCandidate) (place : Place) : Bool :=
  candidate.place.line < place.line || candidate.place.index + longestKey < place.index

/-- A text of which some tokens have been read. -/
structure TokenReader where
  cursor : Cursor
  tokens : Array Token
  /-- The columns of the open blocks, innermost first. -/
  indents : List Nat
  /-- The possible key within the innermost brackets. -/
  candidate : Option KeyCandidate
  /-- The possible keys around each of the open brackets, innermost first. -/
  outer : List (Option KeyCandidate)
  /-- A key may begin here. -/
  keyAllowed : Bool
  /-- The names of the anchors so far, last one first. -/
  anchors : List String

namespace TokenReader

/-- The reader at the start of a text. -/
def start (cs : List Char) : TokenReader :=
  ⟨⟨⟨0, 0, 0⟩, cs⟩, #[], [], none, [], true, []⟩

/-- Whether a bracket is open. -/
def inFlow (reader : TokenReader) : Bool := !reader.outer.isEmpty

/-- The column of the reader. -/
def column (reader : TokenReader) : Nat := reader.cursor.place.column

/-- The least column of what belongs to the innermost block. -/
def innerColumn (reader : TokenReader) : Nat := (reader.indents.head?.map (· + 1)).getD 0

/-- Add a token. -/
def push (reader : TokenReader) (token : Token) : TokenReader :=
  { reader with tokens := reader.tokens.push token }

/-- Add a token before others, of which `count` are in front of it. -/
def insertAt (reader : TokenReader) (count : Nat) (token : Token) : TokenReader :=
  { reader with
    tokens := (reader.tokens.extract 0 count).push token ++
      reader.tokens.extract count reader.tokens.size }

/-- Add a token of some characters of the line. -/
def take (reader : TokenReader) (count : Nat) (token : Token) : TokenReader :=
  { reader.push token with cursor := reader.cursor.advance count }

/-- Begin a block at a column, if that is further to the right; `count` tokens are in front
of it. -/
def openBlock (reader : TokenReader) (column count : Nat) (token : Token) : TokenReader :=
  if reader.inFlow || column < reader.innerColumn then reader
  else { reader.insertAt count token with indents := column :: reader.indents }

/-- End the blocks further to the right than a column. -/
def closeBlocks (reader : TokenReader) (column : Nat) : TokenReader :=
  if reader.inFlow then reader
  else
    let closed := reader.indents.takeWhile (column < ·)
    { reader with
      tokens := reader.tokens ++ (closed.map fun _ => Token.blockEnd).toArray
      indents := reader.indents.drop closed.length }

/-- End all blocks. -/
def closeAllBlocks (reader : TokenReader) : TokenReader :=
  if reader.inFlow then reader
  else
    { reader with
      tokens := reader.tokens ++ (reader.indents.map fun _ => Token.blockEnd).toArray
      indents := [] }

/-- Give up the possible key; none if it must be one. -/
def dropCandidate? (reader : TokenReader) : Option TokenReader :=
  if (reader.candidate.map KeyCandidate.required).getD false then none
  else some { reader with candidate := none }

/-- Remember that a key may begin here. -/
def saveCandidate? (reader : TokenReader) : Option TokenReader :=
  if reader.keyAllowed then
    reader.dropCandidate?.map fun reader =>
      { reader with
        candidate := some
          { required := !reader.inFlow && reader.indents.head? = some reader.column
            tokens := reader.tokens.size
            place := reader.cursor.place } }
  else some reader

/-- What is left of a possible key at a place; none if it is too far and must be a key. -/
def expire? (place : Place) : Option KeyCandidate → Option (Option KeyCandidate)
  | none => some none
  | some candidate =>
    if candidate.isStale place then (if candidate.required then none else some none)
    else some (some candidate)

/-- Give up the possible keys that are too far. -/
def expireCandidates? (reader : TokenReader) : Option TokenReader := do
  let place := reader.cursor.place
  let candidate ← expire? place reader.candidate
  let outer ← reader.outer.mapM (expire? place)
  some { reader with candidate := candidate, outer := outer }

/-! ## What stands between tokens -/

/-- Go to the next token over blanks, comments and breaks; `fuel` bounds the number of
lines. A tab is a blank only where no key may begin. A byte order mark is skipped at the
start of the text, where it takes up a column. -/
def skipGap (reader : TokenReader) : Nat → TokenReader
  | 0 => reader
  | fuel + 1 =>
    let cursor := reader.cursor
    let cursor :=
      if cursor.place.index = 0 && cursor.rest.head? = some '\ufeff' then cursor.advance 1
      else cursor
    let cursor := (cursor.skipWhile fun c =>
      c = ' ' || (c = '\t' && (reader.inFlow || !reader.keyAllowed))).skipComment
    match cursor.rest with
    | c :: _ =>
      if isBreak c then
        skipGap
          { reader with
            cursor := cursor.skipBreak
            keyAllowed := reader.keyAllowed || !reader.inFlow } fuel
      else { reader with cursor := cursor }
    | [] => { reader with cursor := cursor }

/-! ## Kinds of tokens -/

/-- Read a directive or the mark of a document, before which all blocks end. -/
def readMark? (reader : TokenReader) (read : Cursor → Option (Token × Cursor)) :
    Option TokenReader := do
  let reader ← reader.closeAllBlocks.dropCandidate?
  let (token, cursor) ← read reader.cursor
  some { reader.push token with cursor := cursor, keyAllowed := false }

/-- Read an opening bracket. -/
def readOpening? (reader : TokenReader) (token : Token) : Option TokenReader :=
  reader.saveCandidate?.map fun reader =>
    { reader.take 1 token with
      candidate := none
      outer := reader.candidate :: reader.outer
      keyAllowed := true }

/-- Read a closing bracket. -/
def readClosing? (reader : TokenReader) (token : Token) : Option TokenReader :=
  reader.dropCandidate?.map fun reader =>
    let reader := { reader.take 1 token with keyAllowed := false }
    match reader.outer with
    | [] => reader
    | candidate :: outer => { reader with candidate := candidate, outer := outer }

/-- Read a comma. -/
def readComma? (reader : TokenReader) : Option TokenReader :=
  reader.dropCandidate?.map fun reader =>
    { reader.take 1 .flowEntry with keyAllowed := true }

/-- Begin a block here, if a key may begin here. -/
def openBlockHere? (reader : TokenReader) (token : Token) : Option TokenReader :=
  if reader.inFlow then some reader
  else if reader.keyAllowed then some (reader.openBlock reader.column reader.tokens.size token)
  else none

/-- Read a dash. -/
def readDash? (reader : TokenReader) : Option TokenReader := do
  let reader ← reader.openBlockHere? .blockSequenceStart
  let reader ← reader.dropCandidate?
  some { reader.take 1 .blockEntry with keyAllowed := true }

/-- Read a question mark before a key. -/
def readQuestion? (reader : TokenReader) : Option TokenReader := do
  let reader ← reader.openBlockHere? .blockMappingStart
  let reader ← reader.dropCandidate?
  some { reader.take 1 .key with keyAllowed := !reader.inFlow }

/-- Read a colon. The key before it gets its token now, and its block if one begins there. -/
def readColon? (reader : TokenReader) : Option TokenReader :=
  match reader.candidate with
  | some key =>
    let reader := (reader.insertAt key.tokens .key).openBlock key.place.column key.tokens
      .blockMappingStart
    some { reader.take 1 .value with candidate := none, keyAllowed := false }
  | none =>
    (reader.openBlockHere? .blockMappingStart).map fun reader =>
      { reader.take 1 .value with keyAllowed := !reader.inFlow }

/-- Read something that may be a key. -/
def readKeyLike? (reader : TokenReader) (read : TokenReader → Option (Token × Cursor)) :
    Option TokenReader := do
  let reader ← reader.saveCandidate?
  let (token, cursor) ← read reader
  some { reader.push token with cursor := cursor, keyAllowed := false }

/-- Read an anchor, which gets the next number. -/
def readAnchor? (reader : TokenReader) : Option TokenReader := do
  let reader ← reader.saveCandidate?
  let (name, cursor) ← readName? (reader.cursor.advance 1)
  some
    { reader.push (.anchor reader.anchors.length) with
      cursor := cursor
      keyAllowed := false
      anchors := name :: reader.anchors }

/-- Read an alias: its anchor is the last of its name. -/
def readAlias (reader : TokenReader) : Option (Token × Cursor) := do
  let (name, cursor) ← readName? (reader.cursor.advance 1)
  let later ← reader.anchors.idxOf? name
  some (.reference (reader.anchors.length - 1 - later), cursor)

/-- A scalar by its text, last character first. -/
def scalarToken (style : ScalarStyle) (text : List Char) : Token :=
  .scalar style (String.ofList text.reverse)

/-- Read a scalar in quotes. -/
def readQuotedScalar (double : Bool) (reader : TokenReader) : Option (Token × Cursor) :=
  let cursor := reader.cursor.advance 1
  if double then
    (readDoubleQuoted [] .none cursor.place cursor.rest).map fun (text, cursor) =>
      (scalarToken .doubleQuoted text, cursor)
  else
    (readSingleQuoted [] .none cursor.place cursor.rest).map fun (text, cursor) =>
      (scalarToken .singleQuoted text, cursor)

/-- Read a plain scalar; after one that reaches into another line a key may begin. -/
def readPlainScalar? (reader : TokenReader) : Option TokenReader := do
  let reader ← reader.saveCandidate?
  let cursor := reader.cursor
  let plain ← readPlain reader.inFlow reader.innerColumn [] .none cursor.place cursor.rest
  some
    { reader.push (scalarToken .plain plain.text) with
      cursor := plain.cursor
      keyAllowed := plain.isBroken }

/-- Read a block scalar, which cannot be a key. -/
def readBlockScalar? (reader : TokenReader) (folded : Bool) : Option TokenReader := do
  let reader ← reader.dropCandidate?
  let (text, cursor) ← readBlockScalar reader.innerColumn folded (reader.cursor.advance 1)
  some
    { reader.push (scalarToken (if folded then .folded else .literal) text) with
      cursor := cursor
      keyAllowed := true }

/-! ## The next token -/

/-- The characters that no plain scalar begins with. -/
def indicators : List Char :=
  ['-', '?', ':', ',', '[', ']', '\x7b', '\x7d', '#', '&', '*', '!', '|', '>', '\'', '"', '%', '@',
   '\x60']

/-- Whether a plain scalar may begin with a character, given what follows it. -/
def beginsPlain (flow : Bool) (c : Char) (rest : List Char) : Bool :=
  !(isBlank c || isBreak c || indicators.contains c) ||
    (c = '-' && !(rest.head?.map isBlank).getD false) ||
    (!flow && (c = '?' || c = ':') && !atWordEnd rest)

/-- Read the token that begins with a character, given what follows it. -/
def readToken? (reader : TokenReader) (c : Char) (rest : List Char) : Option TokenReader :=
  let flow := reader.inFlow
  if reader.column = 0 && c = '%' then reader.readMark? fun cursor => readDirective? (cursor.advance 1)
  else if reader.column = 0 && atMark '-' (c :: rest) then
    reader.readMark? fun cursor => some (.documentStart, cursor.advance 3)
  else if reader.column = 0 && atMark '.' (c :: rest) then
    reader.readMark? fun cursor => some (.documentEnd, cursor.advance 3)
  else if c = '[' then reader.readOpening? .flowSequenceStart
  else if c = '\x7b' then reader.readOpening? .flowMappingStart
  else if c = ']' then reader.readClosing? .flowSequenceEnd
  else if c = '\x7d' then reader.readClosing? .flowMappingEnd
  else if c = ',' then reader.readComma?
  else if c = '-' && atWordEnd rest then reader.readDash?
  else if c = '?' && (flow || atWordEnd rest) then reader.readQuestion?
  else if c = ':' && (flow || atWordEnd rest) then reader.readColon?
  else if c = '*' then reader.readKeyLike? readAlias
  else if c = '&' then reader.readAnchor?
  else if c = '!' then reader.readKeyLike? fun reader => readTag? reader.inFlow reader.cursor
  else if c = '|' && !flow then reader.readBlockScalar? false
  else if c = '>' && !flow then reader.readBlockScalar? true
  else if c = '\'' then reader.readKeyLike? (readQuotedScalar false)
  else if c = '"' then reader.readKeyLike? (readQuotedScalar true)
  else if beginsPlain flow c rest then reader.readPlainScalar?
  else none

/-- Read all further tokens; `fuel` bounds their number and that of the lines. -/
def readAll? (reader : TokenReader) : Nat → Option (Array Token)
  | 0 => none
  | fuel + 1 => do
    let reader ← (reader.skipGap (fuel + 1)).expireCandidates?
    let reader := reader.closeBlocks reader.column
    match reader.cursor.rest with
    | [] => reader.closeAllBlocks.dropCandidate?.map TokenReader.tokens
    | c :: rest => (← reader.readToken? c rest).readAll? fuel

end TokenReader

/-- The tokens of a list of characters with unified breaks. -/
def Token.readAll? (cs : List Char) : Option (List Token) :=
  ((TokenReader.start cs).readAll? (cs.length + 1)).map Array.toList

end Stave.Yaml
