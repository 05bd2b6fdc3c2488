import Stave.Data.Yaml.Token.Reading

/-!
# Reading YAML

The tokens of a text make up one document, or none if there is nothing but comments. A
value may have an anchor and a tag in front; where a value is missing it says nothing.
In a mapping a list need not be indented further than its key.
-/
namespace Stave.Yaml

/-- What the handles of tags stand for. -/
abbrev TagStems : Type := List (String × String)

/-- What stands in front of a value. -/
structure Properties where
  anchor : Option Nat
  tag : Option String

/-- The tag of a handle and a suffix; none if the handle stands for nothing. -/
def resolveTag? (stems : TagStems) (handle suffix : String) : Option String :=
  if handle.isEmpty then some suffix else (stems.lookup handle).map (· ++ suffix)

/-- Read the anchor and the tag in front of a value, in either order. -/
def Properties.read? (stems : TagStems) : List Token → Option (Properties × List Token)
  | .anchor anchor :: .tag handle suffix :: rest =>
    (resolveTag? stems handle suffix).map fun tag => (⟨some anchor, some tag⟩, rest)
  | .tag handle suffix :: .anchor anchor :: rest =>
    (resolveTag? stems handle suffix).map fun tag => (⟨some anchor, some tag⟩, rest)
  | .anchor anchor :: rest => some (⟨some anchor, none⟩, rest)
  | .tag handle suffix :: rest =>
    (resolveTag? stems handle suffix).map fun tag => (⟨none, some tag⟩, rest)
  | tokens => some (⟨none, none⟩, tokens)

/-- Put the anchor in front of a value. -/
def Properties.wrap (properties : Properties) (value : Yaml) : Yaml :=
  match properties.anchor with
  | some anchor => anchored anchor value
  | none => value

/-- Whether the next token is one of a few. -/
def nextIn (few : List Token) (tokens : List Token) : Bool :=
  (tokens.head?.map few.contains).getD false

/-- A value of which there is only an anchor or a tag. -/
def readMissing? (properties : Properties) (tokens : List Token) : Option (Yaml × List Token) :=
  if properties.anchor.isSome || properties.tag.isSome then
    some (scalar .plain properties.tag "", tokens)
  else none

/-- Go over the comma that all items but the first need. -/
def afterComma? (first : Bool) (tokens : List Token) : Option (List Token) :=
  match first, tokens with
  | true, tokens => some tokens
  | false, .flowEntry :: rest => some rest
  | false, _ => none

mutual

/-- Read a value. `block` says whether it may be a block, `indentless` whether it may be a
list that is not indented further; `fuel` bounds the number of steps. -/
def readValue? (stems : TagStems) (fuel : Nat) (block indentless : Bool) (tokens : List Token) :
    Option (Yaml × List Token) :=
  match fuel, tokens with
  | 0, _ => none
  | _ + 1, .reference anchor :: rest => some (reference anchor, rest)
  | fuel + 1, tokens => do
    let (properties, tokens) ← Properties.read? stems tokens
    let (value, rest) ← (match tokens with
      | .scalar style text :: rest => some (scalar style properties.tag text, rest)
      | .flowSequenceStart :: rest => readFlowItems? stems fuel true [] rest
      | .flowMappingStart :: rest => readFlowFields? stems fuel true [] rest
      | .blockEntry :: rest =>
        if indentless then readIndentlessItems? stems fuel [] (.blockEntry :: rest)
        else readMissing? properties (.blockEntry :: rest)
      | .blockSequenceStart :: rest =>
        if block then readBlockItems? stems fuel [] rest
        else readMissing? properties (.blockSequenceStart :: rest)
      | .blockMappingStart :: rest =>
        if block then readBlockFields? stems fuel [] rest
        else readMissing? properties (.blockMappingStart :: rest)
      | tokens => readMissing? properties tokens)
    some (properties.wrap value, rest)

/-- Read a value in a block that may be missing before one of a few tokens. -/
def readOptional? (stems : TagStems) (fuel : Nat) (block indentless : Bool) (ends : List Token)
    (tokens : List Token) : Option (Yaml × List Token) :=
  match fuel with
  | 0 => none
  | fuel + 1 =>
    if nextIn ends tokens then some (nothing, tokens)
    else readValue? stems fuel block indentless tokens

/-- Read the items of a list in a block. -/
def readBlockItems? (stems : TagStems) (fuel : Nat) (found : List Yaml) (tokens : List Token) :
    Option (Yaml × List Token) :=
  match fuel, tokens with
  | fuel + 1, .blockEntry :: rest => do
    let (item, rest) ← readOptional? stems fuel true false [.blockEntry, .blockEnd] rest
    readBlockItems? stems fuel (item :: found) rest
  | _ + 1, .blockEnd :: rest => some (list found.reverse, rest)
  | _, _ => none

/-- Read the items of a list that is not indented further than its key. -/
def readIndentlessItems? (stems : TagStems) (fuel : Nat) (found : List Yaml)
    (tokens : List Token) : Option (Yaml × List Token) :=
  match fuel, tokens with
  | 0, _ => none
  | fuel + 1, .blockEntry :: rest => do
    let (item, rest) ←
      readOptional? stems fuel true false [.blockEntry, .key, .value, .blockEnd] rest
    readIndentlessItems? stems fuel (item :: found) rest
  | _ + 1, rest => some (list found.reverse, rest)

/-- Read the fields of a mapping in a block. -/
def readBlockFields? (stems : TagStems) (fuel : Nat) (found : List (Yaml × Yaml))
    (tokens : List Token) : Option (Yaml × List Token) :=
  match fuel, tokens with
  | fuel + 1, .key :: rest => do
    let ends : List Token := [.key, .value, .blockEnd]
    let (key, rest) ← readOptional? stems fuel true true ends rest
    let (value, rest) ← (match rest with
      | .value :: rest => readOptional? stems fuel true true ends rest
      | rest => some (nothing, rest))
    readBlockFields? stems fuel ((key, value) :: found) rest
  | _ + 1, .blockEnd :: rest => some (mapping found.reverse, rest)
  | _, _ => none

/-- Read the items of a list in brackets; a comma is needed before all but the first. An
item may be a key and its value. -/
def readFlowItems? (stems : TagStems) (fuel : Nat) (first : Bool) (found : List Yaml)
    (tokens : List Token) : Option (Yaml × List Token) :=
  match fuel, tokens with
  | 0, _ => none
  | _ + 1, .flowSequenceEnd :: rest => some (list found.reverse, rest)
  | fuel + 1, tokens => do
    let tokens ← afterComma? first tokens
    match tokens with
    | .flowSequenceEnd :: rest => some (list found.reverse, rest)
    | .key :: rest =>
      let ends : List Token := [.value, .flowEntry, .flowSequenceEnd]
      let (key, rest) ←
        if nextIn ends rest then some (nothing, rest.drop 1)
        else readValue? stems fuel false false rest
      let (value, rest) ← (match rest with
        | .value :: rest =>
          readOptional? stems fuel false false [.flowEntry, .flowSequenceEnd] rest
        | rest => some (nothing, rest))
      readFlowItems? stems fuel false (mapping [(key, value)] :: found) rest
    | tokens => do
      let (item, rest) ← readValue? stems fuel false false tokens
      readFlowItems? stems fuel false (item :: found) rest

/-- Read the fields of a mapping in braces; a comma is needed before all but the first. -/
def readFlowFields? (stems : TagStems) (fuel : Nat) (first : Bool)
    (found : List (Yaml × Yaml)) (tokens : List Token) : Option (Yaml × List Token) :=
  match fuel, tokens with
  | 0, _ => none
  | _ + 1, .flowMappingEnd :: rest => some (mapping found.reverse, rest)
  | fuel + 1, tokens => do
    let tokens ← afterComma? first tokens
    match tokens with
    | .flowMappingEnd :: rest => some (mapping found.reverse, rest)
    | .key :: rest => do
      let (key, rest) ←
        readOptional? stems fuel false false [.value, .flowEntry, .flowMappingEnd] rest
      let (value, rest) ← (match rest with
        | .value :: rest => readOptional? stems fuel false false [.flowEntry, .flowMappingEnd] rest
        | rest => some (nothing, rest))
      readFlowFields? stems fuel false ((key, value) :: found) rest
    | tokens => do
      let (key, rest) ← readValue? stems fuel false false tokens
      readFlowFields? stems fuel false ((key, nothing) :: found) rest

end

/-! ## Documents -/

/-- Read the directives of a document: at most one version, which must be 1.1 or 1.2, and
one stem for a handle. `stems` holds those found so far. -/
def readDirectives? (version : Bool) (stems : TagStems) : List Token → Option (TagStems × List Token)
  | .versionDirective major minor :: rest =>
    if version || major ≠ 1 || (minor ≠ 1 && minor ≠ 2) then none
    else readDirectives? true stems rest
  | .tagDirective handle stem :: rest =>
    if (stems.lookup handle).isSome then none
    else readDirectives? version ((handle, stem) :: stems) rest
  | tokens => some (stems, tokens)

/-- What the usual handles stand for. -/
def usualStems : TagStems := [("!", "!"), ("!!", "tag:yaml.org,2002:")]

/-- Whether a token begins a document in so many words. -/
def Token.beginsDocument : Token → Bool
  | versionDirective .. => true
  | tagDirective .. => true
  | documentStart => true
  | _ => false

/-- Read the value of a document. -/
def readDocument? (tokens : List Token) : Option (Yaml × List Token) := do
  let fuel := 3 * tokens.length + 3
  if (tokens.head?.map Token.beginsDocument).getD false then
    let (stems, rest) ← readDirectives? false [] tokens
    match rest with
    | .documentStart :: rest =>
      match rest with
      | [] => some (nothing, [])
      | token :: others =>
        if token.beginsDocument || token = .documentEnd then some (nothing, token :: others)
        else readValue? (stems ++ usualStems) fuel true false (token :: others)
    | _ => none
  else readValue? usualStems fuel true false tokens

/-- Read a text that is at most one document: its value, which says nothing if there is
none, and its anchored parts. -/
def read? (text : String) : Option (Yaml × List (Nat × Yaml)) := do
  let tokens ← Token.readAll? (← characters? text)
  if tokens.isEmpty then some (nothing, [])
  else do
    let (value, rest) ← readDocument? tokens
    if rest.all (· = .documentEnd) then some (value, value.anchors) else none

end Stave.Yaml
