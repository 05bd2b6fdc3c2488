import Stave.Music.Line
import Stave.Shorthand.BuildError
import Stave.Shorthand.Ledger

/-!
# Tuplet groups

A tuplet directive must be followed by an opening brace at once, and groups neither
nest nor stand alone. The slots of a group are those headed between its braces, of
which there must be one.
-/
namespace Stave.Shorthand

/-- A tuplet of a line with the byte its directive begins at. -/
structure TupletGroup where
  range : TupletRange
  origin : Nat
deriving DecidableEq, Inhabited

/-- A tuplet directive whose group is not closed yet. -/
structure OpenTuplet where
  /-- The index of the directive among the tokens. -/
  directive : Nat
  actual : Nat
  normal : Nat
  origin : Nat
deriving DecidableEq, Inhabited

namespace OpenTuplet

/-- The range of a group that closes at a token. -/
def close (tuplet : OpenTuplet) (ledger : Ledger) (index : Nat) : Except BuildError TupletGroup :=
  let first := tuplet.directive + 2
  let heads := (List.range' first (index - first)).filter fun token => !ledger.isRemoved token
  match heads with
  | [] => .error ⟨.emptyTuplet, tuplet.origin⟩
  | head :: rest =>
    let last := rest.getLast?.getD head
    .ok ⟨⟨ledger.rebase head, ledger.rebase last, tuplet.actual, tuplet.normal⟩, tuplet.origin⟩

end OpenTuplet

namespace TupletGroup

/-- Collect the groups from a token on, the first token having index `index`; `found`
holds the groups before, last one first. -/
def collect (ledger : Ledger) (index : Nat) (tuplet : Option OpenTuplet)
    (found : List TupletGroup) : List Token → Except BuildError (List TupletGroup)
  | [] =>
    match tuplet with
    | some tuplet => .error ⟨.unterminatedTuplet, tuplet.origin⟩
    | none => .ok found.reverse
  | token :: rest =>
    match token.kind with
    | .tuplet actual normal =>
      if tuplet.isSome then .error ⟨.nestedTuplet, token.origin⟩
      else if (rest.head?.map Token.kind) = some .groupOpen then
        collect ledger (index + 1) (some ⟨index, actual, normal, token.origin⟩) found rest
      else .error ⟨.tupletWithoutGroup, token.origin⟩
    | .groupOpen =>
      match tuplet with
      | some opened =>
        if opened.directive + 1 = index then collect ledger (index + 1) tuplet found rest
        else .error ⟨.nestedTuplet, token.origin⟩
      | none => .error ⟨.strayGroupOpen, token.origin⟩
    | .groupClose =>
      match tuplet with
      | some opened =>
        match opened.close ledger index with
        | .error error => .error error
        | .ok group => collect ledger (index + 1) none (group :: found) rest
      | none => .error ⟨.strayGroupClose, token.origin⟩
    | _ => collect ledger (index + 1) tuplet found rest

/-- The tuplet groups of a list of tokens, in order. -/
def scan (tokens : List Token) (ledger : Ledger) : Except BuildError (List TupletGroup) :=
  collect ledger 0 none [] tokens

end TupletGroup

end Stave.Shorthand
