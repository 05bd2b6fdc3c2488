import Stave.Shorthand.Token

/-!
# The ledger of slot heads

A slot is headed by a note, a rest or a bare duration outside a chord, or by the
opening bracket of a chord. The ledger lists every other token in order, so that the
index of a head among the tokens becomes the index of its slot by taking away the
listed tokens before it. Looking up and counting use binary search on the list.
-/
namespace Stave.Shorthand

/-- Whether a token heads a slot, given whether a chord is open before it. -/
def TokenKind.isHead (chord : Bool) : TokenKind → Bool
  | chordStart => true
  | note _ => !chord
  | rest _ => !chord
  | duration _ => !chord
  | _ => false

/-- Whether a chord is open after a token, given whether one is open before it. -/
def TokenKind.opensChord (chord : Bool) : TokenKind → Bool
  | chordStart => true
  | chordEnd _ => false
  | _ => chord

/-- The tokens that head no slot, by index. -/
structure Ledger where
  removed : Array Nat
deriving DecidableEq, Inhabited

namespace Ledger

/-- The indices of the tokens that head no slot, the first token having index `index`. -/
def removedFrom (index : Nat) (chord : Bool) : List Token → List Nat
  | [] => []
  | token :: rest =>
    let others := removedFrom (index + 1) (token.kind.opensChord chord) rest
    if token.kind.isHead chord then others else index :: others

/-- The ledger of a list of tokens. -/
def scan (tokens : List Token) : Ledger := ⟨(removedFrom 0 false tokens).toArray⟩

/-- The first place from `low` up to `high` of an index that is not below `token`. -/
def search (removed : Array Nat) (token low high : Nat) : Nat :=
  if low < high then
    let middle := low + (high - low) / 2
    if removed.getD middle 0 < token then search removed token (middle + 1) high
    else search removed token low middle
  else low
termination_by high - low

/-- The number of listed tokens before a token. -/
def removedBefore (ledger : Ledger) (token : Nat) : Nat :=
  search ledger.removed token 0 ledger.removed.size

/-- Whether a token is listed. -/
def isRemoved (ledger : Ledger) (token : Nat) : Bool :=
  ledger.removed[ledger.removedBefore token]? == some token

/-- The index of the slot that a token heads. -/
def rebase (ledger : Ledger) (token : Nat) : Nat := token - ledger.removedBefore token

/-- The number of listed tokens. -/
def removedCount (ledger : Ledger) : Nat := ledger.removed.size

end Ledger

end Stave.Shorthand
