import Stave.Engraving.Staff
import Stave.Music.Accidental

/-!
# Accidental signs

Natural signs that wait for the bar to the left are settled here. The heads of a chord
are gone through from the top; a head one position below the one before it puts its
sign a column further left. A rhythm staff has no accidentals.
-/
namespace Stave.Engraving

/-- An accidental sign in front of a head. -/
structure AccidentalSign where
  slot : Nat
  /-- The head among those of the slot. -/
  head : Nat
  glyph : AccidentalGlyph
  x : Float32
  y : Float32
deriving Inhabited

/-- A head with its index in the slot and its pitch. -/
structure PitchedHead where
  index : Nat
  head : Head
  pitch : Pitch
deriving Inhabited

/-- The heads of a slot from the top down; heads of one position keep their order. -/
def headsFromTop (slot : Slot) (placed : PlacedSlot) : List PitchedHead :=
  let heads := (List.zip placed.heads slot.pitches).mapIdx fun index (head, pitch) =>
    (⟨index, head, pitch⟩ : PitchedHead)
  heads.mergeSort fun a b => b.head.index ≤ a.head.index

/-- The columns of heads from the top down, given the head before and its column. -/
def signColumns (above : Option (Int × Nat)) : List PitchedHead → List (PitchedHead × Nat)
  | [] => []
  | head :: rest =>
    let column := match above with
      | some (neighbour, column) => if neighbour - head.head.index = 1 then column + 1 else 0
      | none => 0
    (head, column) :: signColumns (some (head.head.index, column)) rest

/-- The sign of a head in a column, if the head shows one. -/
def signOfHead? (config : Config) (previous : Option Alterations) (slot : Nat) (x : Float32)
    (head : PitchedHead) (column : Nat) : Option AccidentalSign :=
  match head.pitch.settledDisplay previous with
  | .shown alteration =>
    some ⟨slot, head.index, .ofAlteration alteration,
      x - config.accidentalGap - config.accidentalWidth * Float32.ofNat (column + 1),
      head.head.y⟩
  | _ => none

/-- The signs of a slot, from the top down. -/
def slotSigns (config : Config) (previous : Option Alterations) (index : Nat) (slot : Slot)
    (placed : PlacedSlot) : List AccidentalSign :=
  (signColumns none (headsFromTop slot placed)).filterMap fun (head, column) =>
    signOfHead? config previous index placed.x head column

/-- A slot with a sign in front of one of its heads. -/
def addSign (config : Config) (placed : PlacedSlot) (sign : AccidentalSign) : PlacedSlot :=
  let signed := { placed with
    heads := placed.heads.modify sign.head fun head =>
      { head with accidental := some sign.glyph } }
  (signed.extend (sign.y - config.staffSpace)).extend (sign.y + config.staffSpace)

/-- The signs of every slot of a line. -/
def accidentalSigns (config : Config) (line : Line) (previous : Option Alterations)
    (slots : List PlacedSlot) : List (List AccidentalSign) :=
  (List.zip line.slots slots).mapIdx fun index (slot, placed) =>
    if line.rhythm then [] else slotSigns config previous index slot placed

/-- Give every slot its signs. -/
def addAccidentals (config : Config) (signs : List (List AccidentalSign))
    (slots : List PlacedSlot) : List PlacedSlot :=
  List.zipWith (fun placed signs => signs.foldl (addSign config) placed) slots signs

end Stave.Engraving
