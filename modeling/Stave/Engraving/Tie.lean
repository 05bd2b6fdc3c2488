import Stave.Engraving.Curve
import Stave.Engraving.Staff

/-!
# Ties and glissandi

A tie is one curve for every head of its first slot. A single head ties on the side
away from its stem, as does the middle head of an odd chord; otherwise the upper half
of a chord ties above and the lower half below. A glissando is a straight line to the
first head of the next slot, or to the edge of the bar.
-/
namespace Stave.Engraving

/-- The total order of single precision numbers: by sign, then by size, so that minus
zero comes before zero. -/
def totalKey (x : Float32) : Int :=
  let bits := x.toBits.toNat
  if bits ≥ 0x80000000 then -(bits - 0x80000000 : Int) - 1 else bits

/-- The heads of a slot from the top down, heads of one height as they were written. -/
def headsByHeight (slot : PlacedSlot) : List Head :=
  slot.heads.mergeSort fun a b => totalKey a.y ≤ totalKey b.y

/-- Whether the head of a rank among `count` ties above. -/
def tieAbove (stem : Option StemDirection) (count rank : Nat) : Bool :=
  if count = 1 ∨ (count % 2 = 1 ∧ rank = count / 2) then stem != some .up
  else rank < count / 2

/-- Draw the ties of one slot, from one place to another. -/
def tieSlot (config : Config) (slot : PlacedSlot) (start stop : Option Nat)
    (x0 x1 : Float32) : PlacedSlot × List Curve :=
  let heads := headsByHeight slot
  heads.zipIdx.foldl (fun (tied, curves) (head, rank) =>
    let above := tieAbove slot.stem heads.length rank
    let y := head.y + sideSign above * config.stepHeight
    (tied.extend (y + sideSign above * config.tieHeight),
      curves ++ [.arc start stop ⟨x0, y⟩ ⟨x1, y⟩ config.tieHeight above])) (slot, [])

/-- Draw the ties that come in from the bar before. -/
def addTiesIn (config : Config) (slots : List PlacedSlot) : List PlacedSlot × List Curve :=
  match slots with
  | [] => ([], [])
  | first :: rest =>
    if first.isRest then (slots, [])
    else
      let (first, curves) := tieSlot config first none (some 0) 0.0 first.x
      (first :: rest, curves)

/-- Draw one tie of a line after others; a tie without a first slot is left out. -/
def addTie (config : Config) (drawn : List PlacedSlot × List Curve) (link : Link) :
    List PlacedSlot × List Curve :=
  let (slots, curves) := drawn
  match link.start with
  | none => drawn
  | some start =>
    match slots[start]? with
    | none => drawn
    | some slot =>
      let x0 := slot.x + config.noteheadWidth
      let x1 := ((link.stop.bind (slots[·]?)).map PlacedSlot.x).getD config.barWidth
      let (tied, more) := tieSlot config slot link.start link.stop x0 x1
      (slots.set start tied, curves ++ more)

/-- Draw the ties of a line, those from the bar before first. -/
def addTies (config : Config) (line : Line) (tiedIn : Bool) (slots : List PlacedSlot) :
    List PlacedSlot × List Curve :=
  line.ties.foldl (addTie config) (if tiedIn then addTiesIn config slots else (slots, []))

/-- A straight line between two heads. -/
structure Glissando where
  slot : Nat
  x0 : Float32
  y0 : Float32
  x1 : Float32
  y1 : Float32
deriving Inhabited

/-- The line of a glissando that starts at a slot, given the slot after it. -/
def glissandoFrom? (config : Config) (index : Nat) (slot : PlacedSlot)
    (next : Option PlacedSlot) : Option Glissando := do
  let head ← slot.heads.head?
  let target := next.bind fun next => next.heads.head?.map fun head => (next.x, head.y)
  let (x1, y1) := target.getD (config.barWidth, head.y)
  some ⟨index, slot.x + config.noteheadWidth + config.accidentalGap, head.y,
    x1 - config.accidentalGap, y1⟩

/-- The glissandi of a line. -/
def glissandoLines (config : Config) (line : Line) (slots : List PlacedSlot) : List Glissando :=
  ((List.zip line.slots slots).zipIdx.filter (·.1.1.glissando)).filterMap
    fun ((_, placed), index) => glissandoFrom? config index placed slots[index + 1]?

end Stave.Engraving
