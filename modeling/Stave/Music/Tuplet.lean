import Stave.Music.Line

/-!
# Tuplets in time

The slots of a tuplet last `normal / actual` of what they are drawn with, each rounded
down. What the rounding loses over the whole range is given to its first slot, so
that the range as a whole is rounded only once. A ratio may have any two numbers, so
what scaling computes has to be checked for its size.
-/
namespace Stave

namespace TupletRange

/-- The units that drawn units last in the tuplet, rounded down. -/
def scaledUnits (range : TupletRange) (units : Nat) : Nat := units * range.normal / range.actual

/-- A slot of the range, scaled on its own. -/
def scaleSlot (range : TupletRange) (slot : Slot) : Slot :=
  { slot with duration := range.scaledUnits slot.displayDuration }

/-- The units that slots drawn with these last together if each is rounded on its own. -/
def roundedUnits (range : TupletRange) (drawn : List Nat) : Nat :=
  sumOf (drawn.map range.scaledUnits)

/-- The units that rounding every slot on its own loses. -/
def lostUnits (range : TupletRange) (drawn : List Nat) : Nat :=
  range.scaledUnits (sumOf drawn) - range.roundedUnits drawn

/-- The slots of the range, scaled together. -/
def scaleSlots (range : TupletRange) (slots : List Slot) : List Slot :=
  match slots.map range.scaleSlot with
  | [] => []
  | first :: rest =>
    let lost := range.lostUnits (slots.map Slot.displayDuration)
    { first with duration := first.duration + lost } :: rest

/-- The slots of a line that belong to the range. -/
def slotsIn (range : TupletRange) (slots : List Slot) : List Slot :=
  (slots.drop range.start).take (range.stop + 1 - range.start)

/-- Scale the slots of a line that belong to the range. -/
def scale (range : TupletRange) (slots : List Slot) : List Slot :=
  slots.take range.start ++ range.scaleSlots (range.slotsIn slots) ++ slots.drop (range.stop + 1)

/-- Slots drawn with these units can be scaled: nothing is divided by zero, no difference is
negative, and every number that is formed fits. -/
structure Fits (range : TupletRange) (drawn : List Nat) : Prop where
  divides : range.actual ≠ 0
  total : sumOf drawn < wordLimit
  product : sumOf drawn * range.normal < wordLimit
  products : ∀ units ∈ drawn, units * range.normal < wordLimit
  rounded : range.roundedUnits drawn < wordLimit
  difference : range.roundedUnits drawn ≤ range.scaledUnits (sumOf drawn)
  first : ∀ units ∈ drawn.head?, range.scaledUnits units + range.lostUnits drawn < wordLimit

instance (range : TupletRange) (drawn : List Nat) : Decidable (range.Fits drawn) :=
  decidable_of_iff (range.actual ≠ 0 ∧ sumOf drawn < wordLimit ∧
      sumOf drawn * range.normal < wordLimit ∧
      (∀ units ∈ drawn, units * range.normal < wordLimit) ∧
      range.roundedUnits drawn < wordLimit ∧
      range.roundedUnits drawn ≤ range.scaledUnits (sumOf drawn) ∧
      ∀ units ∈ drawn.head?, range.scaledUnits units + range.lostUnits drawn < wordLimit)
    ⟨fun ⟨divides, total, product, products, rounded, difference, first⟩ =>
        ⟨divides, total, product, products, rounded, difference, first⟩,
      fun h => ⟨h.divides, h.total, h.product, h.products, h.rounded, h.difference, h.first⟩⟩

end TupletRange

/-- Scale the slots of a line for each of its tuplets. -/
def scaleTuplets (tuplets : List TupletRange) (slots : List Slot) : List Slot :=
  tuplets.foldl (fun slots range => range.scale slots) slots

/-- The times of a line can be computed: the slots of every tuplet can be scaled, and what all
slots last fits. Scaling leaves alone what a slot is drawn with, so it does not matter whether
a tuplet is looked at before others are scaled or after. -/
structure TimesFit (tuplets : List TupletRange) (slots : List Slot) : Prop where
  ranges : ∀ range ∈ tuplets, range.Fits ((range.slotsIn slots).map Slot.displayDuration)
  total : sumOf ((scaleTuplets tuplets slots).map Slot.duration) < wordLimit

instance (tuplets : List TupletRange) (slots : List Slot) : Decidable (TimesFit tuplets slots) :=
  decidable_of_iff
    ((∀ range ∈ tuplets, range.Fits ((range.slotsIn slots).map Slot.displayDuration)) ∧
      sumOf ((scaleTuplets tuplets slots).map Slot.duration) < wordLimit)
    ⟨fun ⟨ranges, total⟩ => ⟨ranges, total⟩, fun h => ⟨h.ranges, h.total⟩⟩

namespace TupletRange

@[simp] theorem length_scaleSlots (range : TupletRange) (slots : List Slot) :
    (range.scaleSlots slots).length = slots.length := by
  cases slots <;> simp [scaleSlots]

end TupletRange

end Stave
