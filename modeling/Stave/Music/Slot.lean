import Stave.Music.Articulation
import Stave.Music.Dynamic
import Stave.Music.Length
import Stave.Music.Pitch

/-!
# Slots

A slot is one onset of a melodic line: a rest, a note or a chord, its time, and the
marks attached to it. Slurs are named by their index in the line; ties, glissandi
and ramps are flags that the line turns into links between slots.
-/
namespace Stave

/-- What sounds in a slot. -/
inductive SlotContent where
  | rest
  | single (pitch : Pitch)
  /-- The pitches of a chord in the order they were written. -/
  | chord (pitches : List Pitch)
deriving Inhabited

namespace SlotContent

/-- The pitches that sound. -/
def pitches : SlotContent → List Pitch
  | rest => []
  | single pitch => [pitch]
  | chord pitches => pitches

/-- The content of a list of pitches that is a note if there is one, else a chord. -/
def ofPitches : List Pitch → SlotContent
  | [pitch] => single pitch
  | pitches => chord pitches

/-- Whether nothing sounds. -/
def isRest : SlotContent → Bool
  | rest => true
  | _ => false

/-- Put new pitches in the place of the old ones, in order. -/
def withPitches (content : SlotContent) (pitches : List Pitch) : SlotContent :=
  match content, pitches with
  | rest, _ => rest
  | single _, pitch :: _ => single pitch
  | single pitch, [] => single pitch
  | chord _, pitches => chord pitches

@[simp] theorem pitches_ofPitches (pitches : List Pitch) :
    (ofPitches pitches).pitches = pitches := by
  unfold ofPitches
  split <;> rfl

theorem pitches_withPitches {content : SlotContent} {pitches : List Pitch}
    (h : pitches.length = content.pitches.length) :
    (content.withPitches pitches).pitches = pitches := by
  cases content with
  | rest => cases pitches <;> simp_all [withPitches, SlotContent.pitches]
  | single pitch =>
    match pitches, h with
    | [p], _ => rfl
  | chord old => rfl

end SlotContent

/-- The side of the staff a text stands on. -/
inductive Placement where
  | above
  | below
deriving DecidableEq, Inhabited

/-- One for above, minus one for below. -/
def Placement.sign : Placement → Int
  | above => 1
  | below => -1

/-- Free text attached to a slot. -/
structure StaffText where
  text : String
  placement : Placement
deriving DecidableEq

/-- One onset of a melodic line. -/
structure Slot where
  content : SlotContent
  /-- The units the slot lasts, after dots and tuplets. -/
  duration : Nat
  /-- The units the slot is drawn with, tuplets left out. -/
  displayDuration : Nat
  length : NoteLength
  /-- A glissando starts here. -/
  glissando : Bool
  /-- The octave shift in force, counted in octaves upwards. -/
  ottava : Int
  /-- The slurs of the line that open here. -/
  slursOpened : List Nat
  /-- The slurs of the line that close here. -/
  slursClosed : List Nat
  /-- Tied to the next slot. -/
  tied : Bool
  articulations : List Articulation
  dynamic : Option Dynamic
  ramp : Option RampRole
  staffText : Option StaffText
  level : Level
  loudness : Float32
  /-- The byte of the typed line the slot begins at. -/
  offset : Nat
deriving Inhabited

namespace Slot

/-- A slot without marks. -/
def of (content : SlotContent) (length : NoteLength) (offset : Nat) : Slot where
  content := content
  duration := length.units
  displayDuration := length.units
  length := length
  glissando := false
  ottava := 0
  slursOpened := []
  slursClosed := []
  tied := false
  articulations := []
  dynamic := none
  ramp := none
  staffText := none
  level := initialLevel
  loudness := loudnessOf initialLevel
  offset := offset

/-- Whether nothing sounds in the slot. -/
def isRest (slot : Slot) : Bool := slot.content.isRest

/-- The pitches of the slot. -/
def pitches (slot : Slot) : List Pitch := slot.content.pitches

/-- The number of the first articulation, zero if there is none. -/
def articulationCode (slot : Slot) : Nat :=
  match slot.articulations with
  | [] => 0
  | mark :: _ => mark.code

/-- Give the slot a further part in the ramps of its line. -/
def addRampRole (slot : Slot) (role : RampRole) : Slot :=
  { slot with ramp := some (RampRole.merge slot.ramp role) }

end Slot

end Stave
