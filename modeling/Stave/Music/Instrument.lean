import Stave.Data.Table

/-!
# Instruments and rosters

A roster holds the instruments of a piece, each under its own name and in the order
of the names. That every instrument stands under its own name is part of the type.
-/
namespace Stave

/-- The clefs. -/
inductive Clef where
  | treble
  | bass
  | alto
  | tenor
  | percussion
deriving DecidableEq, Inhabited

namespace Clef

/-- Every clef. -/
def all : List Clef := [treble, bass, alto, tenor, percussion]

/-- The word for a clef. -/
def keyword : Clef → String
  | treble => "treble"
  | bass => "bass"
  | alto => "alto"
  | tenor => "tenor"
  | percussion => "percussion"

/-- The clef of a word, if the word is one. -/
def ofKeyword? (word : String) : Option Clef := all.find? fun clef => clef.keyword = word

/-- The staff position of the middle line. -/
def middleLine : Clef → Int
  | treble => 13
  | bass => 1
  | alto => 7
  | tenor => 5
  | percussion => 13

@[simp] theorem ofKeyword?_keyword (clef : Clef) : ofKeyword? clef.keyword = some clef := by
  cases clef <;> decide

end Clef

/-- An instrument of a piece. -/
structure Instrument where
  name : String
  /-- The semitones between the written and the sounding pitch. -/
  transposition : Int
  /-- A rhythm staff takes bare durations and puts every head on the middle line. -/
  rhythm : Bool
  clef : Clef
deriving DecidableEq

namespace Instrument

/-- An untransposed instrument in the treble clef. -/
def named (name : String) : Instrument := ⟨name, 0, false, .treble⟩

instance : Inhabited Instrument := ⟨named ""⟩

/-- The instrument on a rhythm staff. -/
def asRhythm (instrument : Instrument) : Instrument :=
  { instrument with rhythm := true, clef := .percussion }

end Instrument

/-- The instruments of a piece, in the order of their names. -/
structure Roster where
  instruments : Table String Instrument
  named : ∀ entry ∈ instruments.entries, entry.1 = entry.2.name

namespace Roster

/-- No instruments. -/
def empty : Roster := ⟨.empty, by simp [Table.empty]⟩

instance : Inhabited Roster := ⟨empty⟩

/-- The instrument of a name. -/
def get? (roster : Roster) (name : String) : Option Instrument := roster.instruments.get? name

/-- Add an instrument, over any of the same name. -/
def insert (roster : Roster) (instrument : Instrument) : Roster where
  instruments := roster.instruments.insert instrument.name instrument
  named entry h := by
    rcases Table.mem_place h with rfl | h
    · rfl
    · exact roster.named entry h

/-- Add instruments from left to right; the last of a name stays. -/
def ofList (instruments : List Instrument) : Roster := instruments.foldl insert empty

/-- Add instruments that must have different names; a name that comes twice is the error. -/
def ofDistinct (instruments : List Instrument) : Except String Roster :=
  instruments.foldlM (fun roster instrument =>
    if (roster.get? instrument.name).isSome then .error instrument.name
    else .ok (roster.insert instrument)) empty

/-- The names in order. -/
def names (roster : Roster) : List String := roster.instruments.keys

/-- The instruments in the order of their names. -/
def toList (roster : Roster) : List Instrument := roster.instruments.values

/-- The number of instruments. -/
def size (roster : Roster) : Nat := roster.instruments.size

/-- Whether there are no instruments. -/
def isEmpty (roster : Roster) : Bool := roster.instruments.isEmpty

@[simp] theorem get?_insert (roster : Roster) (instrument : Instrument) (name : String) :
    (roster.insert instrument).get? name =
      if name = instrument.name then some instrument else roster.get? name :=
  Table.get?_insert ..

end Roster

end Stave
