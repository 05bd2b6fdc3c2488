import Stave.Data.Json.Writing
import Stave.Engraving.Layout

/-!
# Layouts as records

A layout is handed to a drawing program as JSON. Every field is there, empty ones as
null; slots and heads are named by index, and the control points of a curve are
`cp1` and `cp2`.
-/
namespace Stave

open Json (ofNat ofInt ofSingle ofOption ofList)

/-! ## Words -/

/-- The word for a glyph. -/
def AccidentalGlyph.word : AccidentalGlyph → String
  | doubleFlat => "doubleFlat"
  | threeQuarterFlat => "threeQuarterFlat"
  | flat => "flat"
  | quarterFlat => "quarterFlat"
  | natural => "natural"
  | quarterSharp => "quarterSharp"
  | sharp => "sharp"
  | threeQuarterSharp => "threeQuarterSharp"
  | doubleSharp => "doubleSharp"

/-- The word for a direction. -/
def RampDirection.word : RampDirection → String
  | crescendo => "Crescendo"
  | diminuendo => "Diminuendo"

/-- The word for a side of the staff. -/
def Placement.word : Placement → String
  | above => "Above"
  | below => "Below"

namespace Engraving

/-- The word for a direction. -/
def StemDirection.word : StemDirection → String
  | up => "up"
  | down => "down"

/-! ## Parts -/

/-- Numbers by name. -/
def singles (fields : List (String × Float32)) : List (String × Json) :=
  fields.map fun (name, x) => (name, ofSingle x)

def Ink.record (ink : Ink) : Json := .object (singles [("top", ink.top), ("bottom", ink.bottom)])

def Head.record (head : Head) : Json :=
  .object [("y", ofSingle head.y), ("staff_index", ofInt head.index),
    ("accidental", ofOption (fun glyph => .string glyph.word) head.accidental)]

def PlacedSlot.record (slot : PlacedSlot) : Json :=
  .object [("x", ofSingle slot.x), ("heads", ofList Head.record slot.heads),
    ("rest_y", ofOption ofSingle slot.restY),
    ("stem", ofOption (fun direction => .string direction.word) slot.stem),
    ("stem_tip", ofOption ofSingle slot.stemTip), ("beam_count", ofNat slot.beamCount),
    ("ledger_above", ofNat slot.ledgerAbove), ("ledger_below", ofNat slot.ledgerBelow),
    ("ink", slot.ink.record)]

def Beam.record (beam : Beam) : Json :=
  .object ([("start", ofNat beam.start), ("end", ofNat beam.stop),
    ("direction", .string beam.direction.word), ("levels", ofNat beam.levels)] ++
    singles [("x_start", beam.xStart), ("x_end", beam.xStop), ("y_start", beam.yStart),
      ("y_end", beam.yStop)])

def AccidentalSign.record (sign : AccidentalSign) : Json :=
  .object ([("slot", ofNat sign.slot), ("head", ofNat sign.head),
    ("glyph", .string sign.glyph.word)] ++ singles [("x", sign.x), ("y", sign.y)])

def TupletBracket.record (bracket : TupletBracket) : Json :=
  .object ([("start", ofNat bracket.start), ("end", ofNat bracket.stop),
    ("numeral", .string bracket.numeral), ("above", .bool bracket.above),
    ("bracket", .bool bracket.drawn)] ++
    singles [("x_start", bracket.xStart), ("x_end", bracket.xStop), ("y_start", bracket.yStart),
      ("y_end", bracket.yStop), ("gap_start", bracket.gapStart), ("gap_end", bracket.gapStop),
      ("numeral_x", bracket.numeralX), ("numeral_y", bracket.numeralY)])

def ArticulationMark.record (mark : ArticulationMark) : Json :=
  .object ([("slot", ofNat mark.slot), ("articulation", ofNat mark.articulation.code),
    ("above", .bool mark.above)] ++ singles [("x", mark.x), ("y", mark.y)])

def Curve.record (curve : Curve) : Json :=
  .object ([("start", ofOption ofNat curve.start), ("end", ofOption ofNat curve.stop),
    ("above", .bool curve.above)] ++
    singles [("x0", curve.x0), ("y0", curve.y0), ("cp1x", curve.controlX1),
      ("cp1y", curve.controlY1), ("cp2x", curve.controlX2), ("cp2y", curve.controlY2),
      ("x1", curve.x1), ("y1", curve.y1)])

def Glissando.record (line : Glissando) : Json :=
  .object (("slot", ofNat line.slot) ::
    singles [("x0", line.x0), ("y0", line.y0), ("x1", line.x1), ("y1", line.y1)])

def OttavaBracket.record (bracket : OttavaBracket) : Json :=
  .object ([("start", ofNat bracket.start), ("end", ofNat bracket.stop),
    ("level", ofInt bracket.level), ("label", .string bracket.label),
    ("above", .bool bracket.above)] ++
    singles [("x_start", bracket.xStart), ("line_start", bracket.lineStart),
      ("x_end", bracket.xStop), ("y", bracket.y), ("tick", bracket.tick)])

def TextMark.record (mark : TextMark) : Json :=
  .object ([("slot", ofNat mark.slot), ("text", .string mark.text),
    ("placement", .string mark.placement.word)] ++ singles [("x", mark.x), ("y", mark.y)])

def DynamicMark.record (mark : DynamicMark) : Json :=
  .object ([("slot", ofNat mark.slot), ("name", .string mark.name)] ++
    singles [("x", mark.x), ("y", mark.y)])

def Hairpin.record (hairpin : Hairpin) : Json :=
  .object ([("direction", .string hairpin.direction.word),
    ("start", ofOption ofNat hairpin.start), ("end", ofOption ofNat hairpin.stop)] ++
    singles [("x_start", hairpin.xStart), ("x_end", hairpin.xStop), ("y_start", hairpin.yStart),
      ("y_end", hairpin.yStop), ("opening", hairpin.opening)])

/-! ## Wholes -/

/-- Everything that is drawn in a bar. -/
def Layout.record (layout : Layout) : Json :=
  .object
    [("width", ofSingle layout.width),
     ("slots", ofList PlacedSlot.record layout.slots),
     ("beams", ofList Beam.record layout.beams),
     ("accidentals", ofList AccidentalSign.record layout.accidentals),
     ("tuplets", ofList TupletBracket.record layout.tuplets),
     ("articulations", ofList ArticulationMark.record layout.articulations),
     ("slurs", ofList Curve.record layout.slurs),
     ("ties", ofList Curve.record layout.ties),
     ("glissandi", ofList Glissando.record layout.glissandi),
     ("ottavas", ofList OttavaBracket.record layout.ottavas),
     ("texts", ofList TextMark.record layout.texts),
     ("dynamics", ofList DynamicMark.record layout.dynamics),
     ("hairpins", ofList Hairpin.record layout.hairpins)]

/-- Every setting by its name. -/
def Config.record (config : Config) : Json :=
  .object (singles (Config.settings.map fun setting => (setting.name, setting.read config)))

end Engraving

end Stave
