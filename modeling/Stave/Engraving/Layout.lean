import Stave.Engraving.AccidentalSign
import Stave.Engraving.ArticulationMark
import Stave.Engraving.Hairpin
import Stave.Engraving.Ottava
import Stave.Engraving.Slur
import Stave.Engraving.Stem
import Stave.Engraving.TextMark
import Stave.Engraving.Tie
import Stave.Engraving.TupletBracket

/-!
# The layout of a bar

What is drawn for one instrument in one bar, from the heads outwards: stems and beams,
accidentals, tuplet brackets, articulations, slurs, ties and glissandi, octave
brackets, texts, and dynamics last. Each step keeps clear of the ink of those before.
-/
namespace Stave.Engraving

/-- What a bar has to know of the bar drawn to its left. -/
structure Context where
  /-- The alterations that bar ends with, if there is a bar. -/
  previousFinals : Option Alterations
  /-- That bar ends with a tie into this one. -/
  tiedIn : Bool
deriving Inhabited

/-- Everything that is drawn in a bar. -/
structure Layout where
  width : Float32
  slots : List PlacedSlot
  beams : List Beam
  accidentals : List AccidentalSign
  tuplets : List TupletBracket
  articulations : List ArticulationMark
  slurs : List Curve
  ties : List Curve
  glissandi : List Glissando
  ottavas : List OttavaBracket
  texts : List TextMark
  dynamics : List DynamicMark
  hairpins : List Hairpin
deriving Inhabited

namespace Layout

/-- The beam a slot belongs to. -/
def beamOf? (layout : Layout) (slot : Nat) : Option Beam := layout.beams.find? (·.contains slot)

/-- The ink of the whole bar. -/
def extent? (layout : Layout) : Option Ink :=
  match layout.slots with
  | [] => none
  | first :: rest =>
    some (rest.foldl (fun ink slot => (ink.extend slot.ink.top).extend slot.ink.bottom) first.ink)

/-- Lay out a line in a bar of a given meter. -/
def of (config : Config) (line : Line) (meter : Meter) (context : Context) : Layout :=
  let placed := placeSlots config line meter
  let beams := beamsOf config line meter placed
  let stemmed := addStems config line beams placed
  let signs := accidentalSigns config line context.previousFinals stemmed
  let signed := addAccidentals config signs stemmed
  let (bracketed, tuplets) := addBrackets config line beams signed
  let (articulated, articulations) := addMarks config line bracketed
  let (slurred, slurs) := addSlurs config line articulated
  let (tied, ties) := addTies config line context.tiedIn slurred
  let (shifted, ottavas) := addOttavas config line tied
  let (lettered, texts) := addTexts config line shifted
  let (slots, dynamics, hairpins) := addDynamics config line lettered
  { width := config.barWidth
    slots := slots
    beams := beams
    accidentals := signs.flatten
    tuplets := tuplets
    articulations := articulations
    slurs := slurs
    ties := ties
    glissandi := glissandoLines config line tied
    ottavas := ottavas
    texts := texts
    dynamics := dynamics
    hairpins := hairpins }

end Layout

end Stave.Engraving
