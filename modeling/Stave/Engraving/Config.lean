/-!
# Engraving settings

Every distance is in pixels and in single precision. A setting that is not given keeps
its default, so a partial list of settings is enough to change one of them.
-/
namespace Stave.Engraving

/-- The distances that engraving uses. -/
structure Config where
  /-- The distance between two staff lines. -/
  staffSpace : Float32
  /-- The width of one bar. -/
  barWidth : Float32
  /-- The space before the first slot. -/
  leftPadding : Float32
  /-- The space after the last onset. -/
  rightPadding : Float32
  noteheadWidth : Float32
  stemLength : Float32
  accidentalWidth : Float32
  /-- The gap between an accidental and its head. -/
  accidentalGap : Float32
  /-- The largest rise of a beam for each slot it goes on. -/
  beamSlopeStep : Float32
  beamThickness : Float32
  /-- The clearance between ink and a tuplet bracket. -/
  tupletGap : Float32
  /-- The opening of a bracket for its numeral. -/
  tupletNumeralWidth : Float32
  tupletNumeralHeight : Float32
  articulationGap : Float32
  /-- The height of one articulation glyph. -/
  articulationHeight : Float32
  slurGap : Float32
  slurMinHeight : Float32
  tieHeight : Float32
  ottavaGap : Float32
  ottavaLabelWidth : Float32
  ottavaHeight : Float32
  ottavaTick : Float32
  textGap : Float32
  textHeight : Float32
  dynamicGap : Float32
  dynamicWidth : Float32
  dynamicHeight : Float32
  /-- The gap between a hairpin and a dynamic it meets. -/
  hairpinGap : Float32
  hairpinOpening : Float32

namespace Config

/-- The settings in force when nothing is said. -/
def default : Config where
  staffSpace := 8.0
  barWidth := 240.0
  leftPadding := 12.0
  rightPadding := 8.0
  noteheadWidth := 9.0
  stemLength := 28.0
  accidentalWidth := 8.0
  accidentalGap := 2.0
  beamSlopeStep := 2.0
  beamThickness := 4.0
  tupletGap := 6.0
  tupletNumeralWidth := 8.0
  tupletNumeralHeight := 8.0
  articulationGap := 4.0
  articulationHeight := 6.0
  slurGap := 4.0
  slurMinHeight := 6.0
  tieHeight := 4.0
  ottavaGap := 6.0
  ottavaLabelWidth := 18.0
  ottavaHeight := 10.0
  ottavaTick := 6.0
  textGap := 4.0
  textHeight := 10.0
  dynamicGap := 8.0
  dynamicWidth := 14.0
  dynamicHeight := 10.0
  hairpinGap := 3.0
  hairpinOpening := 8.0

instance : Inhabited Config := ⟨default⟩

/-- A setting by its name. -/
structure Setting where
  name : String
  read : Config → Float32
  write : Float32 → Config → Config

/-- Every setting. -/
def settings : List Setting :=
  [⟨"staff_space", staffSpace, fun x config => { config with staffSpace := x }⟩,
   ⟨"bar_width", barWidth, fun x config => { config with barWidth := x }⟩,
   ⟨"left_padding", leftPadding, fun x config => { config with leftPadding := x }⟩,
   ⟨"right_padding", rightPadding, fun x config => { config with rightPadding := x }⟩,
   ⟨"notehead_width", noteheadWidth, fun x config => { config with noteheadWidth := x }⟩,
   ⟨"stem_length", stemLength, fun x config => { config with stemLength := x }⟩,
   ⟨"accidental_width", accidentalWidth, fun x config => { config with accidentalWidth := x }⟩,
   ⟨"accidental_gap", accidentalGap, fun x config => { config with accidentalGap := x }⟩,
   ⟨"beam_slope_step", beamSlopeStep, fun x config => { config with beamSlopeStep := x }⟩,
   ⟨"beam_thickness", beamThickness, fun x config => { config with beamThickness := x }⟩,
   ⟨"tuplet_gap", tupletGap, fun x config => { config with tupletGap := x }⟩,
   ⟨"tuplet_numeral_width", tupletNumeralWidth, fun x config => { config with tupletNumeralWidth := x }⟩,
   ⟨"tuplet_numeral_height", tupletNumeralHeight, fun x config => { config with tupletNumeralHeight := x }⟩,
   ⟨"articulation_gap", articulationGap, fun x config => { config with articulationGap := x }⟩,
   ⟨"articulation_height", articulationHeight, fun x config => { config with articulationHeight := x }⟩,
   ⟨"slur_gap", slurGap, fun x config => { config with slurGap := x }⟩,
   ⟨"slur_min_height", slurMinHeight, fun x config => { config with slurMinHeight := x }⟩,
   ⟨"tie_height", tieHeight, fun x config => { config with tieHeight := x }⟩,
   ⟨"ottava_gap", ottavaGap, fun x config => { config with ottavaGap := x }⟩,
   ⟨"ottava_label_width", ottavaLabelWidth, fun x config => { config with ottavaLabelWidth := x }⟩,
   ⟨"ottava_height", ottavaHeight, fun x config => { config with ottavaHeight := x }⟩,
   ⟨"ottava_tick", ottavaTick, fun x config => { config with ottavaTick := x }⟩,
   ⟨"text_gap", textGap, fun x config => { config with textGap := x }⟩,
   ⟨"text_height", textHeight, fun x config => { config with textHeight := x }⟩,
   ⟨"dynamic_gap", dynamicGap, fun x config => { config with dynamicGap := x }⟩,
   ⟨"dynamic_width", dynamicWidth, fun x config => { config with dynamicWidth := x }⟩,
   ⟨"dynamic_height", dynamicHeight, fun x config => { config with dynamicHeight := x }⟩,
   ⟨"hairpin_gap", hairpinGap, fun x config => { config with hairpinGap := x }⟩,
   ⟨"hairpin_opening", hairpinOpening, fun x config => { config with hairpinOpening := x }⟩]

/-- Change the setting of a name; an unknown name changes nothing. -/
def set (config : Config) (name : String) (x : Float32) : Config :=
  match settings.find? fun setting => setting.name = name with
  | some setting => setting.write x config
  | none => config

/-- Where the middle staff line is. -/
def middleY (config : Config) : Float32 := config.staffSpace * 2.0

/-- Where the bottom staff line is. -/
def bottomY (config : Config) : Float32 := config.staffSpace * 4.0

/-- The height of one staff position. -/
def stepHeight (config : Config) : Float32 := config.staffSpace / 2.0

end Config

end Stave.Engraving
