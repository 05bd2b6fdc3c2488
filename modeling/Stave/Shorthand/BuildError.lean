import Stave.Music.Meter

/-!
# Errors of building a line

What can be wrong with a line whose words can all be read. A time that does not fit is not an
error like the others: it is not reported to whoever wrote the line, and nothing goes on.
-/
namespace Stave.Shorthand

/-- What can be wrong with the tokens of a line. -/
inductive BuildFault where
  | missingDuration
  | durationWithoutPitch
  | durationInsideChord
  | restInsideChord
  | emptyChord
  | unterminatedChord
  | danglingPostEvent
  | unmatchedSlurClose
  | unmatchedRampStop
  | tupletWithoutGroup
  | nestedTuplet
  | unterminatedTuplet
  | emptyTuplet
  | tupletOutOfRange
  | strayGroupOpen
  | strayGroupClose
  | barLineInLine
  | barLength (expected actual : Nat)
  | meterConflict (meter existing : Meter)
  /-- A number formed for the times of the line does not fit in a word, or would be a quotient
  by zero. There is no answer then: the computation stops here. -/
  | overflow
deriving DecidableEq

namespace BuildFault

/-- The name of a fault in diagnostics. -/
def kind : BuildFault → String
  | missingDuration => "missing_duration"
  | durationWithoutPitch => "duration_without_pitch"
  | durationInsideChord => "duration_inside_chord"
  | restInsideChord => "rest_inside_chord"
  | emptyChord => "empty_chord"
  | unterminatedChord => "unterminated_chord"
  | danglingPostEvent => "dangling_post_event"
  | unmatchedSlurClose => "slur_orphan_end"
  | unmatchedRampStop => "ramp_orphan_end"
  | tupletWithoutGroup => "tuplet_without_group"
  | nestedTuplet => "nested_tuplet"
  | unterminatedTuplet => "unterminated_tuplet"
  | emptyTuplet => "empty_tuplet"
  | tupletOutOfRange => "tuplet_out_of_range"
  | strayGroupOpen => "stray_group_open"
  | strayGroupClose => "stray_group_close"
  | barLineInLine => "bar_separator"
  | barLength _ _ => "bar_length"
  | meterConflict _ _ => "meter_conflict"
  | overflow => "overflow"

/-- The wording of a fault. -/
def message : BuildFault → String
  | missingDuration => "no duration to carry into the first note"
  | durationWithoutPitch => "a bare duration needs a rhythm instrument"
  | durationInsideChord => "chord notes take their duration after '>'"
  | restInsideChord => "rests cannot be part of a chord"
  | emptyChord => "chord has no notes"
  | unterminatedChord => "chord is missing its closing '>'"
  | danglingPostEvent => "nothing before this to attach to"
  | unmatchedSlurClose => "slur closed but never opened"
  | unmatchedRampStop => "\\! without an open crescendo or diminuendo"
  | tupletWithoutGroup => "tuplet is missing its '\x7b' group"
  | nestedTuplet => "tuplets cannot be nested"
  | unterminatedTuplet => "tuplet group is missing its '\x7d'"
  | emptyTuplet => "tuplet group has no notes"
  | tupletOutOfRange => "tuplet refers to slots the bar does not have"
  | strayGroupOpen => "'\x7b' outside a tuplet"
  | strayGroupClose => "'\x7d' without an open group"
  | barLineInLine => "'|' only separates bars in a multi-bar declaration"
  | barLength expected actual =>
    "bar lasts " ++ toString actual ++ " units but the meter needs " ++ toString expected
  | meterConflict meter existing =>
    "\\time " ++ meter.text ++ " conflicts with the other instruments' " ++ existing.text
  | overflow => "a time of the line does not fit"

end BuildFault

/-- A fault and the byte of the typed line it is reported at. -/
@[ext] structure BuildError where
  fault : BuildFault
  offset : Nat
deriving DecidableEq

end Stave.Shorthand
