import Stave.Music.Instrument
import Stave.Music.Meter
import Stave.Music.Tempo
import Stave.Shorthand.NoteWord

/-!
# Tokens

The tokens of a line and the errors of reading them. Notes, rests, chord ends and
post-events are already read when they become tokens. Every token knows where it
begins in the expanded text and in the typed line.
-/
namespace Stave.Shorthand

/-- What a token is. -/
inductive TokenKind where
  | note (word : NoteWord)
  | rest (suffix : Suffix)
  | chordStart
  | chordEnd (suffix : Suffix)
  /-- A length without a pitch, for rhythm staves. -/
  | duration (suffix : Suffix)
  /-- Post-events on their own, for the slot before them. -/
  | postEvents (events : List PostEvent)
  | tuplet (actual normal : Nat)
  | groupOpen
  | groupClose
  | ottava (level : Int)
  | clef (clef : Clef)
  | time (meter : Meter)
  | tempo (tempo : Tempo)
  /-- The sign between two bars of a declaration. -/
  | barLine
deriving DecidableEq, Inhabited

/-- A token and its place. -/
structure Token where
  kind : TokenKind
  text : String
  /-- The byte of the expanded text it begins at. -/
  position : Nat
  /-- The byte of the typed line it begins at. -/
  origin : Nat
deriving DecidableEq, Inhabited

/-- What can be wrong with the words of a line. -/
inductive TokenFault where
  | ambiguousLetter (word : String)
  | unterminatedQuote
  | unterminatedChord
  | nestedChord
  | strayChordEnd
  | malformedDirective (directive : String)
  | unknownWord (word : String)
  | malformed (word : String) (reason : WordError)
deriving DecidableEq

namespace TokenFault

/-- The name of a fault in diagnostics. -/
def kind : TokenFault → String
  | ambiguousLetter _ => "ambiguous_letter"
  | unterminatedQuote => "unterminated_quote"
  | unterminatedChord => "unterminated_chord"
  | nestedChord => "nested_chord"
  | strayChordEnd => "stray_chord_end"
  | malformedDirective _ => "malformed_directive"
  | unknownWord _ => "unknown_word"
  | malformed _ _ => "malformed_word"

/-- The wording of a fault. -/
def message : TokenFault → String
  | ambiguousLetter word => "'" ++ word ++ "' starts like a note but is not one"
  | unterminatedQuote => "text is missing its closing quote"
  | unterminatedChord => "chord is missing its closing '>'"
  | nestedChord => "chord opened inside another chord"
  | strayChordEnd => "'>' without an open chord"
  | malformedDirective directive => "malformed " ++ directive
  | unknownWord word => "unknown word '" ++ word ++ "'"
  | malformed word reason => "'" ++ word ++ "': " ++ reason.message

end TokenFault

/-- A fault and the byte of the typed line it is reported at. -/
structure TokenError where
  fault : TokenFault
  offset : Nat
deriving DecidableEq

end Stave.Shorthand
