import Stave.Decimal.Reading
import Stave.Engraving.Record
import Stave.Music.RosterText
import Stave.Score.Argument
import Stave.Score.Edit
import Stave.Score.View
import Stave.Proofs.Draft.Step
import Stave.Proofs.Draft.Run
import Stave.Proofs.WrittenLine.Built
import Stave.Proofs.Score.Completion
import Stave.Proofs.Score.Edits
import Stave.Proofs.Score.LinesWritten
import Stave.Proofs.Score.DeclaredMeters
import Stave.Proofs.Token.Read
import Stave.Proofs.Draft.Heads
import Stave.Proofs.Draft.SlurView
import Stave.Proofs.Draft.Slurs
import Stave.Proofs.Draft.Ramps
import Stave.Proofs.WrittenLine.InRange
import Stave.Proofs.WrittenLine.Slurs
import Stave.Proofs.Draft.RampChain
import Stave.Proofs.WrittenLine.Ramps
import Stave.Proofs.Declaration.InTurn
import Stave.Proofs.Declaration.Offsets
import Stave.Proofs.Declaration.Bars
import Stave.Proofs.Score.BarLine
import Stave.Proofs.Expansion.Again
import Stave.Proofs.Declaration.Abbreviation
import Stave.Proofs.Declaration.Braces
import Stave.Proofs.Draft.Slotted
import Stave.Proofs.Draft.SlurTrail
import Stave.Proofs.Score.SlurPairing
import Stave.Proofs.Score.DeclaredBars
import Stave.Proofs.Declaration.FullRest
import Stave.Proofs.Engraving.Passes
import Stave.Proofs.Engraving.Signs
import Stave.Proofs.Engraving.Runs
import Stave.Proofs.Engraving.Complete
import Stave.Proofs.Engraving.Transposed
import Stave.Proofs.Score.EditLaws
import Stave.Proofs.Score.ShelfRuns
import Stave.Proofs.Score.CursorStart
import Stave.Proofs.Score.RestsPutIn
import Stave.Proofs.Repeat.Spliced
import Stave.Proofs.Expansion.Origins
import Stave.Proofs.Expansion.Requoted
import Stave.Proofs.Expansion.Bounded
import Stave.Proofs.Token.Tiled
import Stave.Proofs.Token.Written
import Stave.Proofs.WrittenLine.Drawn
import Stave.Proofs.WrittenLine.Tuplets
import Stave.Proofs.WrittenLine.Times
import Stave.Proofs.Engraving.Naturals
import Stave.Proofs.Tuplet.Outlined
import Stave.Proofs.WrittenLine.Carried
import Stave.Proofs.Tuplet.Counted
import Stave.Proofs.Draft.Counted
import Stave.Proofs.WrittenLine.Counted
import Stave.Proofs.WrittenLine.Respread
import Stave.Proofs.Draft.Levels
import Stave.Proofs.WrittenLine.Levels
import Stave.Proofs.Ledger.Rebased
import Stave.Proofs.Grammar.PitchSpelling
import Stave.Proofs.Engraving.BeatRuns
import Stave.Proofs.WrittenLine.Sounding
import Stave.Proofs.Engraving.Stems
