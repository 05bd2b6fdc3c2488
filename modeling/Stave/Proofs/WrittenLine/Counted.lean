import Stave.Proofs.Draft.Counted
import Stave.Proofs.WrittenLine.Built

/-!
# Lines by the slots before them

A line is built from the indices of tokens, which the ledger moves to those of slots at the end.
But for its clef and tempo it is the line that is built from the indices of slots from the first,
with nothing left to move.
-/
namespace Stave.Shorthand

/-- A line without its clef and tempo. -/
def WrittenLine.plain (written : WrittenLine) : WrittenLine :=
  { written with
    line := { written.line with clef := default }
    frame := { written.frame with tempo := default }
    tempoChanged := false }

/-- The ledger of tokens all of which head a slot. -/
def Ledger.empty : Ledger := ⟨#[]⟩

/-- Build the line of a list of tokens, but for its clef and tempo, from the indices of slots. -/
def buildCounted (tokens : List Token) (instrument : Instrument) (prior : Carry) (frame : Frame) :
    Except BuildError WrittenLine := do
  let groups ← TupletGroup.collectCounted 0 false none [] tokens
  let draft ← ((Draft.start instrument prior frame).acceptCounted instrument 0 tokens).map
    (Draft.numbered id)
  draft.finish instrument prior tokens .empty groups

variable {tokens : List Token} {instrument : Instrument} {prior : Carry} {frame : Frame}

theorem Ledger.rebase_empty (index : Nat) : Ledger.empty.rebase index = index := by
  have hsearch : Ledger.empty.removedBefore index = 0 := by
    unfold removedBefore search
    rfl
  rw [rebase, hsearch, Nat.sub_zero]

namespace Draft

theorem closing_numbered (move : Nat → Nat) (draft : Draft) :
    (draft.numbered move).closing = draft.closing := by
  simp [closing, numbered, Function.comp_def]

theorem resolvedSlots_numbered (move : Nat → Nat) (draft : Draft) (instrument : Instrument) :
    (draft.numbered move).resolvedSlots instrument = draft.resolvedSlots instrument := by
  simp [resolvedSlots, numbered, Function.comp_def]

theorem allSlurs_numbered (draft : Draft) (ledger : Ledger) :
    (draft.numbered ledger.rebase).allSlurs.map (rebaseLink .empty) =
      draft.allSlurs.map (rebaseLink ledger) := by
  simp [allSlurs, numbered, rebaseLink, movedLink, Ledger.rebase_empty, Function.comp_def]

theorem allRamps_numbered (draft : Draft) (ledger : Ledger) :
    (draft.numbered ledger.rebase).allRamps.map (rebaseRamp .empty) =
      draft.allRamps.map (rebaseRamp ledger) := by
  cases hramp : draft.openRamp <;>
    simp [allRamps, numbered, hramp, rebaseRamp, movedRamp, OpenRamp.close, OpenRamp.target,
      Ledger.rebase_empty, Function.comp_def]

/-- A numbered draft is finished as the draft is, with nothing left to move. -/
theorem finish_numbered (draft : Draft) (instrument : Instrument) (prior : Carry)
    (tokens : List Token) (ledger : Ledger) (groups : List TupletGroup) :
    (draft.numbered ledger.rebase).finish instrument prior tokens .empty groups =
      (draft.finish instrument prior tokens ledger groups).map WrittenLine.plain := by
  have hchord : (draft.numbered ledger.rebase).chord =
      draft.chord.map fun chord => { chord with head := ledger.rebase chord.head } := rfl
  have hlength : (draft.numbered ledger.rebase).slots.length = draft.slots.length :=
    List.length_map _
  have hempty : (draft.numbered ledger.rebase).slots.isEmpty = draft.slots.isEmpty := by
    simp [numbered]
  unfold finish
  rw [hchord, hempty]
  cases draft.chord with
  | some chord => rfl
  | none =>
    dsimp only [Option.map_none]
    split
    · simp only [restLine, closing_numbered]
      rfl
    · simp only [checkTuplets, hlength, timedSlots, resolvedSlots_numbered, slotLine,
        closing_numbered, allSlurs_numbered, allRamps_numbered, map_bind]
      rfl

end Draft

/-- A line is built from the indices of slots as from those of tokens. -/
theorem plain_buildLine (tokens : List Token) (instrument : Instrument) (prior : Carry)
    (frame : Frame) :
    (buildLine tokens instrument prior frame).map WrittenLine.plain =
      buildCounted tokens instrument prior frame := by
  have hstart : (Draft.start instrument prior frame).numbered (Ledger.scan tokens).rebase =
      (Draft.start instrument prior frame).numbered id := by
    simp [Draft.numbered, Draft.start, Function.comp_def]
  have hdraft : ((Draft.start instrument prior frame).acceptAll instrument 0 tokens).map
      (Draft.numbered (Ledger.scan tokens).rebase) =
        ((Draft.start instrument prior frame).acceptCounted instrument 0 tokens).map
          (Draft.numbered id) :=
    Draft.acceptAll_numbered (List.nil_append tokens).symm rfl hstart
  unfold buildLine buildCounted
  dsimp only
  rw [← TupletGroup.scan_eq_collectCounted, map_bind]
  refine congrArg (_ >>= ·) (funext fun groups => ?_)
  refine Eq.trans ?_ (congrArg (· >>= _) hdraft)
  rw [map_bind]
  cases (Draft.start instrument prior frame).acceptAll instrument 0 tokens with
  | error error => rfl
  | ok draft => exact (draft.finish_numbered instrument prior tokens _ groups).symm

end Stave.Shorthand
