import Stave.Music.Line
import Stave.Music.Tempo
import Stave.Shorthand.BuildError
import Stave.Shorthand.Token

/-!
# Lines under construction

A draft is what has been read of a line: its slots, and the links between them by the
index of the token that heads a slot. Post-events attach to the last slot. The draft
of a line starts from what the bar before left open; slurs of earlier bars are only
counted, and close after every slur of this bar.
-/
namespace Stave.Shorthand

/-- The meter and tempo a bar had before its line is read. -/
structure Frame where
  meter : Meter
  tempo : Tempo
deriving DecidableEq, Inhabited

/-- A slot and the index of the token that heads it. -/
structure DraftSlot where
  head : Nat
  slot : Slot
deriving Inhabited

/-- A chord whose closing bracket is still to come. -/
structure OpenChord where
  /-- The index of its opening bracket among the tokens. -/
  head : Nat
  offset : Nat
  /-- The pitches so far, last one first. -/
  pitches : List Pitch
  /-- The post-events so far, last one first. -/
  post : List PostEvent
deriving Inhabited

/-- A ramp that has not stopped yet. -/
structure OpenRamp where
  /-- The token heading the slot it starts at, none if it comes from the bar before. -/
  start : Option Nat
  direction : RampDirection
  fromLevel : Level
deriving DecidableEq, Inhabited

/-- The ramp that stops at a token, or goes on into the next bar, at a given level. -/
def OpenRamp.close (ramp : OpenRamp) (stop : Option Nat) (toLevel : Level) : Ramp :=
  ⟨ramp.start, stop, ramp.direction, ramp.fromLevel, toLevel⟩

/-- The level a ramp reaches when no dynamic says otherwise. -/
def OpenRamp.target (ramp : OpenRamp) : Level := ramp.direction.target ramp.fromLevel

/-- A line under construction. Links hold the indices of tokens. -/
structure Draft where
  /-- The slots so far, last one first. -/
  slots : List DraftSlot
  lastLength : Option NoteLength
  ottava : Int
  level : Level
  slurs : Array Link
  /-- The slurs of this bar still open, the last one opened first. -/
  openSlurs : List Nat
  /-- The slurs of earlier bars still open. -/
  carriedSlurs : Nat
  /-- The ramps that have stopped, last one first. -/
  ramps : List Ramp
  openRamp : Option OpenRamp
  chord : Option OpenChord
  clef : Clef
  frame : Frame
  timeOffset : Option Nat
  tempoChanged : Bool
deriving Inhabited

namespace Draft

/-- The draft of a line before its first token. -/
def start (instrument : Instrument) (prior : Carry) (frame : Frame) : Draft where
  slots := []
  lastLength := prior.lastLength
  ottava := 0
  level := prior.level
  slurs := #[]
  openSlurs := []
  carriedSlurs := prior.openSlurs
  ramps := []
  openRamp := prior.openRamp.map fun direction => ⟨none, direction, prior.level⟩
  chord := none
  clef := instrument.clef
  frame := frame
  timeOffset := none
  tempoChanged := false

/-- Change the last slot. -/
def mark (draft : Draft) (change : Slot → Slot) : Draft :=
  match draft.slots with
  | [] => draft
  | last :: before => { draft with slots := { last with slot := change last.slot } :: before }

/-- Stop the open ramp, if there is one, at the last slot, headed by a token. A target
is the level of a dynamic. -/
def closeRamp (draft : Draft) (head : Nat) (target : Option Level) : Draft :=
  match draft.openRamp with
  | none => draft
  | some ramp =>
    let level := target.getD ramp.target
    { draft with
      ramps := ramp.close (some head) level :: draft.ramps
      openRamp := none
      level := level }.mark (·.addRampRole .stop)

/-- Open a slur at the last slot. -/
def openSlur (draft : Draft) (head : Nat) : Draft :=
  let id := draft.slurs.size
  { draft with
    slurs := draft.slurs.push ⟨some head, none⟩
    openSlurs := id :: draft.openSlurs }.mark
      fun slot => { slot with slursOpened := slot.slursOpened ++ [id] }

/-- Record that a slur closes at the last slot. -/
def markSlurClosed (draft : Draft) (id : Nat) : Draft :=
  draft.mark fun slot => { slot with slursClosed := slot.slursClosed ++ [id] }

/-- Close the slur of this bar opened last, or else one of an earlier bar. -/
def closeSlur (draft : Draft) (head : Nat) : Except BuildFault Draft :=
  match draft.openSlurs with
  | id :: others =>
    .ok ({ draft with
      slurs := draft.slurs.modify id fun link => { link with stop := some head }
      openSlurs := others }.markSlurClosed id)
  | [] =>
    if draft.carriedSlurs = 0 then .error .unmatchedSlurClose
    else
      .ok ({ draft with
        slurs := draft.slurs.push ⟨none, some head⟩
        carriedSlurs := draft.carriedSlurs - 1 }.markSlurClosed draft.slurs.size)

/-- Start a ramp at the last slot. -/
def startRamp (draft : Draft) (head : Nat) (direction : RampDirection) : Draft :=
  let draft := draft.closeRamp head none
  { draft with openRamp := some ⟨some head, direction, draft.level⟩ }.mark (·.addRampRole .start)

/-- Set an absolute dynamic at the last slot; an open ramp reaches its level. -/
def setDynamic (draft : Draft) (head : Nat) (dynamic : Dynamic) : Draft :=
  let draft := draft.mark fun slot => { slot with dynamic := some dynamic }
  { draft.closeRamp head (some dynamic.level) with level := dynamic.level }

/-- Attach one post-event to the last slot, headed by a token. -/
def attachOne (draft : Draft) (head : Nat) : PostEvent → Except BuildFault Draft
  | .tie => .ok (draft.mark fun slot => { slot with tied := true })
  | .slurOpen => .ok (draft.openSlur head)
  | .slurClose => draft.closeSlur head
  | .dynamic dynamic => .ok (draft.setDynamic head dynamic)
  | .rampStart direction => .ok (draft.startRamp head direction)
  | .rampStop =>
    if draft.openRamp.isNone then .error .unmatchedRampStop
    else .ok (draft.closeRamp head none)
  | .articulation articulation =>
    .ok (draft.mark fun slot => { slot with articulations := slot.articulations ++ [articulation] })
  | .text staffText => .ok (draft.mark fun slot => { slot with staffText := some staffText })
  | .glissando => .ok (draft.mark fun slot => { slot with glissando := true })

/-- Attach post-events to the last slot in order; there must be a slot unless there is
nothing to attach. -/
def attach (draft : Draft) (post : List PostEvent) : Except BuildFault Draft :=
  match post, draft.slots with
  | [], _ => .ok draft
  | _ :: _, [] => .error .danglingPostEvent
  | post, last :: _ => post.foldlM (fun draft event => draft.attachOne last.head event) draft

/-- What the line leaves to the next bar. -/
def closing (draft : Draft) : Carry where
  lastLength := draft.lastLength
  level := draft.level
  openSlurs := draft.openSlurs.length + draft.carriedSlurs
  openRamp := draft.openRamp.map OpenRamp.direction

/-- Every slur of the line: those that begin or end in it, and those that run through. -/
def allSlurs (draft : Draft) : List Link :=
  draft.slurs.toList ++ List.replicate draft.carriedSlurs ⟨none, none⟩

/-- Every ramp of the line; one still open comes last and goes one level on. -/
def allRamps (draft : Draft) : List Ramp :=
  draft.ramps.reverse ++ (draft.openRamp.map fun ramp => ramp.close none ramp.target).toList

end Draft

end Stave.Shorthand
