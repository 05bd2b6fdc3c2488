import Stave.Proofs.Chain
import Stave.Proofs.WrittenLine.Unseen
import Stave.Shorthand.Declaration

/-!
# Transposed lines

What a pitch sounds like is worked out last, from how it has been settled to be written and from
the transposition of the instrument. Nothing that is done with a line before or after looks at it.
So reading a text for an instrument of another name and transposition is reading it and transposing
the line: one reading fails when the other does, and with the same error.
-/
namespace Stave

/-- The instrument under another name, transposed otherwise. -/
def Instrument.retuned (instrument : Instrument) (name : String) (transposition : Int) :
    Instrument :=
  { instrument with name, transposition }

/-! ### Sounding otherwise -/

/-- The content as an instrument with the given transposition sounds it. -/
def SlotContent.transposed (transposition : Int) : SlotContent → SlotContent
  | rest => rest
  | single pitch => single (pitch.transposed transposition)
  | chord pitches => chord (pitches.map (Pitch.transposed · transposition))

/-- The slot as an instrument with the given transposition sounds it. -/
def Slot.transposed (transposition : Int) (slot : Slot) : Slot :=
  { slot with content := slot.content.transposed transposition }

/-- The line as an instrument with the given transposition sounds it. -/
def Line.transposed (transposition : Int) (line : Line) : Line :=
  { line with slots := line.slots.map (Slot.transposed transposition) }

/-- The written line as an instrument with the given transposition sounds it. -/
def Shorthand.WrittenLine.transposed (transposition : Int) (written : WrittenLine) :
    WrittenLine :=
  { written with line := written.line.transposed transposition }

@[simp] theorem Pitch.transposed_transposed (pitch : Pitch) (transposition other : Int) :
    (pitch.transposed other).transposed transposition = pitch.transposed transposition := rfl

@[simp] theorem SlotContent.pitches_transposed (transposition : Int) (content : SlotContent) :
    (content.transposed transposition).pitches =
      content.pitches.map (Pitch.transposed · transposition) := by
  cases content <;> rfl

@[simp] theorem SlotContent.isRest_transposed (transposition : Int) (content : SlotContent) :
    (content.transposed transposition).isRest = content.isRest := by
  cases content <;> rfl

@[simp] theorem Slot.pitches_transposed (transposition : Int) (slot : Slot) :
    (slot.transposed transposition).pitches =
      slot.pitches.map (Pitch.transposed · transposition) :=
  slot.content.pitches_transposed transposition

@[simp] theorem Slot.isRest_transposed (transposition : Int) (slot : Slot) :
    (slot.transposed transposition).isRest = slot.isRest :=
  slot.content.isRest_transposed transposition

/-- What sounds is not seen by what comes after the pitches of a line are settled. -/
theorem Slot.unseen_transposed (transposition : Int) :
    Slot.Unseen (Slot.transposed transposition) where
  duration _ := rfl
  displayDuration _ := rfl
  dynamic _ := rfl
  tied _ := rfl
  withDuration _ _ := rfl
  withLevel _ _ _ := rfl

/-! ### Settling accidentals -/

variable (transposition other : Int)

theorem SlotContent.transposed_withPitches {content : SlotContent} {pitches : List Pitch}
    (h : pitches.length = content.pitches.length) :
    (content.withPitches pitches).transposed transposition =
      content.withPitches (pitches.map (Pitch.transposed · transposition)) := by
  cases content with
  | rest => cases pitches <;> rfl
  | single pitch =>
    cases pitches with
    | nil => cases h
    | cons first rest => rfl
  | chord old => cases pitches <;> rfl

/-- A pitch is settled first and transposed then. -/
theorem Pitch.transposed_resolved (pitch : Pitch) (standing : Option Int) :
    (pitch.resolved other standing).transposed transposition =
      pitch.resolved transposition standing := by
  unfold resolved
  exact transposed_transposed ..

theorem Pitch.alteration_resolved (pitch : Pitch) (standing : Option Int) :
    (pitch.resolved other standing).alteration =
      (pitch.resolved transposition standing).alteration := by
  rw [← transposed_resolved transposition other]
  rfl

/-- Pitches are settled alike, and leave the same alterations standing. -/
theorem resolvePitches_transposed (standing : Alterations) (pitches : List Pitch) :
    (resolvePitches other standing pitches).1.map (Pitch.transposed · transposition) =
        (resolvePitches transposition standing pitches).1 ∧
      (resolvePitches other standing pitches).2 =
        (resolvePitches transposition standing pitches).2 := by
  induction pitches generalizing standing with
  | nil => exact ⟨rfl, rfl⟩
  | cons pitch rest ih =>
    simp only [resolvePitches, List.map_cons, Pitch.key_resolved, Pitch.transposed_resolved]
    rw [pitch.alteration_resolved transposition other]
    exact ⟨congrArg (List.cons _) (ih _).1, (ih _).2⟩

theorem resolveSlots_transposed (standing : Alterations) (slots : List Slot) :
    (resolveSlots other standing slots).map (Slot.transposed transposition) =
      resolveSlots transposition standing slots := by
  induction slots generalizing standing with
  | nil => rfl
  | cons slot rest ih =>
    obtain ⟨hpitches, hstanding⟩ :=
      resolvePitches_transposed transposition other standing slot.pitches
    have hlength := length_resolvePitches other standing slot.pitches
    have hcontent := SlotContent.transposed_withPitches transposition hlength
    rw [resolveSlots, resolveSlots, List.map_cons, Slot.transposed]
    dsimp only
    rw [hcontent, hpitches, hstanding, ih]

namespace Shorthand

/-! ### Reading -/

variable (player : Instrument) (name : String)

namespace Draft

/-- Tokens are taken in alike; only a rhythm staff is treated differently. -/
theorem acceptAll_retuned (draft : Draft) (index : Nat) (tokens : List Token) :
    draft.acceptAll (player.retuned name transposition) index tokens =
      draft.acceptAll player index tokens := by
  induction tokens generalizing draft index with
  | nil => rfl
  | cons token rest ih =>
    have haccept : draft.accept (player.retuned name transposition) index token =
        draft.accept player index token := rfl
    rw [acceptAll, acceptAll, haccept]
    split
    · rfl
    · exact ih _ _

theorem resolvedSlots_retuned (draft : Draft) :
    draft.resolvedSlots (player.retuned name transposition) =
      (draft.resolvedSlots player).map (Slot.transposed transposition) :=
  (resolveSlots_transposed _ _ _ _).symm

theorem timedSlots_retuned (draft : Draft) (tuplets : List TupletRange) :
    draft.timedSlots (player.retuned name transposition) tuplets =
      (draft.timedSlots player tuplets).map (Slot.transposed transposition) := by
  rw [timedSlots, timedSlots, resolvedSlots_retuned,
    (Slot.unseen_transposed transposition).scaleTuplets]

theorem slotLine_retuned (draft : Draft) (ledger : Ledger) (before : Level)
    (tuplets : List TupletRange) :
    draft.slotLine (player.retuned name transposition) ledger before tuplets =
      (draft.slotLine player ledger before tuplets).transposed transposition := by
  simp only [slotLine, timedSlots_retuned, (Slot.unseen_transposed transposition).tiesOf,
    (Slot.unseen_transposed transposition).setLoudness]
  rfl

theorem restLine_retuned (draft : Draft) :
    draft.restLine (player.retuned name transposition) =
      (draft.restLine player).transposed transposition := by
  simp only [restLine, Line.fullRest, Line.blank, Instrument.retuned, Line.transposed,
    List.map_cons, List.map_nil]
  rfl

theorem checkTimes_retuned (draft : Draft) (offset : Nat) (tuplets : List TupletRange) :
    checkTimes offset tuplets (draft.resolvedSlots (player.retuned name transposition)) =
      checkTimes offset tuplets (draft.resolvedSlots player) := by
  simp only [checkTimes, resolvedSlots_retuned, (Slot.unseen_transposed transposition).timesFit]

theorem checkLength_retuned (draft : Draft) (meter : Meter) (offset : Nat)
    (tuplets : List TupletRange) :
    checkLength meter offset (draft.timedSlots (player.retuned name transposition) tuplets) =
      checkLength meter offset (draft.timedSlots player tuplets) := by
  rw [timedSlots_retuned, checkLength, checkLength,
    (Slot.unseen_transposed transposition).map_duration]

theorem finish_retuned (draft : Draft) (prior : Carry) (tokens : List Token) (ledger : Ledger)
    (groups : List TupletGroup) :
    draft.finish (player.retuned name transposition) prior tokens ledger groups =
      (draft.finish player prior tokens ledger groups).map
        (WrittenLine.transposed transposition) := by
  simp only [finish, restLine_retuned, checkTimes_retuned, checkLength_retuned, slotLine_retuned]
  split
  · rfl
  split
  · rfl
  simp only [map_bind]
  rfl

end Draft

theorem buildLine_retuned (tokens : List Token) (prior : Carry) (frame : Frame) :
    buildLine tokens (player.retuned name transposition) prior frame =
      (buildLine tokens player prior frame).map (WrittenLine.transposed transposition) := by
  have hstart : Draft.start (player.retuned name transposition) prior frame =
    .start player prior frame := rfl
  simp only [buildLine, map_bind, hstart, Draft.acceptAll_retuned, Draft.finish_retuned]

/-- Reading for a retuned instrument is reading and transposing. -/
theorem readLine_retuned (text : String) (prior : Carry) (frame : Frame) :
    readLine text (player.retuned name transposition) prior frame =
      (readLine text player prior frame).map (WrittenLine.transposed transposition) := by
  simp only [readLine, map_bind, map_mapError, buildLine_retuned]

end Shorthand

end Stave
