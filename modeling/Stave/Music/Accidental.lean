import Stave.Music.Line

/-!
# Accidentals in a bar

A written accidental holds for its staff position until the end of the bar. A bare
pitch takes what was written last and shows nothing; the first of its position waits
for the bar drawn to the left, which alone can make a natural sign necessary. Slots
go from left to right and the heads of a chord in the order they were written.
-/
namespace Stave

namespace Pitch

/-- A pitch once the alteration standing at its position is known. -/
def resolved (pitch : Pitch) (transposition : Int) (standing : Option Int) : Pitch :=
  let settled : Pitch :=
    match pitch.mark, standing with
    | .bare, some alteration => { pitch with alteration := alteration, display := .hidden }
    | .bare, none => { pitch with display := .deferred }
    | .explicit, _ =>
      if standing = some pitch.alteration then { pitch with display := .hidden }
      else { pitch with display := .shown pitch.alteration }
    | .forced, _ => { pitch with display := .shown pitch.alteration }
  settled.transposed transposition

/-- What is drawn for a pitch once the bar to its left is known. -/
def settledDisplay (pitch : Pitch) (previous : Option Alterations) : AccidentalDisplay :=
  match pitch.display with
  | .deferred =>
    match previous.bind (·.get? pitch.key) with
    | some alteration =>
      if alteration = pitch.alteration then .hidden else .shown pitch.alteration
    | none => .hidden
  | display => display

@[simp] theorem key_resolved (pitch : Pitch) (transposition : Int) (standing : Option Int) :
    (pitch.resolved transposition standing).key = pitch.key := by
  unfold resolved
  cases pitch.mark <;> cases standing <;> simp only [key_transposed] <;> try rfl
  all_goals split <;> rfl

theorem mark_resolved (pitch : Pitch) (transposition : Int) (standing : Option Int) :
    (pitch.resolved transposition standing).mark = pitch.mark := by
  unfold resolved transposed
  split
  · rfl
  · rfl
  · split <;> rfl
  · rfl

end Pitch

/-- Resolve pitches in order, given what stands before them; the result also says what
stands after. -/
def resolvePitches (transposition : Int) (standing : Alterations) :
    List Pitch → List Pitch × Alterations
  | [] => ([], standing)
  | pitch :: rest =>
    let pitch := pitch.resolved transposition (standing.get? pitch.key)
    let (rest, after) :=
      resolvePitches transposition (standing.insert pitch.key pitch.alteration) rest
    (pitch :: rest, after)

/-- Resolve the accidentals of slots in order, given what stands before them. -/
def resolveSlots (transposition : Int) (standing : Alterations) : List Slot → List Slot
  | [] => []
  | slot :: rest =>
    let (pitches, after) := resolvePitches transposition standing slot.pitches
    { slot with content := slot.content.withPitches pitches } ::
      resolveSlots transposition after rest

/-- Resolve the accidentals of a bar. -/
def resolveAccidentals (transposition : Int) (slots : List Slot) : List Slot :=
  resolveSlots transposition .empty slots

@[simp] theorem length_resolvePitches (transposition : Int) (standing : Alterations)
    (pitches : List Pitch) :
    (resolvePitches transposition standing pitches).1.length = pitches.length := by
  induction pitches generalizing standing with
  | nil => rfl
  | cons pitch rest ih => simp [resolvePitches, ih]

@[simp] theorem length_resolveSlots (transposition : Int) (standing : Alterations)
    (slots : List Slot) : (resolveSlots transposition standing slots).length = slots.length := by
  induction slots generalizing standing with
  | nil => rfl
  | cons slot rest ih => simp [resolveSlots, ih]

end Stave
