import Stave.Shorthand.Draft.Reading
import Stave.Shorthand.Ledger

/-!
# One step of a line under construction

A line is built in two kinds of steps: a token is placed, and a post-event that is due
attaches to the last slot. What a step can do is said here once. `Placed` has a case for
every way to place a token, with the guard under which it is taken, and `Draft.Unplaced` for
every way a token is refused. `Draft.unmarked` forgets all that a post-event can touch, so
that an equation of unmarked drafts is what attaching leaves alone. Which of these steps a
list of tokens goes through is a matter of the run.
-/
namespace Stave.Shorthand

namespace TokenKind

/-- The post-events written at a token. -/
def post : TokenKind → List PostEvent
  | note word => word.suffix.post
  | rest suffix => suffix.post
  | chordEnd suffix => suffix.post
  | duration suffix => suffix.post
  | postEvents events => events
  | _ => []

/-- The length written at a token. -/
def length? : TokenKind → Option NoteLength
  | note word => word.suffix.length
  | rest suffix => suffix.length
  | duration suffix => suffix.length
  | chordEnd suffix => suffix.length
  | _ => none

/-- The content and the suffix of a token that makes a slot on its own. -/
def slot? : TokenKind → Option (SlotContent × Suffix)
  | note word => some (.single (.of word.step word.alteration word.octave word.mark), word.suffix)
  | rest suffix => some (.rest, suffix)
  | duration suffix => some (.single .unpitched, suffix)
  | _ => none

/-- Whether a token makes a slot, given whether a chord is open before it: a note outside a chord,
a rest, a bare length or the end of a chord. -/
def makesSlot (chord : Bool) : TokenKind → Bool
  | note _ => !chord
  | rest _ => true
  | duration _ => true
  | chordEnd _ => true
  | _ => false

/-- Whether a token is a directive or belongs to a tuplet. -/
def isControl : TokenKind → Bool
  | ottava _ => true
  | clef _ => true
  | time _ => true
  | tempo _ => true
  | tuplet _ _ => true
  | groupOpen => true
  | groupClose => true
  | _ => false

end TokenKind

/-- The ways to place a token: the draft before, the draft after, and the post-events that
are due then. -/
inductive Placed (instrument : Instrument) (draft : Draft) (index : Nat) (token : Token) :
    Draft → List PostEvent → Prop where
  | slot {content : SlotContent} {suffix : Suffix} {length : NoteLength}
      (kind : token.kind.slot? = some (content, suffix)) (outside : draft.chord = none)
      (rhythm : (∃ suffix, token.kind = .duration suffix) → instrument.rhythm)
      (timed : suffix.length.or draft.lastLength = some length)
      (fits : length.units < wordLimit) :
      Placed instrument draft index token
        (draft.push index content length token.origin) suffix.post
  | chordStart (kind : token.kind = .chordStart) :
      Placed instrument draft index token
        { draft with chord := some ⟨index, token.origin, [], []⟩ } []
  | chordNote {word : NoteWord} {chord : OpenChord} (kind : token.kind = .note word)
      (inside : draft.chord = some chord) (bare : word.suffix.length = none) :
      Placed instrument draft index token
        { draft with chord := some { chord with
          pitches := .of word.step word.alteration word.octave word.mark :: chord.pitches
          post := word.suffix.post.reverse ++ chord.post } } []
  | chordPost {post : List PostEvent} {chord : OpenChord} (kind : token.kind = .postEvents post)
      (inside : draft.chord = some chord) :
      Placed instrument draft index token
        { draft with chord := some { chord with post := post.reverse ++ chord.post } } []
  | chordEnd {suffix : Suffix} {chord : OpenChord} {length : NoteLength}
      (kind : token.kind = .chordEnd suffix) (inside : draft.chord = some chord)
      (sounds : chord.pitches ≠ []) (timed : suffix.length.or draft.lastLength = some length)
      (fits : length.units < wordLimit) :
      Placed instrument draft index token
        ({ draft with chord := none }.push chord.head (.ofPitches chord.pitches.reverse) length
          chord.offset) (chord.post.reverse ++ suffix.post)
  | free {post : List PostEvent} (kind : token.kind = .postEvents post)
      (outside : draft.chord = none) (nonempty : draft.slots ≠ []) :
      Placed instrument draft index token draft post
  | control (kind : token.kind.isControl) :
      Placed instrument draft index token (draft.follow token) []

/-- A slot without its marks. -/
def DraftSlot.unmarked (slot : DraftSlot) : DraftSlot where
  head := slot.head
  slot :=
    { Slot.of slot.slot.content slot.slot.length slot.slot.offset with
      duration := slot.slot.duration
      displayDuration := slot.slot.displayDuration
      ottava := slot.slot.ottava }

namespace Draft

/-- A draft without its marks: the slots, the chord and the settings. -/
def unmarked (draft : Draft) : Draft :=
  { draft with
    slots := draft.slots.map DraftSlot.unmarked
    level := initialLevel
    slurs := #[]
    openSlurs := []
    carriedSlurs := 0
    ramps := []
    openRamp := none }

/-- The tokens that head the slots of a draft, in order. -/
def heads (draft : Draft) : List Nat := draft.slots.reverse.map DraftSlot.head

/-- The last slot of a draft, to which post-events attach. -/
def lastHead? (draft : Draft) : Option Nat := draft.slots.head?.map DraftSlot.head

variable {instrument : Instrument} {draft draft' : Draft} {index : Nat} {token : Token}
  {post : List PostEvent}

/-- A slot is added with the length that is written, or else the one before, if its units fit. -/
theorem addSlot_eq_ok {head offset : Nat} {content : SlotContent} {written : Option NoteLength} :
    draft.addSlot head content written offset = .ok draft' ↔
      ∃ length, written.or draft.lastLength = some length ∧ length.units < wordLimit ∧
        draft' = draft.push head content length offset := by
  unfold addSlot
  cases written.or draft.lastLength with
  | none => simp
  | some length => by_cases fits : length.units < wordLimit <;> simp [fits, eq_comm]

/-- It is not added if there is no length, or one that does not fit. -/
theorem addSlot_eq_error {head offset : Nat} {content : SlotContent}
    {written : Option NoteLength} {fault : BuildFault} :
    draft.addSlot head content written offset = .error fault ↔
      written.or draft.lastLength = none ∧ fault = .missingDuration ∨
        ∃ length, written.or draft.lastLength = some length ∧ wordLimit ≤ length.units ∧
          fault = .overflow := by
  unfold addSlot
  cases written.or draft.lastLength with
  | none => simp [eq_comm]
  | some length =>
    rcases Nat.lt_or_ge length.units wordLimit with fits | exceeds
    · simp [fits, Nat.not_le.2 fits]
    · simp [exceeds, Nat.not_lt.2 exceeds, eq_comm]

@[simp] theorem located_eq_ok {origin : Nat} {result : Except BuildFault Draft}
    {due : List PostEvent} :
    located origin result due = .ok (draft', post) ↔ result = .ok draft' ∧ due = post := by
  cases result <;> simp [located]

@[simp] theorem located_eq_error {origin : Nat} {result : Except BuildFault Draft}
    {due : List PostEvent} {error : BuildError} :
    located origin result due = .error error ↔
      result = .error error.fault ∧ origin = error.offset := by
  cases result with
  | ok draft => simp [located]
  | error fault => simp [located, BuildError.ext_iff]

theorem push_of_addSlot {head offset origin : Nat} {content : SlotContent}
    {written : Option NoteLength} {due : List PostEvent}
    (h : located origin (draft.addSlot head content written offset) due = .ok (draft', post)) :
    ∃ length, written.or draft.lastLength = some length ∧ length.units < wordLimit ∧
      draft' = draft.push head content length offset ∧ post = due := by
  obtain ⟨hadded, rfl⟩ := located_eq_ok.1 h
  obtain ⟨length, timed, fits, heq⟩ := addSlot_eq_ok.1 hadded
  exact ⟨length, timed, fits, heq, rfl⟩

/-- Placing a token goes one of the ways of `Placed`. -/
theorem placed_of_place (h : draft.place instrument index token = .ok (draft', post)) :
    Placed instrument draft index token draft' post := by
  unfold place at h
  dsimp only at h
  split at h
  case h_1 word kind =>
    split at h
    case h_1 chord inside =>
      unfold addToChord at h
      by_cases bare : word.suffix.length.isSome
      · simp [bare] at h
      · simp only [bare, Bool.false_eq_true, if_false] at h
        cases h
        exact .chordNote kind inside (by simpa using bare)
    case h_2 outside =>
      obtain ⟨length, timed, fits, rfl, rfl⟩ := push_of_addSlot h
      exact .slot (by rw [kind]; rfl) outside (by simp [kind]) timed fits
  case h_2 suffix kind =>
    by_cases inside : draft.chord.isSome
    · simp [inside] at h
    · simp only [inside, Bool.false_eq_true, if_false] at h
      obtain ⟨length, timed, fits, rfl, rfl⟩ := push_of_addSlot h
      exact .slot (by rw [kind]; rfl) (by simpa using inside) (by simp [kind]) timed fits
  case h_3 suffix kind =>
    by_cases rhythm : instrument.rhythm
    · by_cases inside : draft.chord.isSome
      · simp [inside, rhythm] at h
      · simp only [inside, rhythm, Bool.not_true, Bool.false_eq_true, if_false] at h
        obtain ⟨length, timed, fits, rfl, rfl⟩ := push_of_addSlot h
        exact .slot (by rw [kind]; rfl) (by simpa using inside) (fun _ => rhythm) timed fits
    · simp [rhythm] at h
  case h_4 kind =>
    cases h
    exact .chordStart kind
  case h_5 suffix kind =>
    split at h
    case h_1 => cases h
    case h_2 chord inside =>
      by_cases silent : chord.pitches.isEmpty
      · simp [silent] at h
      · simp only [silent, Bool.false_eq_true, if_false] at h
        obtain ⟨length, timed, fits, rfl, rfl⟩ := push_of_addSlot h
        exact .chordEnd kind inside (by simpa using silent) timed fits
  case h_6 events kind =>
    split at h
    case h_1 chord inside =>
      cases h
      exact .chordPost kind inside
    case h_2 outside =>
      by_cases empty : draft.slots.isEmpty
      · simp [empty] at h
      · simp only [empty, Bool.false_eq_true, if_false] at h
        cases h
        exact .free kind outside (by simpa using empty)
  case h_7 => cases h
  case h_8 =>
    cases h
    refine .control ?_
    cases hkind : token.kind <;> simp_all [TokenKind.isControl]

/-- A token is placed in each of the ways of `Placed`. -/
theorem place_of_placed (h : Placed instrument draft index token draft' post) :
    draft.place instrument index token = .ok (draft', post) := by
  cases h with
  | slot kind outside rhythm timed fits =>
    cases hkind : token.kind with
    | note word =>
      rw [hkind] at kind
      cases kind
      simp [place, hkind, outside, addSlot, timed, fits]
    | rest suffix =>
      rw [hkind] at kind
      cases kind
      simp [place, hkind, outside, addSlot, timed, fits]
    | duration suffix =>
      rw [hkind] at kind
      cases kind
      simp [place, hkind, outside, addSlot, timed, fits, rhythm ⟨_, hkind⟩]
    | _ =>
      rw [hkind] at kind
      cases kind
  | chordStart kind => simp [place, kind]
  | chordNote kind inside bare => simp [place, kind, inside, addToChord, bare]
  | chordPost kind inside => simp [place, kind, inside]
  | chordEnd kind inside sounds timed fits =>
    simp [place, kind, inside, sounds, closeChord, addSlot, timed, fits]
  | free kind outside nonempty => simp [place, kind, outside, nonempty]
  | control kind =>
    cases hkind : token.kind <;> simp_all [TokenKind.isControl, place]

/-- The faults of a token that stands where it cannot. -/
def misplacedFaults : List BuildFault :=
  [.durationWithoutPitch, .durationInsideChord, .restInsideChord, .emptyChord, .danglingPostEvent,
    .barLineInLine]

/-- The ways a token is refused before anything attaches: its slot has no length, or one that does
not fit, or it stands where it cannot. -/
inductive Unplaced (draft : Draft) (token : Token) : BuildError → Prop where
  | untimed (bare : token.kind.length?.or draft.lastLength = none) :
      Unplaced draft token ⟨.missingDuration, token.origin⟩
  | exceeds {length : NoteLength} (timed : token.kind.length?.or draft.lastLength = some length)
      (large : wordLimit ≤ length.units) : Unplaced draft token ⟨.overflow, token.origin⟩
  | misplaced {error : BuildError} (fault : error.fault ∈ misplacedFaults) :
      Unplaced draft token error

theorem unplaced_of_addSlot {head place : Nat} {content : SlotContent}
    {written : Option NoteLength} {due : List PostEvent} {error : BuildError}
    (hwritten : written = token.kind.length?)
    (h : located token.origin (draft.addSlot head content written place) due = .error error) :
    Unplaced draft token error := by
  subst hwritten
  obtain ⟨hadded, horigin⟩ := located_eq_error.1 h
  rcases addSlot_eq_error.1 hadded with ⟨bare, hfault⟩ | ⟨length, timed, large, hfault⟩
  · obtain rfl : error = ⟨.missingDuration, token.origin⟩ := BuildError.ext hfault horigin.symm
    exact .untimed bare
  · obtain rfl : error = ⟨.overflow, token.origin⟩ := BuildError.ext hfault horigin.symm
    exact .exceeds timed large

/-- A token that is refused is refused in one of these ways. -/
theorem unplaced_of_place {error : BuildError}
    (h : draft.place instrument index token = .error error) : Unplaced draft token error := by
  unfold place at h
  dsimp only at h
  split at h
  case h_1 word kind =>
    split at h
    case h_1 chord inside =>
      obtain ⟨hadded, -⟩ := located_eq_error.1 h
      unfold addToChord at hadded
      by_cases bare : word.suffix.length.isSome
      · simp only [bare, if_true, Except.error.injEq] at hadded
        exact .misplaced (by simp [← hadded, misplacedFaults])
      · simp [bare] at hadded
    case h_2 => exact unplaced_of_addSlot (by rw [kind]; rfl) h
  case h_2 suffix kind =>
    split at h
    · cases h
      exact .misplaced (by simp [misplacedFaults])
    · exact unplaced_of_addSlot (by rw [kind]; rfl) h
  case h_3 suffix kind =>
    split at h
    · cases h
      exact .misplaced (by simp [misplacedFaults])
    split at h
    · cases h
      exact .misplaced (by simp [misplacedFaults])
    · exact unplaced_of_addSlot (by rw [kind]; rfl) h
  case h_4 => cases h
  case h_5 suffix kind =>
    split at h
    · cases h
      exact .misplaced (by simp [misplacedFaults])
    split at h
    · cases h
      exact .misplaced (by simp [misplacedFaults])
    case isFalse =>
      -- the chord is put away before its slot is added
      unfold closeChord at h
      cases unplaced_of_addSlot (by rw [kind]; rfl) h with
      | untimed bare => exact .untimed bare
      | exceeds timed large => exact .exceeds timed large
      | misplaced fault => exact .misplaced fault
  case h_6 events kind =>
    split at h
    · cases h
    split at h
    · cases h
      exact .misplaced (by simp [misplacedFaults])
    · cases h
  case h_7 =>
    cases h
    exact .misplaced (by simp [misplacedFaults])
  case h_8 => cases h

/-- The faults a token is refused for before anything attaches. -/
def placeFaults : List BuildFault := .missingDuration :: .overflow :: misplacedFaults

theorem fault_of_place {error : BuildError}
    (h : draft.place instrument index token = .error error) : error.fault ∈ placeFaults := by
  cases unplaced_of_place h with
  | untimed => exact List.mem_cons_self
  | exceeds => exact List.mem_cons_of_mem _ List.mem_cons_self
  | misplaced fault => exact List.mem_cons_of_mem _ (List.mem_cons_of_mem _ fault)

/-- A post-event is refused if it closes what is not open. -/
theorem fault_of_attachOne {head : Nat} {event : PostEvent} {fault : BuildFault}
    (h : draft.attachOne head event = .error fault) :
    event = .slurClose ∧ fault = .unmatchedSlurClose ∨
      event = .rampStop ∧ fault = .unmatchedRampStop := by
  cases event with
  | slurClose =>
    simp only [attachOne, closeSlur] at h
    split at h
    · cases h
    · split at h
      · cases h
        exact .inl ⟨rfl, rfl⟩
      · cases h
  | rampStop =>
    simp only [attachOne] at h
    split at h
    · cases h
      exact .inr ⟨rfl, rfl⟩
    · cases h
  | _ => cases h

@[simp] theorem heads_unmarked (draft : Draft) : draft.unmarked.heads = draft.heads := by
  simp [heads, unmarked, DraftSlot.unmarked, Function.comp_def]

theorem heads_eq_of_unmarked (h : draft'.unmarked = draft.unmarked) :
    draft'.heads = draft.heads := by
  rw [← heads_unmarked draft', h, heads_unmarked]

theorem unmarked_mark {change : Slot → Slot}
    (h : ∀ slot : DraftSlot,
      DraftSlot.unmarked { slot with slot := change slot.slot } = slot.unmarked) :
    (draft.mark change).unmarked = draft.unmarked := by
  unfold mark
  split
  · rfl
  case h_2 last before hslots => simp [unmarked, hslots, h]

theorem unmarked_closeRamp (draft : Draft) (head : Nat) (target : Option Level) :
    (draft.closeRamp head target).unmarked = draft.unmarked := by
  unfold closeRamp
  split
  · rfl
  · exact unmarked_mark fun _ => rfl

/-- Attaching a post-event changes nothing but marks. -/
theorem unmarked_of_attachOne {head : Nat} {event : PostEvent}
    (h : draft.attachOne head event = .ok draft') : draft'.unmarked = draft.unmarked := by
  cases event with
  | tie =>
    cases h
    exact unmarked_mark fun _ => rfl
  | slurOpen =>
    cases h
    exact unmarked_mark fun _ => rfl
  | slurClose =>
    simp only [attachOne, closeSlur] at h
    split at h
    · cases h
      exact unmarked_mark fun _ => rfl
    · split at h
      · cases h
      · cases h
        exact unmarked_mark fun _ => rfl
  | dynamic dynamic =>
    cases h
    exact (unmarked_closeRamp _ head _).trans (unmarked_mark fun _ => rfl)
  | rampStart direction =>
    cases h
    exact (unmarked_mark fun _ => rfl).trans (unmarked_closeRamp draft head none)
  | rampStop =>
    simp only [attachOne] at h
    split at h
    · cases h
    · cases h
      exact unmarked_closeRamp draft head none
  | articulation articulation =>
    cases h
    exact unmarked_mark fun _ => rfl
  | text staffText =>
    cases h
    exact unmarked_mark fun _ => rfl
  | glissando =>
    cases h
    exact unmarked_mark fun _ => rfl

end Draft

end Stave.Shorthand
