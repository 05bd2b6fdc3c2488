import Stave.Proofs.Draft.Heads
import Stave.Proofs.Draft.SlurView

/-!
# The slurs of a line under construction

Tokens add slots and leave the slurs alone; of the post-events only the two slur signs touch
them, each by one move. So the slurs of every draft a run reaches are consistent. The signs
attach in the order they are written, those inside a chord at its end, and a sign that closes
finds a slur to close exactly if fewer were closed before it than had come in or opened.
-/
namespace Stave.Shorthand

/-- A slot and the slurs listed at it. -/
def DraftSlot.slurSlot (slot : DraftSlot) : SlurSlot :=
  ⟨slot.head, slot.slot.slursOpened, slot.slot.slursClosed⟩

/-- The number of slurs waiting for their close. -/
def SlurView.waiting (view : SlurView) : Nat := view.opened.length + view.carried

/-- Whether a post-event opens or closes a slur. -/
def PostEvent.isSlur : PostEvent → Bool
  | slurOpen => true
  | slurClose => true
  | _ => false

namespace Draft

/-- What of a draft concerns slurs. -/
def slurView (draft : Draft) : SlurView :=
  ⟨draft.slots.map DraftSlot.slurSlot, draft.slurs.toList, draft.openSlurs, draft.carriedSlurs⟩

variable {instrument : Instrument} {draft draft' : Draft} {index head : Nat} {token : Token}
  {post : List PostEvent} {event : PostEvent} {fault : BuildFault}

theorem map_head_slurView (draft : Draft) :
    draft.slurView.slots.map SlurSlot.head = draft.heads.reverse := by
  simp [slurView, heads, DraftSlot.slurSlot, Function.comp_def]

theorem slurView_push (draft : Draft) (head : Nat) (content : SlotContent)
    (length : NoteLength) (offset : Nat) :
    (draft.push head content length offset).slurView = draft.slurView.push head := rfl

theorem slurView_follow (draft : Draft) (token : Token) :
    (draft.follow token).slurView = draft.slurView := by
  unfold follow
  split <;> rfl

theorem slurView_mark {change : Slot → Slot}
    (h : ∀ slot : DraftSlot,
      DraftSlot.slurSlot { slot with slot := change slot.slot } = slot.slurSlot) :
    (draft.mark change).slurView = draft.slurView := by
  unfold mark
  split
  · rfl
  case h_2 last before hslots => simp [slurView, hslots, h]

theorem slurView_closeRamp (head : Nat) (target : Option Level) :
    (draft.closeRamp head target).slurView = draft.slurView := by
  unfold closeRamp
  split
  · rfl
  · exact slurView_mark fun _ => rfl

/-- Only the slur signs touch the slurs. -/
theorem slurView_of_attachOne (hother : event.isSlur = false)
    (h : draft.attachOne head event = .ok draft') : draft'.slurView = draft.slurView := by
  cases event with
  | tie =>
    cases h
    exact slurView_mark fun _ => rfl
  | slurOpen => cases hother
  | slurClose => cases hother
  | dynamic dynamic =>
    cases h
    exact (slurView_closeRamp head _).trans (slurView_mark fun _ => rfl)
  | rampStart direction =>
    cases h
    exact (slurView_mark fun _ => rfl).trans (slurView_closeRamp head none)
  | rampStop =>
    simp only [attachOne] at h
    split at h
    · cases h
    · cases h
      exact slurView_closeRamp head none
  | articulation articulation =>
    cases h
    exact slurView_mark fun _ => rfl
  | text staffText =>
    cases h
    exact slurView_mark fun _ => rfl
  | glissando =>
    cases h
    exact slurView_mark fun _ => rfl

theorem exists_last (hlast : draft.lastHead? = some head) :
    ∃ last before, draft.slots = last :: before ∧ last.head = head := by
  obtain ⟨last, hslot, hhead⟩ := Option.map_eq_some_iff.1 hlast
  obtain ⟨before, hslots⟩ := List.head?_eq_some_iff.1 hslot
  exact ⟨last, before, hslots, hhead⟩

/-- A slur sign is one move. -/
theorem move_of_attachOne (hlast : draft.lastHead? = some head) (hslur : event.isSlur)
    (h : draft.attachOne head event = .ok draft') :
    SlurView.Move draft.slurView draft'.slurView := by
  obtain ⟨last, before, hslots, rfl⟩ := exists_last hlast
  cases event with
  | slurOpen =>
    cases h
    simpa [slurView, openSlur, mark, hslots, DraftSlot.slurSlot] using
      SlurView.Move.opens last.slurSlot (before.map DraftSlot.slurSlot) draft.slurs.toList
        draft.openSlurs draft.carriedSlurs
  | slurClose =>
    simp only [attachOne, closeSlur] at h
    split at h
    case h_1 id others hopen =>
      cases h
      simpa [slurView, markSlurClosed, mark, hslots, hopen, DraftSlot.slurSlot] using
        SlurView.Move.closes last.slurSlot (before.map DraftSlot.slurSlot) draft.slurs.toList
          id others draft.carriedSlurs
    case h_2 hopen =>
      split at h
      case isTrue => cases h
      case isFalse hcarried =>
        cases h
        have hsucc : draft.carriedSlurs - 1 + 1 = draft.carriedSlurs := by omega
        have hmove := SlurView.Move.closesCarried last.slurSlot
          (before.map DraftSlot.slurSlot) draft.slurs.toList (draft.carriedSlurs - 1)
        rw [hsucc] at hmove
        simpa [slurView, markSlurClosed, mark, hslots, hopen, DraftSlot.slurSlot] using hmove
  | _ => cases hslur

/-- Opening adds a slur that waits for its close, and closing takes one away. -/
theorem waiting_of_attachOne (hlast : draft.lastHead? = some head)
    (h : draft.attachOne head event = .ok draft') :
    draft'.slurView.waiting + [event].count .slurClose =
      draft.slurView.waiting + [event].count .slurOpen := by
  by_cases hslur : event.isSlur
  · obtain ⟨last, before, hslots, rfl⟩ := exists_last hlast
    cases event with
    | slurOpen =>
      cases h
      simp [SlurView.waiting, slurView, openSlur, mark, hslots]
      omega
    | slurClose =>
      simp only [attachOne, closeSlur] at h
      split at h
      case h_1 id others hopen =>
        cases h
        simp [SlurView.waiting, slurView, markSlurClosed, mark, hslots, hopen]
        omega
      case h_2 hopen =>
        split at h
        case isTrue => cases h
        case isFalse hcarried =>
          cases h
          simp [SlurView.waiting, slurView, markSlurClosed, mark, hslots, hopen]
          omega
    | _ => cases hslur
  · rw [slurView_of_attachOne (by simpa using hslur) h]
    cases event <;> simp_all [PostEvent.isSlur]

/-- A sign that closes a slur is refused exactly if none is waiting. -/
theorem attachOne_slurClose_error_iff :
    draft.attachOne head .slurClose = .error fault ↔
      fault = .unmatchedSlurClose ∧ draft.slurView.waiting = 0 := by
  simp only [attachOne, closeSlur, SlurView.waiting, slurView]
  cases hopen : draft.openSlurs with
  | cons id others => simp
  | nil =>
    by_cases hcarried : draft.carriedSlurs = 0
    · simp [hcarried, eq_comm]
    · simp [hcarried]

/-- The post-events of the open chord, which attach at its end. -/
def chordPost (draft : Draft) : List PostEvent := ((draft.chord.map OpenChord.post).getD []).reverse

end Draft

/-- The post-events written in a list of tokens, in order. -/
def writtenPost (tokens : List Token) : List PostEvent :=
  tokens.flatMap fun token => token.kind.post

/-- Every slur that closes finds one to close, `incoming` of them being open before. -/
def SlursMatch (incoming : Nat) (events : List PostEvent) : Prop :=
  ∀ before after, events = before ++ .slurClose :: after →
    before.count .slurClose < incoming + before.count .slurOpen

theorem writtenPost_concat (read : List Token) (token : Token) :
    writtenPost (read ++ [token]) = writtenPost read ++ token.kind.post := by
  simp [writtenPost]

theorem SlursMatch.concat {incoming : Nat} {events : List PostEvent} {event : PostEvent}
    (h : SlursMatch incoming events)
    (hfound : event = .slurClose →
      events.count .slurClose < incoming + events.count .slurOpen) :
    SlursMatch incoming (events ++ [event]) := by
  intro before after heq
  rcases List.eq_nil_or_concat after with rfl | ⟨after, final, rfl⟩
  · obtain ⟨rfl, hevent⟩ := List.append_inj' heq rfl
    exact hfound (List.singleton_inj.1 hevent)
  · rw [List.concat_eq_append, ← List.cons_append, ← List.append_assoc] at heq
    exact h before after (List.append_inj' heq rfl).1

/-- The run of a list of tokens comes to a sign that closes a slur: all before it has been
taken in, `before` being the post-events that have attached, and it is the first of those
due at a token that begins at byte `offset`. -/
def ComesToClose (instrument : Instrument) (start : Draft) (tokens : List Token)
    (before : List PostEvent) (offset : Nat) : Prop :=
  ∃ read rest draft due, tokens = read ++ rest ∧
    Building instrument start read draft (.slurClose :: due) ∧
    writtenPost read = before ++ .slurClose :: due ∧
    offset = (read.getLast?.map Token.origin).getD 0

theorem TokenKind.post_of_slot? {kind : TokenKind} {content : SlotContent} {suffix : Suffix}
    (h : kind.slot? = some (content, suffix)) : kind.post = suffix.post := by
  cases kind <;> simp_all [slot?, post]

theorem TokenKind.post_of_isControl {kind : TokenKind} (h : kind.isControl) : kind.post = [] := by
  cases kind <;> simp_all [isControl, post]

namespace Draft

variable {instrument : Instrument} {draft draft' : Draft} {index : Nat} {token : Token}
  {post : List PostEvent}

/-- What waited at the chord and what the token brings is due now, or waits at the chord. -/
theorem due_append_chordPost (outside : token.kind = .chordStart → draft.chord = none)
    (placed : Placed instrument draft index token draft' post) :
    post ++ draft'.chordPost = draft.chordPost ++ token.kind.post := by
  cases placed with
  | slot kind outside rhythm timed =>
    rw [TokenKind.post_of_slot? kind]
    simp [chordPost, push, outside]
  | chordStart kind => simp [chordPost, kind, outside kind, TokenKind.post]
  | chordNote kind inside bare => simp [chordPost, kind, inside, TokenKind.post]
  | chordPost kind inside => simp [chordPost, kind, inside, TokenKind.post]
  | chordEnd kind inside sounds timed => simp [chordPost, push, kind, inside, TokenKind.post]
  | free kind outside nonempty => simp [chordPost, kind, outside, TokenKind.post]
  | control kind =>
    rw [TokenKind.post_of_isControl kind]
    simp [chordPost]

/-- Placing a token leaves the slurs alone but for a slot that may come last. -/
theorem consistent_of_placed {incoming : Nat} (h : draft.slurView.Consistent incoming)
    (increase : draft'.heads.Pairwise (· < ·))
    (placed : Placed instrument draft index token draft' post) :
    draft'.slurView.Consistent incoming := by
  have hpush (before : Draft) (head : Nat) (content : SlotContent) (length : NoteLength)
      (offset : Nat) (hbefore : before.slurView.Consistent incoming)
      (hheads : (before.push head content length offset).heads.Pairwise (· < ·)) :
      (before.push head content length offset).slurView.Consistent incoming := by
    rw [slurView_push]
    refine hbefore.push fun other hmem => ?_
    rw [map_head_slurView, List.mem_reverse] at hmem
    rw [heads_push] at hheads
    exact (List.pairwise_append.1 hheads).2.2 other hmem head List.mem_cons_self
  cases placed with
  | slot => exact hpush draft _ _ _ _ h increase
  | chordEnd => exact hpush { draft with chord := none } _ _ _ _ h increase
  | control =>
    rw [slurView_follow]
    exact h
  | _ => exact h

end Draft

namespace Building

variable {instrument : Instrument} {prior : Carry} {frame : Frame} {read tokens : List Token}
  {draft : Draft} {event : PostEvent} {due : List PostEvent}

/-- The slurs of every draft a run reaches are consistent. -/
theorem consistent (h : Building instrument (.start instrument prior frame) read draft due)
    (alternate : ChordsAlternate false read) : draft.slurView.Consistent prior.openSlurs := by
  induction h with
  | start => exact SlurView.consistent_start prior.openSlurs
  | place built placed ih =>
    have hbefore := (chordsAlternate_append.1 alternate).1
    exact Draft.consistent_of_placed (ih hbefore)
      ((built.place placed).pairwise_heads alternate) (Draft.placed_of_place placed)
  | @attach read draft draft' event due head built last attached ih =>
    by_cases hslur : event.isSlur
    · exact (ih alternate).move (Draft.move_of_attachOne last hslur attached)
    · rw [Draft.slurView_of_attachOne (by simpa using hslur) attached]
      exact ih alternate

/-- Nothing is due while a chord is open. -/
theorem chord_of_due (h : Building instrument (.start instrument prior frame) read draft due)
    (hdue : due ≠ []) : draft.chord = none := by
  induction h with
  | start => exact absurd rfl hdue
  | place built placed ih =>
    cases Draft.placed_of_place placed with
    | slot kind outside => exact outside
    | chordEnd => rfl
    | free kind outside => exact outside
    | chordStart => exact absurd rfl hdue
    | chordNote => exact absurd rfl hdue
    | chordPost => exact absurd rfl hdue
    | control => exact absurd rfl hdue
  | attach built last attached ih =>
    have hchord := congrArg Draft.chord (Draft.unmarked_of_attachOne attached)
    simp only [Draft.unmarked] at hchord
    rw [hchord]
    exact ih (List.cons_ne_nil _ _)

/-- The post-events written so far have attached, are due, or wait at a chord. Those that
have attached say how many slurs are waiting, and no close was one too many. -/
theorem exists_attached
    (h : Building instrument (.start instrument prior frame) read draft due)
    (alternate : ChordsAlternate false read) :
    ∃ attached, writtenPost read = attached ++ (due ++ draft.chordPost) ∧
      draft.slurView.waiting + attached.count .slurClose =
        prior.openSlurs + attached.count .slurOpen ∧
      SlursMatch prior.openSlurs attached := by
  induction h with
  | start =>
    exact ⟨[], rfl, by simp [SlurView.waiting, Draft.slurView, Draft.start], by simp [SlursMatch]⟩
  | @place read token draft draft' post built placed ih =>
    obtain ⟨hbefore, hopens, -, -⟩ := chordsAlternate_append.1 alternate
    obtain ⟨attached, hwritten, hwaiting, hmatch⟩ := ih hbefore
    have hplaced := Draft.placed_of_place placed
    have houtside (kind : token.kind = .chordStart) : draft.chord = none := by
      have hchord := (built.agrees hbefore).chord
      rw [hopens kind] at hchord
      simpa using hchord
    refine ⟨attached, ?_, ?_, hmatch⟩
    · rw [Draft.due_append_chordPost houtside hplaced, writtenPost_concat, hwritten]
      simp
    · have hsame : draft'.slurView.waiting = draft.slurView.waiting := by
        cases hplaced with
        | control => rw [Draft.slurView_follow]
        | _ => rfl
      rw [hsame]
      exact hwaiting
  | @attach read draft draft' event due head built last attached' ih =>
    obtain ⟨attached, hwritten, hwaiting, hmatch⟩ := ih alternate
    have hstep := Draft.waiting_of_attachOne last attached'
    have hchord := congrArg Draft.chord (Draft.unmarked_of_attachOne attached')
    simp only [Draft.unmarked] at hchord
    refine ⟨attached ++ [event], ?_, ?_, ?_⟩
    · simpa [Draft.chordPost, hchord] using hwritten
    · rw [List.count_append, List.count_append]
      omega
    · refine hmatch.concat fun hclose => ?_
      subst hclose
      have hfound : draft.slurView.waiting ≠ 0 := by
        intro hzero
        rw [Draft.attachOne_slurClose_error_iff.2 ⟨rfl, hzero⟩] at attached'
        cases attached'
      omega

/-- A sign that is reached attaches unless as many slurs were closed before it as had come in
or opened. -/
theorem attachOne_slurClose_iff {before : List PostEvent} {head : Nat}
    (h : Building instrument (.start instrument prior frame) read draft (.slurClose :: due))
    (alternate : ChordsAlternate false read)
    (hbefore : writtenPost read = before ++ .slurClose :: due) :
    draft.attachOne head .slurClose = .error .unmatchedSlurClose ↔
      before.count .slurClose = prior.openSlurs + before.count .slurOpen := by
  obtain ⟨attached, hwritten, hwaiting, -⟩ := h.exists_attached alternate
  have hchord := h.chord_of_due (List.cons_ne_nil _ _)
  have heq : attached = before := by
    rw [hwritten] at hbefore
    simpa [Draft.chordPost, hchord] using hbefore
  subst heq
  rw [Draft.attachOne_slurClose_error_iff]
  constructor
  · rintro ⟨-, hnone⟩
    omega
  · intro hcount
    exact ⟨rfl, by omega⟩

/-- A run is refused for want of a slur where it comes to a sign that closes one, and as many
were closed before it as had come in or opened. -/
theorem acceptAll_unmatchedSlurClose_iff {offset : Nat}
    (alternate : ChordsAlternate false tokens) :
    (Draft.start instrument prior frame).acceptAll instrument 0 tokens =
        .error ⟨.unmatchedSlurClose, offset⟩ ↔
      ∃ before, ComesToClose instrument (.start instrument prior frame) tokens before offset ∧
        before.count .slurClose = prior.openSlurs + before.count .slurOpen := by
  constructor
  · intro h
    have hstops := Building.start.stops h
    cases hstops with
    | place split built refused =>
      simpa [Draft.placeFaults, Draft.misplacedFaults] using Draft.fault_of_place refused
    | @attach read rest draft event due head fault split built last refused located =>
      cases located
      rcases Draft.fault_of_attachOne refused with ⟨rfl, -⟩ | ⟨-, hfault⟩
      · rw [List.nil_append] at split
        have hread : ChordsAlternate false read := by
          rw [split] at alternate
          exact (chordsAlternate_append.1 alternate).1
        obtain ⟨before, hwritten, -, -⟩ := built.exists_attached hread
        have hchord := built.chord_of_due (List.cons_ne_nil _ _)
        have hbefore : writtenPost read = before ++ .slurClose :: due := by
          simpa [Draft.chordPost, hchord] using hwritten
        exact ⟨before, ⟨read, rest, draft, due, split, built, hbefore, rfl⟩,
          (built.attachOne_slurClose_iff hread hbefore).1 refused⟩
      · cases hfault
  · rintro ⟨before, ⟨read, rest, draft, due, rfl, built, hbefore, rfl⟩, hcount⟩
    have hread := (chordsAlternate_append.1 alternate).1
    obtain ⟨head, last⟩ := built.exists_lastHead
    have refused : draft.attachOne head .slurClose = .error .unmatchedSlurClose :=
      (built.attachOne_slurClose_iff hread hbefore).2 hcount
    rw [built.acceptAll_append rest, Draft.resume, Draft.attach_cons last, refused]

end Building

end Stave.Shorthand
