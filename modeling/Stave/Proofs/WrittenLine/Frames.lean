import Stave.Proofs.Draft.Unseen
import Stave.Proofs.WrittenLine.Built

/-!
# Meter and tempo of a written line

What meter and tempo a line leaves is a matter of its directives: of each kind the last one
counts, and without one the bar keeps what it had. No token is placed by them and nothing attaches
by them; only when the line is finished are its slots measured against the meter. So a line that
is read in one frame is read, and is the same, in every frame its directives turn into the frame
it leaves. One of these is the frame it leaves.
-/
namespace Stave.Shorthand

/-- The meter a directive sets. -/
def TokenKind.meter? : TokenKind → Option Meter
  | time meter => some meter
  | _ => none

/-- The tempo a directive sets. -/
def TokenKind.tempo? : TokenKind → Option Tempo
  | tempo beats => some beats
  | _ => none

variable {frame other : Frame} {token : Token} {tokens : List Token} {player : Instrument}
  {prior : Carry} {written : WrittenLine}

namespace Frame

/-- Meter and tempo after a token. -/
def follow (frame : Frame) (token : Token) : Frame :=
  ⟨token.kind.meter?.getD frame.meter, token.kind.tempo?.getD frame.tempo⟩

/-- Meter and tempo after tokens in order. -/
def followAll (frame : Frame) (tokens : List Token) : Frame := tokens.foldl follow frame

/-- Of each kind of directive the last one counts. -/
theorem followAll_eq (frame : Frame) (tokens : List Token) :
    frame.followAll tokens =
      ⟨(tokens.reverse.findSome? (·.kind.meter?)).getD frame.meter,
        (tokens.reverse.findSome? (·.kind.tempo?)).getD frame.tempo⟩ := by
  induction tokens generalizing frame with
  | nil => rfl
  | cons token rest ih =>
    have hstep : frame.followAll (token :: rest) = (frame.follow token).followAll rest := rfl
    rw [hstep, ih, follow]
    simp [List.findSome?_append, Option.getD_or]

/-- Directives that are followed again change nothing more. -/
@[simp] theorem followAll_followAll (frame : Frame) (tokens : List Token) :
    (frame.followAll tokens).followAll tokens = frame.followAll tokens := by
  have hagain {α : Type} (found : Option α) (value : α) :
      found.getD (found.getD value) = found.getD value := by
    cases found <;> rfl
  simp only [followAll_eq, hagain]

theorem follow_eq_self (h : token.kind.isControl = false) : frame.follow token = frame := by
  unfold follow
  cases hkind : token.kind <;> simp_all [TokenKind.isControl, TokenKind.meter?, TokenKind.tempo?]

end Frame

namespace Draft

variable {draft draft' : Draft} {index : Nat} {post : List PostEvent}

/-- The draft in another meter and tempo. -/
def withFrame (draft : Draft) (frame : Frame) : Draft := { draft with frame }

theorem unseen_withFrame (frame : Frame) : Unseen (·.withFrame frame) where
  heads _ := rfl
  level _ := rfl
  slurs _ := rfl
  openSlurs _ := rfl
  carriedSlurs _ := rfl
  ramps _ := rfl
  openRamp _ := rfl
  withLinks _ _ _ _ _ _ _ := rfl
  mark draft mark _ := by
    unfold Draft.mark
    cases hslots : draft.slots <;> simp [withFrame, hslots]

theorem follow_withFrame (draft : Draft) (frame : Frame) (token : Token) :
    (draft.withFrame frame).follow token = (draft.follow token).withFrame (frame.follow token) := by
  unfold follow Frame.follow
  cases token.kind <;> rfl

/-- Meter and tempo have no part in how a token is placed. -/
theorem placed_withFrame (frame : Frame) (h : Placed player draft index token draft' post) :
    Placed player (draft.withFrame frame) index token (draft'.withFrame (frame.follow token))
      post := by
  cases h with
  | slot kind outside rhythm timed fits =>
    have hplain : token.kind.isControl = false := by
      cases hkind : token.kind <;> simp_all [TokenKind.slot?, TokenKind.isControl]
    rw [Frame.follow_eq_self hplain]
    exact .slot kind outside rhythm timed fits
  | chordStart kind =>
    rw [Frame.follow_eq_self (by rw [kind]; rfl)]
    exact .chordStart kind
  | chordNote kind inside bare =>
    rw [Frame.follow_eq_self (by rw [kind]; rfl)]
    exact .chordNote kind inside bare
  | chordPost kind inside =>
    rw [Frame.follow_eq_self (by rw [kind]; rfl)]
    exact .chordPost kind inside
  | chordEnd kind inside sounds timed fits =>
    rw [Frame.follow_eq_self (by rw [kind]; rfl)]
    exact .chordEnd kind inside sounds timed fits
  | free kind outside nonempty =>
    rw [Frame.follow_eq_self (by rw [kind]; rfl)]
    exact .free kind outside nonempty
  | control kind =>
    rw [← follow_withFrame]
    exact .control kind

/-- Tokens are taken in alike in every meter and tempo. -/
theorem acceptAll_withFrame (frame : Frame)
    (h : draft.acceptAll player index tokens = .ok draft') :
    (draft.withFrame frame).acceptAll player index tokens =
      .ok (draft'.withFrame (frame.followAll tokens)) := by
  induction tokens generalizing draft index frame with
  | nil =>
    cases h
    rfl
  | cons token rest ih =>
    unfold acceptAll at h ⊢
    cases haccept : draft.accept player index token with
    | error error => simp [haccept] at h
    | ok next =>
      obtain ⟨placed, post, hplace, hattach⟩ := accept_eq_ok.1 haccept
      have hplaced := place_of_placed (placed_withFrame frame (placed_of_place hplace))
      have hattached := (unseen_withFrame (frame.follow token)).attach placed post
      rw [hattach] at hattached
      rw [accept_eq_ok.2 ⟨_, _, hplaced, hattached⟩]
      simp only [haccept] at h
      exact ih _ h

/-- The directives of the tokens alone say what meter and tempo they leave. -/
theorem frame_of_acceptAll (h : draft.acceptAll player index tokens = .ok draft') :
    draft'.frame = draft.frame.followAll tokens := by
  have hsame := acceptAll_withFrame draft.frame h
  have hself : draft.withFrame draft.frame = draft := rfl
  rw [hself, h, Except.ok.injEq] at hsame
  exact congrArg Draft.frame hsame

end Draft

theorem Finished.frame_eq {draft : Draft} {ledger : Ledger} {groups : List TupletGroup}
    (h : Finished draft player prior ledger groups written) : written.frame = draft.frame := by
  cases h <;> rfl

/-- A line is built alike in every frame its directives turn into the frame it leaves. -/
theorem buildLine_of_followAll (h : buildLine tokens player prior frame = .ok written)
    (hframe : other.followAll tokens = frame.followAll tokens) :
    buildLine tokens player prior other = .ok written := by
  unfold buildLine at h ⊢
  obtain ⟨groups, hgroups, h⟩ := bind_ok_iff.1 h
  obtain ⟨draft, hdraft, h⟩ := bind_ok_iff.1 h
  have hother : (Draft.start player prior other).acceptAll player 0 tokens = .ok draft := by
    have hrun := Draft.acceptAll_withFrame other hdraft
    have hstart : (Draft.start player prior frame).frame = frame := rfl
    rwa [hframe, ← hstart, ← Draft.frame_of_acceptAll hdraft] at hrun
  exact bind_ok_iff.2 ⟨groups, hgroups, bind_ok_iff.2 ⟨draft, hother, h⟩⟩

theorem frame_of_buildLine (h : buildLine tokens player prior frame = .ok written) :
    written.frame = frame.followAll tokens := by
  unfold buildLine at h
  obtain ⟨groups, -, h⟩ := bind_ok_iff.1 h
  obtain ⟨draft, hdraft, h⟩ := bind_ok_iff.1 h
  rw [(finished_of_finish h).frame_eq, Draft.frame_of_acceptAll hdraft]
  rfl

/-- A text that is read is read again, as the same line, in the meter and tempo it leaves. -/
theorem readLine_again {text : String} (h : readLine text player prior frame = .ok written) :
    readLine text player prior written.frame = .ok written := by
  obtain ⟨tokens, htokens, hbuilt⟩ := readLine_eq_ok.1 h
  have hframe := frame_of_buildLine hbuilt
  refine readLine_eq_ok.2 ⟨tokens, htokens, buildLine_of_followAll hbuilt ?_⟩
  rw [hframe, Frame.followAll_followAll]

end Stave.Shorthand
