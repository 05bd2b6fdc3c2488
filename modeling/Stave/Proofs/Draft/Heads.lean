import Stave.Proofs.Draft.Run
import Stave.Proofs.Ledger
import Stave.Proofs.Token.Read

/-!
# The ledger and the draft agree on what a slot is

The ledger finds the heads of slots in a walk of its own, from a flag for an open chord. A
draft adds the slot of a chord only at its closing bracket, under the index of the opening
one. The two agree at every step once the head of an open chord is counted: the heads of the
slots, and then that of the chord, are the heads of the tokens read. With chords closed at
the end nothing is left over, and the slots are headed by the tokens the ledger keeps.
-/
namespace Stave.Shorthand

namespace TokenKind

variable {kind : TokenKind} {chord : Bool}

theorem isHead_of_slot? {slot : SlotContent × Suffix} (h : kind.slot? = some slot) :
    kind.isHead chord = !chord := by
  cases kind <;> simp_all [slot?, isHead]

theorem opensChord_of_slot? {slot : SlotContent × Suffix} (h : kind.slot? = some slot) :
    kind.opensChord chord = chord := by
  cases kind <;> simp_all [slot?, opensChord]

theorem isHead_of_isControl (h : kind.isControl) : kind.isHead chord = false := by
  cases kind <;> simp_all [isControl, isHead]

theorem opensChord_of_isControl (h : kind.isControl) : kind.opensChord chord = chord := by
  cases kind <;> simp_all [isControl, opensChord]

end TokenKind

namespace Draft

/-- The heads of a draft, with that of a chord that is still open. -/
def allHeads (draft : Draft) : List Nat := draft.heads ++ (draft.chord.map OpenChord.head).toList

@[simp] theorem heads_push (draft : Draft) (head : Nat) (content : SlotContent)
    (length : NoteLength) (offset : Nat) :
    (draft.push head content length offset).heads = draft.heads ++ [head] := by
  simp [heads, push]

@[simp] theorem heads_follow (draft : Draft) (token : Token) :
    (draft.follow token).heads = draft.heads := by
  unfold follow
  split <;> rfl

@[simp] theorem chord_follow (draft : Draft) (token : Token) :
    (draft.follow token).chord = draft.chord := by
  unfold follow
  split <;> rfl

/-- A draft whose heads, and whose chord, are those the ledger finds. -/
structure Agrees (draft : Draft) (read : List Token) : Prop where
  heads : draft.allHeads = Ledger.headsFrom 0 false read
  chord : draft.chord.isSome = chordOpenAfter false read

variable {instrument : Instrument} {draft draft' : Draft} {read : List Token} {token : Token}
  {post : List PostEvent}

theorem headsFrom_concat (read : List Token) (token : Token) :
    Ledger.headsFrom 0 false (read ++ [token]) =
      Ledger.headsFrom 0 false read ++
        if token.kind.isHead (chordOpenAfter false read) then [read.length] else [] := by
  rw [Ledger.headsFrom_append]
  simp [Ledger.headsFrom]

theorem chordOpenAfter_concat (chord : Bool) (read : List Token) (token : Token) :
    chordOpenAfter chord (read ++ [token]) =
      token.kind.opensChord (chordOpenAfter chord read) := by
  simp [chordOpenAfter]

/-- A draft has an open chord just if the tokens say so. -/
theorem isSome_chord_of_placed {index : Nat}
    (placed : Placed instrument draft index token draft' post) :
    draft'.chord.isSome = token.kind.opensChord draft.chord.isSome := by
  cases placed with
  | slot kind outside =>
    rw [TokenKind.opensChord_of_slot? kind]
    rfl
  | chordStart kind => simp [kind, TokenKind.opensChord]
  | chordNote kind inside => simp [kind, inside, TokenKind.opensChord]
  | chordPost kind inside => simp [kind, inside, TokenKind.opensChord]
  | chordEnd kind => simp [kind, push, TokenKind.opensChord]
  | free kind => simp [kind, TokenKind.opensChord]
  | control kind => rw [chord_follow, TokenKind.opensChord_of_isControl kind]

theorem isSome_chord_of_accept {index : Nat}
    (h : draft.accept instrument index token = .ok draft') :
    draft'.chord.isSome = token.kind.opensChord draft.chord.isSome := by
  obtain ⟨placed, post, hplace, hattach⟩ := accept_eq_ok.1 h
  have hchord := congrArg Draft.chord (unmarked_of_attach hattach)
  simp only [unmarked] at hchord
  rw [hchord, isSome_chord_of_placed (placed_of_place hplace)]

/-- Placing a token keeps the agreement, as long as no chord opens inside another. -/
theorem Agrees.place (h : draft.Agrees read)
    (alternate : token.kind = .chordStart → chordOpenAfter false read = false)
    (placed : Placed instrument draft read.length token draft' post) :
    draft'.Agrees (read ++ [token]) := by
  have hheads := h.heads
  have hchord := h.chord
  refine ⟨?heads, by rw [isSome_chord_of_placed placed, hchord, chordOpenAfter_concat]⟩
  rw [headsFrom_concat, ← hheads]
  cases placed with
  | slot kind outside rhythm timed =>
    rw [← hchord, TokenKind.isHead_of_slot? kind]
    simp [allHeads, outside, push, Draft.heads]
  | chordStart kind =>
    have houtside : draft.chord = none := by
      rw [alternate kind] at hchord
      simpa using hchord
    simp [allHeads, houtside, kind, TokenKind.isHead, Draft.heads]
  | chordNote kind inside bare =>
    rw [← hchord]
    simp [allHeads, inside, kind, TokenKind.isHead, Draft.heads]
  | chordPost kind inside => simp [allHeads, inside, kind, TokenKind.isHead, Draft.heads]
  | chordEnd kind inside sounds timed =>
    simp [allHeads, inside, kind, TokenKind.isHead, Draft.heads, push]
  | free kind outside nonempty => simp [kind, TokenKind.isHead]
  | control kind =>
    rw [TokenKind.isHead_of_isControl kind]
    simp [allHeads]

theorem Agrees.of_unmarked (h : draft.Agrees read) (heq : draft'.unmarked = draft.unmarked) :
    draft'.Agrees read := by
  have hchord := congrArg Draft.chord heq
  simp only [unmarked] at hchord
  constructor
  · rw [← h.heads, allHeads, heads_eq_of_unmarked heq, hchord]
    rfl
  · rw [hchord]
    exact h.chord

end Draft

namespace Building

variable {instrument : Instrument} {prior : Carry} {frame : Frame} {read : List Token}
  {draft : Draft} {due : List PostEvent}

theorem isSome_chord (h : Building instrument (.start instrument prior frame) read draft due) :
    draft.chord.isSome = chordOpenAfter false read := by
  induction h with
  | start => rfl
  | place built placed ih =>
    rw [Draft.isSome_chord_of_placed (Draft.placed_of_place placed), ih,
      Draft.chordOpenAfter_concat]
  | attach built last attached ih =>
    have hchord := congrArg Draft.chord (Draft.unmarked_of_attachOne attached)
    simp only [Draft.unmarked] at hchord
    rw [hchord, ih]

/-- The draft of tokens whose chords alternate agrees with the ledger. -/
theorem agrees (h : Building instrument (.start instrument prior frame) read draft due)
    (alternate : ChordsAlternate false read) : draft.Agrees read := by
  induction h with
  | start => exact ⟨rfl, rfl⟩
  | place built placed ih =>
    obtain ⟨hbefore, hopens, -, -⟩ := chordsAlternate_append.1 alternate
    exact (ih hbefore).place hopens (Draft.placed_of_place placed)
  | attach built last attached ih =>
    exact (ih alternate).of_unmarked (Draft.unmarked_of_attachOne attached)

/-- The heads of a draft increase. -/
theorem pairwise_heads (h : Building instrument (.start instrument prior frame) read draft due)
    (alternate : ChordsAlternate false read) : draft.heads.Pairwise (· < ·) := by
  have hall := Ledger.pairwise_headsFrom 0 false read
  rw [← (h.agrees alternate).heads] at hall
  exact (List.pairwise_append.1 hall).1

/-- Once no chord is open, the slots are headed by the tokens the ledger keeps. -/
theorem heads_eq_headsFrom
    (h : Building instrument (.start instrument prior frame) read draft due)
    (alternate : ChordsAlternate false read) (closed : chordOpenAfter false read = false) :
    draft.chord = none ∧ draft.heads = Ledger.headsFrom 0 false read := by
  have hagrees := h.agrees alternate
  have hnone : draft.chord = none := by
    have := hagrees.chord
    rw [closed] at this
    simpa using this
  refine ⟨hnone, ?_⟩
  rw [← hagrees.heads]
  simp [Draft.allHeads, hnone]

end Building

end Stave.Shorthand
