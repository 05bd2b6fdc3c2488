import Stave.Proofs.Draft.Step
import Stave.Proofs.Draft.Unseen
import Stave.Proofs.Token.Joined
import Stave.Shorthand.WrittenLine

/-!
# Drafts of a line typed elsewhere

A draft keeps where its slots, its chord and its meter directive were typed, and nothing of what
becomes of it looks there. So tokens with the same kinds, typed elsewhere, make the same draft
with other places; and the same goes for the tuplet groups of the line, and for the ledger, which
has no places at all.
-/
namespace Stave

/-- A slot typed elsewhere. -/
def Slot.moved (move : Nat → Nat) (slot : Slot) : Slot := { slot with offset := move slot.offset }

namespace Shorthand

variable {move : Nat → Nat} {tokens tokens' : List Token} {token token' : Token}

/-- Tokens of the same kinds typed elsewhere. -/
def SameMoved (move : Nat → Nat) (tokens tokens' : List Token) : Prop :=
  tokens'.map Token.mark = tokens.map (Token.movedMark move)

theorem SameMoved.exists_cons {rest : List Token} (h : SameMoved move (token :: rest) tokens') :
    ∃ token' rest', tokens' = token' :: rest' ∧ token'.kind = token.kind ∧
      token'.origin = move token.origin ∧ SameMoved move rest rest' := by
  obtain ⟨token', rest', rfl, hmark, hrest⟩ := List.map_eq_cons_iff.1 h
  exact ⟨token', rest', rfl, congrArg Prod.fst hmark, congrArg Prod.snd hmark, hrest⟩

theorem SameMoved.eq_nil (h : SameMoved move [] tokens') : tokens' = [] := List.map_eq_nil_iff.1 h

/-! ### The ledger and the tuplets -/

theorem Ledger.removedFrom_of_sameMoved (h : SameMoved move tokens tokens') (index : Nat)
    (chord : Bool) : removedFrom index chord tokens' = removedFrom index chord tokens := by
  induction tokens generalizing tokens' index chord with
  | nil => rw [h.eq_nil]
  | cons token rest ih =>
    obtain ⟨token', rest', rfl, hkind, -, hrest⟩ := h.exists_cons
    rw [removedFrom, removedFrom, hkind, ih hrest]

theorem Ledger.scan_of_sameMoved (h : SameMoved move tokens tokens') :
    scan tokens' = scan tokens := by
  rw [scan, scan, removedFrom_of_sameMoved h]

/-- A tuplet directive typed elsewhere. -/
def OpenTuplet.moved (move : Nat → Nat) (tuplet : OpenTuplet) : OpenTuplet :=
  { tuplet with origin := move tuplet.origin }

namespace TupletGroup

/-- A tuplet typed elsewhere. -/
def moved (move : Nat → Nat) (group : TupletGroup) : TupletGroup :=
  { group with origin := move group.origin }

variable {ledger : Ledger} {index : Nat} {tuplet : Option OpenTuplet} {opened : OpenTuplet}
  {group : TupletGroup} {found groups : List TupletGroup}

theorem close_moved (h : opened.close ledger index = .ok group) :
    (opened.moved move).close ledger index = .ok (group.moved move) := by
  unfold OpenTuplet.close at h ⊢
  dsimp only [OpenTuplet.moved] at h ⊢
  split at h
  · cases h
  case h_2 head rest heads =>
    cases h
    rfl

theorem collect_moved (hmoved : SameMoved move tokens tokens')
    (h : collect ledger index tuplet found tokens = .ok groups) :
    collect ledger index (tuplet.map (OpenTuplet.moved move)) (found.map (moved move)) tokens' =
      .ok (groups.map (moved move)) := by
  induction tokens generalizing tokens' index tuplet found with
  | nil =>
    rw [hmoved.eq_nil]
    unfold collect at h ⊢
    cases tuplet with
    | some opened => cases h
    | none =>
      cases h
      rw [Option.map_none, List.map_reverse]
  | cons token rest ih =>
    obtain ⟨token', rest', rfl, hkind, horigin, hrest⟩ := hmoved.exists_cons
    have hnext : rest'.head?.map Token.kind = rest.head?.map Token.kind := by
      cases rest with
      | nil => rw [hrest.eq_nil]
      | cons next rest =>
        obtain ⟨next', _, rfl, hsame, -⟩ := hrest.exists_cons
        exact congrArg some hsame
    unfold collect at h ⊢
    rw [hkind, horigin, hnext]
    split at h
    case h_1 actual normal =>
      cases tuplet with
      | some opened => cases h
      | none =>
        rw [if_neg (by simp)] at h ⊢
        split at h
        case isTrue hopen =>
          rw [if_pos hopen]
          exact ih hrest h
        case isFalse => cases h
    case h_2 =>
      cases tuplet with
      | none => cases h
      | some opened =>
        dsimp only [Option.map_some] at h ⊢
        split at h
        case isTrue hnow =>
          rw [if_pos (by exact hnow)]
          exact ih hrest h
        case isFalse => cases h
    case h_3 =>
      cases tuplet with
      | none => cases h
      | some opened =>
        dsimp only [Option.map_some] at h ⊢
        split at h
        · cases h
        case h_2 group hclose =>
          rw [close_moved hclose]
          exact ih hrest h
    case h_4 => exact ih hrest h

end TupletGroup

/-! ### Drafts -/

/-- A draft typed elsewhere. -/
def Draft.moved (move : Nat → Nat) (draft : Draft) : Draft :=
  { draft with
    slots := draft.slots.map fun slot => { slot with slot := slot.slot.moved move }
    chord := draft.chord.map fun chord => { chord with offset := move chord.offset }
    timeOffset := draft.timeOffset.map move }

namespace Draft

variable {draft draft' : Draft} {post : List PostEvent} {instrument : Instrument} {index : Nat}

/-- Where slots, chord and directive were typed is not seen by what attaches. -/
theorem unseen_moved (move : Nat → Nat) : Unseen (moved move) where
  heads draft := by
    simp only [moved, List.map_map]
    rfl
  level _ := rfl
  slurs _ := rfl
  openSlurs _ := rfl
  carriedSlurs _ := rfl
  ramps _ := rfl
  openRamp _ := rfl
  withLinks _ _ _ _ _ _ _ := rfl
  mark draft mark hmark := by
    have hchange (slot : Slot) : mark (slot.moved move) = (mark slot).moved move := by
      have hself : mark slot = { mark slot with offset := slot.offset } := hmark slot slot.offset
      have hoffset : (mark slot).offset = slot.offset := (congrArg Slot.offset hself).trans rfl
      rw [Slot.moved, hmark, Slot.moved, hoffset]
    unfold Draft.mark
    cases hslots : draft.slots with
    | nil => simp [moved, hslots]
    | cons last before => simp [moved, hslots, hchange]

theorem moved_push (draft : Draft) (head : Nat) (content : SlotContent) (length : NoteLength)
    (offset : Nat) :
    (draft.push head content length offset).moved move =
      (draft.moved move).push head content length (move offset) := rfl

theorem moved_follow (hkind : token'.kind = token.kind)
    (horigin : token'.origin = move token.origin) :
    (draft.follow token).moved move = (draft.moved move).follow token' := by
  unfold follow
  rw [hkind, horigin]
  split <;> rfl

/-- A token typed elsewhere is placed in the same way. -/
theorem placed_moved (hkind : token'.kind = token.kind)
    (horigin : token'.origin = move token.origin)
    (h : Placed instrument draft index token draft' post) :
    Placed instrument (draft.moved move) index token' (draft'.moved move) post := by
  have hchord {chord : Option OpenChord} (inside : draft.chord = chord) :
      (draft.moved move).chord =
        chord.map fun chord => { chord with offset := move chord.offset } := by
    rw [moved, inside]
  cases h with
  | slot kind outside rhythm timed fits =>
    rw [moved_push, ← horigin]
    exact .slot (by rwa [hkind]) (hchord outside) (by rwa [hkind]) timed fits
  | chordStart kind =>
    have hstart : Placed instrument (draft.moved move) index token'
        { draft.moved move with chord := some ⟨index, token'.origin, [], []⟩ } [] :=
      .chordStart (hkind.trans kind)
    rw [horigin] at hstart
    exact hstart
  | chordNote kind inside bare => exact .chordNote (hkind.trans kind) (hchord inside) bare
  | chordPost kind inside => exact .chordPost (hkind.trans kind) (hchord inside)
  | chordEnd kind inside sounds timed fits =>
    exact .chordEnd (hkind.trans kind) (hchord inside) sounds timed fits
  | free kind outside nonempty =>
    exact .free (hkind.trans kind) (hchord outside) (by simpa [moved] using nonempty)
  | control kind =>
    rw [moved_follow hkind horigin]
    exact .control (by rwa [hkind])

/-- Tokens typed elsewhere are taken in the same elsewhere. -/
theorem acceptAll_moved (hmoved : SameMoved move tokens tokens')
    (h : draft.acceptAll instrument index tokens = .ok draft') :
    (draft.moved move).acceptAll instrument index tokens' = .ok (draft'.moved move) := by
  induction tokens generalizing tokens' draft index with
  | nil =>
    cases h
    rw [hmoved.eq_nil]
    rfl
  | cons token rest ih =>
    obtain ⟨token', rest', rfl, hkind, horigin, hrest⟩ := hmoved.exists_cons
    unfold acceptAll accept at h ⊢
    cases hplace : draft.place instrument index token with
    | error error => simp [hplace] at h
    | ok placed =>
      obtain ⟨placed, post⟩ := placed
      rw [place_of_placed (placed_moved hkind horigin (placed_of_place hplace))]
      cases hattach : placed.attach post with
      | error fault => simp [hplace, hattach] at h
      | ok attached =>
        simp only [hplace, hattach] at h
        simp only [(unseen_moved move).attach, hattach]
        exact ih hrest h

end Draft

end Shorthand

end Stave
