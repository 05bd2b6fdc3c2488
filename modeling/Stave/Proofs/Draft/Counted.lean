import Stave.Proofs.Draft.Heads
import Stave.Proofs.Tuplet.Counted
import Stave.Proofs.Chain

/-!
# Drafts by the slots before them

A draft knows its slots, and the ends of its slurs and ramps, by the indices of tokens. It never
computes with an index: it takes those it is given and puts them where they belong. So the indices
may be moved before tokens are taken in as well as after; with those the ledger moves them to, a
token is taken in under the number of slots headed before it. The clef and the tempo of a draft have
no part in what becomes of its slots either.
-/
namespace Stave.Shorthand

/-- A link with its ends moved. -/
def movedLink (move : Nat → Nat) (link : Link) : Link := ⟨link.start.map move, link.stop.map move⟩

/-- A ramp with its ends moved. -/
def movedRamp (move : Nat → Nat) (ramp : Ramp) : Ramp :=
  { ramp with start := ramp.start.map move, stop := ramp.stop.map move }

namespace Draft

/-- A draft with the indices of its tokens moved, and without its clef and tempo. -/
def numbered (move : Nat → Nat) (draft : Draft) : Draft :=
  { draft with
    slots := draft.slots.map fun slot => { slot with head := move slot.head }
    slurs := draft.slurs.map (movedLink move)
    ramps := draft.ramps.map (movedRamp move)
    openRamp := draft.openRamp.map fun ramp => { ramp with start := ramp.start.map move }
    chord := draft.chord.map fun chord => { chord with head := move chord.head }
    clef := default
    frame := { draft.frame with tempo := default }
    tempoChanged := false }

variable {move : Nat → Nat} {draft draft' : Draft} {instrument : Instrument} {prior : Carry}
  {frame : Frame} {index head : Nat} {token : Token} {post : List PostEvent}

@[simp] theorem numbered_numbered (move : Nat → Nat) (draft : Draft) :
    (draft.numbered move).numbered id = draft.numbered move := by
  simp [numbered, movedLink, movedRamp, Function.comp_def]

/-! ### Attaching -/

theorem numbered_mark (draft : Draft) (change : Slot → Slot) :
    (draft.mark change).numbered move = (draft.numbered move).mark change := by
  unfold mark
  cases hslots : draft.slots with
  | nil => simp [numbered, hslots]
  | cons last before => simp [numbered, hslots]

theorem numbered_closeRamp (draft : Draft) (head : Nat) (target : Option Level) :
    (draft.closeRamp head target).numbered move =
      (draft.numbered move).closeRamp (move head) target := by
  unfold closeRamp
  cases hramp : draft.openRamp with
  | none => simp [numbered, hramp]
  | some ramp =>
    have hopen : (draft.numbered move).openRamp =
        some { ramp with start := ramp.start.map move } := by
      simp [numbered, hramp]
    rw [hopen]
    dsimp only
    rw [numbered_mark]
    rfl

theorem numbered_openSlur (draft : Draft) (head : Nat) :
    (draft.openSlur head).numbered move = (draft.numbered move).openSlur (move head) := by
  unfold openSlur
  dsimp only
  rw [numbered_mark]
  simp [numbered, movedLink]

theorem numbered_closeSlur (draft : Draft) (head : Nat) :
    (draft.numbered move).closeSlur (move head) =
      (draft.closeSlur head).map (numbered move) := by
  have hopen : (draft.numbered move).openSlurs = draft.openSlurs := rfl
  have hcarried : (draft.numbered move).carriedSlurs = draft.carriedSlurs := rfl
  unfold closeSlur markSlurClosed
  rw [hopen, hcarried]
  cases hslurs : draft.openSlurs with
  | cons id others =>
    have hmodify : (draft.slurs.map (movedLink move)).modify id
        (fun link => { link with stop := some (move head) }) =
          (draft.slurs.modify id fun link => { link with stop := some head }).map
            (movedLink move) := by
      refine Array.ext_getElem? fun slur => ?_
      simp only [Array.getElem?_modify, Array.getElem?_map, Option.map_map]
      split <;> cases draft.slurs[slur]? <;> rfl
    rw [Except.map, numbered_mark]
    simp [numbered, hmodify]
  | nil =>
    dsimp only
    split
    · rfl
    · rw [Except.map, numbered_mark]
      simp [numbered, movedLink]

theorem numbered_startRamp (draft : Draft) (head : Nat) (direction : RampDirection) :
    (draft.startRamp head direction).numbered move =
      (draft.numbered move).startRamp (move head) direction := by
  unfold startRamp
  dsimp only
  rw [numbered_mark, ← numbered_closeRamp]
  rfl

theorem numbered_setDynamic (draft : Draft) (head : Nat) (dynamic : Dynamic) :
    (draft.setDynamic head dynamic).numbered move =
      (draft.numbered move).setDynamic (move head) dynamic := by
  unfold setDynamic
  dsimp only
  rw [← numbered_mark, ← numbered_closeRamp]
  rfl

/-- A post-event attaches to the numbered draft as it does to the draft. -/
theorem attachOne_numbered (draft : Draft) (head : Nat) (event : PostEvent) :
    (draft.numbered move).attachOne (move head) event =
      (draft.attachOne head event).map (numbered move) := by
  cases event with
  | slurOpen => exact congrArg Except.ok (numbered_openSlur draft head).symm
  | slurClose => exact numbered_closeSlur draft head
  | dynamic dynamic => exact congrArg Except.ok (numbered_setDynamic draft head dynamic).symm
  | rampStart direction =>
    exact congrArg Except.ok (numbered_startRamp draft head direction).symm
  | rampStop =>
    have hopen : (draft.numbered move).openRamp.isNone = draft.openRamp.isNone := by
      simp [numbered]
    rw [attachOne, attachOne, hopen, ← numbered_closeRamp]
    split <;> rfl
  | _ => exact congrArg Except.ok (numbered_mark draft _).symm

theorem attach_numbered (draft : Draft) (post : List PostEvent) :
    (draft.numbered move).attach post = (draft.attach post).map (numbered move) := by
  induction post generalizing draft with
  | nil => rfl
  | cons event rest ih =>
    have hlast : (draft.numbered move).lastHead? = draft.lastHead?.map move := by
      simp [lastHead?, numbered, Function.comp_def]
    cases hhead : draft.lastHead? with
    | none =>
      have hslots : draft.slots = [] := by simpa [lastHead?] using hhead
      simp [attach, numbered, hslots, Except.map]
    | some head =>
      rw [hhead] at hlast
      rw [attach_cons hhead, attach_cons hlast, attachOne_numbered]
      cases draft.attachOne head event with
      | error fault => rfl
      | ok next => exact ih next

/-! ### Placing -/

theorem addSlot_numbered (draft : Draft) (head : Nat) (content : SlotContent)
    (written : Option NoteLength) (offset : Nat) :
    (draft.numbered move).addSlot (move head) content written offset =
      (draft.addSlot head content written offset).map (numbered move) := by
  have hlast : (draft.numbered move).lastLength = draft.lastLength := rfl
  unfold addSlot
  rw [hlast]
  split
  · split <;> rfl
  · rfl

theorem follow_numbered (draft : Draft) (token : Token) :
    ((draft.numbered move).follow token).numbered id = (draft.follow token).numbered move := by
  have h := numbered_numbered move draft
  unfold follow
  split <;> simp_all [numbered]

/-- A token is placed in the numbered draft, under its moved index, as it is in the draft. -/
theorem place_numbered (move : Nat → Nat) (draft : Draft) (instrument : Instrument) (index : Nat)
    (token : Token) :
    ((draft.numbered move).place instrument (move index) token).map (Prod.map (numbered id) id) =
      (draft.place instrument index token).map (Prod.map (numbered move) id) := by
  have hslots : (draft.numbered move).slots.isEmpty = draft.slots.isEmpty := by
    simp [numbered]
  have hchord : (draft.numbered move).chord =
      draft.chord.map fun chord => { chord with head := move chord.head } := rfl
  cases hkind : token.kind with
  | note word =>
    cases hopen : draft.chord with
    | some chord =>
      by_cases hlength : word.suffix.length.isSome
      · simp [place, hkind, hchord, hopen, addToChord, hlength, located, Except.map]
      · simp [place, hkind, hopen, addToChord, hlength, located, Except.map, numbered, movedLink,
          movedRamp, Function.comp_def]
    | none =>
      simp only [place, hkind, hchord, hopen, Option.map_none, addSlot_numbered]
      cases draft.addSlot index _ word.suffix.length token.origin <;> simp [located, Except.map]
  | rest suffix =>
    simp only [place, hkind, hchord, Option.isSome_map, addSlot_numbered]
    by_cases hopen : draft.chord.isSome
    · simp [hopen, Except.map]
    · cases draft.addSlot index _ suffix.length token.origin <;>
        simp [hopen, located, Except.map]
  | duration suffix =>
    simp only [place, hkind, hchord, Option.isSome_map, addSlot_numbered]
    by_cases hrhythm : instrument.rhythm
    · by_cases hopen : draft.chord.isSome
      · simp [hrhythm, hopen, Except.map]
      · cases draft.addSlot index _ suffix.length token.origin <;>
          simp [hrhythm, hopen, located, Except.map]
    · simp [hrhythm, Except.map]
  | chordEnd suffix =>
    cases hopen : draft.chord with
    | none => simp [place, hkind, hchord, hopen, Except.map]
    | some chord =>
      have hclose : (draft.numbered move).closeChord { chord with head := move chord.head }
          suffix.length = (draft.closeChord chord suffix.length).map (numbered move) :=
        addSlot_numbered { draft with chord := none } ..
      simp only [place, hkind, hchord, hopen, Option.map_some, hclose]
      by_cases hsilent : chord.pitches.isEmpty
      · simp [hsilent, Except.map]
      · cases draft.closeChord chord suffix.length <;>
          simp [hsilent, located, Except.map]
  | postEvents events =>
    cases hopen : draft.chord with
    | some chord =>
      simp [place, hkind, hopen, Except.map, numbered, movedLink, movedRamp, Function.comp_def]
    | none =>
      simp only [place, hkind, hchord, hopen, Option.map_none, hslots]
      by_cases hempty : draft.slots.isEmpty <;> simp [hempty, Except.map]
  | chordStart =>
    simp [place, hkind, Except.map, numbered, movedLink, movedRamp, Function.comp_def]
  | barLine => simp [place, hkind, Except.map]
  | _ => simp [place, hkind, Except.map, follow_numbered]

/-! ### Taking in -/

variable {move' : Nat → Nat} {index' slot : Nat} {tokens read rest : List Token}

/-- Post-events attach alike to drafts that are numbered alike. -/
theorem attach_congr (h : draft.numbered move = draft'.numbered move') (post : List PostEvent) :
    (draft.attach post).map (numbered move) = (draft'.attach post).map (numbered move') := by
  rw [← attach_numbered, h, attach_numbered]

theorem accept_numbered (draft : Draft) (instrument : Instrument) (index : Nat) (token : Token) :
    ((draft.numbered move).accept instrument (move index) token).map (numbered id) =
      (draft.accept instrument index token).map (numbered move) := by
  unfold accept
  rcases eq_or_exists_of_map_eq (place_numbered move draft instrument index token) with
    ⟨error, hplaced, hplaced'⟩ | ⟨⟨next, post⟩, ⟨next', post'⟩, hplaced, hplaced', heq⟩
  · simp only [hplaced, hplaced']
    rfl
  · obtain ⟨hnext, rfl⟩ : next.numbered id = next'.numbered move ∧ post = post' := Prod.mk.inj heq
    simp only [hplaced, hplaced']
    rcases eq_or_exists_of_map_eq (attach_congr hnext post) with
      ⟨fault, hattach, hattach'⟩ | ⟨done, done', hattach, hattach', hdone⟩
    · simp only [hattach, hattach']
      rfl
    · simp only [hattach, hattach']
      exact congrArg Except.ok hdone

/-- Drafts that are numbered alike take in a token alike. -/
theorem accept_congr (h : draft.numbered move = draft'.numbered move')
    (hindex : move index = move' index') (instrument : Instrument) (token : Token) :
    (draft.accept instrument index token).map (numbered move) =
      (draft'.accept instrument index' token).map (numbered move') := by
  rw [← accept_numbered, h, hindex, accept_numbered]

/-- Take in tokens in order, each under the number of slots headed before it. -/
def acceptCounted (draft : Draft) (instrument : Instrument) (slot : Nat) :
    List Token → Except BuildError Draft
  | [] => .ok draft
  | token :: rest =>
    match draft.accept instrument slot token with
    | .error error => .error error
    | .ok next =>
      next.acceptCounted instrument
        (if token.kind.isHead draft.chord.isSome then slot + 1 else slot) rest

theorem isSome_chord_eq_of_numbered (h : draft.numbered move = draft'.numbered move') :
    draft.chord.isSome = draft'.chord.isSome := by
  have hchord := congrArg (fun draft => draft.chord.isSome) h
  simpa [numbered] using hchord

/-- Drafts that are numbered alike take in tokens alike. -/
theorem acceptCounted_congr (h : draft.numbered id = draft'.numbered id) (instrument : Instrument)
    (slot : Nat) (tokens : List Token) :
    (draft.acceptCounted instrument slot tokens).map (numbered id) =
      (draft'.acceptCounted instrument slot tokens).map (numbered id) := by
  induction tokens generalizing draft draft' slot with
  | nil => exact congrArg Except.ok h
  | cons token rest ih =>
    unfold acceptCounted
    rw [isSome_chord_eq_of_numbered h]
    rcases eq_or_exists_of_map_eq (accept_congr h (rfl : id slot = id slot) instrument token) with
      ⟨error, haccept, haccept'⟩ | ⟨next, next', haccept, haccept', hnext⟩
    · rw [haccept, haccept']
    · rw [haccept, haccept']
      exact ih hnext _

/-- The tokens of a line may be taken in under the indices of slots. -/
theorem acceptAll_numbered (htokens : tokens = read ++ rest)
    (hchord : draft.chord.isSome = chordOpenAfter false read)
    (h : draft.numbered (Ledger.scan tokens).rebase = draft'.numbered id) :
    (draft.acceptAll instrument read.length rest).map (numbered (Ledger.scan tokens).rebase) =
      (draft'.acceptCounted instrument (Ledger.headsFrom 0 false read).length rest).map
        (numbered id) := by
  induction rest generalizing read draft draft' with
  | nil => exact congrArg Except.ok h
  | cons token rest ih =>
    have hindex : (Ledger.scan tokens).rebase read.length =
        id (Ledger.headsFrom 0 false read).length := by
      rw [htokens, Ledger.rebase_length, id]
    have hrest : tokens = (read ++ [token]) ++ rest := by rw [htokens, List.append_cons]
    have ih {draft draft' : Draft} := @ih draft draft' (read ++ [token]) hrest
    rw [chordOpenAfter_concat, Ledger.length_headsFrom_concat, List.length_append,
      List.length_singleton, ← hchord] at ih
    unfold acceptAll acceptCounted
    rw [← isSome_chord_eq_of_numbered h]
    rcases eq_or_exists_of_map_eq (accept_congr h hindex instrument token) with
      ⟨error, haccept, haccept'⟩ | ⟨next, next', haccept, haccept', hnext⟩
    · rw [haccept, haccept']
      rfl
    · rw [haccept, haccept']
      exact ih (isSome_chord_of_accept haccept) hnext

end Draft

end Stave.Shorthand
