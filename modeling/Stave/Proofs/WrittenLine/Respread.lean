import Mathlib.Logic.Relation
import Stave.Proofs.Tuplet.Outlined
import Stave.Proofs.WrittenLine.Counted

/-!
# Where control tokens and post-events stand

A clef or a tempo may be written at any place of a line, and post-events at the token whose slot
they are for or on their own right after it. Slots, tuplets, slurs and ramps are the same for all of
this, although every token that is put in moves the ones after it: by the slots before them nothing
has moved. What is refused is refused for the same fault, at another place perhaps.
-/
namespace Stave.Shorthand

/-- Write other post-events at a token that may have some. -/
def TokenKind.withPost (post : List PostEvent) : TokenKind → TokenKind
  | note word => note { word with suffix := { word.suffix with post } }
  | rest suffix => rest { suffix with post }
  | duration suffix => duration { suffix with post }
  | chordEnd suffix => chordEnd { suffix with post }
  | kind => kind

/-- Write other post-events at a token that may have some. -/
def Token.withPost (post : List PostEvent) (token : Token) : Token :=
  { token with kind := token.kind.withPost post }

/-- Whether a token sets the clef or the tempo. -/
def TokenKind.isSetting : TokenKind → Bool
  | clef _ => true
  | tempo _ => true
  | _ => false

/-- Spread control tokens and post-events over a list of tokens in another way, in one place. -/
inductive Respread : List Token → List Token → Prop where
  /-- Put in a clef or a tempo, but not between a tuplet directive and its brace. -/
  | insert {before after : List Token} {token : Token} (setting : token.kind.isSetting)
      (apart : ∀ last ∈ before.getLast?, ∀ actual normal, last.kind ≠ .tuplet actual normal) :
      Respread (before ++ after) (before ++ token :: after)
  /-- Write the last of the post-events of a token that makes a slot on their own after it. -/
  | detach {before after : List Token} {token free : Token} {first second : List PostEvent}
      (slot : token.kind.makesSlot (chordOpenAfter false before))
      (post : token.kind.post = first ++ second) (kind : free.kind = .postEvents second) :
      Respread (before ++ token :: after) (before ++ token.withPost first :: free :: after)

/-- What comes of building a line, but for its clef and tempo and the place of a fault. -/
def outcome (built : Except BuildError WrittenLine) : Except BuildFault WrittenLine :=
  (built.map WrittenLine.plain).mapError BuildError.fault

variable {instrument : Instrument} {prior : Carry} {frame : Frame} {tokens tokens' : List Token}
  {token : Token} {first second : List PostEvent}

theorem TokenKind.isInert_of_isSetting {kind : TokenKind} (h : kind.isSetting) :
    kind.isInert := by
  cases kind <;> first | rfl | cases h

theorem TokenKind.outline_withPost (post : List PostEvent) (kind : TokenKind) :
    (kind.withPost post).outline = kind.outline := by
  cases kind <;> rfl

theorem TokenKind.makesSlot_withPost (post : List PostEvent) (kind : TokenKind) (chord : Bool) :
    (kind.withPost post).makesSlot chord = kind.makesSlot chord := by
  cases kind <;> rfl

namespace Draft

variable {draft draft' : Draft} {index slot : Nat}

/-- What comes of taking in tokens, by the slots before them and but for the place of a fault. -/
def core (built : Except BuildError Draft) : Except BuildFault Draft :=
  (built.map (numbered id)).mapError BuildError.fault

/-! ### Clefs and tempi -/

theorem acceptCounted_setting (setting : token.kind.isSetting) (draft : Draft)
    (instrument : Instrument) (slot : Nat) (rest : List Token) :
    (draft.acceptCounted instrument slot (token :: rest)).map (numbered id) =
      (draft.acceptCounted instrument slot rest).map (numbered id) := by
  have hplace : draft.place instrument slot token = .ok (draft.follow token, []) := by
    cases hkind : token.kind <;> simp_all [TokenKind.isSetting, place]
  have hhead : token.kind.isHead draft.chord.isSome = false := by
    cases hkind : token.kind <;> simp_all [TokenKind.isSetting, TokenKind.isHead]
  have hfollow : (draft.follow token).numbered id = draft.numbered id := by
    cases hkind : token.kind <;> simp_all [TokenKind.isSetting, follow, numbered]
  have haccept : draft.accept instrument slot token = .ok (draft.follow token) :=
    accept_eq_ok.2 ⟨_, _, hplace, rfl⟩
  rw [acceptCounted, haccept, hhead]
  exact acceptCounted_congr hfollow instrument slot rest

/-! ### Post-events -/

theorem attach_append (draft : Draft) (first second : List PostEvent) :
    draft.attach (first ++ second) =
      draft.attach first >>= fun next => next.attach second := by
  induction first generalizing draft with
  | nil => rfl
  | cons event first ih =>
    cases hlast : draft.lastHead? with
    | none =>
      have hslots : draft.slots = [] := by simpa [lastHead?] using hlast
      simp only [attach, hslots]
      rfl
    | some head =>
      rw [List.cons_append, attach_cons hlast, attach_cons hlast]
      cases draft.attachOne head event with
      | error fault => rfl
      | ok next => exact ih next

/-- A token that makes a slot leaves the last of its post-events due. -/
theorem place_withPost (instrument : Instrument) (index : Nat)
    (makes : token.kind.makesSlot draft.chord.isSome)
    (post : token.kind.post = first ++ second) :
    draft.place instrument index token =
      (draft.place instrument index (token.withPost first)).map (Prod.map id (· ++ second)) := by
  cases hkind : token.kind with
  | note word =>
    have houtside : draft.chord = none := by simpa [hkind, TokenKind.makesSlot] using makes
    rw [hkind, TokenKind.post] at post
    simp only [place, Token.withPost, TokenKind.withPost, hkind, houtside, post]
    cases draft.addSlot index _ word.suffix.length token.origin <;> rfl
  | rest suffix =>
    rw [hkind, TokenKind.post] at post
    simp only [place, Token.withPost, TokenKind.withPost, hkind, post]
    by_cases hchord : draft.chord.isSome
    · simp [hchord, Except.map]
    · cases draft.addSlot index _ suffix.length token.origin <;>
        simp [hchord, located, Except.map]
  | duration suffix =>
    rw [hkind, TokenKind.post] at post
    simp only [place, Token.withPost, TokenKind.withPost, hkind, post]
    by_cases hrhythm : instrument.rhythm
    · by_cases hchord : draft.chord.isSome
      · simp [hrhythm, hchord, Except.map]
      · cases draft.addSlot index _ suffix.length token.origin <;>
          simp [hrhythm, hchord, located, Except.map]
    · simp [hrhythm, Except.map]
  | chordEnd suffix =>
    rw [hkind, TokenKind.post] at post
    simp only [place, Token.withPost, TokenKind.withPost, hkind, post]
    cases draft.chord with
    | none => rfl
    | some chord =>
      by_cases hsilent : chord.pitches.isEmpty
      · simp [hsilent, Except.map]
      · cases hclose : draft.closeChord chord suffix.length <;>
          simp [hsilent, hclose, located, Except.map]
  | _ => simp [hkind, TokenKind.makesSlot] at makes

/-- A token that makes a slot leaves a slot, and no chord open. -/
theorem closed_of_placed {post : List PostEvent}
    (makes : token.kind.makesSlot draft.chord.isSome)
    (placed : Placed instrument draft index token draft' post) :
    draft'.chord = none ∧ draft'.slots ≠ [] := by
  cases placed with
  | slot kind outside => exact ⟨outside, List.cons_ne_nil _ _⟩
  | chordStart kind => simp [kind, TokenKind.makesSlot] at makes
  | chordNote kind inside => simp [kind, inside, TokenKind.makesSlot] at makes
  | chordPost kind => simp [kind, TokenKind.makesSlot] at makes
  | chordEnd => exact ⟨rfl, List.cons_ne_nil _ _⟩
  | free kind => simp [kind, TokenKind.makesSlot] at makes
  | control kind =>
    cases hkind : token.kind <;> simp_all [TokenKind.isControl, TokenKind.makesSlot]

/-- Post-events on their own attach to the last slot. -/
theorem accept_free {free : Token} (closed : draft.chord = none) (nonempty : draft.slots ≠ [])
    (kind : free.kind = .postEvents second) (instrument : Instrument) (slot : Nat) :
    draft.accept instrument slot free =
      (draft.attach second).mapError fun fault => ⟨fault, free.origin⟩ := by
  simp only [accept, place, kind, closed, List.isEmpty_iff, nonempty, if_false]
  cases draft.attach second <;> rfl

/-- Post-events do the same at a token that makes a slot and on their own after it. -/
theorem acceptCounted_detach {free : Token} {rest : List Token}
    (makes : token.kind.makesSlot draft.chord.isSome)
    (post : token.kind.post = first ++ second) (kind : free.kind = .postEvents second)
    (instrument : Instrument) (slot : Nat) :
    core (draft.acceptCounted instrument slot (token.withPost first :: free :: rest)) =
      core (draft.acceptCounted instrument slot (token :: rest)) := by
  have hhead (chord : Bool) :
      (token.withPost first).kind.isHead chord = token.kind.isHead chord := by
    rw [← TokenKind.isHead_outline, Token.withPost, TokenKind.outline_withPost,
      TokenKind.isHead_outline]
  have makes' : (token.withPost first).kind.makesSlot draft.chord.isSome := by
    rwa [Token.withPost, TokenKind.makesSlot_withPost]
  have hplace := place_withPost instrument slot makes post
  unfold acceptCounted
  rw [hhead, accept, accept, hplace]
  cases hplaced : draft.place instrument slot (token.withPost first) with
  | error error => rfl
  | ok placed =>
    obtain ⟨placed, due⟩ := placed
    simp only [Except.map, Prod.map, id, attach_append]
    cases hattach : placed.attach due with
    | error fault => rfl
    | ok middle =>
      have hsame := unmarked_of_attach hattach
      obtain ⟨closed, nonempty⟩ := closed_of_placed makes' (placed_of_place hplaced)
      have hchord := congrArg Draft.chord hsame
      have hslots := congrArg (fun draft => draft.slots.length) hsame
      simp only [unmarked, List.length_map] at hchord hslots
      have hfree := accept_free (hchord.trans closed)
        (by rwa [← List.length_pos_iff, hslots, List.length_pos_iff]) kind instrument
      have hinert (chord : Bool) : free.kind.isHead chord = false := by rw [kind]; rfl
      simp only [bind, Except.bind, acceptCounted, hfree, hinert]
      cases middle.attach second <;> rfl

/-- Tokens before which others are taken in may be changed for any that come to the same. -/
theorem core_append_congr {before tokens tokens' : List Token} (chord : Bool)
    (h : ∀ (draft : Draft) (slot : Nat), draft.chord.isSome = chordOpenAfter chord before →
      core (draft.acceptCounted instrument slot tokens') =
        core (draft.acceptCounted instrument slot tokens))
    (hchord : draft.chord.isSome = chord) (slot : Nat) :
    core (draft.acceptCounted instrument slot (before ++ tokens')) =
      core (draft.acceptCounted instrument slot (before ++ tokens)) := by
  induction before generalizing draft chord slot with
  | nil => exact h draft slot hchord
  | cons token before ih =>
    rw [List.cons_append, List.cons_append, acceptCounted, acceptCounted]
    cases haccept : draft.accept instrument slot token with
    | error error => rfl
    | ok next =>
      refine ih (token.kind.opensChord chord) h ?_ _
      rw [isSome_chord_of_accept haccept, hchord]

/-- The place of the last token is all that a finish sees of the tokens. -/
theorem fault_finish (draft : Draft) (instrument : Instrument) (prior : Carry)
    (tokens tokens' : List Token) (ledger : Ledger) (groups : List TupletGroup) :
    (draft.finish instrument prior tokens' ledger groups).mapError BuildError.fault =
      (draft.finish instrument prior tokens ledger groups).mapError BuildError.fault := by
  have htimes (offset offset' : Nat) (tuplets : List TupletRange) (slots : List Slot) :
      (checkTimes offset tuplets slots).mapError BuildError.fault =
        (checkTimes offset' tuplets slots).mapError BuildError.fault := by
    unfold checkTimes
    split <;> rfl
  have hlength (meter : Meter) (offset offset' : Nat) (slots : List Slot) :
      (checkLength meter offset slots).mapError BuildError.fault =
        (checkLength meter offset' slots).mapError BuildError.fault := by
    unfold checkLength
    dsimp only
    split <;> rfl
  unfold finish
  cases draft.chord with
  | some chord => rfl
  | none =>
    dsimp only
    split
    · rfl
    · simp only [mapError_bind]
      rw [htimes _ (lastOffset tokens), hlength _ _ (lastOffset tokens)]

end Draft

/-- Lines with the same tuplets whose tokens come to the same have the same outcome. -/
theorem outcome_congr
    (hscan : TupletGroup.scan tokens' (Ledger.scan tokens') =
      TupletGroup.scan tokens (Ledger.scan tokens))
    (hcore : Draft.core ((Draft.start instrument prior frame).acceptCounted instrument 0 tokens') =
      Draft.core ((Draft.start instrument prior frame).acceptCounted instrument 0 tokens)) :
    outcome (buildLine tokens' instrument prior frame) =
      outcome (buildLine tokens instrument prior frame) := by
  unfold outcome
  rw [plain_buildLine, plain_buildLine]
  unfold buildCounted
  rw [← TupletGroup.scan_eq_collectCounted, ← TupletGroup.scan_eq_collectCounted, hscan,
    mapError_bind, mapError_bind]
  refine congrArg (_ >>= ·) (funext fun groups => ?_)
  rw [mapError_bind, mapError_bind]
  unfold Draft.core at hcore
  rw [hcore]
  exact congrArg (_ >>= ·) (funext fun draft => draft.fault_finish ..)

/-- Tuplets do not see where post-events are written. -/
theorem scan_detach {before after : List Token} {free : Token} {chord : Bool}
    (makes : token.kind.makesSlot chord) (kind : free.kind = .postEvents second) :
    TupletGroup.scan (before ++ token.withPost first :: free :: after)
        (Ledger.scan (before ++ token.withPost first :: free :: after)) =
      TupletGroup.scan (before ++ token :: after) (Ledger.scan (before ++ token :: after)) := by
  have inert : free.kind.isInert := by rw [kind]; rfl
  have apart : ∀ last ∈ (before ++ [token.withPost first]).getLast?, ∀ actual normal,
      last.kind ≠ .tuplet actual normal := by
    intro last hlast actual normal heq
    obtain rfl : token.withPost first = last := by simpa using hlast
    rw [← TokenKind.makesSlot_withPost first] at makes
    rw [show token.kind.withPost first = .tuplet actual normal from heq] at makes
    cases makes
  have houtline : (before ++ token.withPost first :: after).map Token.outline =
      (before ++ token :: after).map Token.outline := by
    have htoken : (token.withPost first).outline = token.outline := by
      rw [Token.outline, Token.withPost, TokenKind.outline_withPost, Token.outline]
    rw [List.map_append, List.map_cons, htoken, List.map_append, List.map_cons]
  rw [List.append_cons before, TupletGroup.scan_insert inert apart, ← List.append_cons,
    Ledger.scan_of_outline houtline, TupletGroup.scan_of_outline houtline]

/-- What comes of a line does not change where it is respread in one place. -/
theorem Respread.outcome_eq (h : Respread tokens tokens') (instrument : Instrument) (prior : Carry)
    (frame : Frame) :
    outcome (buildLine tokens' instrument prior frame) =
      outcome (buildLine tokens instrument prior frame) := by
  cases h with
  | insert setting apart =>
    refine outcome_congr
      (TupletGroup.scan_insert (TokenKind.isInert_of_isSetting setting) apart) ?_
    refine Draft.core_append_congr false (fun draft slot _ => ?_) rfl 0
    exact congrArg (·.mapError BuildError.fault)
      (draft.acceptCounted_setting setting instrument slot _)
  | detach slot post kind =>
    refine outcome_congr (scan_detach slot kind) ?_
    refine Draft.core_append_congr false (fun draft place hchord => ?_) rfl 0
    rw [← hchord] at slot
    exact Draft.acceptCounted_detach slot post kind instrument place

/-- **Slots do not depend on how control tokens and post-events are spread.** However clefs and
tempi are put in and post-events are written on their own, a line is built if it was, with the same
slots, links and meter, and is refused for the same fault if it was refused. -/
theorem outcome_of_respread (h : Relation.ReflTransGen Respread tokens tokens')
    (instrument : Instrument) (prior : Carry) (frame : Frame) :
    outcome (buildLine tokens' instrument prior frame) =
      outcome (buildLine tokens instrument prior frame) := by
  induction h with
  | refl => rfl
  | tail _ step ih => exact (step.outcome_eq instrument prior frame).trans ih

/-- A slur into a chord; then with a clef between the bracket and the heads of the chord, and with
the dynamic of the chord written on its own. -/
theorem outcome_of_respread_chord :
    ∃ tokens tokens' : List Token,
      tokens.map Token.kind =
          [.note ⟨0, 0, 1, .bare, ⟨some ⟨128, 0⟩, [.slurOpen]⟩⟩, .chordStart,
            .note ⟨1, 0, 1, .bare, ⟨none, []⟩⟩, .note ⟨3, 0, 1, .bare, ⟨none, []⟩⟩,
            .chordEnd ⟨none, [.slurClose, .dynamic ⟨"p", 2⟩]⟩] ∧
        tokens'.map Token.kind =
          [.note ⟨0, 0, 1, .bare, ⟨some ⟨128, 0⟩, [.slurOpen]⟩⟩, .chordStart, .clef .bass,
            .note ⟨1, 0, 1, .bare, ⟨none, []⟩⟩, .note ⟨3, 0, 1, .bare, ⟨none, []⟩⟩,
            .chordEnd ⟨none, [.slurClose]⟩, .postEvents [.dynamic ⟨"p", 2⟩]] ∧
        Relation.ReflTransGen Respread tokens tokens' ∧
        ((buildLine tokens (.named "flute") .initial ⟨.common, .moderate⟩).toOption.map
          fun written => (written.line.slurs, written.line.slots.map Slot.level)) =
            some ([⟨some 0, some 1⟩], [4, 2]) ∧
        outcome (buildLine tokens' (.named "flute") .initial ⟨.common, .moderate⟩) =
          outcome (buildLine tokens (.named "flute") .initial ⟨.common, .moderate⟩) := by
  let note : Token := ⟨.note ⟨0, 0, 1, .bare, ⟨some ⟨128, 0⟩, [.slurOpen]⟩⟩, "c'2(", 0, 0⟩
  let opening : Token := ⟨.chordStart, "<", 5, 5⟩
  let low : Token := ⟨.note ⟨1, 0, 1, .bare, ⟨none, []⟩⟩, "d'", 6, 6⟩
  let high : Token := ⟨.note ⟨3, 0, 1, .bare, ⟨none, []⟩⟩, "f'", 9, 9⟩
  let closing : Token := ⟨.chordEnd ⟨none, [.slurClose, .dynamic ⟨"p", 2⟩]⟩, ">)\\p", 11, 11⟩
  let clef : Token := ⟨.clef .bass, "\\clef bass", 0, 0⟩
  let free : Token := ⟨.postEvents [.dynamic ⟨"p", 2⟩], "\\p", 0, 0⟩
  have hinsert : Respread [note, opening, low, high, closing]
      [note, opening, clef, low, high, closing] :=
    @Respread.insert [note, opening] [low, high, closing] clef rfl (by simp [opening])
  have hdetach : Respread [note, opening, clef, low, high, closing]
      [note, opening, clef, low, high, closing.withPost [.slurClose], free] :=
    @Respread.detach [note, opening, clef, low, high] [] closing free [.slurClose]
      [.dynamic ⟨"p", 2⟩] rfl rfl rfl
  have h := (Relation.ReflTransGen.single hinsert).tail hdetach
  exact ⟨_, _, rfl, rfl, h, by decide +kernel,
    outcome_of_respread h (.named "flute") .initial ⟨.common, .moderate⟩⟩

end Stave.Shorthand
