import Stave.Proofs.Draft.Heads
import Stave.Proofs.Draft.Lengths
import Stave.Proofs.Tuplet.Outlined
import Stave.Proofs.WrittenLine.Built

/-!
# Carried lengths abbreviate

A token that makes a slot may leave out its length, and then takes the one written last, or the
one the bar before ended with. A draft carries that length along: after any tokens it is the last
one written at them, whatever stands in between. So the lengths that were left out can be written
out, and the line that is built is the same; and a length is missing only at the first token that
makes a slot, when nothing was written before it and the bar before left none.
-/
namespace Stave.Shorthand

/-! ## Tokens with their lengths written out -/

/-- Write a length at a token that may have one. -/
def TokenKind.withLength (length : Option NoteLength) : TokenKind → TokenKind
  | note word => note { word with suffix := { word.suffix with length } }
  | rest suffix => rest { suffix with length }
  | duration suffix => duration { suffix with length }
  | chordEnd suffix => chordEnd { suffix with length }
  | kind => kind

/-- Write a length at a token that may have one. -/
def Token.withLength (length : Option NoteLength) (token : Token) : Token :=
  { token with kind := token.kind.withLength length }

/-- Write out, at every token that makes a slot and has no length, the last one written before it,
or the one given if there is none. -/
def writeOut (last : Option NoteLength) (chord : Bool) : List Token → List Token
  | [] => []
  | token :: rest =>
    let last := token.kind.length?.or last
    (if token.kind.makesSlot chord then token.withLength last else token) ::
      writeOut last (token.kind.opensChord chord) rest

/-- A token makes a slot and has no length, none was written before it and the bar before left
none, but for which it could be placed, and so could all before it. -/
structure LacksLength (tokens : List Token) (instrument : Instrument) (prior : Carry)
    (frame : Frame) (read : List Token) (token : Token) : Prop where
  /-- The token follows the ones before it. -/
  split : ∃ rest, tokens = read ++ token :: rest
  grouped : ∃ groups, TupletGroup.scan tokens (Ledger.scan tokens) = .ok groups
  unset : prior.lastLength = none
  unwritten : ∀ earlier ∈ read, earlier.kind.length? = none
  bare : token.kind.length? = none
  slot : token.kind.makesSlot (chordOpenAfter false read)
  fits : ∃ draft, (Draft.start instrument prior frame).acceptAll instrument 0 read = .ok draft ∧
    ∃ length, ∃ placed,
      draft.place instrument read.length (token.withLength (some length)) = .ok placed

/-- Lengths that are left out stand for the ones written last. -/
structure LengthsCarried (tokens : List Token) (instrument : Instrument) (prior : Carry)
    (frame : Frame) : Prop where
  /-- The line is the same with the lengths written out, or fails in the same way. -/
  same : buildLine (writeOut prior.lastLength false tokens) instrument prior frame =
    buildLine tokens instrument prior frame
  /-- A length is missing just where there is none to carry. -/
  missing : ∀ offset, buildLine tokens instrument prior frame = .error ⟨.missingDuration, offset⟩ ↔
    ∃ read token, LacksLength tokens instrument prior frame read token ∧ token.origin = offset

variable {instrument : Instrument} {prior : Carry} {frame : Frame} {tokens read : List Token}
  {token : Token} {draft draft' : Draft} {index : Nat} {post due : List PostEvent}
  {last : Option NoteLength} {chord : Bool}

theorem TokenKind.outline_withLength (length : Option NoteLength) (kind : TokenKind) :
    (kind.withLength length).outline = kind.outline := by
  cases kind <;> rfl

/-- Writing lengths out touches nothing but lengths. -/
theorem outline_writeOut (last : Option NoteLength) (chord : Bool) (tokens : List Token) :
    (writeOut last chord tokens).map Token.outline = tokens.map Token.outline := by
  induction tokens generalizing last chord with
  | nil => rfl
  | cons token rest ih =>
    rw [writeOut, List.map_cons, List.map_cons, ih]
    split
    · rw [Token.outline, Token.withLength, TokenKind.outline_withLength, ← Token.outline]
    · rfl

theorem origin_writeOut (last : Option NoteLength) (chord : Bool) (tokens : List Token) :
    (writeOut last chord tokens).map Token.origin = tokens.map Token.origin := by
  have hmap (tokens : List Token) :
      tokens.map Token.origin = (tokens.map Token.outline).map Token.origin := by
    rw [List.map_map]
    rfl
  rw [hmap, outline_writeOut, ← hmap]

namespace Draft

/-! ## What a draft carries along -/

/-- A draft carries the length written at the token it has placed, or else the one before. -/
theorem lastLength_of_placed (placed : Placed instrument draft index token draft' post) :
    draft'.lastLength = token.kind.length?.or draft.lastLength := by
  cases placed with
  | slot kind outside rhythm timed =>
    rw [TokenKind.length?_of_slot? kind, timed]
    rfl
  | chordStart kind => simp [kind, TokenKind.length?]
  | chordNote kind inside bare => simp [kind, TokenKind.length?, bare]
  | chordPost kind inside => simp [kind, TokenKind.length?]
  | chordEnd kind inside sounds timed =>
    rw [kind, TokenKind.length?, timed]
    rfl
  | free kind => simp [kind, TokenKind.length?]
  | control kind =>
    have hnone : token.kind.length? = none := by
      cases hkind : token.kind <;> simp_all [TokenKind.isControl, TokenKind.length?]
    rw [hnone, Option.none_or]
    unfold follow
    split <;> rfl

theorem lastLength_of_accept (h : draft.accept instrument index token = .ok draft') :
    draft'.lastLength = token.kind.length?.or draft.lastLength := by
  obtain ⟨placed, post, hplace, hattach⟩ := accept_eq_ok.1 h
  have hlast := congrArg Draft.lastLength (unmarked_of_attach hattach)
  simp only [unmarked] at hlast
  rw [hlast, lastLength_of_placed (placed_of_place hplace)]

/-! ## What is placed with a length written out -/

/-- A slot takes the length that is carried whether it is written out or not. -/
theorem addSlot_carried (draft : Draft) (head : Nat) (content : SlotContent)
    (written : Option NoteLength) (offset : Nat) :
    draft.addSlot head content (written.or draft.lastLength) offset =
      draft.addSlot head content written offset := by
  have hlength : (written.or draft.lastLength).or draft.lastLength =
      written.or draft.lastLength := by
    cases written <;> cases draft.lastLength <;> rfl
  rw [addSlot, addSlot, hlength]

/-- A token that makes a slot is placed alike with the length that is carried to it. -/
theorem place_withLength (slot : token.kind.makesSlot draft.chord.isSome) :
    draft.place instrument index (token.withLength (token.kind.length?.or draft.lastLength)) =
      draft.place instrument index token := by
  cases hkind : token.kind with
  | note word =>
    have houtside : draft.chord = none := by simpa [hkind, TokenKind.makesSlot] using slot
    simp [place, Token.withLength, TokenKind.withLength, TokenKind.length?, hkind, houtside,
      addSlot_carried]
  | rest suffix =>
    simp [place, Token.withLength, TokenKind.withLength, TokenKind.length?, hkind,
      addSlot_carried]
  | duration suffix =>
    simp [place, Token.withLength, TokenKind.withLength, TokenKind.length?, hkind,
      addSlot_carried]
  | chordEnd suffix =>
    have hcarried (chord : OpenChord) :
        draft.closeChord chord (suffix.length.or draft.lastLength) =
          draft.closeChord chord suffix.length := addSlot_carried { draft with chord := none } ..
    simp [place, Token.withLength, TokenKind.withLength, TokenKind.length?, hkind, hcarried]
  | _ => simp [hkind, TokenKind.makesSlot] at slot

/-- Tokens are taken in alike with their lengths written out. -/
theorem acceptAll_writeOut (draft : Draft) (instrument : Instrument) (index : Nat)
    (tokens : List Token) :
    draft.acceptAll instrument index (writeOut draft.lastLength draft.chord.isSome tokens) =
      draft.acceptAll instrument index tokens := by
  induction tokens generalizing draft index with
  | nil => rfl
  | cons token rest ih =>
    have haccept :
        draft.accept instrument index
            (if token.kind.makesSlot draft.chord.isSome then
              token.withLength (token.kind.length?.or draft.lastLength) else token) =
          draft.accept instrument index token := by
      split
      case isTrue slot => rw [accept, place_withLength slot, accept, Token.withLength]
      case isFalse => rfl
    rw [writeOut, acceptAll, haccept, acceptAll]
    cases hnext : draft.accept instrument index token with
    | error error => rfl
    | ok next =>
      rw [← lastLength_of_accept hnext, ← isSome_chord_of_accept hnext]
      exact ih next (index + 1)

/-! ## What is missing a length -/

/-- A slot lacks a length just if none is written and none is carried, and then there is a length
it could be added with. -/
theorem addSlot_eq_missing_iff {head origin place offset : Nat} {content : SlotContent}
    {written : Option NoteLength} :
    draft.addSlot head content written place = .error .missingDuration ∧ origin = offset ↔
      draft.lastLength = none ∧ written = none ∧ origin = offset ∧
        ∃ length added, draft.addSlot head content (some length) place = .ok added := by
  have hcould : ∃ length added, draft.addSlot head content (some length) place = .ok added :=
    ⟨⟨quarterUnits, 0⟩, _, addSlot_eq_ok.2 ⟨_, rfl, by decide, rfl⟩⟩
  simp only [addSlot_eq_error, Option.or_eq_none_iff, hcould]
  simp [and_left_comm, and_assoc]

/-- A token is refused for want of a length just if it makes a slot, nothing is written at it and
nothing is carried to it, and with a length it could be placed. -/
theorem place_eq_missing_iff {offset : Nat} :
    draft.place instrument index token = .error ⟨.missingDuration, offset⟩ ↔
      draft.lastLength = none ∧ token.kind.length? = none ∧ token.origin = offset ∧
        token.kind.makesSlot draft.chord.isSome ∧
        ∃ length placed,
          draft.place instrument index (token.withLength (some length)) = .ok placed := by
  unfold place
  cases hkind : token.kind with
  | note word =>
    cases hchord : draft.chord with
    | some chord =>
      by_cases hlength : word.suffix.length.isSome <;>
        simp [addToChord, hlength, TokenKind.makesSlot]
    | none =>
      simpa [hkind, Token.withLength, TokenKind.withLength, TokenKind.length?,
        TokenKind.makesSlot] using addSlot_eq_missing_iff
  | rest suffix =>
    by_cases hchord : draft.chord.isSome
    · simp [hkind, hchord, Token.withLength, TokenKind.withLength]
    · simpa [hkind, hchord, Token.withLength, TokenKind.withLength, TokenKind.length?,
        TokenKind.makesSlot] using addSlot_eq_missing_iff
  | duration suffix =>
    by_cases hrhythm : instrument.rhythm
    · by_cases hchord : draft.chord.isSome
      · simp [hkind, hrhythm, hchord, Token.withLength, TokenKind.withLength]
      · simpa [hkind, hrhythm, hchord, Token.withLength, TokenKind.withLength,
          TokenKind.length?, TokenKind.makesSlot] using addSlot_eq_missing_iff
    · simp [hkind, hrhythm, Token.withLength, TokenKind.withLength]
  | chordEnd suffix =>
    cases hchord : draft.chord with
    | none => simp [hkind, Token.withLength, TokenKind.withLength]
    | some chord =>
      by_cases hsilent : chord.pitches.isEmpty
      · simp [hkind, hsilent, Token.withLength, TokenKind.withLength]
      · simpa [closeChord, hkind, hsilent, Token.withLength, TokenKind.withLength,
          TokenKind.length?, TokenKind.makesSlot] using
            @addSlot_eq_missing_iff { draft with chord := none }
  | postEvents post =>
    cases hchord : draft.chord <;> by_cases hslots : draft.slots.isEmpty <;>
      simp [hslots, TokenKind.makesSlot]
  | _ => simp [TokenKind.makesSlot]

end Draft

/-- A draft carries the last length written at its tokens, if there is one. -/
theorem Building.lastLength_eq_none_iff
    (h : Building instrument (.start instrument prior frame) read draft due) :
    draft.lastLength = none ↔
      prior.lastLength = none ∧ ∀ earlier ∈ read, earlier.kind.length? = none := by
  induction h with
  | start => simp [Draft.start]
  | place built placed ih =>
    rw [Draft.lastLength_of_placed (Draft.placed_of_place placed), Option.or_eq_none_iff, ih]
    simp [or_imp, forall_and, and_comm, and_left_comm]
  | attach built last attached ih =>
    have hlast := congrArg Draft.lastLength (Draft.unmarked_of_attachOne attached)
    simp only [Draft.unmarked] at hlast
    rw [hlast, ih]

/-! ## The line -/

theorem buildLine_writeOut (tokens : List Token) (instrument : Instrument) (prior : Carry)
    (frame : Frame) :
    buildLine (writeOut prior.lastLength false tokens) instrument prior frame =
      buildLine tokens instrument prior frame := by
  have houtline := outline_writeOut prior.lastLength false tokens
  have haccept : (Draft.start instrument prior frame).acceptAll instrument 0
      (writeOut prior.lastLength false tokens) =
        (Draft.start instrument prior frame).acceptAll instrument 0 tokens :=
    Draft.acceptAll_writeOut ..
  have hplace : Draft.lastOffset (writeOut prior.lastLength false tokens) =
      Draft.lastOffset tokens := by
    rw [Draft.lastOffset, ← List.getLast?_map, origin_writeOut, List.getLast?_map]
    rfl
  have hfinish (draft : Draft) (ledger : Ledger) (groups : List TupletGroup) :
      draft.finish instrument prior (writeOut prior.lastLength false tokens) ledger groups =
        draft.finish instrument prior tokens ledger groups := by
    simp only [Draft.finish, hplace]
  unfold buildLine
  dsimp only
  rw [Ledger.scan_of_outline houtline, TupletGroup.scan_of_outline houtline, haccept]
  simp only [hfinish]

theorem acceptAll_eq_missing_iff {offset : Nat} :
    (Draft.start instrument prior frame).acceptAll instrument 0 tokens =
        .error ⟨.missingDuration, offset⟩ ↔
      ∃ read token rest draft, tokens = read ++ token :: rest ∧
        Building instrument (.start instrument prior frame) read draft [] ∧
        draft.place instrument read.length token = .error ⟨.missingDuration, offset⟩ := by
  constructor
  · intro h
    cases Building.start.stops h with
    | place split built refused => exact ⟨_, _, _, _, split, built, refused⟩
    | attach split built last refused located =>
      -- what attaches is refused for other faults
      rcases Draft.fault_of_attachOne refused with ⟨-, rfl⟩ | ⟨-, rfl⟩ <;> cases located
  · rintro ⟨read, token, rest, draft, rfl, built, refused⟩
    rw [built.acceptAll_append]
    simp [Draft.resume, Draft.acceptAll, Draft.accept, refused]

theorem buildLine_eq_missing_iff {offset : Nat} :
    buildLine tokens instrument prior frame = .error ⟨.missingDuration, offset⟩ ↔
      (∃ groups, TupletGroup.scan tokens (Ledger.scan tokens) = .ok groups) ∧
        (Draft.start instrument prior frame).acceptAll instrument 0 tokens =
          .error ⟨.missingDuration, offset⟩ := by
  constructor
  · intro h
    cases stops_of_buildLine h with
    | groups fault => simp [TupletGroup.scanFaults] at fault
    | run scanned fault refused => exact ⟨⟨_, scanned⟩, refused⟩
    | finish scanned taken refused => cases refused
  · rintro ⟨⟨groups, hgroups⟩, haccept⟩
    exact bind_error_iff.2 (.inr ⟨groups, hgroups, bind_error_iff.2 (.inl haccept)⟩)

theorem lacksLength_iff :
    LacksLength tokens instrument prior frame read token ↔
      (∃ groups, TupletGroup.scan tokens (Ledger.scan tokens) = .ok groups) ∧
        ∃ rest draft, tokens = read ++ token :: rest ∧
          Building instrument (.start instrument prior frame) read draft [] ∧
          draft.place instrument read.length token = .error ⟨.missingDuration, token.origin⟩ := by
  constructor
  · rintro ⟨⟨rest, split⟩, grouped, unset, unwritten, bare, slot, draft, haccept, fits⟩
    have built : Building instrument (.start instrument prior frame) read draft [] :=
      Building.start.append haccept
    refine ⟨grouped, rest, draft, split, built, Draft.place_eq_missing_iff.2 ?_⟩
    rw [built.isSome_chord, built.lastLength_eq_none_iff]
    exact ⟨⟨unset, unwritten⟩, bare, rfl, slot, fits⟩
  · rintro ⟨grouped, rest, draft, split, built, refused⟩
    obtain ⟨hlast, bare, -, slot, fits⟩ := Draft.place_eq_missing_iff.1 refused
    obtain ⟨unset, unwritten⟩ := built.lastLength_eq_none_iff.1 hlast
    rw [built.isSome_chord] at slot
    have haccept := built.acceptAll_append []
    rw [List.append_nil] at haccept
    exact ⟨⟨rest, split⟩, grouped, unset, unwritten, bare, slot, draft, haccept, fits⟩

/-- **Carried lengths abbreviate.** Every list of tokens makes the line that it makes with its
lengths written out, and is refused for want of a length just where there is none to carry. -/
theorem lengthsCarried (tokens : List Token) (instrument : Instrument) (prior : Carry)
    (frame : Frame) : LengthsCarried tokens instrument prior frame := by
  refine ⟨buildLine_writeOut tokens instrument prior frame, fun offset => ?_⟩
  rw [buildLine_eq_missing_iff, acceptAll_eq_missing_iff]
  constructor
  · rintro ⟨grouped, read, token, rest, draft, split, built, refused⟩
    obtain ⟨-, -, rfl, -⟩ := Draft.place_eq_missing_iff.1 refused
    exact ⟨read, token, lacksLength_iff.2 ⟨grouped, rest, draft, split, built, refused⟩, rfl⟩
  · rintro ⟨read, token, lacks, rfl⟩
    obtain ⟨grouped, rest, draft, split, built, refused⟩ := lacksLength_iff.1 lacks
    exact ⟨grouped, read, token, rest, draft, split, built, refused⟩

/-- The lengths of a note, a chord and a rest, some left out, and the line of all of them written.
Without a bar before there is no length for a note that comes first. -/
theorem lengthsCarried_chord :
    (∃ tokens written, readTokens "c'4 d <e g> \\ottava 1 r8. c16->" = .ok tokens ∧
        (readTokens "c'4 d4 <e g>4 \\ottava 1 r8. c16->").toOption.map (·.map Token.kind) =
          some ((writeOut none false tokens).map Token.kind) ∧
        buildLine tokens (.named "flute") .initial ⟨.common, .moderate⟩ = .ok written ∧
        buildLine (writeOut none false tokens) (.named "flute") .initial ⟨.common, .moderate⟩ =
          .ok written) ∧
      ∃ tokens read token, readTokens "\\ottava 1 c d4" = .ok tokens ∧
        buildLine tokens (.named "flute") .initial ⟨.common, .moderate⟩ =
          .error ⟨.missingDuration, 10⟩ ∧
        LacksLength tokens (.named "flute") .initial ⟨.common, .moderate⟩ read token ∧
        token.origin = 10 := by
  have hparts : (readTokens "c'4 d <e g> \\ottava 1 r8. c16->").toOption.bind (fun tokens =>
      (buildLine tokens (.named "flute") .initial ⟨.common, .moderate⟩).toOption.map fun _ =>
        decide ((readTokens "c'4 d4 <e g>4 \\ottava 1 r8. c16->").toOption.map
            (·.map Token.kind) = some ((writeOut none false tokens).map Token.kind))) =
      some true := by
    decide +kernel
  have hrefused : (readTokens "\\ottava 1 c d4").toOption.bind (fun tokens =>
      failure? (buildLine tokens (.named "flute") .initial ⟨.common, .moderate⟩)) =
        some ⟨.missingDuration, 10⟩ := by
    decide +kernel
  constructor
  · obtain ⟨tokens, htokens, hparts⟩ := Option.bind_eq_some_iff.1 hparts
    obtain ⟨written, hwritten, hkinds⟩ := Option.map_eq_some_iff.1 hparts
    rw [toOption_eq_some_iff] at htokens hwritten
    have carried := lengthsCarried tokens (.named "flute") .initial ⟨.common, .moderate⟩
    exact ⟨tokens, written, htokens, of_decide_eq_true hkinds, hwritten,
      carried.same.trans hwritten⟩
  · obtain ⟨tokens, htokens, hrefused⟩ := Option.bind_eq_some_iff.1 hrefused
    rw [toOption_eq_some_iff] at htokens
    rw [failure?_eq_some_iff] at hrefused
    have carried := lengthsCarried tokens (.named "flute") .initial ⟨.common, .moderate⟩
    obtain ⟨read, token, lacks, horigin⟩ := (carried.missing 10).1 hrefused
    exact ⟨tokens, read, token, htokens, hrefused, lacks, horigin⟩

end Stave.Shorthand
