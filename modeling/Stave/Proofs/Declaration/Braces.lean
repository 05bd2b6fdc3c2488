import Stave.Proofs.Brace.Spelling
import Stave.Proofs.Declaration.Bars

/-!
# Braces may be glued

A brace glued to the word beside it makes the line that it makes apart from it, with the places
after it moved by the blanks that are left out. One spelling is read exactly if the other is,
provided that no repeat takes the glued brace for a part of what it counts, and unless the longer
spelling gets too long.
-/
namespace Stave.Shorthand

variable {move : Nat → Nat} {text text' : String} {tokens : List Token}
  {symbols out out' : List Symbol}

/-! ### A group that opens right after another -/

/-- Among tokens, a group opens right after another has closed. -/
def Reopened (tokens : List Token) : Prop :=
  ∃ front close opens back, tokens = front ++ close :: opens :: back ∧
    close.kind = .groupClose ∧ opens.kind = .groupOpen

/-- Braces that are pieces next to each other become tokens next to each other: a directive takes
words only. -/
theorem Token.reopened_of_readPieces {chord : Option Nat} {found : List Token}
    {before after : List Piece} {close opens : Piece}
    (h : readPieces chord found (before ++ close :: opens :: after) = .ok tokens)
    (hclose : close.kind = .groupClose) (hopens : opens.kind = .groupOpen) : Reopened tokens := by
  -- on the length, for a directive takes the pieces of its arguments off with it
  induction hlength : before.length using Nat.strongRecOn generalizing before chord found with
  | _ length ih => ?_
  subst hlength
  cases before with
  | nil =>
    simp only [List.nil_append, readPieces, directive?, kindOf, chordAfter, hclose, hopens,
      reduceCtorEq, if_false] at h
    obtain ⟨rest, rfl, -⟩ := exists_allRead_of_readPieces h
    exact ⟨found.reverse, ⟨.groupClose, close.text, close.position, close.origin⟩,
      ⟨.groupOpen, opens.text, opens.position, opens.origin⟩, rest, by simp, rfl, rfl⟩
  | cons piece before =>
    rw [List.cons_append, readPieces] at h
    split at h
    · split at h
      · cases h
      case h_2 token used hread =>
        obtain ⟨hused, -⟩ := isOrdinary_of_ofDirective hread
        have hwords := (take_argumentWords hused).2
        have hbefore : used ≤ before.length := by
          by_contra hmore
          have hmem : close ∈ (before ++ close :: opens :: after).take used := by
            exact List.mem_take_iff_getElem.2 ⟨before.length, by simp; omega, by simp⟩
          rw [hwords close hmem] at hclose
          cases hclose
        rw [List.drop_append_of_le_length hbefore] at h
        refine ih (before.drop used).length ?_ h rfl
        rw [List.length_drop, List.length_cons]
        omega
    · split at h
      · cases h
      · exact ih before.length (Nat.lt_succ_self _) h rfl

theorem reopened_of_reopens (h : Reopens symbols)
    (hread : Token.readPieces none [] (Piece.ofSymbols symbols) = .ok tokens) :
    Reopened tokens := by
  obtain ⟨before, close, opens, after, hcontents⟩ := h
  obtain ⟨front, rest, hpieces, -, hrest⟩ := List.map_eq_append_iff.1 hcontents
  obtain ⟨closes, rest, rfl, hclose, hrest⟩ := List.map_eq_cons_iff.1 hrest
  obtain ⟨opens, back, rfl, hopens, -⟩ := List.map_eq_cons_iff.1 hrest
  rw [hpieces] at hread
  exact Token.reopened_of_readPieces hread (congrArg Prod.fst hclose) (congrArg Prod.fst hopens)

/-- A line with an unspelled piece cannot be read. -/
theorem not_unspelled_of_readPieces
    (hread : Token.readPieces none [] (Piece.ofSymbols symbols) = .ok tokens) :
    ¬Unspelled symbols := by
  rintro ⟨content, hmem, hspells⟩
  obtain ⟨piece, hpiece, rfl⟩ := List.mem_map.1 hmem
  exact hspells ((Token.spells_of_readPieces hread).1 piece hpiece)

/-- A group needs its tuplet, so it does not open right after another has closed. -/
theorem TupletGroup.not_reopened_of_collect {ledger : Ledger} {index : Nat}
    {tuplet : Option OpenTuplet} {found groups : List TupletGroup}
    (h : collect ledger index tuplet found tokens = .ok groups) : ¬Reopened tokens := by
  rintro ⟨front, close, opens, back, rfl, hclose, hopens⟩
  induction front generalizing index tuplet found with
  | nil =>
    simp only [List.nil_append, collect, hclose, hopens] at h
    split at h
    · split at h <;> cases h
    · cases h
  | cons token front ih =>
    rw [List.cons_append] at h
    unfold collect at h
    split at h
    · split at h
      · cases h
      split at h
      · exact ih h
      · cases h
    · split at h
      · split at h
        · exact ih h
        · cases h
      · cases h
    · split at h
      · split at h
        · cases h
        · exact ih h
      · cases h
    · exact ih h

theorem not_reopened_of_buildLine {instrument : Instrument} {prior : Carry} {frame : Frame}
    {written : WrittenLine} (h : buildLine tokens instrument prior frame = .ok written) :
    ¬Reopened tokens := by
  obtain ⟨groups, hgroups, -⟩ := bind_ok_iff.1 h
  exact TupletGroup.not_reopened_of_collect hgroups

/-! ### Both spellings -/

/-- A text with the pieces of one that can be read is read as that is. -/
theorem exists_sameMoved_of_contents
    (hout' : expandSymbols (Symbol.ofChars 0 text'.toList) = .ok out')
    (hclosed : quotedAfterAll false out' = false)
    (hcontents : contents out' = (contents out).map (Piece.movedContent move))
    (hread : Token.readPieces none [] (Piece.ofSymbols out) = .ok tokens) :
    ∃ tokens', readTokens text' = .ok tokens' ∧ SameMoved move tokens tokens' := by
  have hjoined : contents out' = (contents out).map (Piece.movedContent move) ++ contents [] := by
    rw [hcontents, contents_nil, List.append_nil]
  obtain ⟨tokens', hread', hreadings⟩ := exists_readPieces_of_contents hjoined hread readPieces_nil
  have hmarks := Token.map_mark_of_reading hreadings
  rw [List.map_nil, List.append_nil] at hmarks
  exact ⟨tokens', readTokens_of_expandSymbols hout' hclosed hread', hmarks⟩

/-- The tokens of a text are those of the pieces of its expansion. -/
theorem readPieces_of_readTokens (hout : expandSymbols (Symbol.ofChars 0 text.toList) = .ok out)
    (h : readTokens text = .ok tokens) :
    Token.readPieces none [] (Piece.ofSymbols out) = .ok tokens := by
  obtain ⟨same, hsame, -, hread⟩ := exists_of_readTokens h
  obtain rfl := Except.ok.inj (hout.symm.trans hsame)
  exact hread

/-- A text that can be read leaves no quotation open. -/
theorem closed_of_readTokens (h : readTokens text = .ok tokens) :
    quotedAfterAll false (Symbol.ofChars 0 text.toList) = false := by
  obtain ⟨out, hout, hsettled, -⟩ := exists_of_readTokens h
  rw [← quotedAfterAll_of_expandSymbols hout, hsettled.quoted]

namespace SpacedBrace

variable (line : SpacedBrace)

/-- Both spellings have the same tokens if they can be read, but that a group may open right
after another where the brace stands apart. -/
structure ReadAlike : Prop where
  apart : ∀ {tokens : List Token}, readTokens line.tight = .ok tokens →
    ∃ tokens', readTokens line.loose = .ok tokens' ∧ SameMoved line.gap.move tokens tokens'
  glued : ∀ {tokens' : List Token}, readTokens line.loose = .ok tokens' →
    Reopened tokens' ∨
      ∃ tokens, readTokens line.tight = .ok tokens ∧ SameMoved line.gap.back tokens' tokens

theorem readAlike_of_closed (houter : line.Outer)
    (hclosed : quotedAfterAll false (Symbol.ofChars 0 line.tight.toList) = false) :
    (∃ error, readTokens line.loose = .error (.expansion error) ∧ error.fault = .tooLong) ∨
      line.ReadAlike := by
  have hclosedLoose := line.loosened.quotedAfterAll_eq.trans hclosed
  have hfollows := line.follows_expandSymbols houter hclosed
  generalize htight : expandSymbols (Symbol.ofChars 0 line.tight.toList) = tight at hfollows
  generalize hloose : expandSymbols (Symbol.ofChars 0 line.loose.toList) = loose at hfollows
  cases hfollows with
  | @ok out' out reworded =>
    refine .inr ?_
    have hout' := (quotedAfterAll_of_expandSymbols htight).trans hclosed
    have hout := (quotedAfterAll_of_expandSymbols hloose).trans hclosedLoose
    -- the pieces correspond, or the tight line has one that cannot be read
    rcases Gap.contents_of_reworded reworded with hcontents | ⟨hunspelled, hreopens⟩
    · refine ⟨fun htokens => ?_, fun htokens => .inr ?_⟩
      · have hread := readPieces_of_readTokens htight htokens
        exact exists_sameMoved_of_contents hloose hout hcontents hread
      · have hread := readPieces_of_readTokens hloose htokens
        exact exists_sameMoved_of_contents htight hout' (line.gap.contents_back hcontents) hread
    · refine ⟨fun htokens => ?_, fun htokens => .inl ?_⟩
      · have hread := readPieces_of_readTokens htight htokens
        exact absurd hunspelled (not_unspelled_of_readPieces hread)
      · have hread := readPieces_of_readTokens hloose htokens
        exact reopened_of_reopens hreopens hread
  | error =>
    refine .inr ⟨fun htokens => ?_, fun htokens => ?_⟩
    · obtain ⟨same, hsame, -⟩ := exists_of_readTokens htokens
      cases htight.symm.trans hsame
    · obtain ⟨same, hsame, -⟩ := exists_of_readTokens htokens
      cases hloose.symm.trans hsame
  | tooLong =>
    unfold readTokens expand
    rw [hloose]
    exact .inl ⟨_, rfl, rfl⟩

/-- Both spellings are read alike, whether their quotations are closed or not. -/
theorem readAlike (houter : line.Outer) :
    (∃ error, readTokens line.loose = .error (.expansion error) ∧ error.fault = .tooLong) ∨
      line.ReadAlike := by
  by_cases hclosed : quotedAfterAll false (Symbol.ofChars 0 line.tight.toList) = false
  · exact line.readAlike_of_closed houter hclosed
  · refine .inr ⟨fun htokens => ?_, fun htokens => ?_⟩
    · exact absurd (closed_of_readTokens htokens) hclosed
    · refine absurd (closed_of_readTokens htokens) ?_
      rwa [line.loosened.quotedAfterAll_eq]

end SpacedBrace

/-- A brace may be glued to the word beside it: the line as it is typed, with the brace apart, is
read exactly if the line with the brace glued on is, and makes the same line with its places moved
by the blanks. This holds where every copy of the brace stands at the outer edge of its word once
repeats are written out, and none is counted, as in every line without repeats; and unless the line
as it is typed gets too long. -/
theorem readsGlued (line : SpacedBrace)
    (hglue : line.Outer ∨
      line.StandsAlone ∧ ∀ c ∈ unquoted false line.tight.toList, c ∉ repeatSigns)
    (instrument : Instrument) (prior : Carry) (frame : Frame) :
    (∃ error, readLine line.loose instrument prior frame = .error (.expansion error) ∧
        error.fault = .tooLong) ∨
      ∀ written, readLine line.loose instrument prior frame = .ok written ↔
        ∃ glued, readLine line.tight instrument prior frame = .ok glued ∧
          written = glued.moved line.gap.move (writesSlot line.tight) := by
  have houter : line.Outer := by
    rcases hglue with houter | ⟨halone, hfree⟩
    · exact houter
    · exact line.outer_of_standsAlone halone hfree
  rcases line.readAlike houter with ⟨error, herror, hlong⟩ | halike
  · refine .inl ⟨error, ?_, hlong⟩
    rw [readLine, herror]
    rfl
  have hapart {glued : WrittenLine}
      (hglued : readLine line.tight instrument prior frame = .ok glued) :
      readLine line.loose instrument prior frame =
        .ok (glued.moved line.gap.move (writesSlot line.tight)) := by
    obtain ⟨tokens, htokens, -⟩ := readLine_eq_ok.1 hglued
    obtain ⟨tokens', htokens', hmoved⟩ := halike.apart htokens
    exact readLine_eq_ok.2 ⟨tokens', htokens', buildLine_of_readLine htokens hmoved hglued⟩
  refine .inr fun written => ⟨fun hwritten => ?_, ?_⟩
  -- what is glued makes some line, and then the one with the brace apart is that line moved
  · obtain ⟨tokens', htokens', hbuild⟩ := readLine_eq_ok.1 hwritten
    rcases halike.glued htokens' with hreopened | ⟨tokens, htokens, hmoved⟩
    · exact absurd hreopened (not_reopened_of_buildLine hbuild)
    · have hglued := readLine_eq_ok.2
        ⟨tokens, htokens, buildLine_of_readLine htokens' hmoved hwritten⟩
      exact ⟨_, hglued, Except.ok.inj (hwritten.symm.trans (hapart hglued))⟩
  · rintro ⟨glued, hglued, rfl⟩
    exact hapart hglued

/-- A brace glued to a bracketed group: the tuplet's first notes are copies of the word behind the
brace, and what stands after the brace moves by one byte. -/
theorem readsGlued_tuplet :
    ∃ line : SpacedBrace, line.loose = "\\tuplet 3/2 \x7b [c8]2 d8 \x7d r2." ∧
      line.tight = "\\tuplet 3/2 \x7b[c8]2 d8 \x7d r2." ∧ line.gap = ⟨.following, 12, 1⟩ ∧
      line.Outer ∧ ∃ glued,
        readLine line.tight (.named "flute") .initial ⟨.common, .moderate⟩ = .ok glued ∧
          readLine line.loose (.named "flute") .initial ⟨.common, .moderate⟩ =
            .ok (glued.moved line.gap.move true) := by
  let line : SpacedBrace := ⟨.following, "\\tuplet 3/2 ", '\x7b', " ", "[c8]2 d8 \x7d r2.",
    .inl rfl, by decide, by decide⟩
  have houter : line.Outer := by decide +kernel
  have hsome : (readLine line.loose (.named "flute") .initial
      ⟨.common, .moderate⟩).toOption.isSome = true := by
    decide +kernel
  have hslots : writesSlot line.tight = true := by decide +kernel
  refine ⟨line, by decide +kernel, by decide +kernel, by decide +kernel, houter, ?_⟩
  obtain ⟨written, hwritten⟩ := Option.isSome_iff_exists.1 hsome
  have hloose := toOption_eq_some_iff.1 hwritten
  rcases readsGlued line (.inl houter) (.named "flute") .initial ⟨.common, .moderate⟩ with
    ⟨error, herror, -⟩ | hsame
  · cases hloose.symm.trans herror
  · obtain ⟨glued, hglued, rfl⟩ := (hsame written).1 hloose
    rw [hslots] at hloose
    exact ⟨glued, hglued, hloose⟩

/-- The brace is a word of its own, in a line that can be read or not with the brace apart and with
the brace glued on. -/
def SpacedBrace.Readable (line : SpacedBrace) (instrument : Instrument) (prior : Carry)
    (frame : Frame) (apart glued : Bool) : Prop :=
  line.StandsAlone ∧ (readLine line.loose instrument prior frame).toOption.isSome = apart ∧
    (readLine line.tight instrument prior frame).toOption.isSome = glued

instance (line : SpacedBrace) (instrument : Instrument) (prior : Carry) (frame : Frame)
    (apart glued : Bool) : Decidable (line.Readable instrument prior frame apart glued) :=
  inferInstanceAs (Decidable (_ ∧ _))

/-- A repeat takes a brace that is glued to what it counts for a part of it: an opening brace is
copied, or is all that is counted, a closing one stands in the way of the count, and behind a
bracket the brace ends up inside a word. -/
theorem not_glued_counted :
    SpacedBrace.Readable ⟨.following, "\\tuplet 3/2 ", '\x7b', " ", "c8*3 \x7d r2.", .inl rfl,
        by decide, by decide⟩ (.named "flute") .initial ⟨.common, .moderate⟩ true false ∧
      SpacedBrace.Readable ⟨.following, "\\tuplet 3/2 ", '\x7b', " ", "*1 c8 d e \x7d r2.",
        .inl rfl, by decide, by decide⟩ (.named "flute") .initial ⟨.common, .moderate⟩ false true ∧
      SpacedBrace.Readable ⟨.preceding, "\\tuplet 3/2 \x7b c8*3", '\x7d', " ", " r2.",
        .inr ⟨rfl, rfl⟩, by decide, by decide⟩ (.named "flute") .initial ⟨.common, .moderate⟩ true
          false ∧
      SpacedBrace.Readable ⟨.following, "\\tuplet 3/2[ ", '\x7b', " ", "c8 d e \x7d ]1 r2.",
        .inl rfl, by decide, by decide⟩ (.named "flute") .initial ⟨.common, .moderate⟩ true false := by
  decide +kernel

end Stave.Shorthand
