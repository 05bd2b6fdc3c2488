import Stave.Proofs.Declaration.Offsets
import Stave.Proofs.Declaration.Keyword
import Stave.Proofs.WrittenLine.Moved

/-!
# Declarations of several bars

A declaration is expanded and cut into words as a whole, and only then at its bar lines. Still
nothing leaks across a bar line: texts that can be read one after the other, joined by bar lines,
make the same bars, with places counted from the beginning of the declaration.
-/
namespace Stave.Shorthand

variable {text : String} {texts : List String} {instrument : Instrument} {prior : Carry}
  {frame : Frame} {cursor : Cursor} {written : WrittenLine} {lines found : List WrittenLine}
  {tokens before rest : List Token} {token : Token} {bars : List (List Token)}

/-! ### Bars of tokens -/

theorem splitBars_of_no_barLine (h : ∀ token ∈ tokens, token.kind ≠ .barLine) :
    splitBars tokens = [tokens] := by
  induction tokens with
  | nil => rfl
  | cons token rest ih =>
    obtain ⟨htoken, hrest⟩ := List.forall_mem_cons.1 h
    rw [splitBars, ih hrest, if_neg htoken]

/-- Tokens before the first bar line are the first bar. -/
theorem splitBars_append (h : ∀ token ∈ before, token.kind ≠ .barLine)
    (hbar : token.kind = .barLine) :
    splitBars (before ++ token :: rest) = before :: splitBars rest := by
  induction before with
  | nil => rw [List.nil_append, splitBars, if_pos hbar]
  | cons first before ih =>
    obtain ⟨hfirst, hbefore⟩ := List.forall_mem_cons.1 h
    rw [List.cons_append, splitBars, ih hbefore, if_neg hfirst]

/-- A line that is built has no bar line. -/
theorem no_barLine_of_acceptAll {draft draft' : Draft} {index : Nat}
    (h : draft.acceptAll instrument index tokens = .ok draft') :
    ∀ token ∈ tokens, token.kind ≠ .barLine := by
  induction tokens generalizing draft index with
  | nil => exact List.forall_mem_nil _
  | cons token rest ih =>
    unfold Draft.acceptAll Draft.accept at h
    cases hplace : draft.place instrument index token with
    | error error => simp [hplace] at h
    | ok placed =>
      obtain ⟨placed, post⟩ := placed
      cases hattach : placed.attach post with
      | error fault => simp [hplace, hattach] at h
      | ok attached =>
        simp only [hplace, hattach] at h
        refine List.forall_mem_cons.2 ⟨fun hbar => ?_, ih h⟩
        rw [Draft.place, hbar] at hplace
        cases hplace

theorem no_barLine_of_buildLine (h : buildLine tokens instrument prior frame = .ok written) :
    ∀ token ∈ tokens, token.kind ≠ .barLine := by
  unfold buildLine at h
  obtain ⟨groups, -, h⟩ := bind_ok_iff.1 h
  obtain ⟨draft, hdraft, -⟩ := bind_ok_iff.1 h
  exact no_barLine_of_acceptAll hdraft

/-! ### Joined bars -/

/-- The lines of texts joined by bar lines, of which the first begins at a given byte. -/
def linesFrom (start : Nat) : List String → List WrittenLine → List WrittenLine
  | text :: texts, written :: lines =>
    written.moved (· + start) (writesSlot text) ::
      linesFrom (start + text.utf8ByteSize + " | ".utf8ByteSize) texts lines
  | _, _ => []

/-- The tokens of a text make the line it makes wherever they are typed, with its places moved. -/
theorem buildLine_of_readLine {move : Nat → Nat} {tokens' : List Token}
    (htokens : readTokens text = .ok tokens)
    (hmoved : SameMoved move tokens tokens')
    (h : readLine text instrument prior frame = .ok written) :
    buildLine tokens' instrument prior frame = .ok (written.moved move (writesSlot text)) := by
  obtain ⟨same, hsame, hbuild⟩ := readLine_eq_ok.1 h
  rw [htokens] at hsame
  cases hsame
  obtain ⟨draft, built, hbuilt⟩ := buildLine_moved hmoved hbuild
  have hslots : (!draft.slots.isEmpty) = writesSlot text := by
    rw [Bool.eq_iff_iff, ← built.slots_ne_nil_iff htokens]
    simp
  rw [hbuilt, hslots]

theorem readTokens_barLine : readTokens "|" = .ok [⟨.barLine, "|", 0, 0⟩] := by
  have hread : (readTokens "|").toOption = some [⟨.barLine, "|", 0, 0⟩] := by decide +kernel
  exact toOption_eq_some_iff.1 hread

/-- The symbols of two texts joined by a bar line. -/
theorem ofChars_join (start : Nat) (first second : String) :
    Symbol.ofChars start (first ++ " | " ++ second).toList =
      Symbol.ofChars start first.toList ++ ⟨' ', start + first.utf8ByteSize⟩ ::
        (Symbol.ofChars (start + first.utf8ByteSize + 1) "|".toList ++
          ⟨' ', start + first.utf8ByteSize + 2⟩ ::
            Symbol.ofChars (start + first.utf8ByteSize + " | ".utf8ByteSize) second.toList) := by
  rw [String.append_assoc, String.toList_append, Symbol.ofChars_append, Text.byteSize_toList,
    String.toList_append]
  rfl

/-- Texts read in turn are read the same when joined by bar lines. -/
theorem exists_reads_of_readInTurn (h : ReadInTurn instrument prior frame texts lines)
    (hne : texts ≠ []) (start : Nat) :
    ∃ marks, Reads (Symbol.ofChars start (" | ".intercalate texts).toList) marks ∧
      ∀ tokens position found, tokens.map Token.mark = marks →
        buildBars instrument ⟨position, prior, frame⟩ found (splitBars tokens) =
          .ok (found.reverse ++ linesFrom start texts lines,
            lines.foldl Cursor.advance ⟨position, prior, frame⟩) := by
  induction h generalizing start with
  | nil => exact absurd rfl hne
  | @cons prior frame text texts written lines first others ih =>
    obtain ⟨tokens, htokens, -⟩ := readLine_eq_ok.1 first
    obtain ⟨halone, hjoins⟩ := reads_of_readTokens start htokens
    cases others with
    | nil =>
      refine ⟨_, by simpa using halone, fun tokens' position found hmarks => ?_⟩
      have hbuild := buildLine_of_readLine htokens hmarks first
      rw [splitBars_of_no_barLine (no_barLine_of_buildLine hbuild), buildBars]
      dsimp only
      rw [hbuild]
      dsimp only
      rw [buildBars, List.reverse_cons]
      rfl
    | @cons _ _ second texts next lines nextFirst nextOthers =>
      obtain ⟨marks, hreads, hbuilds⟩ := ih (List.cons_ne_nil _ _)
        (start + text.utf8ByteSize + " | ".utf8ByteSize)
      have hbar := (reads_of_readTokens (start + text.utf8ByteSize + 1) readTokens_barLine).2
        ⟨' ', start + text.utf8ByteSize + 2⟩ _ _ rfl hreads
      have hall := hjoins ⟨' ', start + text.utf8ByteSize⟩ _ _ rfl hbar
      rw [← ofChars_join, ← String.intercalate_cons_cons] at hall
      refine ⟨_, hall, fun tokens' position found hmarks => ?_⟩
      -- the tokens of the first text, the bar line, and the tokens of the others
      obtain ⟨bar, after, rfl, hbarTokens, hafter⟩ := List.map_eq_append_iff.1 hmarks
      obtain ⟨separator, rest, rfl, hseparator, hrest⟩ := List.map_eq_cons_iff.1 hafter
      have hbuild := buildLine_of_readLine htokens hbarTokens first
      rw [splitBars_append (no_barLine_of_buildLine hbuild) (congrArg Prod.fst hseparator),
        buildBars]
      dsimp only
      rw [hbuild]
      dsimp only
      have hothers := hbuilds rest (position + 1)
        (written.moved (· + start) (writesSlot text) :: found) hrest
      rw [List.reverse_cons, List.append_assoc] at hothers
      exact hothers

/-! ### Declarations -/

/-- What may stand before the first bar of a declaration: blanks, and the keyword between blanks
if there is one. -/
inductive OpensBars : List Char → Prop where
  | blanks {cs : List Char} (blank : ∀ c ∈ cs, Text.isBlank c = true) : OpensBars cs
  | keyword {before after : List Char} (blankBefore : ∀ c ∈ before, Text.isBlank c = true)
      (blankAfter : ∀ c ∈ after, Text.isBlank c = true) :
      OpensBars (before ++ (barsKeyword ++ after))

theorem ReadInTurn.length_eq (h : ReadInTurn instrument prior frame texts lines) :
    texts.length = lines.length := by
  induction h with
  | nil => rfl
  | cons _ _ ih => rw [List.length_cons, List.length_cons, ih]

/-- Going over lines ends with what the last one leaves. -/
theorem foldl_advance (cursor : Cursor) (hne : lines ≠ []) :
    ∃ last, lines.getLast? = some last ∧
      lines.foldl Cursor.advance cursor =
        ⟨cursor.position + lines.length, last.line.closing, last.frame⟩ := by
  induction lines generalizing cursor with
  | nil => exact absurd rfl hne
  | cons written lines ih =>
    cases lines with
    | nil => exact ⟨written, rfl, rfl⟩
    | cons next lines =>
      obtain ⟨last, hlast, hfold⟩ := ih (cursor.advance written) (List.cons_ne_nil _ _)
      refine ⟨last, hlast, ?_⟩
      rw [List.foldl_cons, hfold, Cursor.advance, Nat.add_assoc, Nat.add_comm 1,
        List.length_cons (a := written)]

/-- A joined text begins with its first text, and goes on with a bar line if at all. -/
theorem exists_toList_intercalate (text : String) (texts : List String) :
    ∃ more, (" | ".intercalate (text :: texts)).toList = text.toList ++ more ∧
      (more = [] ∨ ∃ others, more = ' ' :: '|' :: others) := by
  cases texts with
  | nil => exact ⟨[], by simp, .inl rfl⟩
  | cons second texts =>
    rw [String.intercalate_cons_cons, String.append_assoc, String.toList_append,
      String.toList_append]
    exact ⟨_, rfl, .inr ⟨_, rfl⟩⟩

/-- Texts that can be read do not begin a declaration with its keyword. -/
theorem not_keyword_of_readInTurn (hne : texts ≠ [])
    (h : ReadInTurn instrument prior frame texts lines) :
    ¬barsKeyword <+: (" | ".intercalate texts).toList.dropWhile Text.isBlank := by
  cases h with
  | nil => exact absurd rfl hne
  | @cons _ _ text texts _ _ first others =>
    obtain ⟨tokens, htokens, -⟩ := readLine_eq_ok.1 first
    obtain ⟨more, heq, hmore⟩ := exists_toList_intercalate text texts
    rw [heq, List.dropWhile_append]
    intro hkeyword
    split at hkeyword
    case isTrue hblank =>
      rcases hmore with rfl | ⟨others, rfl⟩
      · cases List.prefix_nil.1 hkeyword
      · obtain ⟨after, hafter⟩ := hkeyword
        cases hafter
    case isFalse =>
      refine not_keyword_of_readTokens htokens (prefix_of_prefix_append hkeyword ?_)
      rcases hmore with rfl | ⟨others, rfl⟩
      · simp
      · simp [barsKeyword]

/-- What stands before the first bar becomes blanks. -/
theorem exists_blankKeyword_append {lead : List Char} (hlead : OpensBars lead)
    (hne : texts ≠ []) (h : ReadInTurn instrument prior frame texts lines) :
    ∃ blanks, (∀ c ∈ blanks, Text.isBlank c = true) ∧ Text.byteSize blanks = Text.byteSize lead ∧
      blankKeyword (lead ++ (" | ".intercalate texts).toList) =
        blanks ++ (" | ".intercalate texts).toList := by
  have hnot := not_keyword_of_readInTurn hne h
  generalize (" | ".intercalate texts).toList = joined at hnot
  cases hlead with
  | blanks blank =>
    refine ⟨lead, blank, rfl, ?_⟩
    unfold blankKeyword
    dsimp only
    rw [List.dropWhile_append_of_pos blank, if_neg]
    rwa [List.isPrefixOf_iff_prefix]
  | @keyword before after blankBefore blankAfter =>
    refine ⟨List.replicate (Text.byteSize before + barsKeyword.length) ' ' ++ after, ?_, ?_, ?_⟩
    · refine List.forall_mem_append.2 ⟨fun c hmem => ?_, blankAfter⟩
      rw [List.eq_of_mem_replicate hmem]
      rfl
    · rw [Text.byteSize_append, byteSize_replicate_blank, Text.byteSize_append,
        Text.byteSize_append, Nat.add_assoc]
      rfl
    · have hbackslash : Text.isBlank '\\' = false := by decide
      have hsplit : before ++ (barsKeyword ++ after) ++ joined =
          before ++ '\\' :: ('b' :: 'a' :: 'r' :: 's' :: (after ++ joined)) := by
        rw [List.append_assoc]
        rfl
      rw [hsplit, blankKeyword, List.takeWhile_append_of_pos blankBefore,
        List.dropWhile_append_of_pos blankBefore, List.takeWhile_cons_of_neg (by simp [hbackslash]),
        List.dropWhile_cons_of_neg (by simp [hbackslash]), List.append_nil]
      rw [List.append_assoc]
      rfl

end Stave.Shorthand
