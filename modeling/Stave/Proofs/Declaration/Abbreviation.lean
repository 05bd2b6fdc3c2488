import Stave.Proofs.Declaration.Joined
import Stave.Proofs.Token.Copied

/-!
# Repeats are abbreviations

A bracketed text with a count is read as the text is, so many times over, and so is a word or a
chord with a star and a count: the tokens are of the same kinds, with the same texts, and come
from where they come from in the text alone. The line may get too long, and nothing else can go
wrong.
-/
namespace Stave.Shorthand

/-- A text is read as copies of tokens, whose places are moved along, unless it gets too long. -/
def ReadsCopies (text : String) (count : Nat) (move : Nat → Nat) (tokens : List Token) : Prop :=
  (∃ error, readTokens text = .error (.expansion error) ∧ error.fault = .tooLong) ∨
    ∃ copies, readTokens text = .ok copies ∧
      copies.map Token.reading =
        (List.replicate count (tokens.map (Token.movedReading move))).flatten

variable {text unit : String} {count offset : Nat} {move : Nat → Nat} {tokens : List Token}
  {symbols out : List Symbol}

/-- A text that is expanded to copies of what can be read is read as copies. -/
theorem readsCopies_of_expands
    (hexpands : Expands (Symbol.ofChars 0 text.toList) (Repeat.copies out count offset))
    (hclosed : quotedAfterAll false out = false)
    (hcontents : contents out = (contents symbols).map (Piece.movedContent move))
    (hread : Token.readPieces none [] (Piece.ofSymbols symbols) = .ok tokens)
    (hcount : 0 < count) : ReadsCopies text count move tokens := by
  obtain ⟨copies, hcopies, hreadings⟩ :=
    exists_readPieces_of_copies hclosed hcontents hread hcount offset
  rcases hexpands.fits with hout | ⟨fault, hlong⟩
  · exact .inr ⟨copies, readTokens_of_expandSymbols hout (Repeat.quotedAfterAll_copies hclosed)
      hcopies, hreadings⟩
  · unfold ReadsCopies readTokens expand
    rw [hlong]
    exact .inl ⟨_, rfl, rfl⟩

/-- A text in brackets with a count, a star before it or not, is read as copies. -/
theorem readsCopies_group {marks : List Char} (h : readTokens unit = .ok tokens)
    (hne : tokens ≠ []) (htext : text.toList = '[' :: (unit.toList ++ ']' :: marks))
    (hmarks : marks = Nat.toDigits 10 count ∨ marks = '*' :: Nat.toDigits 10 count)
    (hpos : 0 < count) (hle : count ≤ Repeat.largestCount) :
    ReadsCopies text count (· + 1) tokens := by
  obtain ⟨out, hout, hsettled, hread⟩ := exists_of_readTokens h
  have hink : ∃ symbol ∈ out, symbol.isBlank = false := by
    by_contra hnone
    have hblanks : ∀ symbol ∈ out, symbol.isBlank = true := fun symbol hmem => by
      by_contra hblank
      exact hnone ⟨symbol, hmem, by simpa using hblank⟩
    have hpieces : Piece.ofSymbols out = [] := List.map_eq_nil_iff.1 (contents_of_blanks hblanks)
    rw [hpieces] at hread
    exact hne (Token.eq_reverse_of_readPieces_nil hread)
  have hcount (close origin : Nat) :
      Repeat.readCount close (Symbol.ofChars origin marks) =
        .ok (count, (Symbol.ofChars origin marks).length) := by
    rcases hmarks with rfl | rfl
    · exact (Repeat.readCount_digits default (Symbol.chars_ofChars origin _) hpos hle).1
    · exact (Repeat.readCount_digits _ (Symbol.chars_ofChars _ _) hpos hle).2 rfl
  have hline : Symbol.ofChars 0 text.toList =
      ⟨'[', 0⟩ :: ((Symbol.ofChars 0 unit.toList).map (Symbol.moved (· + 1)) ++
        ⟨']', 1 + Text.byteSize unit.toList⟩ ::
          Symbol.ofChars (1 + Text.byteSize unit.toList + 1) marks) := by
    rw [htext, Symbol.ofChars, Symbol.ofChars_append, ← Symbol.ofChars_add]
    rfl
  obtain ⟨front, inner, back, rfl, hfront, hback, hexpands⟩ :=
    expands_group (· + 1) (rfl : Symbol.char ⟨'[', 0⟩ = '[')
      (rfl : Symbol.char ⟨']', 1 + Text.byteSize unit.toList⟩ = ']') (hcount _ _) hsettled hink hout
  rw [← hline] at hexpands
  have hclosed : quotedAfterAll false inner = false := by
    rw [← Repeat.quotedAfterAll_between hfront hback]
    exact hsettled.quoted
  refine readsCopies_of_expands hexpands ?_ ?_ hread hpos
  · rw [Repeat.quotedAfterAll_map_moved, hclosed]
  · rw [contents_map_moved, contents_between hfront hback hclosed]

/-- What stands before a star and the digits of a count is a text as it was typed. -/
theorem ofChars_counted {word : String}
    (htext : text.toList = word.toList ++ '*' :: Nat.toDigits 10 count)
    (hpos : 0 < count) (hle : count ≤ Repeat.largestCount) :
    ∃ star digits, Symbol.ofChars 0 text.toList = (typed word).symbols ++ star :: digits ∧
      CountedBy star digits count := by
  refine ⟨_, _, by rw [htext, Symbol.ofChars_append]; rfl, rfl, ?_, hpos, hle⟩
  exact Symbol.chars_ofChars _ _

/-- A text that is read as it was typed is read so, many times over, from its copies. -/
theorem readsCopies_of_typed {word : String} (h : tokenize (typed word) = .ok tokens)
    (hexpands : Expands (Symbol.ofChars 0 text.toList)
      (Repeat.copies (typed word).symbols count offset)) (hpos : 0 < count) :
    ReadsCopies text count id tokens := by
  refine readsCopies_of_expands hexpands (settled_of_tokenize h).quoted ?_
    (readPieces_of_tokenize h) hpos
  rw [show Piece.movedContent id = id from funext Piece.movedContent_id, List.map_id]

/-- Repeats are abbreviations, for every count: of a text in brackets that can be read and has
tokens, with a star before the count or without; of a word that is read as one note, rest, bare
length or run of post-events; and of a text that is read as one chord, begins with its bracket and
ends with its suffix. A text that can be read as it was typed has no sign of a repeat to be
written out first. -/
theorem readsCopies (hpos : 0 < count) (hle : count ≤ Repeat.largestCount) :
    (∀ unit tokens, readTokens unit = .ok tokens → tokens ≠ [] →
      ReadsCopies ("[" ++ unit ++ "]" ++ toString count) count (· + 1) tokens ∧
        ReadsCopies ("[" ++ unit ++ "]*" ++ toString count) count (· + 1) tokens) ∧
    (∀ word token, tokenize (typed word) = .ok [token] → token.text = word →
      token.kind.isMusic = true →
        ReadsCopies (word ++ "*" ++ toString count) count id [token]) ∧
    ∀ chord start inner stop suffix, tokenize (typed chord) = .ok (start :: (inner ++ [stop])) →
      start.kind = .chordStart → stop.kind = .chordEnd suffix →
      (∀ token ∈ inner, token.kind.isBracket = false) →
      chord.toList.head? = some '<' → (∀ c ∈ chord.toList.getLast?, Text.isBlank c = false) →
        ReadsCopies (chord ++ "*" ++ toString count) count id (start :: (inner ++ [stop])) := by
  have hcounted (word : String) :
      (word ++ "*" ++ toString count).toList = word.toList ++ '*' :: Nat.toDigits 10 count := by
    simp
  refine ⟨fun unit tokens h hne => ⟨?_, ?_⟩, fun word token h htext hmusic => ?_, ?_⟩
  · exact readsCopies_group h hne (by simp) (.inl rfl) hpos hle
  · exact readsCopies_group h hne (by simp) (.inr rfl) hpos hle
  · obtain ⟨star, digits, hline, hcount⟩ := ofChars_counted (hcounted word) hpos hle
    obtain ⟨hne, hword, hbrackets⟩ := word_of_tokenize h htext hmusic
    have hexpands := expands_word hcount (unrepeated_of_tokenize h) hne hword hbrackets
    rw [← hline] at hexpands
    exact readsCopies_of_typed h hexpands hpos
  · intro chord start inner stop suffix h hstart hstop hinner hhead hink
    obtain ⟨star, digits, hline, hcount⟩ := ofChars_counted (hcounted chord) hpos hle
    obtain ⟨bracket, body, after, hsymbols, hopen, hsplit, hword⟩ :=
      exists_chord_of_tokenize h hstart hstop hinner hhead hink
    have hunit := unrepeated_of_tokenize h
    rw [hsymbols] at hunit
    have hexpands := expands_chord hcount hopen hsplit hunit hword
    rw [← hsymbols, ← hline] at hexpands
    exact readsCopies_of_typed h hexpands hpos

/-- A group with a group in it, a tied note and a chord, each three times. -/
theorem readsCopies_three :
    ∃ tokens token chord, readTokens "d8 [e]2 " = .ok tokens ∧
      tokenize (typed "c4~") = .ok [token] ∧ tokenize (typed "<c e>8") = .ok chord ∧
        ReadsCopies "[d8 [e]2 ]3" 3 (· + 1) tokens ∧ ReadsCopies "[d8 [e]2 ]*3" 3 (· + 1) tokens ∧
          ReadsCopies "c4~*3" 3 id [token] ∧ ReadsCopies "<c e>8*3" 3 id chord := by
  have hunit : (readTokens "d8 [e]2 ").toOption.map (fun tokens => tokens.length) = some 3 := by
    decide +kernel
  have hword : (tokenize (typed "c4~")).toOption =
      some [⟨.note ⟨0, 0, 0, .bare, ⟨some ⟨64, 0⟩, [.tie]⟩⟩, "c4~", 0, 0⟩] := by
    decide +kernel
  have hchord : (tokenize (typed "<c e>8")).toOption =
      some (⟨.chordStart, "<", 0, 0⟩ :: ([⟨.note ⟨0, 0, 0, .bare, ⟨none, []⟩⟩, "c", 1, 1⟩,
        ⟨.note ⟨2, 0, 0, .bare, ⟨none, []⟩⟩, "e", 3, 3⟩] ++
          [⟨.chordEnd ⟨some ⟨32, 0⟩, []⟩, ">8", 4, 4⟩])) := by
    decide +kernel
  obtain ⟨tokens, hread, hlength⟩ := Option.map_eq_some_iff.1 hunit
  rw [toOption_eq_some_iff] at hread hword hchord
  have hne : tokens ≠ [] := by
    rintro rfl
    cases hlength
  obtain ⟨hgroup, hnote, hchords⟩ := @readsCopies 3 (by decide) (by decide)
  have hpair := hgroup _ tokens hread hne
  have htied := hnote _ _ hword rfl rfl
  have hlast : "<c e>8".toList.getLast? = some '8' := by decide +kernel
  have hink : ∀ c ∈ "<c e>8".toList.getLast?, Text.isBlank c = false := by
    rw [hlast]
    rintro c ⟨⟩
    decide
  have hheld := hchords _ _ _ _ _ hchord rfl rfl (by decide) (by decide +kernel) hink
  rw [show "[" ++ "d8 [e]2 " ++ "]" ++ toString 3 = "[d8 [e]2 ]3" by decide +kernel,
    show "[" ++ "d8 [e]2 " ++ "]*" ++ toString 3 = "[d8 [e]2 ]*3" by decide +kernel] at hpair
  rw [show "c4~" ++ "*" ++ toString 3 = "c4~*3" by decide +kernel] at htied
  rw [show "<c e>8" ++ "*" ++ toString 3 = "<c e>8*3" by decide +kernel] at hheld
  exact ⟨tokens, _, _, hread, hword, hchord, hpair.1, hpair.2, htied, hheld⟩

end Stave.Shorthand
