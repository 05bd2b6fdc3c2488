import Stave.Proofs.Token.Joined
import Stave.Proofs.Token.Placed

/-!
# Reading joined texts

A text that can be read alone is read the same as a part of a longer line, if blanks stand around
it: the expansion writes it out as it would alone, and its pieces become the same tokens, whose
places are those of the text moved along. Only the whole line may get too long.
-/
namespace Stave.Shorthand

/-- What the tokens of a line are, wherever the line stands, unless the whole gets too long. -/
def Reads (line : List Symbol) (marks : List (TokenKind × Nat)) : Prop :=
  ∃ out tokens, Expands line out ∧ quotedAfterAll false out = false ∧
    Token.readPieces none [] (Piece.ofSymbols out) = .ok tokens ∧ tokens.map Token.mark = marks

variable {line rest : List Symbol} {marks : List (TokenKind × Nat)} {text : String}
  {blank : Symbol} {tokens : List Token} {cs : List Char} {start shift : Nat}

theorem Reads.cons (hblank : blank.isBlank = true) (h : Reads line marks) :
    Reads (blank :: line) marks := by
  obtain ⟨out, tokens, hexpands, hquoted, htokens, rfl⟩ := h
  have hjoined : contents (blank :: out) =
      (contents []).map (Piece.movedContent id) ++ contents out := by
    rw [contents_cons_of_isBlank hblank, contents_nil]
    rfl
  obtain ⟨read, hread, hreadings⟩ := exists_readPieces_of_contents hjoined readPieces_nil htokens
  refine ⟨blank :: out, read, hexpands.cons hblank, ?_, hread,
    Token.map_mark_of_reading hreadings⟩
  rwa [quotedAfterAll_cons, Symbol.quotedAfter, not_isQuote_of_isBlank hblank]

/-- Blanks in front of a line change nothing. -/
theorem Reads.blanks (hblanks : ∀ c ∈ cs, Text.isBlank c = true) (h : Reads line marks) :
    Reads (Symbol.ofChars start cs ++ line) marks := by
  induction cs generalizing start with
  | nil => exact h
  | cons c cs ih =>
    obtain ⟨hc, hcs⟩ := List.forall_mem_cons.1 hblanks
    exact (ih hcs).cons hc

theorem exists_of_readTokens (h : readTokens text = .ok tokens) :
    ∃ out, expandSymbols (Symbol.ofChars 0 text.toList) = .ok out ∧ Settled out ∧
      Token.readPieces none [] (Piece.ofSymbols out) = .ok tokens := by
  obtain ⟨expansion, hexpand, htokens⟩ := exists_expansion_of_readTokens h
  have hsettled := settled_of_tokenize htokens
  unfold expand at hexpand
  split at hexpand
  case h_1 out hout =>
    cases hexpand
    refine ⟨out, hout, hsettled, ?_⟩
    unfold tokenize at htokens
    split at htokens
    · cases htokens
    · exact htokens
  case h_2 => cases hexpand

/-- A text that can be read is read the same as a line that starts at a later byte, or as the
beginning of one that goes on after a blank. -/
theorem reads_of_readTokens (start : Nat) (h : readTokens text = .ok tokens) :
    Reads (Symbol.ofChars start text.toList) (tokens.map (Token.movedMark (· + start))) ∧
      ∀ blank rest marks, blank.isBlank = true → Reads rest marks →
        Reads (Symbol.ofChars start text.toList ++ blank :: rest)
          (tokens.map (Token.movedMark (· + start)) ++ marks) := by
  obtain ⟨out, hout, hsettled, htokens⟩ := exists_of_readTokens h
  obtain ⟨halone, hjoins⟩ := expands_of_expandSymbols (· + start) hsettled hout
  rw [← Symbol.ofChars_add, Nat.zero_add] at halone hjoins
  have hquoted : quotedAfterAll false (out.map (Symbol.moved (· + start))) = false := by
    rw [Repeat.quotedAfterAll_map_moved, hsettled.quoted]
  constructor
  · have hcontents : contents (out.map (Symbol.moved (· + start))) =
        (contents out).map (Piece.movedContent (· + start)) ++ contents [] := by
      rw [contents_map_moved, contents_nil, List.append_nil]
    obtain ⟨read, hread, hreadings⟩ :=
      exists_readPieces_of_contents hcontents htokens readPieces_nil
    exact ⟨_, read, halone, hquoted, hread, by simpa using Token.map_mark_of_reading hreadings⟩
  · rintro blank rest marks hblank ⟨outRest, others, hexpands, hquotedRest, hothers, rfl⟩
    have hcontents : contents (out.map (Symbol.moved (· + start)) ++ blank :: outRest) =
        (contents out).map (Piece.movedContent (· + start)) ++ contents outRest := by
      rw [contents_append hquoted (blankNext_cons hblank), contents_map_moved,
        contents_cons_of_isBlank hblank]
    obtain ⟨read, hread, hreadings⟩ := exists_readPieces_of_contents hcontents htokens hothers
    refine ⟨_, read, hjoins blank rest outRest hblank hexpands, ?_, hread,
      Token.map_mark_of_reading hreadings⟩
    rw [quotedAfterAll_append, hquoted, quotedAfterAll_cons, Symbol.quotedAfter,
      not_isQuote_of_isBlank hblank]
    exact hquotedRest

/-- A text whose expansion leaves no quotation open has the tokens of the pieces of that. -/
theorem readTokens_of_expandSymbols {out : List Symbol}
    (hout : expandSymbols (Symbol.ofChars 0 text.toList) = .ok out)
    (hquoted : quotedAfterAll false out = false)
    (htokens : Token.readPieces none [] (Piece.ofSymbols out) = .ok tokens) :
    readTokens text = .ok tokens := by
  unfold readTokens expand
  rw [hout]
  refine bind_ok_iff.2 ⟨⟨out, text.utf8ByteSize⟩, rfl, ?_⟩
  rw [tokenize, openQuote?_eq_none_iff.2 hquoted]
  dsimp only
  rw [htokens]
  rfl

/-- A text whose symbols are read so has tokens of these marks, or its expansion gets too long. -/
theorem readTokens_of_reads (h : Reads (Symbol.ofChars 0 text.toList) marks) :
    (∃ error, readTokens text = .error (.expansion error) ∧ error.fault = .tooLong) ∨
      ∃ tokens, readTokens text = .ok tokens ∧ tokens.map Token.mark = marks := by
  obtain ⟨out, tokens, hexpands, hquoted, htokens, hmarks⟩ := h
  rcases hexpands.fits with hout | ⟨offset, hlong⟩
  · exact .inr ⟨tokens, readTokens_of_expandSymbols hout hquoted htokens, hmarks⟩
  · unfold readTokens expand
    rw [hlong]
    exact .inl ⟨_, rfl, rfl⟩

end Stave.Shorthand
