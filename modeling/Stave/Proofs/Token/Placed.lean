import Stave.Proofs.Expansion.Typed
import Stave.Proofs.Token.Pieces
import Stave.Shorthand.Declaration

/-!
# Where tokens stand

A token stands where its first piece does, so it begins with a symbol that is no blank, and
which symbol that is says what the token is: the letter of a note, the digit of a length, the
bracket of a chord. An error of reading is reported at such a symbol too. Where a symbol was
typed is known, so both come down to characters of the typed text.
-/
namespace Stave.Shorthand

/-- Whether a token may begin with a character. -/
def TokenKind.beginsWith : TokenKind → Char → Bool
  | note word, c => NoteWord.stepOf? c == some word.step
  | rest _, c => c == 'r'
  | duration _, c => c.isDigit
  | chordStart, c => c == '<'
  | _, c => !Text.isBlank c

/-- A token stands in a line of symbols at the byte it says. -/
structure Token.StandsIn (symbols : List Symbol) (token : Token) (before : List Symbol)
    (head : Symbol) (after : List Symbol) : Prop where
  split : symbols = before ++ head :: after
  position_eq : token.position = Symbol.byteSize before
  origin_eq : token.origin = head.origin
  isBlank_eq : head.isBlank = false
  begins : token.kind.beginsWith head.char

/-- A byte of the typed text is that of a symbol of the line that is no blank. -/
def ReportedIn (symbols : List Symbol) (offset : Nat) : Prop :=
  ∃ symbol ∈ symbols, symbol.isBlank = false ∧ offset = symbol.origin

variable {symbols before after tail : List Symbol} {head : Symbol} {piece : Piece} {token : Token}
  {kind : TokenKind} {word cs : List Char} {c : Char} {offset : Nat}

theorem Token.StandsIn.reportedIn (h : token.StandsIn symbols before head after) :
    ReportedIn symbols token.origin :=
  ⟨head, by rw [h.split]; simp, h.isBlank_eq, h.origin_eq⟩

theorem Piece.StandsIn.reportedIn (h : piece.StandsIn symbols before head tail after) :
    ReportedIn symbols piece.origin :=
  ⟨head, by rw [h.split]; simp, h.isBlank_eq, h.origin_eq⟩

/-- A note word begins with the letter of its step. -/
theorem NoteWord.stepOf?_of_read {spelled : NoteWord} (h : NoteWord.read (c :: cs) = .ok spelled) :
    NoteWord.stepOf? c = some spelled.step := by
  simp only [NoteWord.read] at h
  split at h
  · cases h
  case h_2 step hstep =>
    obtain ⟨⟨alteration, count, rest⟩, -, h⟩ := bind_ok_iff.1 h
    dsimp only at h
    split at h
    · cases h
    · obtain ⟨suffix, -, h⟩ := bind_ok_iff.1 h
      cases h
      exact hstep

namespace TokenKind

theorem beginsWith_of_ofNoteWord (h : ofNoteWord (c :: cs) = .ok kind) : kind.beginsWith c := by
  unfold ofNoteWord at h
  split at h
  case h_1 spelled hread =>
    cases h
    simp [beginsWith, NoteWord.stepOf?_of_read hread]
  case h_2 =>
    split at h <;> cases h
  case h_3 => cases h

theorem exists_eq_of_ofSuffix {make : Suffix → TokenKind} (h : ofSuffix make word cs = .ok kind) :
    ∃ suffix, kind = make suffix := by
  unfold ofSuffix at h
  split at h
  case h_1 suffix _ =>
    cases h
    exact ⟨suffix, rfl⟩
  case h_2 => cases h

/-- A word that is no directive begins as its kind asks. -/
theorem beginsWith_of_ofWord (hblank : Text.isBlank c = false)
    (h : ofWord (c :: cs) = .ok kind) : kind.beginsWith c := by
  unfold ofWord at h
  dsimp only at h
  split at h
  case h_1 =>
    cases h
    simp [beginsWith, hblank]
  case h_2 =>
    split at h
    · exact beginsWith_of_ofNoteWord h
    split at h
    case isTrue hrest =>
      split at h
      · cases h
      · obtain ⟨suffix, rfl⟩ := exists_eq_of_ofSuffix h
        simp [beginsWith, hrest]
    split at h
    case isTrue hdigit =>
      obtain ⟨suffix, rfl⟩ := exists_eq_of_ofSuffix h
      exact hdigit
    split at h
    · cases h
      simp [beginsWith, hblank]
    split at h
    · unfold ofPostEvents at h
      split at h
      · cases h
        simp [beginsWith, hblank]
      · cases h
      · cases h
    · cases h

/-- The token of a directive may begin with any character that is no blank. -/
theorem beginsWith_of_read? {directive : Directive} {arguments : List (List Char)} {used : Nat}
    (hblank : Text.isBlank c = false) (h : directive.read? arguments = some (kind, used)) :
    kind.beginsWith c := by
  unfold Directive.read? at h
  obtain ⟨first, -, h⟩ := Option.bind_eq_some_iff.1 h
  cases directive <;> simp only [Option.map_eq_some_iff, Prod.mk.injEq] at h
  all_goals
    obtain ⟨_, _, rfl, _⟩ := h
    simp [beginsWith, hblank]

end TokenKind

namespace Token

variable {chord : Option Nat} {found tokens : List Token} {pieces rest : List Piece}
  {error : TokenError}

theorem beginsWith_of_kindOf {open? : Bool} (hpiece : piece.StandsIn symbols before head tail after)
    (h : kindOf open? piece = .ok kind) : kind.beginsWith head.char := by
  have hblank : Text.isBlank head.char = false := hpiece.isBlank_eq
  unfold kindOf at h
  split at h
  · cases h
    simp [TokenKind.beginsWith, hblank]
  · cases h
    simp [TokenKind.beginsWith, hblank]
  case h_3 hkind =>
    split at h
    · cases h
    · cases h
      simp [TokenKind.beginsWith, hpiece.chordStart hkind]
  · split at h
    · obtain ⟨suffix, rfl⟩ := TokenKind.exists_eq_of_ofSuffix h
      simp [TokenKind.beginsWith, hblank]
    · cases h
  · rw [Piece.chars, hpiece.symbols_eq] at h
    exact TokenKind.beginsWith_of_ofWord hblank h

/-- The token of a directive stands where the directive does. -/
theorem standsIn_of_ofDirective {directive : Directive} {used : Nat}
    (hpiece : piece.StandsIn symbols before head tail after)
    (h : ofDirective directive piece rest = .ok (token, used)) :
    token.StandsIn symbols before head (tail ++ after) := by
  unfold ofDirective at h
  dsimp only at h
  split at h
  case h_1 hread =>
    cases h
    exact ⟨hpiece.split, hpiece.position_eq, hpiece.origin_eq, hpiece.isBlank_eq,
      TokenKind.beginsWith_of_read? hpiece.isBlank_eq hread⟩
  case h_2 => cases h

/-- The tokens of pieces that stand in a line stand in it. -/
theorem standsIn_of_readPieces
    (hpieces : ∀ piece ∈ pieces, ∃ before head tail after,
      piece.StandsIn symbols before head tail after)
    (hfound : ∀ token ∈ found, ∃ before head after, token.StandsIn symbols before head after)
    (h : readPieces chord found pieces = .ok tokens) :
    ∀ token ∈ tokens, ∃ before head after, token.StandsIn symbols before head after := by
  fun_induction readPieces chord found pieces with
  | case1 => cases h
  | case2 =>
    cases h
    exact fun token hmem => hfound token (List.mem_reverse.1 hmem)
  | case3 => cases h
  | case4 chord found piece rest directive hdirective token used hread ih =>
    obtain ⟨hpiece, hrest⟩ := List.forall_mem_cons.1 hpieces
    obtain ⟨before, head, tail, after, hstands⟩ := hpiece
    exact ih (fun piece hmem => hrest piece (List.mem_of_mem_drop hmem))
      (List.forall_mem_cons.2 ⟨⟨_, _, _, standsIn_of_ofDirective hstands hread⟩, hfound⟩) h
  | case5 => cases h
  | case6 chord found piece rest hdirective kind hkind token ih =>
    obtain ⟨hpiece, hrest⟩ := List.forall_mem_cons.1 hpieces
    obtain ⟨before, head, tail, after, hstands⟩ := hpiece
    refine ih hrest (List.forall_mem_cons.2 ⟨⟨before, head, tail ++ after, ?_⟩, hfound⟩) h
    exact ⟨hstands.split, hstands.position_eq, hstands.origin_eq, hstands.isBlank_eq,
      beginsWith_of_kindOf hstands hkind⟩

/-- An error of reading is reported at a piece, or at a chord that was opened. -/
theorem reportedIn_of_readPieces
    (hpieces : ∀ piece ∈ pieces, ∃ before head tail after,
      piece.StandsIn symbols before head tail after)
    (hchord : ∀ offset, chord = some offset → ReportedIn symbols offset)
    (h : readPieces chord found pieces = .error error) : ReportedIn symbols error.offset := by
  fun_induction readPieces chord found pieces with
  | case1 found offset =>
    cases h
    exact hchord _ rfl
  | case2 => cases h
  | case3 chord found piece rest directive hdirective fault hread =>
    cases h
    obtain ⟨before, head, tail, after, hstands⟩ := hpieces piece List.mem_cons_self
    exact hstands.reportedIn
  | case4 chord found piece rest directive hdirective token used hread ih =>
    exact ih (fun other hmem => hpieces other (List.mem_cons_of_mem _ (List.mem_of_mem_drop hmem)))
      hchord h
  | case5 chord found piece rest hdirective fault hkind =>
    cases h
    obtain ⟨before, head, tail, after, hstands⟩ := hpieces piece List.mem_cons_self
    exact hstands.reportedIn
  | case6 chord found piece rest hdirective kind hkind token ih =>
    refine ih (List.forall_mem_cons.1 hpieces).2 (fun offset hoffset => ?_) h
    unfold chordAfter at hoffset
    split at hoffset
    · cases hoffset
      obtain ⟨before, head, tail, after, hstands⟩ := hpieces piece List.mem_cons_self
      exact hstands.reportedIn
    · cases hoffset
    · exact hchord offset hoffset

end Token

variable {expansion : Expansion} {tokens : List Token} {text : String}

theorem mem_of_openQuote? {quote : Symbol} (h : openQuote? symbols = some quote) :
    quote ∈ symbols ∧ quote.isQuote = true := by
  unfold openQuote? at h
  dsimp only at h
  split at h
  · exact List.mem_filter.1 (List.mem_of_getLast? h)
  · cases h

/-- The tokens of an expanded line stand in it. -/
theorem standsIn_of_tokenize (h : tokenize expansion = .ok tokens) :
    ∀ token ∈ tokens, ∃ before head after, token.StandsIn expansion.symbols before head after := by
  unfold tokenize at h
  split at h
  · cases h
  · exact Token.standsIn_of_readPieces (fun _ => Piece.standsIn_of_mem) (List.forall_mem_nil _) h

theorem reportedIn_of_tokenize {error : TokenError} (h : tokenize expansion = .error error) :
    ReportedIn expansion.symbols error.offset := by
  unfold tokenize at h
  split at h
  case h_1 quote hquote =>
    cases h
    obtain ⟨hmem, hisQuote⟩ := mem_of_openQuote? hquote
    refine ⟨quote, hmem, ?_, rfl⟩
    exact Word.isBlank_of_char (by simpa [Symbol.isQuote] using hisQuote) (by decide)
  case h_2 => exact Token.reportedIn_of_readPieces (fun _ => Piece.standsIn_of_mem) (by simp) h

theorem ReportedIn.inkAt (h : ReportedIn symbols offset) (htyped : Typed cs symbols) :
    Text.InkAt cs offset := by
  obtain ⟨symbol, hmem, hblank, rfl⟩ := h
  exact htyped.inkAt hmem hblank

/-- A text whose tokens cannot be read is reported at a character of it that is no blank. -/
theorem inkAt_of_readTokens {error : LineError} (h : readTokens text = .error error) :
    Text.InkAt text.toList error.offset := by
  unfold readTokens at h
  rcases bind_error_iff.1 h with hexpand | ⟨expansion, hexpand, htokens⟩
  · obtain ⟨fault, hfault, rfl⟩ := mapError_error_iff.1 hexpand
    exact inkAt_of_expand hfault
  · obtain ⟨fault, hfault, rfl⟩ := mapError_error_iff.1 htokens
    exact (reportedIn_of_tokenize hfault).inkAt (typed_of_expand (mapError_ok_iff.1 hexpand))

theorem exists_expansion_of_readTokens (h : readTokens text = .ok tokens) :
    ∃ expansion, expand text = .ok expansion ∧ tokenize expansion = .ok tokens := by
  unfold readTokens at h
  obtain ⟨expansion, hexpand, htokens⟩ := bind_ok_iff.1 h
  exact ⟨expansion, mapError_ok_iff.1 hexpand, mapError_ok_iff.1 htokens⟩

/-- A token is reported at a character that is no blank. -/
theorem inkAt_of_mem_readTokens (h : readTokens text = .ok tokens) (hmem : token ∈ tokens) :
    Text.InkAt text.toList token.origin := by
  obtain ⟨expansion, hexpand, htokens⟩ := exists_expansion_of_readTokens h
  obtain ⟨before, head, after, hstands⟩ := standsIn_of_tokenize htokens token hmem
  exact hstands.reportedIn.inkAt (typed_of_expand hexpand)

end Stave.Shorthand
