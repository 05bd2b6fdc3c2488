import Stave.Proofs.Expansion.Joined
import Stave.Proofs.Token.Compact
import Stave.Proofs.Token.Pieces

/-!
# What can be read leaves nothing open

The chord brackets of a line that can be read are those that its pieces are cut at, for its words
have none, and they come in pairs. Its quotes come in pairs too, so such a line leaves neither a
chord nor a quotation open.
-/
namespace Stave.Shorthand

variable {escaped quoted : Bool} {c : Char} {cs : List Char}
  {symbols run before after : List Symbol} {symbol : Symbol}

/-! ### Brackets of pieces -/

/-- The chord bracket a piece is cut at, if it is one. -/
def PieceKind.brackets : PieceKind → List Char
  | chordStart => ['<']
  | chordEnd => ['>']
  | _ => []

/-- A piece has no chord bracket but the one it is cut at. -/
def PieceKind.Clean (kind : PieceKind) (symbols : List Symbol) : Prop :=
  match kind with
  | word => chordBrackets false false (Symbol.chars symbols) = []
  | chordEnd => chordBrackets false false ((Symbol.chars symbols).drop 1) = []
  | _ => True

/-- A piece that is a word is spelled as one, and so is what follows the bracket of a chord
end. -/
def PieceKind.Spells (kind : PieceKind) (symbols : List Symbol) : Prop :=
  match kind with
  | word => Spelled (Symbol.chars symbols)
  | chordEnd => Spelled ((Symbol.chars symbols).drop 1)
  | _ => True

theorem PieceKind.Spells.clean {kind : PieceKind} (h : kind.Spells symbols) :
    kind.Clean symbols := by
  cases kind with
  | word => exact Spelled.chordBrackets_eq h false
  | chordEnd => exact Spelled.chordBrackets_eq h false
  | _ => trivial

namespace Word

/-- A run of one character in front keeps the state. -/
theorem chordBrackets_run_append (cs : List Char) (h : ∀ symbol ∈ run, symbol.char = c)
    (hescapes : Symbol.escapes c = false) (hquote : c ≠ '"') :
    chordBrackets false false (Symbol.chars run ++ cs) =
      run.flatMap (fun _ => chordBrackets false false [c]) ++ chordBrackets false false cs := by
  induction run with
  | nil => rfl
  | cons symbol run ih =>
    obtain ⟨hsymbol, hrun⟩ := List.forall_mem_cons.1 h
    have hstate : quotedChars false [c] = false := by simp [quotedChars, hquote]
    rw [Symbol.chars, List.map_cons, List.cons_append, ← List.singleton_append,
      chordBrackets_append, hsymbol, hstate, escapedAfter, List.foldl_cons, List.foldl_nil,
      hescapes]
    rw [List.flatMap_cons, List.append_assoc]
    exact congrArg _ (ih hrun)

theorem isPlain_of_run (h : ∀ symbol ∈ run, symbol.char = c) (hc : IsPlain c) :
    ∀ c ∈ Symbol.chars run, IsPlain c := by
  intro d hmem
  obtain ⟨symbol, hsymbol, rfl⟩ := List.mem_map.1 hmem
  rwa [h symbol hsymbol]

/-- A chord end begins where nothing is quoted or escaped. -/
theorem state_of_spanChordEnd {previous : Option Char}
    (h : spanChordEnd previous quoted symbols = (before, symbol :: after)) :
    quotedAfterAll quoted before = false ∧
      escapedAfter ((previous.map Symbol.escapes).getD false) (Symbol.chars before) = false := by
  induction symbols generalizing previous quoted before with
  | nil => cases h
  | cons first rest ih =>
    unfold spanChordEnd at h
    dsimp only at h
    split at h
    case isTrue hclose =>
      cases h
      simp only [Bool.and_eq_true, Bool.not_eq_true'] at hclose
      exact ⟨hclose.1.2, hclose.2⟩
    case isFalse =>
      rcases hspan : spanChordEnd (some first.char) (first.quotedAfter quoted) rest with ⟨b, a⟩
      rw [hspan] at h
      obtain ⟨rfl, rfl⟩ := Prod.mk.inj h
      have hrest := ih hspan
      exact hrest

theorem flatMap_brackets_eachAs (kind : PieceKind) (run : List Symbol) :
    (eachAs kind run).flatMap (·.1.brackets) = run.flatMap fun _ => kind.brackets := by
  rw [eachAs, List.flatMap_map]

/-- The chord brackets of a word are those that it is cut at. -/
theorem chordBrackets_of_clean (h : ∀ part ∈ parts symbols, part.1.Clean part.2) :
    chordBrackets false false (Symbol.chars symbols) =
      (parts symbols).flatMap (·.1.brackets) := by
  obtain ⟨opens, chordStarts, inner, chordEnd, lateOpens, closes, division⟩ :=
    exists_division symbols
  have hbraces : ∀ c ∈ Symbol.chars (lateOpens ++ closes), IsPlain c := by
    rw [Symbol.chars, List.map_append, List.forall_mem_append]
    exact ⟨isPlain_of_run division.lateOpens_eq (by decide),
      isPlain_of_run division.closes_eq (by decide)⟩
  have hinner : chordBrackets false false (Symbol.chars inner) = [] := by
    cases inner with
    | nil => rfl
    | cons symbol rest => exact h (.word, symbol :: rest) (by simp [division.parts_eq, wholeAs])
  have hchordEnd : chordBrackets (escapedAfter false (Symbol.chars inner))
      (quotedAfterAll false inner) (Symbol.chars (chordEnd ++ (lateOpens ++ closes))) =
        (wholeAs .chordEnd chordEnd).flatMap (·.1.brackets) := by
    cases chordEnd with
    | nil => exact chordBrackets_eq_nil_of_isPlain hbraces
    | cons symbol rest =>
      obtain ⟨hquoted, hescaped⟩ := state_of_spanChordEnd division.chordEnd_eq
      have hchar := head_of_spanChordEnd division.chordEnd_eq
      have hrest : chordBrackets false false (Symbol.chars rest) = [] :=
        h (.chordEnd, symbol :: rest) (by simp [division.parts_eq, wholeAs])
      have hescapedInner : escapedAfter false (Symbol.chars inner) = false := hescaped
      rw [hquoted, hescapedInner, List.cons_append, Symbol.chars, List.map_cons, hchar,
        List.map_append]
      have hafter := chordBrackets_append false false (Symbol.chars rest)
        (Symbol.chars (lateOpens ++ closes))
      rw [hrest, chordBrackets_eq_nil_of_isPlain hbraces] at hafter
      exact congrArg ('>' :: ·) hafter
  have hnone (run : List Symbol) : run.flatMap (fun _ => ([] : List Char)) = [] := by simp
  have hopens := chordBrackets_run_append
    (Symbol.chars (chordStarts ++ (inner ++ (chordEnd ++ (lateOpens ++ closes)))))
    division.opens_eq (by decide) (by decide)
  have hstarts := chordBrackets_run_append
    (Symbol.chars (inner ++ (chordEnd ++ (lateOpens ++ closes))))
    division.chordStarts_eq (by decide) (by decide)
  have hbody := chordBrackets_append false false (Symbol.chars inner)
    (Symbol.chars (chordEnd ++ (lateOpens ++ closes)))
  rw [hinner, ← quotedAfterAll_eq_quotedChars, hchordEnd] at hbody
  rw [division.parts_eq, division.whole, List.append_assoc inner, Symbol.chars_append, hopens,
    Symbol.chars_append, hstarts, Symbol.chars_append, hbody]
  have hbrace : chordBrackets false false ['\x7b'] = [] := by decide
  have hopening : chordBrackets false false ['<'] = ['<'] := by decide
  simp only [hbrace, hopening]
  simp only [List.flatMap_append, flatMap_brackets_eachAs]
  cases inner <;> simp [PieceKind.brackets, wholeAs, hnone]

/-- Words keep the brackets of a line, for blanks have none. -/
theorem chordBrackets_split (position : Nat) (symbols : List Symbol) :
    chordBrackets false false (Symbol.chars symbols) =
      (split position symbols).flatMap fun word =>
        chordBrackets false false (Symbol.chars word.symbols) := by
  fun_induction split position symbols with
  | case1 => rfl
  | case2 position symbol rest hblank ih =>
    rw [Symbol.chars, List.map_cons, chordBrackets_cons_of_isPlain (isPlain_of_isBlank hblank),
      escapes_of_isBlank hblank]
    exact ih
  | case3 position symbol rest hblank tail ih =>
    have hword : Symbol.chars (symbol :: rest) =
        Symbol.chars (symbol :: tail.1) ++ Symbol.chars tail.2 := by
      rw [← Symbol.chars_append, List.cons_append, Symbol.splitWord_append]
    rw [hword, chordBrackets_append, List.flatMap_cons, ← ih, ← quotedAfterAll_eq_quotedChars]
    rcases splitWord_rest (symbol.quotedAfter false) rest with hnil | ⟨hquoted, -⟩
    · have htail : tail.2 = [] := hnil
      rw [htail]
      rfl
    · have hclosed : quotedAfterAll false (symbol :: tail.1) = false := hquoted
      rw [hclosed, chordBrackets_of_blankNext (blankNext_splitWord _ _) _ false]

end Word

/-- The chord brackets of a line are those that its pieces are cut at. -/
theorem Piece.chordBrackets_of_clean
    (h : ∀ piece ∈ Piece.ofSymbols symbols, piece.kind.Clean piece.symbols) :
    chordBrackets false false (Symbol.chars symbols) =
      (Piece.ofSymbols symbols).flatMap (·.kind.brackets) := by
  rw [Word.chordBrackets_split 0, Piece.ofSymbols, List.flatMap_assoc]
  rw [List.flatMap_def, List.flatMap_def]
  refine congrArg List.flatten (List.map_congr_left fun word hword => ?_)
  have hparts := Word.map_content_placeParts word.position (Word.parts word.symbols)
  rw [Word.chordBrackets_of_clean, ← hparts, List.flatMap_map]
  · rfl
  · intro part hpart
    rw [← hparts] at hpart
    obtain ⟨piece, hpiece, rfl⟩ := List.mem_map.1 hpart
    exact h piece (List.mem_flatMap.2 ⟨word, hword, hpiece⟩)

/-! ### Signs of pieces -/

namespace Word

/-- Nothing in a run of one character is quoted or a sign of a repeat. -/
theorem clear_of_run (h : ∀ symbol ∈ run, symbol.char = c) (hc : c ∉ '"' :: repeatSigns) :
    quotedChars false (Symbol.chars run) = false ∧
      ∀ d ∈ unquoted false (Symbol.chars run), d ∉ repeatSigns := by
  rw [List.mem_cons, not_or] at hc
  constructor
  · rw [← quotedAfterAll_eq_quotedChars]
    exact quotedAfterAll_of_not_isQuote fun symbol hmem => not_isQuote_of_char (h symbol hmem) hc.1
  · intro d hmem
    obtain ⟨symbol, hsymbol, rfl⟩ := List.mem_map.1 (mem_of_mem_unquoted hmem)
    rw [h symbol hsymbol]
    exact hc.2

/-- A part that is spelled leaves no quotation open and has no sign of a repeat outside quotes. -/
theorem clear_of_spells {kind : PieceKind} (hmem : (kind, run) ∈ parts symbols)
    (h : kind.Spells run) :
    quotedChars false (Symbol.chars run) = false ∧
      ∀ d ∈ unquoted false (Symbol.chars run), d ∉ repeatSigns := by
  obtain ⟨opens, chordStarts, inner, chordEnd, lateOpens, closes, division⟩ :=
    exists_division symbols
  rw [division.parts_eq] at hmem
  simp only [List.mem_append] at hmem
  have heach {kind' : PieceKind} {others : List Symbol} {c : Char}
      (hmem : (kind, run) ∈ eachAs kind' others) (hothers : ∀ symbol ∈ others, symbol.char = c)
      (hc : c ∉ '"' :: repeatSigns) :
      quotedChars false (Symbol.chars run) = false ∧
        ∀ d ∈ unquoted false (Symbol.chars run), d ∉ repeatSigns := by
    obtain ⟨-, symbol, hsymbol, rfl⟩ := mem_eachAs hmem
    exact clear_of_run (by simpa using hothers symbol hsymbol) hc
  rcases hmem with ((((hmem | hmem) | hmem) | hmem) | hmem) | hmem
  · exact heach hmem division.opens_eq (by decide)
  · exact heach hmem division.chordStarts_eq (by decide)
  · obtain ⟨rfl, rfl, -⟩ := mem_wholeAs hmem
    exact ⟨Spelled.quotedChars_eq h, fun d hd hsign =>
      Spelled.not_mem_groupSigns h d hd (List.mem_append_left _ hsign)⟩
  · obtain ⟨rfl, rfl, hne⟩ := mem_wholeAs hmem
    obtain ⟨head, tail, rfl⟩ := List.exists_cons_of_ne_nil hne
    have hhead : head.char ≠ '"' := by
      rw [head_of_spanChordEnd division.chordEnd_eq]
      decide
    have htail : Spelled (Symbol.chars tail) := h
    rw [Symbol.chars, List.map_cons, quotedChars_cons_of_ne hhead, unquoted_cons_of_ne hhead]
    refine ⟨htail.quotedChars_eq, List.forall_mem_cons.2 ⟨?_, fun d hd hsign =>
      htail.not_mem_groupSigns d hd (List.mem_append_left _ hsign)⟩⟩
    rw [head_of_spanChordEnd division.chordEnd_eq]
    decide
  · exact heach hmem division.lateOpens_eq (by decide)
  · exact heach hmem division.closes_eq (by decide)

/-- What stands outside quotes in texts that leave no quotation open. -/
theorem unquoted_flatMap {parts : List (PieceKind × List Symbol)}
    (h : ∀ part ∈ parts, quotedChars false (Symbol.chars part.2) = false) :
    unquoted false (Symbol.chars (parts.flatMap Prod.snd)) =
      parts.flatMap fun part => unquoted false (Symbol.chars part.2) := by
  induction parts with
  | nil => rfl
  | cons part parts ih =>
    obtain ⟨hpart, hparts⟩ := List.forall_mem_cons.1 h
    rw [List.flatMap_cons, Symbol.chars_append, unquoted_append, hpart, ih hparts,
      List.flatMap_cons]

/-- What stands outside quotes in a line is blank or stands so in a word of it. -/
theorem mem_unquoted_split (position : Nat)
    (h : c ∈ unquoted false (Symbol.chars symbols)) :
    Text.isBlank c = true ∨
      ∃ word ∈ split position symbols, c ∈ unquoted false (Symbol.chars word.symbols) := by
  fun_induction split position symbols with
  | case1 => cases h
  | case2 position symbol rest hblank ih =>
    rw [unquoted_chars_cons, if_neg (by simp [not_isQuote_of_isBlank hblank]), List.mem_cons,
      Symbol.quotedAfter, not_isQuote_of_isBlank hblank] at h
    rcases h with rfl | h
    · exact .inl hblank
    · exact ih h
  | case3 position symbol rest hblank tail ih =>
    have hword : symbol :: rest = (symbol :: tail.1) ++ tail.2 := by
      rw [List.cons_append, Symbol.splitWord_append]
    rw [hword, unquoted_chars_append, List.mem_append] at h
    rcases h with h | h
    · exact .inr ⟨_, List.mem_cons_self, h⟩
    · rcases splitWord_rest (symbol.quotedAfter false) rest with hnil | ⟨hclosed, -⟩
      · rw [show tail.2 = [] from hnil] at h
        cases h
      · rw [show quotedAfterAll false (symbol :: tail.1) = false from hclosed] at h
        rcases ih h with hblank | ⟨word, hmem, hc⟩
        · exact .inl hblank
        · exact .inr ⟨word, List.mem_cons_of_mem _ hmem, hc⟩

end Word

/-- A line of spelled pieces has no sign of a repeat outside quotes. -/
theorem Piece.not_mem_repeatSigns_of_spells
    (h : ∀ piece ∈ Piece.ofSymbols symbols, piece.kind.Spells piece.symbols)
    (hmem : c ∈ unquoted false (Symbol.chars symbols)) : c ∉ repeatSigns := by
  rcases Word.mem_unquoted_split 0 hmem with hblank | ⟨word, hword, hmem⟩
  · exact fun hsign => (isOrdinary_of_isBlank hblank).not_mem_groupSigns
      (List.mem_append_left _ hsign)
  have hclear : ∀ part ∈ Word.parts word.symbols,
      quotedChars false (Symbol.chars part.2) = false ∧
        ∀ d ∈ unquoted false (Symbol.chars part.2), d ∉ repeatSigns := by
    intro part hpart
    refine Word.clear_of_spells hpart ?_
    rw [← Word.map_content_placeParts word.position (Word.parts word.symbols)] at hpart
    obtain ⟨piece, hpiece, rfl⟩ := List.mem_map.1 hpart
    exact h piece (List.mem_flatMap.2 ⟨word, hword, hpiece⟩)
  rw [← Word.flatMap_parts word.symbols,
    Word.unquoted_flatMap fun part hpart => (hclear part hpart).1] at hmem
  obtain ⟨part, hpart, hmem⟩ := List.mem_flatMap.1 hmem
  exact (hclear part hpart).2 c hmem

/-! ### Reading pieces -/

namespace Token

variable {chord : Option Nat} {found tokens : List Token} {pieces rest : List Piece}
  {piece : Piece} {kind : TokenKind}

/-- The words a directive takes are pieces next to it. -/
theorem take_argumentWords {used : Nat} (h : used ≤ (argumentWords pieces).length) :
    (argumentWords pieces).take used = (pieces.take used).map Piece.chars ∧
      ∀ piece ∈ pieces.take used, piece.kind = .word := by
  have hprefix : (pieces.take Directive.mostArguments).takeWhile (·.kind = .word) <+: pieces :=
    (List.takeWhile_prefix _).trans (List.take_prefix ..)
  rw [argumentWords, List.length_map] at h
  have htake := congrArg (List.take used) (List.prefix_iff_eq_take.1 hprefix)
  rw [List.take_take, Nat.min_eq_left h] at htake
  rw [argumentWords, ← List.map_take, htake]
  refine ⟨rfl, fun piece hmem => ?_⟩
  rw [← htake] at hmem
  simpa using List.all_eq_true.1 List.all_takeWhile piece (List.mem_of_mem_take hmem)

theorem spells_of_isOrdinary (hkind : piece.kind = .word) (h : ∀ c ∈ piece.chars, IsOrdinary c) :
    piece.kind.Spells piece.symbols := by
  rw [hkind]
  have hspelled := Spelled.of_isOrdinary h .nil
  rwa [List.append_nil] at hspelled

theorem spells_of_directive? {directive : Directive} (h : directive? piece = some directive) :
    piece.kind = .word ∧ piece.kind.Spells piece.symbols := by
  unfold directive? at h
  split at h
  case isTrue hkind =>
    refine ⟨hkind, spells_of_isOrdinary hkind ?_⟩
    have hnames : ∀ name ∈ Directive.names, ∀ c ∈ name.1.toList, IsOrdinary c := by
      have hall : ∀ name ∈ Directive.names,
          name.1.toList.all (fun c => decide (IsOrdinary c)) = true := by decide
      exact fun name hmem => isOrdinary_of_all (hall name hmem)
    obtain ⟨before, after, heq, -⟩ := List.lookup_eq_some_iff.1 h
    have hchars : piece.text.toList = piece.chars := String.toList_ofList
    rw [← hchars]
    exact hnames (piece.text, directive) (by rw [heq]; simp)
  case isFalse => cases h

theorem isOrdinary_of_ofDirective {directive : Directive} {token : Token} {used : Nat}
    (h : ofDirective directive piece rest = .ok (token, used)) :
    used ≤ (argumentWords rest).length ∧
      ∀ word ∈ (argumentWords rest).take used, ∀ c ∈ word, IsOrdinary c := by
  unfold ofDirective at h
  dsimp only at h
  split at h
  case h_1 kind used' hread =>
    cases h
    exact ⟨Directive.used_le_of_read? hread, Directive.isOrdinary_of_read? hread⟩
  case h_2 => cases h

/-- A piece that can be read is spelled. -/
theorem spells_of_kindOf {open? : Bool} (h : kindOf open? piece = .ok kind) :
    piece.kind.Spells piece.symbols := by
  unfold kindOf at h
  unfold PieceKind.Spells
  split at h <;> rename_i hkind <;> rw [hkind]
  · trivial
  · trivial
  · trivial
  · split at h
    · exact (TokenKind.compact_of_ofSuffix h).spelled
    · cases h
  · exact (TokenKind.compact_of_ofWord h).spelled

/-- The chord brackets after a chord that is open, or none, come in pairs. -/
theorem getLastD_brackets (h : kindOf chord.isSome piece = .ok kind) (others : List Char) :
    (piece.kind.brackets ++ others).getLastD (if chord.isSome then '<' else '>') =
      others.getLastD (if (chordAfter chord piece).isSome then '<' else '>') := by
  unfold kindOf at h
  unfold PieceKind.brackets chordAfter
  split at h <;> rename_i hkind <;> rw [hkind]
  · rfl
  · rfl
  · cases others <;> rfl
  · cases others <;> rfl
  · rfl

/-- Pieces that can be read are spelled, and a chord that is opened is closed. -/
theorem spells_of_readPieces (h : readPieces chord found pieces = .ok tokens) :
    (∀ piece ∈ pieces, piece.kind.Spells piece.symbols) ∧
      (pieces.flatMap (·.kind.brackets)).getLastD (if chord.isSome then '<' else '>') = '>' := by
  fun_induction readPieces chord found pieces with
  | case1 => cases h
  | case2 => exact ⟨List.forall_mem_nil _, rfl⟩
  | case3 => cases h
  | case4 chord found piece rest directive hdirective token used hread ih =>
    obtain ⟨hspells, hlast⟩ := ih h
    obtain ⟨hkind, hpiece⟩ := spells_of_directive? hdirective
    obtain ⟨hused, hordinary⟩ := isOrdinary_of_ofDirective hread
    obtain ⟨htake, hwords⟩ := take_argumentWords hused
    have hnone : ∀ other ∈ rest.take used, other.kind.brackets = [] := fun other hmem => by
      rw [hwords other hmem]
      rfl
    rw [← List.take_append_drop used rest, ← List.cons_append, List.flatMap_append,
      List.flatMap_cons, hkind, List.flatMap_eq_nil_iff.2 hnone]
    refine ⟨List.forall_mem_append.2 ⟨List.forall_mem_cons.2 ⟨hpiece, fun other hmem => ?_⟩,
      hspells⟩, hlast⟩
    refine spells_of_isOrdinary (hwords other hmem) (hordinary other.chars ?_)
    rw [htake]
    exact List.mem_map_of_mem hmem
  | case5 => cases h
  | case6 chord found piece rest hdirective kind hkind token ih =>
    obtain ⟨hspells, hlast⟩ := ih h
    rw [List.flatMap_cons, getLastD_brackets hkind]
    exact ⟨List.forall_mem_cons.2 ⟨spells_of_kindOf hkind, hspells⟩, hlast⟩

end Token

/-! ### Quotations -/

theorem quotedAfterAll_eq_odd (quoted : Bool) (symbols : List Symbol) :
    quotedAfterAll quoted symbols =
      (quoted != decide ((symbols.filter Symbol.isQuote).length % 2 = 1)) := by
  induction symbols generalizing quoted with
  | nil => simp
  | cons symbol rest ih =>
    rw [quotedAfterAll_cons, ih, Symbol.quotedAfter, List.filter_cons]
    cases symbol.isQuote with
    | false => simp
    | true =>
      have hparity : decide ((rest.filter Symbol.isQuote).length % 2 = 1) =
          !decide (((rest.filter Symbol.isQuote).length + 1) % 2 = 1) := by
        rw [← decide_not]
        exact decide_eq_decide.2 (by omega)
      rw [if_pos rfl, List.length_cons, hparity]
      simp

/-- A line has no quote that stays open if it leaves no quotation open. -/
theorem openQuote?_eq_none_iff :
    openQuote? symbols = none ↔ quotedAfterAll false symbols = false := by
  rw [quotedAfterAll_eq_odd, openQuote?]
  split
  case isTrue hodd =>
    have hne : symbols.filter Symbol.isQuote ≠ [] := by
      intro hnil
      rw [hnil] at hodd
      cases hodd
    simpa [hodd, List.getLast?_eq_none_iff] using hne
  case isFalse heven => simp [heven]

/-- A line that can be read has no sign of a repeat outside quotes. -/
theorem not_mem_repeatSigns_of_tokenize {expansion : Expansion} {tokens : List Token}
    (h : tokenize expansion = .ok tokens)
    (hmem : c ∈ unquoted false (Symbol.chars expansion.symbols)) : c ∉ repeatSigns := by
  unfold tokenize at h
  split at h
  · cases h
  · exact Piece.not_mem_repeatSigns_of_spells (Token.spells_of_readPieces h).1 hmem

/-- A line that can be read leaves neither a quotation nor a chord open. -/
theorem settled_of_tokenize {expansion : Expansion} {tokens : List Token}
    (h : tokenize expansion = .ok tokens) : Settled expansion.symbols := by
  unfold tokenize at h
  split at h
  · cases h
  case h_2 hquote =>
    obtain ⟨hspells, hlast⟩ := Token.spells_of_readPieces h
    refine ⟨openQuote?_eq_none_iff.1 hquote, ?_⟩
    rw [lastBracket, Piece.chordBrackets_of_clean fun piece hmem => (hspells piece hmem).clean]
    intro hopen
    rw [List.getLastD_eq_getLast?, hopen] at hlast
    cases hlast

end Stave.Shorthand
