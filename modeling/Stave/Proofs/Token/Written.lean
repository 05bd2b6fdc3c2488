import Stave.Proofs.Expansion.Again
import Stave.Proofs.Token.Words

/-!
# Reading what is written

A line of music is written as items with blanks between them: note words, rests, bare lengths,
runs of post-events, bar lines, and chords. Every word of a `Writing` carries what its reader makes
of it, so the tokens of the line are known before it is read, and reading the line gives them back.
-/
namespace Stave.Shorthand

/-! ### Lines of items -/

/-- A text that a reader accepts as a whole, and what it reads there. -/
structure Accepted {α : Type} (read : List Char → Except WordError α) where
  chars : List Char
  value : α
  reads : read chars = .ok value

/-- What stands between two words. -/
structure Blanks where
  chars : List Char
  nonempty : chars ≠ []
  blank : ∀ c ∈ chars, Text.isBlank c = true

/-- The note words of a chord. After a direction sign the bracket that closes the chord would be
an accent, so the last word does not end with one. -/
inductive ChordWords where
  | last (word : Accepted NoteWord.read) (unsigned : ∀ c ∈ word.chars.getLast?, c ∉ ['-', '^', '_'])
  | cons (word : Accepted NoteWord.read) (blanks : Blanks) (rest : ChordWords)

/-- What is written in a line. -/
inductive Item where
  | note (word : Accepted NoteWord.read)
  | rest (suffix : Accepted Suffix.read)
  | duration (word : Accepted Suffix.read) (digit : ∃ c ∈ word.chars.head?, c.isDigit = true)
  | postEvents (word : Accepted PostEvent.readRun) (nonempty : word.chars ≠ [])
  | barLine
  | chord (words : ChordWords) (suffix : Accepted Suffix.read)

/-- Items with blanks between them. -/
inductive Writing where
  | nil
  | last (item : Item)
  | cons (item : Item) (blanks : Blanks) (rest : Writing)

/-- What a token is, and its text. -/
def Token.spelling (token : Token) : TokenKind × String := (token.kind, token.text)

/-- What a token is that is spelled as some characters. -/
def TokenKind.spelledAs (kind : TokenKind) (cs : List Char) : TokenKind × String :=
  (kind, String.ofList cs)

namespace ChordWords

/-- The words of a chord as they are written. -/
def chars : ChordWords → List Char
  | last word _ => word.chars
  | cons word blanks rest => word.chars ++ (blanks.chars ++ rest.chars)

/-- The notes of a chord. -/
def tokens : ChordWords → List (TokenKind × String)
  | last word _ => [(TokenKind.note word.value).spelledAs word.chars]
  | cons word _ rest => (TokenKind.note word.value).spelledAs word.chars :: rest.tokens

end ChordWords

namespace Item

/-- An item as it is written. -/
def chars : Item → List Char
  | note word => word.chars
  | rest suffix => 'r' :: suffix.chars
  | duration word _ => word.chars
  | postEvents word _ => word.chars
  | barLine => ['|']
  | chord words suffix => '<' :: (words.chars ++ '>' :: suffix.chars)

/-- The tokens an item stands for. -/
def tokens : Item → List (TokenKind × String)
  | note word => [(TokenKind.note word.value).spelledAs word.chars]
  | rest suffix => [(TokenKind.rest suffix.value).spelledAs ('r' :: suffix.chars)]
  | duration word _ => [(TokenKind.duration word.value).spelledAs word.chars]
  | postEvents word _ => [(TokenKind.postEvents word.value).spelledAs word.chars]
  | barLine => [TokenKind.barLine.spelledAs ['|']]
  | chord words suffix =>
    TokenKind.chordStart.spelledAs ['<'] ::
      (words.tokens ++ [(TokenKind.chordEnd suffix.value).spelledAs ('>' :: suffix.chars)])

end Item

namespace Writing

/-- A line as it is written. -/
def chars : Writing → List Char
  | nil => []
  | last item => item.chars
  | cons item blanks rest => item.chars ++ (blanks.chars ++ rest.chars)

/-- The tokens a line stands for. -/
def tokens : Writing → List (TokenKind × String)
  | nil => []
  | last item => item.tokens
  | cons item _ rest => item.tokens ++ rest.tokens

/-- The text of a line. -/
def text (writing : Writing) : String := String.ofList writing.chars

end Writing

variable {kind : TokenKind} {value : Suffix} {symbols front body run rest : List Symbol}
  {bracket close : Symbol}

/-! ### Pieces -/

/-- The tokens of pieces that are words, chord starts and chord ends, read one by one. Before them a
chord is open or none is; after them none is. -/
inductive Plays : Bool → List (PieceKind × List Symbol) → List (TokenKind × String) → Prop where
  | nil : Plays false [] []
  | word {chord : Bool} {run : List Symbol} {kind : TokenKind} {parts tokens}
      (read : TokenKind.ofWord (Symbol.chars run) = .ok kind) (rest : Plays chord parts tokens) :
      Plays chord ((.word, run) :: parts) (kind.spelledAs (Symbol.chars run) :: tokens)
  | chordStart {bracket : Symbol} {parts tokens} (rest : Plays true parts tokens) :
      Plays false ((.chordStart, [bracket]) :: parts)
        (TokenKind.chordStart.spelledAs [bracket.char] :: tokens)
  | chordEnd {close : Symbol} {suffix : List Symbol} {value : Suffix} {parts tokens}
      (read : Suffix.read (Symbol.chars suffix) = .ok value) (rest : Plays false parts tokens) :
      Plays true ((.chordEnd, close :: suffix) :: parts)
        ((TokenKind.chordEnd value).spelledAs (close.char :: Symbol.chars suffix) :: tokens)

namespace Plays

variable {chord : Bool} {parts more : List (PieceKind × List Symbol)}
  {tokens others : List (TokenKind × String)}

theorem append (hfirst : Plays chord parts tokens) (hsecond : Plays false more others) :
    Plays chord (parts ++ more) (tokens ++ others) := by
  induction hfirst with
  | nil => exact hsecond
  | word read _ ih => exact .word read ih
  | chordStart _ ih => exact .chordStart ih
  | chordEnd read _ ih => exact .chordEnd read ih

/-- A piece that is no directive is read, and then the pieces after it. -/
theorem exists_readPieces_cons {piece : Piece} {pieces : List Piece} {open? : Option Nat}
    {found : List Token} (hdirective : Token.directive? piece = none)
    (hkind : Token.kindOf open?.isSome piece = .ok kind)
    (hrest : ∀ found, ∃ read, Token.readPieces (Token.chordAfter open? piece) found pieces =
      .ok (found.reverse ++ read) ∧ read.map Token.spelling = tokens) :
    ∃ read, Token.readPieces open? found (piece :: pieces) = .ok (found.reverse ++ read) ∧
      read.map Token.spelling = kind.spelledAs piece.chars :: tokens := by
  let token : Token := ⟨kind, piece.text, piece.position, piece.origin⟩
  obtain ⟨read, hread, htokens⟩ := hrest (token :: found)
  refine ⟨token :: read, ?_, congrArg (kind.spelledAs piece.chars :: ·) htokens⟩
  rw [Token.readPieces, hdirective]
  dsimp only
  rw [hkind]
  dsimp only
  rw [hread, List.reverse_cons, List.append_assoc, List.singleton_append]

/-- Pieces that play tokens are read as them. -/
theorem exists_readPieces {pieces : List Piece} (open? : Option Nat) (found : List Token)
    (h : Plays chord parts tokens) (hpieces : pieces.map Piece.content = parts)
    (hopen : open?.isSome = chord) :
    ∃ read, Token.readPieces open? found pieces = .ok (found.reverse ++ read) ∧
      read.map Token.spelling = tokens := by
  induction h generalizing pieces open? found with
  | nil =>
    cases List.map_eq_nil_iff.1 hpieces
    cases open? with
    | none => exact ⟨[], by rw [Token.readPieces, List.append_nil], rfl⟩
    | some offset => cases hopen
  | word read _ ih =>
    obtain ⟨⟨_, position, _⟩, others, rfl, hpiece, hothers⟩ := List.map_eq_cons_iff.1 hpieces
    cases hpiece
    exact exists_readPieces_cons (Directive.ofWord?_eq_none_of_ofWord read) read
      fun found => ih _ found hothers hopen
  | chordStart _ ih =>
    obtain ⟨⟨_, position, _⟩, others, rfl, hpiece, hothers⟩ := List.map_eq_cons_iff.1 hpieces
    cases hpiece
    exact exists_readPieces_cons rfl (by rw [hopen]; rfl) fun found => ih _ found hothers rfl
  | @chordEnd close suffix value _ _ read _ ih =>
    obtain ⟨⟨_, position, _⟩, others, rfl, hpiece, hothers⟩ := List.map_eq_cons_iff.1 hpieces
    cases hpiece
    refine exists_readPieces_cons rfl ?_ fun found => ih _ found hothers rfl
    have hsuffix : TokenKind.ofSuffix .chordEnd (close.char :: Symbol.chars suffix)
        (Symbol.chars suffix) = .ok (.chordEnd value) := by
      rw [TokenKind.ofSuffix, read]
    rw [hopen]
    exact hsuffix

end Plays

/-! ### Reading a line -/

theorem Blanks.blank_of_chars (blanks : Blanks) (h : Symbol.chars run = blanks.chars) :
    ∀ symbol ∈ run, symbol.isBlank = true := fun symbol hmem =>
  blanks.blank symbol.char (h ▸ List.mem_map_of_mem hmem)

theorem Blanks.blankNext (blanks : Blanks) (h : Symbol.chars run = blanks.chars) :
    BlankNext (run ++ rest) := by
  cases run with
  | nil => exact absurd h.symm blanks.nonempty
  | cons symbol run => exact blankNext_cons (blanks.blank_of_chars h symbol List.mem_cons_self)

/-- What stands around blanks has its own pieces. -/
theorem contents_append_blanks (blanks : Blanks) (hclosed : quotedAfterAll false body = false)
    (hrun : Symbol.chars run = blanks.chars) :
    contents (body ++ (run ++ rest)) = contents body ++ contents rest := by
  rw [contents_append hclosed (blanks.blankNext hrun),
    contents_blanks_append (blanks.blank_of_chars hrun)]

theorem quotedAfterAll_append_blanks (blanks : Blanks)
    (hclosed : quotedAfterAll false body = false) (hrun : Symbol.chars run = blanks.chars) :
    quotedAfterAll false (body ++ (run ++ rest)) = quotedAfterAll false rest := by
  rw [quotedAfterAll_append, hclosed, quotedAfterAll_append,
    quotedAfterAll_of_isBlank (blanks.blank_of_chars hrun)]

/-- A text whose pieces play some tokens and that leaves no quotation open. -/
structure PlaysAs (symbols : List Symbol) (tokens : List (TokenKind × String)) : Prop where
  closed : quotedAfterAll false symbols = false
  plays : Plays false (contents symbols) tokens

/-- The words of a chord are cut from its brackets and from one another. -/
theorem ChordWords.plays (words : ChordWords) (front : List Symbol)
    (hfront : ∀ bracket ∈ front, bracket.char = '<') (hbody : Symbol.chars body = words.chars)
    (hclose : close.char = '>') (hsuffix : Suffix.read (Symbol.chars rest) = .ok value) :
    quotedAfterAll false (front ++ (body ++ close :: rest)) = false ∧
      ∃ parts, contents (front ++ (body ++ close :: rest)) =
          Word.eachAs .chordStart front ++ parts ∧
        Plays true parts (words.tokens ++
          [(TokenKind.chordEnd value).spelledAs (close.char :: Symbol.chars rest)]) := by
  induction words generalizing front body with
  | last word unsigned =>
    have hchars : Symbol.chars body = word.chars := hbody
    have hread : NoteWord.read (Symbol.chars body) = .ok word.value := hchars ▸ word.reads
    obtain ⟨hword, hcontents⟩ := contents_front_append_close hfront
      (NoteWord.writtenAs_of_read hread).compact (ne_nil_of_read hread) (hchars ▸ unsigned) hclose
      (Suffix.writtenAs_of_read hsuffix).compact
    refine ⟨hword.closed, _, hcontents, ?_⟩
    rw [tokens, ← hchars]
    exact .word (TokenKind.ofWord_note hread) (.chordEnd hsuffix .nil)
  | cons word blanks words ih =>
    obtain ⟨first, others, rfl, hfirst, hothers⟩ := List.map_eq_append_iff.1 hbody
    obtain ⟨run, more, rfl, hrun, hmore⟩ := List.map_eq_append_iff.1 hothers
    have hchars : Symbol.chars first = word.chars := hfirst
    have hread : NoteWord.read (Symbol.chars first) = .ok word.value := hchars ▸ word.reads
    obtain ⟨hword, hcontents⟩ :=
      contents_front_append hfront (NoteWord.writtenAs_of_read hread).compact
        (ne_nil_of_read hread)
    obtain ⟨hclosed, parts, hparts, hplays⟩ := ih [] (List.forall_mem_nil _) hmore
    have hassoc : front ++ ((first ++ (run ++ more)) ++ close :: rest) =
        (front ++ first) ++ (run ++ ([] ++ (more ++ close :: rest))) := by simp
    rw [hassoc, contents_append_blanks blanks hword.closed hrun,
      quotedAfterAll_append_blanks blanks hword.closed hrun, hcontents, hparts, tokens, ← hchars]
    exact ⟨hclosed, (.word, first) :: parts, by simp [Word.eachAs],
      .word (TokenKind.ofWord_note hread) hplays⟩

/-- A word that can be read plays its token. -/
theorem playsAs_of_ofWord (h : TokenKind.ofWord (Symbol.chars symbols) = .ok kind) :
    PlaysAs symbols [kind.spelledAs (Symbol.chars symbols)] := by
  have hne : symbols ≠ [] := by
    rintro rfl
    cases h
  obtain ⟨hword, hcontents⟩ :=
    contents_front_append (List.forall_mem_nil _) (TokenKind.compact_of_ofWord h) hne
  rw [List.nil_append] at hword hcontents
  refine ⟨hword.closed, ?_⟩
  rw [hcontents]
  exact .word h .nil

/-- An item plays its tokens. -/
theorem Item.playsAs (item : Item) (h : Symbol.chars symbols = item.chars) :
    PlaysAs symbols item.tokens := by
  have hword {kind : TokenKind} (hread : TokenKind.ofWord item.chars = .ok kind) :
      PlaysAs symbols [kind.spelledAs item.chars] := by
    rw [← h] at hread ⊢
    exact playsAs_of_ofWord hread
  cases item with
  | note word => exact hword (TokenKind.ofWord_note word.reads)
  | rest suffix => exact hword (TokenKind.ofWord_rest suffix.reads)
  | duration word digit =>
    obtain ⟨c, hhead, hdigit⟩ := digit
    obtain ⟨cs, hcons⟩ := List.head?_eq_some_iff.1 hhead
    refine hword ?_
    rw [chars, hcons]
    exact TokenKind.ofWord_duration hdigit (hcons ▸ word.reads)
  | postEvents word nonempty => exact hword (TokenKind.ofWord_postEvents nonempty word.reads)
  | barLine => exact hword rfl
  | chord words suffix =>
    obtain ⟨bracket, others, rfl, hbracket, hothers⟩ := List.map_eq_cons_iff.1 h
    obtain ⟨body, ending, rfl, hbody, hending⟩ := List.map_eq_append_iff.1 hothers
    obtain ⟨close, rest, rfl, hclose, hrest⟩ := List.map_eq_cons_iff.1 hending
    have hchars : Symbol.chars rest = suffix.chars := hrest
    have hread : Suffix.read (Symbol.chars rest) = .ok suffix.value := hchars ▸ suffix.reads
    obtain ⟨hclosed, parts, hcontents, hplays⟩ :=
      words.plays [bracket] (by simpa using hbracket) hbody hclose hread
    refine ⟨hclosed, ?_⟩
    rw [tokens, ← hchars, ← hbracket, ← hclose]
    have hcontents' : contents (bracket :: (body ++ close :: rest)) =
      (.chordStart, [bracket]) :: parts := hcontents
    rw [hcontents']
    exact .chordStart hplays

/-- A line plays the tokens of its items. -/
theorem Writing.playsAs (writing : Writing) (h : Symbol.chars symbols = writing.chars) :
    PlaysAs symbols writing.tokens := by
  induction writing generalizing symbols with
  | nil =>
    obtain rfl := List.map_eq_nil_iff.1 h
    exact ⟨rfl, by rw [contents_nil]; exact .nil⟩
  | last item => exact item.playsAs h
  | cons item blanks writing ih =>
    obtain ⟨first, others, rfl, hfirst, hothers⟩ := List.map_eq_append_iff.1 h
    obtain ⟨run, more, rfl, hrun, hmore⟩ := List.map_eq_append_iff.1 hothers
    have hitem := item.playsAs hfirst
    have hrest := ih hmore
    refine ⟨?_, ?_⟩
    · rw [quotedAfterAll_append_blanks blanks hitem.closed hrun, hrest.closed]
    · rw [contents_append_blanks blanks hitem.closed hrun]
      exact hitem.plays.append hrest.plays

/-- Reading a line gives back what was written: expanding it changes nothing, and its tokens are
those of its items, in order. -/
theorem tokenize_writing (writing : Writing) :
    ∃ expansion tokens, expand writing.text = .ok expansion ∧ expansion.text = writing.text ∧
      tokenize expansion = .ok tokens ∧ tokens.map Token.spelling = writing.tokens := by
  have hchars : Symbol.chars (Symbol.ofChars 0 writing.text.toList) = writing.chars := by
    rw [Symbol.chars_ofChars, Writing.text, String.toList_ofList]
  obtain ⟨hclosed, hplays⟩ := writing.playsAs hchars
  obtain ⟨tokens, hread, htokens⟩ := hplays.exists_readPieces none [] rfl rfl
  let expansion : Expansion :=
    ⟨Symbol.ofChars 0 writing.text.toList, writing.text.utf8ByteSize⟩
  have htokenize : tokenize expansion = .ok tokens := by
    rw [tokenize, openQuote?_eq_none_iff.2 hclosed]
    exact hread
  have hsigns {sign : Char} (hsign : sign ∈ repeatSigns) :
      sign ∉ unquoted false (Symbol.chars expansion.symbols) := fun hmem =>
    not_mem_repeatSigns_of_tokenize htokenize hmem hsign
  refine ⟨expansion, tokens, ?_, ?_, htokenize, htokens⟩
  · rw [expand, expandSymbols_eq_self ⟨hsigns (by decide), hsigns (by decide)⟩
      (hsigns (by decide))]
  · rw [Expansion.text, Symbol.text, hchars, Writing.text]

/-- Marks and brackets next to one another: a tenuto, a diminuendo, an accent, and a text with a
bracket in it. -/
theorem tokenize_writing_marks :
    ∃ expansion tokens, expand "<c-- e\\>>8-> | r~ 4. -\"a > b\"" = .ok expansion ∧
      tokenize expansion = .ok tokens ∧
      tokens.map Token.spelling =
        [(.chordStart, "<"), (.note ⟨0, 0, 0, .bare, ⟨none, [.articulation .tenuto]⟩⟩, "c--"),
          (.note ⟨2, 0, 0, .bare, ⟨none, [.rampStart .diminuendo]⟩⟩, "e\\>"),
          (.chordEnd ⟨some ⟨32, 0⟩, [.articulation .accent]⟩, ">8->"), (.barLine, "|"),
          (.rest ⟨none, [.tie]⟩, "r~"), (.duration ⟨some ⟨64, 1⟩, []⟩, "4."),
          (.postEvents [.text ⟨"a > b", .above⟩], "-\"a > b\"")] := by
  have htenuto : NoteWord.read "c--".toList =
      .ok ⟨0, 0, 0, .bare, ⟨none, [.articulation .tenuto]⟩⟩ :=
    toOption_eq_some_iff.1 (by decide +kernel)
  have hdiminuendo : NoteWord.read "e\\>".toList =
      .ok ⟨2, 0, 0, .bare, ⟨none, [.rampStart .diminuendo]⟩⟩ :=
    toOption_eq_some_iff.1 (by decide +kernel)
  have haccent : Suffix.read "8->".toList = .ok ⟨some ⟨32, 0⟩, [.articulation .accent]⟩ :=
    toOption_eq_some_iff.1 (by decide +kernel)
  have htie : Suffix.read "~".toList = .ok ⟨none, [.tie]⟩ :=
    toOption_eq_some_iff.1 (by decide +kernel)
  have hdotted : Suffix.read "4.".toList = .ok ⟨some ⟨64, 1⟩, []⟩ :=
    toOption_eq_some_iff.1 (by decide +kernel)
  have htext : PostEvent.readRun "-\"a > b\"".toList = .ok [.text ⟨"a > b", .above⟩] :=
    toOption_eq_some_iff.1 (by decide +kernel)
  have hunsigned : ∀ c ∈ "e\\>".toList.getLast?, c ∉ ['-', '^', '_'] := by
    intro c hlast
    obtain rfl := Option.some.inj hlast
    decide
  have hnonempty : "-\"a > b\"".toList ≠ [] := by decide
  let space : Blanks := ⟨[' '], by decide, List.all_eq_true.1 (by decide)⟩
  let writing : Writing :=
    .cons (.chord (.cons ⟨_, _, htenuto⟩ space (.last ⟨_, _, hdiminuendo⟩ hunsigned))
      ⟨_, _, haccent⟩) space <|
    .cons .barLine space <|
    .cons (.rest ⟨_, _, htie⟩) space <|
    .cons (.duration ⟨_, _, hdotted⟩ ⟨'4', rfl, by decide⟩) space <|
    .last (.postEvents ⟨_, _, htext⟩ hnonempty)
  obtain ⟨expansion, tokens, hexpand, -, htokenize, htokens⟩ := tokenize_writing writing
  exact ⟨expansion, tokens, hexpand, htokenize, htokens⟩

end Stave.Shorthand
