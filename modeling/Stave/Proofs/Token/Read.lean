import Stave.Proofs.Draft.Step
import Stave.Proofs.Grammar.NoteWord
import Stave.Proofs.Ledger
import Stave.Shorthand.Declaration

/-!
# What holds of tokens that are read

A builder may be given any list of tokens, but those of a text are not arbitrary: chord
brackets alternate, every chord is closed, and every token means what some text of its grammar
does. The first two are kept by the reader as it goes; of the third, `IsRead` has a case for
every kind, and what a kind guarantees, such as a ratio of positive numbers, follows from it.
-/
namespace Stave.Shorthand

/-- Chord brackets alternate, given whether a chord is open before the first token. -/
def ChordsAlternate (chord : Bool) : List Token → Prop
  | [] => True
  | token :: rest =>
    (token.kind = .chordStart → chord = false) ∧
      ((∃ suffix, token.kind = .chordEnd suffix) → chord = true) ∧
      ChordsAlternate (token.kind.opensChord chord) rest

theorem chordsAlternate_append {chord : Bool} {first second : List Token} :
    ChordsAlternate chord (first ++ second) ↔
      ChordsAlternate chord first ∧ ChordsAlternate (chordOpenAfter chord first) second := by
  induction first generalizing chord with
  | nil => simp [ChordsAlternate, chordOpenAfter]
  | cons token rest ih => simp [ChordsAlternate, ih, chordOpenAfter, and_assoc]

theorem Directive.pos_of_ratio? {text : List Char} {above below : Nat}
    (h : ratio? text = some (above, below)) : 0 < above ∧ 0 < below := by
  simp only [ratio?, Option.bind_eq_bind, Option.bind_eq_some_iff] at h
  obtain ⟨-, -, n, -, m, -, h⟩ := h
  by_cases hzero : n = 0 ∨ m = 0
  · simp [hzero] at h
  · simp only [hzero, if_false, Option.some.injEq, Prod.mk.injEq] at h
    omega

namespace TokenKind

/-- What the kind of a token that is read can be: what some text of its grammar means, or a sign
that has nothing to read. -/
inductive IsRead : TokenKind → Prop where
  | note {cs : List Char} {word : NoteWord} (written : word.WrittenAs cs) : IsRead (.note word)
  | rest {cs : List Char} {suffix : Suffix} (written : suffix.WrittenAs cs) :
      IsRead (.rest suffix)
  | duration {cs : List Char} {suffix : Suffix} (written : suffix.WrittenAs cs) :
      IsRead (.duration suffix)
  | chordStart : IsRead .chordStart
  | chordEnd {cs : List Char} {suffix : Suffix} (written : suffix.WrittenAs cs) :
      IsRead (.chordEnd suffix)
  | postEvents {cs : List Char} {events : List PostEvent}
      (written : PostEvent.RunWrittenAs events cs) : IsRead (.postEvents events)
  | tuplet {actual normal : Nat} (positive : 0 < actual ∧ 0 < normal) :
      IsRead (.tuplet actual normal)
  | groupOpen : IsRead .groupOpen
  | groupClose : IsRead .groupClose
  | ottava (level : Int) : IsRead (.ottava level)
  | clef (clef : Clef) : IsRead (.clef clef)
  | time (meter : Meter) : IsRead (.time meter)
  | tempo (tempo : Tempo) : IsRead (.tempo tempo)
  | barLine : IsRead .barLine

/-- Whether a token opens or closes a chord. -/
def isBracket : TokenKind → Bool
  | chordStart => true
  | chordEnd _ => true
  | _ => false

/-- What is known of the kind of a token that is no chord bracket. -/
structure Plain (kind : TokenKind) : Prop where
  isBracket_eq : kind.isBracket = false
  isRead : kind.IsRead

theorem plain_of_ofNoteWord {word : List Char} {kind : TokenKind}
    (h : ofNoteWord word = .ok kind) : kind.Plain := by
  unfold ofNoteWord at h
  split at h
  case h_1 spelled hread =>
    cases h
    exact ⟨rfl, .note (NoteWord.writtenAs_of_read hread)⟩
  case h_2 =>
    split at h
    · cases h
    · cases h
  case h_3 => cases h

theorem exists_suffix_of_ofSuffix {make : Suffix → TokenKind} {word cs : List Char}
    {kind : TokenKind} (h : ofSuffix make word cs = .ok kind) :
    ∃ suffix, kind = make suffix ∧ suffix.WrittenAs cs := by
  unfold ofSuffix at h
  split at h
  case h_1 suffix hread =>
    cases h
    exact ⟨suffix, rfl, Suffix.writtenAs_of_read hread⟩
  case h_2 => cases h

theorem plain_of_ofPostEvents {word : List Char} {kind : TokenKind}
    (h : ofPostEvents word = .ok kind) : kind.Plain := by
  unfold ofPostEvents at h
  split at h
  case h_1 events hread =>
    cases h
    exact ⟨rfl, .postEvents (PostEvent.runWrittenAs_of_readRun hread)⟩
  case h_2 => cases h
  case h_3 => cases h

theorem plain_of_ofWord {word : List Char} {kind : TokenKind} (h : ofWord word = .ok kind) :
    kind.Plain := by
  unfold ofWord at h
  dsimp only at h
  split at h
  case h_1 =>
    cases h
    exact ⟨rfl, .clef _⟩
  case h_2 =>
    split at h
    case h_1 => cases h
    case h_2 first tail =>
      split at h
      · exact plain_of_ofNoteWord h
      split at h
      · split at h
        · cases h
        · obtain ⟨suffix, rfl, written⟩ := exists_suffix_of_ofSuffix h
          exact ⟨rfl, .rest written⟩
      split at h
      · obtain ⟨suffix, rfl, written⟩ := exists_suffix_of_ofSuffix h
        exact ⟨rfl, .duration written⟩
      split at h
      · cases h
        exact ⟨rfl, .barLine⟩
      split at h
      · exact plain_of_ofPostEvents h
      · cases h

theorem plain_of_read? {directive : Directive} {arguments : List (List Char)}
    {kind : TokenKind} {used : Nat} (h : directive.read? arguments = some (kind, used)) :
    kind.Plain := by
  unfold Directive.read? at h
  match arguments with
  | [] => simp at h
  | first :: others =>
    simp only [List.head?_cons, Option.bind_eq_bind, Option.bind_some] at h
    cases directive <;> simp only [Option.map_eq_some_iff, Prod.mk.injEq] at h
    case tuplet =>
      obtain ⟨⟨above, below⟩, hratio, rfl, -⟩ := h
      exact ⟨rfl, .tuplet (Directive.pos_of_ratio? hratio)⟩
    case times =>
      obtain ⟨⟨above, below⟩, hratio, rfl, -⟩ := h
      exact ⟨rfl, .tuplet (Directive.pos_of_ratio? hratio).symm⟩
    case ottava =>
      obtain ⟨level, -, rfl, -⟩ := h
      exact ⟨rfl, .ottava level⟩
    case time =>
      obtain ⟨meter, -, rfl, -⟩ := h
      exact ⟨rfl, .time meter⟩
    case tempo =>
      obtain ⟨⟨mark, count⟩, -, rfl, -⟩ := h
      exact ⟨rfl, .tempo mark⟩
    case clef =>
      obtain ⟨clef, -, rfl, -⟩ := h
      exact ⟨rfl, .clef clef⟩

end TokenKind

namespace Token

/-- What holds of a token read where a chord is open or not: a bracket is one that may
stand there. -/
structure ReadAt (chord : Bool) (kind : TokenKind) : Prop where
  opens : kind = .chordStart → chord = false
  closes : (∃ suffix, kind = .chordEnd suffix) → chord = true
  isRead : kind.IsRead

theorem readAt_of_plain {chord : Bool} {kind : TokenKind} (h : kind.Plain) :
    ReadAt chord kind := by
  have hbracket := h.isBracket_eq
  refine ⟨?_, ?_, h.isRead⟩
  · rintro rfl
    cases hbracket
  · rintro ⟨suffix, rfl⟩
    cases hbracket

theorem opensChord_of_plain (chord : Bool) {kind : TokenKind} (h : kind.Plain) :
    kind.opensChord chord = chord := by
  have hbracket := h.isBracket_eq
  cases kind with
  | chordStart => cases hbracket
  | chordEnd suffix => cases hbracket
  | _ => rfl

theorem readAt_of_kindOf {chord : Option Nat} {piece : Piece} {kind : TokenKind}
    (h : kindOf chord.isSome piece = .ok kind) :
    ReadAt chord.isSome kind ∧
      (chordAfter chord piece).isSome = kind.opensChord chord.isSome := by
  unfold kindOf at h
  split at h
  case h_1 hpiece =>
    cases h
    exact ⟨⟨nofun, nofun, .groupOpen⟩, by simp [chordAfter, hpiece, TokenKind.opensChord]⟩
  case h_2 hpiece =>
    cases h
    exact ⟨⟨nofun, nofun, .groupClose⟩, by simp [chordAfter, hpiece, TokenKind.opensChord]⟩
  case h_3 hpiece =>
    by_cases hchord : chord.isSome
    · simp [hchord] at h
    · simp only [hchord, Bool.false_eq_true, if_false] at h
      cases h
      refine ⟨⟨fun _ => by simpa using hchord, nofun, .chordStart⟩, ?_⟩
      simp [chordAfter, hpiece, TokenKind.opensChord]
  case h_4 hpiece =>
    by_cases hchord : chord.isSome
    · simp only [hchord, if_true] at h
      obtain ⟨suffix, rfl, written⟩ := TokenKind.exists_suffix_of_ofSuffix h
      refine ⟨⟨nofun, fun _ => hchord, .chordEnd written⟩, ?_⟩
      simp [chordAfter, hpiece, TokenKind.opensChord]
    · simp [hchord] at h
  case h_5 hpiece =>
    have hplain := TokenKind.plain_of_ofWord h
    refine ⟨readAt_of_plain hplain, ?_⟩
    simp [chordAfter, hpiece, opensChord_of_plain _ hplain]

/-- What holds of the tokens that are read where a chord is open or not. -/
structure AllRead (chord : Bool) (tokens : List Token) : Prop where
  alternate : ChordsAlternate chord tokens
  closed : chordOpenAfter chord tokens = false
  isRead : ∀ token ∈ tokens, token.kind.IsRead

theorem AllRead.cons {chord : Bool} {token : Token} {rest : List Token}
    (hread : ReadAt chord token.kind) (hrest : AllRead (token.kind.opensChord chord) rest) :
    AllRead chord (token :: rest) := by
  refine ⟨⟨hread.opens, hread.closes, hrest.alternate⟩, hrest.closed, ?_⟩
  intro other hmem
  rcases List.mem_cons.1 hmem with rfl | hmem
  · exact hread.isRead
  · exact hrest.isRead other hmem

theorem plain_of_ofDirective {directive : Directive} {piece : Piece} {rest : List Piece}
    {token : Token} {used : Nat} (h : ofDirective directive piece rest = .ok (token, used)) :
    token.kind.Plain := by
  unfold ofDirective at h
  dsimp only at h
  split at h
  case h_1 hread =>
    cases h
    exact TokenKind.plain_of_read? hread
  case h_2 => cases h

/-- Tokens that are read follow those found before. -/
theorem exists_allRead_of_readPieces {chord : Option Nat} {found tokens : List Token}
    {pieces : List Piece} (h : readPieces chord found pieces = .ok tokens) :
    ∃ rest, tokens = found.reverse ++ rest ∧ AllRead chord.isSome rest := by
  fun_induction readPieces chord found pieces generalizing tokens with
  | case1 => cases h
  | case2 found =>
    cases h
    exact ⟨[], by simp, trivial, rfl, nofun⟩
  | case3 => cases h
  | case4 chord found piece rest directive hdirective token used hread ih =>
    obtain ⟨tail, rfl, htail⟩ := ih h
    have hplain := plain_of_ofDirective hread
    rw [← opensChord_of_plain chord.isSome hplain] at htail
    exact ⟨token :: tail, by simp, AllRead.cons (readAt_of_plain hplain) htail⟩
  | case5 => cases h
  | case6 chord found piece rest hdirective kind hkind token =>
    rename_i ih
    obtain ⟨tail, rfl, htail⟩ := ih h
    obtain ⟨hread, hafter⟩ := readAt_of_kindOf hkind
    rw [hafter] at htail
    exact ⟨token :: tail, by simp, AllRead.cons hread htail⟩

end Token

/-- The tokens of an expanded line alternate their chord brackets, leave no chord open, and
are what their readers give. -/
theorem allRead_of_tokenize {expansion : Expansion} {tokens : List Token}
    (h : tokenize expansion = .ok tokens) : Token.AllRead false tokens := by
  unfold tokenize at h
  split at h
  · cases h
  · obtain ⟨rest, rfl, hrest⟩ := Token.exists_allRead_of_readPieces h
    simpa using hrest

theorem allRead_of_readTokens {text : String} {tokens : List Token}
    (h : readTokens text = .ok tokens) : Token.AllRead false tokens := by
  unfold readTokens at h
  obtain ⟨expansion, -, h⟩ := bind_ok_iff.1 h
  exact allRead_of_tokenize (mapError_ok_iff.1 h)

end Stave.Shorthand
