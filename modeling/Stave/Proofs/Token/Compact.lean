import Stave.Proofs.Grammar.NoteWord
import Stave.Proofs.Token.Spelled
import Stave.Shorthand.Token.Reading

/-!
# Words without blanks

The words of music are spelled more narrowly than what a directive takes: without a blank outside
quotes, and with no backslash at the end. `Compact` says so, and every reader of words takes
compact ones only, so that such a word keeps together in a line and escapes nothing after it but
by a direction sign.
-/
namespace Stave.Shorthand

variable {c sign : Char} {cs first second after word suffix : List Char} {symbols : List Symbol}

/-- A character that is no blank and none of some others. -/
def Avoids (stops : List Char) (c : Char) : Prop := c ∉ stops ∧ Text.isBlank c = false

instance (stops : List Char) (c : Char) : Decidable (Avoids stops c) :=
  inferInstanceAs (Decidable (_ ∧ _))

/-- What a mark after a backslash or a direction sign never is. -/
def markStops : List Char := '"' :: '\\' :: groupSigns

/-- What no other character outside quotes is. -/
def plainStops : List Char := '<' :: '>' :: markStops

theorem Avoids.isOrdinary (h : Avoids plainStops c) : IsOrdinary c := by
  have hstops : (['<', '>', '"'] ++ groupSigns).all plainStops.contains = true := by decide
  exact fun hmem => h.1 (List.contains_iff_mem.1 (List.all_eq_true.1 hstops c hmem))

theorem Avoids.of_plainStops (h : Avoids plainStops c) : Avoids markStops c :=
  ⟨fun hmem => h.1 (List.mem_cons_of_mem _ (List.mem_cons_of_mem _ hmem)), h.2⟩

/-- A class of characters avoids what is not in it. -/
theorem avoids_of_class {stops : List Char} (p : Char → Bool)
    (hstops : stops.all (fun c => !p c) = true)
    (hblanks : Text.blankCodes.all (fun code => !p (Char.ofNat code)) = true) (h : p c = true) :
    Avoids stops c := by
  refine ⟨fun hmem => ?_, Bool.eq_false_iff.2 fun hblank => ?_⟩
  · have hnot := List.all_eq_true.1 hstops c hmem
    rw [h] at hnot
    cases hnot
  · have hnot := List.all_eq_true.1 hblanks c.toNat (List.contains_iff_mem.1 hblank)
    rw [Char.ofNat_toNat, h] at hnot
    cases hnot

theorem avoids_of_isDigit (h : c.isDigit = true) : Avoids plainStops c :=
  avoids_of_class Char.isDigit (by decide) (by decide) h

theorem avoids_of_isAlpha (h : c.isAlpha = true) : Avoids plainStops c :=
  avoids_of_class Char.isAlpha (by decide) (by decide) h

/-- How a word is spelled that a reader takes as a whole: without a blank outside quotes, and
with no backslash that nothing comes after. -/
inductive Compact : List Char → Prop where
  | nil : Compact []
  | cons {c : Char} {cs : List Char} (avoids : Avoids plainStops c) (rest : Compact cs) :
      Compact (c :: cs)
  | mark {sign c : Char} {cs : List Char} (escapes : Symbol.escapes sign = true)
      (avoids : Avoids markStops c) (rest : Compact cs) : Compact (sign :: c :: cs)
  | text {sign : Char} {inside cs : List Char} (escapes : Symbol.escapes sign = true)
      (unquoted : '"' ∉ inside) (rest : Compact cs) :
      Compact (sign :: '"' :: (inside ++ '"' :: cs))

theorem isQuote_of_isOrdinary {symbol : Symbol} (h : IsOrdinary symbol.char) :
    symbol.isQuote = false := beq_eq_false_iff_ne.2 h.isPlain.2.2

/-- A symbol that is no blank and no quote leaves blanks quoted as they are. -/
theorem blanksQuoted_cons {quoted : Bool} {symbol : Symbol} {rest : List Symbol}
    (hink : symbol.isBlank = false) (hquote : symbol.isQuote = false)
    (h : BlanksQuoted quoted rest) : BlanksQuoted quoted (symbol :: rest) := by
  refine ⟨fun hblank => absurd (hink.symm.trans hblank) Bool.false_ne_true, ?_⟩
  rwa [Symbol.quotedAfter, hquote, Bool.bne_false]

/-- Such is a sign that escapes what comes after it. -/
theorem blanksQuoted_cons_of_escapes {symbol : Symbol} {rest : List Symbol}
    (hescapes : Symbol.escapes symbol.char = true) (h : BlanksQuoted false rest) :
    BlanksQuoted false (symbol :: rest) := by
  have hink : symbol.isBlank = false := Bool.eq_false_iff.2 fun hblank =>
    Bool.false_ne_true ((escapes_of_isBlank hblank).symm.trans hescapes)
  exact blanksQuoted_cons hink (isQuote_of_isOrdinary (isOrdinary_of_escapes hescapes)) h

theorem blanksQuoted_of_not_isQuote {symbols : List Symbol}
    (h : ∀ symbol ∈ symbols, symbol.isQuote = false) : BlanksQuoted true symbols := by
  induction symbols with
  | nil => trivial
  | cons symbol rest ih =>
    obtain ⟨hsymbol, hrest⟩ := List.forall_mem_cons.1 h
    refine ⟨fun _ => rfl, ?_⟩
    rw [Symbol.quotedAfter, hsymbol, Bool.bne_false]
    exact ih hrest

namespace Compact

theorem spelled (h : Compact cs) : Spelled cs := by
  induction h with
  | nil => exact .nil
  | cons avoids _ ih => exact .cons avoids.isOrdinary ih
  | mark escapes avoids _ ih =>
    have hstops := avoids.1
    simp only [markStops, List.mem_cons, not_or] at hstops
    exact .mark escapes hstops.1 hstops.2.2 ih
  | text escapes unquoted _ ih => exact .text escapes unquoted ih

theorem of_avoids (hfirst : ∀ c ∈ first, Avoids plainStops c) (hsecond : Compact second) :
    Compact (first ++ second) := by
  induction first with
  | nil => exact hsecond
  | cons c first ih =>
    obtain ⟨hc, hfirst⟩ := List.forall_mem_cons.1 hfirst
    exact .cons hc (ih hfirst)

/-- The blanks of a word are quoted. -/
theorem blanksQuoted (h : Compact (Symbol.chars symbols)) : BlanksQuoted false symbols := by
  generalize hchars : Symbol.chars symbols = cs at h
  induction h generalizing symbols with
  | nil =>
    rw [List.map_eq_nil_iff.1 hchars]
    trivial
  | cons avoids _ ih =>
    obtain ⟨first, rest, rfl, rfl, hrest⟩ := List.map_eq_cons_iff.1 hchars
    exact blanksQuoted_cons avoids.2 (isQuote_of_isOrdinary avoids.isOrdinary) (ih hrest)
  | mark escapes avoids _ ih =>
    obtain ⟨first, others, rfl, rfl, hothers⟩ := List.map_eq_cons_iff.1 hchars
    obtain ⟨second, rest, rfl, rfl, hrest⟩ := List.map_eq_cons_iff.1 hothers
    refine blanksQuoted_cons_of_escapes escapes (blanksQuoted_cons avoids.2 ?_ (ih hrest))
    exact beq_eq_false_iff_ne.2 fun hquote => avoids.1 (by rw [hquote]; decide)
  | text escapes unquoted _ ih =>
    obtain ⟨first, others, rfl, rfl, hothers⟩ := List.map_eq_cons_iff.1 hchars
    obtain ⟨opening, quoted, rfl, hopening, hquoted⟩ := List.map_eq_cons_iff.1 hothers
    obtain ⟨text, closed, rfl, rfl, hclosed⟩ := List.map_eq_append_iff.1 hquoted
    obtain ⟨closing, rest, rfl, hclosing, hrest⟩ := List.map_eq_cons_iff.1 hclosed
    have htext : ∀ symbol ∈ text, symbol.isQuote = false := fun symbol hmem =>
      beq_eq_false_iff_ne.2 fun hquote => unquoted (hquote ▸ List.mem_map_of_mem hmem)
    have hopens : opening.quotedAfter false = true := by
      simp [Symbol.quotedAfter, Symbol.isQuote, hopening]
    have hcloses : closing.quotedAfter true = false := by
      simp [Symbol.quotedAfter, Symbol.isQuote, hclosing]
    have hink : opening.isBlank = false := by
      rw [Symbol.isBlank, hopening]
      decide
    refine blanksQuoted_cons_of_escapes escapes
      ⟨fun hblank => absurd (hink.symm.trans hblank) Bool.false_ne_true, ?_⟩
    rw [hopens, blanksQuoted_append, quotedAfterAll_of_not_isQuote htext]
    refine ⟨blanksQuoted_of_not_isQuote htext, fun _ => rfl, ?_⟩
    rw [hcloses]
    exact ih hrest

/-- A word does not end with a backslash. -/
theorem getLastD_ne {c : Char} (h : Compact cs) (hc : c ≠ '\\') : cs.getLastD c ≠ '\\' := by
  induction h generalizing c with
  | nil => exact hc
  | cons avoids _ ih =>
    rw [List.getLastD_cons]
    exact ih fun hsame => avoids.1 (by rw [hsame]; decide)
  | mark escapes avoids _ ih =>
    rw [List.getLastD_cons, List.getLastD_cons]
    exact ih fun hsame => avoids.1 (by rw [hsame]; decide)
  | text escapes unquoted _ ih =>
    rw [List.getLastD_eq_getLast?, List.getLast?_cons, List.getLast?_cons, List.getLast?_append,
      List.getLast?_cons]
    simpa [List.getLastD_eq_getLast?] using ih (c := '"') (by decide)

end Compact

/-! ### What the grammar spells -/

/-- A post-event makes a word with what comes after it. -/
theorem PostEvent.WrittenAs.compact {event : PostEvent} (h : event.WrittenAs cs)
    (hafter : Compact after) : Compact (cs ++ after) := by
  have hsigns : ∀ sign ∈ directionSigns, Symbol.escapes sign = true := by
    simp [directionSigns, Symbol.escapes]
  cases h with
  | tie => exact .cons (by decide) hafter
  | slurOpen => exact .cons (by decide) hafter
  | slurClose => exact .cons (by decide) hafter
  | crescendo => exact .mark rfl (by decide) hafter
  | diminuendo => exact .mark rfl (by decide) hafter
  | rampStop => exact .mark rfl (by decide) hafter
  | @command name event named =>
    have hletters := isAlpha_of_ofCommand? named
    -- a command has a letter, for nothing is the command of no letters
    cases name with
    | nil => cases named
    | cons c name =>
      obtain ⟨hletter, hmore⟩ := List.forall_mem_cons.1 hletters
      exact .mark rfl (avoids_of_isAlpha hletter).of_plainStops
        (.of_avoids (fun c hmem => avoids_of_isAlpha (hmore c hmem)) hafter)
  | articulation signed named =>
    exact .mark (hsigns _ signed) (avoids_of_class (fun c => (Articulation.ofSymbol? c).isSome)
      (by decide) (by decide) (by rw [named]; rfl)) hafter
  | @text sign inside signed unquoted =>
    rw [List.cons_append, List.cons_append, List.append_assoc]
    exact .text (hsigns _ signed) unquoted hafter

theorem PostEvent.RunWrittenAs.compact {events : List PostEvent} (h : RunWrittenAs events cs) :
    Compact cs := by
  induction h with
  | nil => exact .nil
  | cons head tail ih => exact head.compact ih

theorem Suffix.WrittenAs.compact {value : Suffix} (h : value.WrittenAs cs) : Compact cs := by
  obtain ⟨timed, events⟩ := h
  refine .of_avoids ?_ events.compact
  cases timed with
  | none => exact List.forall_mem_nil _
  | some dots numeral small value =>
    refine List.forall_mem_append.2 ⟨fun c hmem => avoids_of_isDigit (numeral c hmem), ?_⟩
    intro c hmem
    rw [List.eq_of_mem_replicate hmem]
    decide

theorem Accidental.WrittenAfter.isAlpha {letter : Char} {signs : List Accidental}
    (h : WrittenAfter letter signs cs) : ∀ c ∈ cs, c.isAlpha = true := by
  have hletters (others : List Accidental) : ∀ c ∈ others.flatMap letters, c.isAlpha = true := by
    intro c hmem
    obtain ⟨sign, -, hc⟩ := List.mem_flatMap.1 hmem
    have hall : ∀ d ∈ sign.letters, d.isAlpha = true := by
      cases sign <;> simp [Accidental.letters]
    exact hall c hc
  cases h with
  | full signs => exact hletters signs
  | short vowel followed => exact List.forall_mem_cons.2 ⟨by decide, hletters _⟩

theorem NoteWord.WrittenAs.compact {word : NoteWord} (h : word.WrittenAs cs) : Compact cs := by
  obtain @⟨letter, step, signs, accidentals, marks, ending, suffix, forced, lettered, few, signed,
    octaves, ended⟩ := h
  have hletter : Avoids plainStops letter :=
    avoids_of_class letters.contains (by decide) (by decide)
      (List.contains_iff_mem.2 (List.mem_of_getElem? lettered))
  refine .cons hletter (.of_avoids (fun c hmem => avoids_of_isAlpha (signed.isAlpha c hmem))
    (.of_avoids (fun c hmem => ?_) ?_))
  · rcases octaves c hmem with rfl | rfl <;> decide
  · cases forced with
    | true => exact .cons (by decide) ended.compact
    | false => exact ended.compact

namespace TokenKind

variable {kind : TokenKind}

theorem compact_of_ofSuffix {make : Suffix → TokenKind}
    (h : ofSuffix make word suffix = .ok kind) : Compact suffix := by
  unfold ofSuffix at h
  split at h
  case h_1 hread => exact (Suffix.writtenAs_of_read hread).compact
  case h_2 => cases h

/-- A word that can be read is spelled without blanks outside quotes. -/
theorem compact_of_ofWord (h : ofWord word = .ok kind) : Compact word := by
  unfold ofWord at h
  dsimp only at h
  split at h
  case h_1 hclef =>
    rw [← List.append_nil word]
    have hletters := Clef.isAlpha_of_ofKeyword? hclef
    exact .of_avoids (fun c hmem => avoids_of_isAlpha (hletters c hmem)) .nil
  case h_2 =>
    split at h
    · exact .nil
    split at h
    · unfold ofNoteWord at h
      split at h
      case h_1 hread => exact (NoteWord.writtenAs_of_read hread).compact
      case h_2 => split at h <;> cases h
      case h_3 => cases h
    split at h
    case isTrue hrest =>
      split at h
      · cases h
      · subst hrest
        exact .cons (by decide) (compact_of_ofSuffix h)
    split at h
    · exact compact_of_ofSuffix h
    split at h
    case isTrue hbar =>
      simp only [Bool.and_eq_true, decide_eq_true_eq, List.isEmpty_iff] at hbar
      rw [hbar.1, hbar.2]
      exact .cons (by decide) .nil
    split at h
    · unfold ofPostEvents at h
      split at h
      case h_1 hread => exact (PostEvent.runWrittenAs_of_readRun hread).compact
      case h_2 => cases h
      case h_3 => cases h
    · cases h

end TokenKind

end Stave.Shorthand
