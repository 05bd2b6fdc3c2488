import Mathlib.Data.List.TakeWhile
import Stave.Proofs.Expansion.Joined
import Stave.Proofs.Repeat.Trimmed
import Stave.Proofs.Repeat.Unquoted

/-!
# Expansion of one repeat

A group that is the whole line is expanded to copies of what its text is expanded to: the copies
stand at spaces, so the later passes write out each of them as they would the text alone. A word
with a count is expanded to copies of the word, and so is a chord up to the end of its last word,
if there is nothing else in them to expand.
-/
namespace Stave.Shorthand

variable {line out unit rest outRest digits marks : List Symbol} {star bracket close : Symbol}
  {pass : Pass} {move : Nat → Nat} {count offset size : Nat} {quoted : Bool}

/-! ### Counts -/

/-- A number is read by its digits. -/
theorem digitsValue_toDigits (count : Nat) : Text.digitsValue (Nat.toDigits 10 count) = count :=
  Nat.ofDigitChars_toDigits (by decide) (by decide)

namespace Repeat

/-- The digits of a count, with a star before them or not, are read as the count. -/
theorem readCount_digits (star : Symbol) (hdigits : Symbol.chars digits = Nat.toDigits 10 count)
    (hpos : 0 < count) (hle : count ≤ largestCount) :
    readCount offset digits = .ok (count, digits.length) ∧
      (star.char = '*' → readCount offset (star :: digits) = .ok (count, digits.length + 1)) := by
  have hisDigit : ∀ digit ∈ digits, digit.char.isDigit = true := by
    intro digit hmem
    have hchar : digit.char ∈ Nat.toDigits 10 count := hdigits ▸ List.mem_map_of_mem hmem
    exact Nat.isDigit_of_mem_toDigits (by decide) (by decide) hchar
  have hnil : digits ≠ [] := by
    rintro rfl
    exact Nat.toDigits_ne_nil hdigits.symm
  have htake : digits.takeWhile (·.char.isDigit) = digits :=
    List.takeWhile_eq_self_iff.2 hisDigit
  have hlarge : largestCount ≤ Text.largestCount := by decide
  have hvalue : Text.digitsValue (Symbol.chars digits) = count := by
    rw [hdigits, digitsValue_toDigits]
  have hread (skipped : Nat) :
      (if digits.isEmpty then Except.error ⟨.missingCount, offset⟩
        else if count > Text.largestCount then .error ⟨.countTooLarge, offset⟩
        else if count = 0 then .error ⟨.zeroCount, offset⟩
        else if count > largestCount then .error ⟨.countTooLarge, offset⟩
        else .ok (count, skipped + digits.length) : Except RepeatFailure (Nat × Nat)) =
          .ok (count, skipped + digits.length) := by
    rw [if_neg (by simpa using hnil), if_neg (by omega), if_neg (by omega), if_neg (by omega)]
  constructor
  · obtain ⟨first, others, rfl⟩ := List.exists_cons_of_ne_nil hnil
    have hfirst : (first.char == '*') = false := by
      rw [beq_eq_false_iff_ne]
      intro hstar
      have := hisDigit first List.mem_cons_self
      rw [hstar] at this
      cases this
    simp only [readCount, List.head?_cons, Option.map_some, Option.getD_some, hfirst,
      Bool.false_eq_true, if_false, htake, hvalue]
    simpa using hread 0
  · intro hstar
    simp only [readCount, List.head?_cons, Option.map_some, Option.getD_some, hstar,
      beq_self_eq_true, if_true, List.drop_succ_cons, List.drop_zero, htake, hvalue]
    rw [hread, Nat.add_comm]

end Repeat

/-! ### Copies in a line -/

namespace Pass

/-- A pass writes out a text as its own whatever it goes on with. -/
def Leads (pass : Pass) (line out : List Symbol) : Prop :=
  ∀ rest outRest, pass.GoesOn rest outRest → pass.Writes (line ++ rest) (out ++ outRest)

theorem Leads.writes (h : pass.Leads line out) (hblanks : pass.CopiesBlanks) :
    pass.Writes line out := by
  simpa using h [] [] hblanks.goesOn_nil

/-- Copies are written out copy by copy. -/
theorem Leads.copies (h : pass.Leads line out) (hblanks : pass.CopiesBlanks) (hcount : 0 < count)
    (offset : Nat) :
    pass.Leads (Repeat.copies line count offset) (Repeat.copies out count offset) := by
  obtain ⟨count, rfl⟩ : ∃ n, count = n + 1 := ⟨count - 1, by omega⟩
  intro rest outRest hrest
  have hothers : pass.GoesOn ((List.replicate count (⟨' ', offset⟩ :: line)).flatten ++ rest)
      ((List.replicate count (⟨' ', offset⟩ :: out)).flatten ++ outRest) := by
    induction count with
    | zero => exact hrest
    | succ count ih =>
      have hspace : Symbol.isBlank ⟨' ', offset⟩ = true := rfl
      have hnext := hblanks.goesOn_cons hspace (h _ _ (ih (by omega)))
      simpa [List.replicate_succ] using hnext
  rw [Repeat.copies_succ, Repeat.copies_succ, List.append_assoc, List.append_assoc]
  exact h _ _ hothers

end Pass

/-! ### Groups -/

namespace Repeat

/-- A group that closes is written out unless the line gets too long. -/
theorem closeGroup_cases {raw : List Symbol} (size : Nat) (bracket : Symbol)
    (hcount : readCount close.origin marks = .ok (count, marks.length))
    (hink : (trimOne raw).all Symbol.isBlank = false) :
    (∃ size', closeGroup size bracket close raw marks =
        .ok (size', copies (trimOne raw) count close.origin, marks.length)) ∨
      ∃ offset, closeGroup size bracket close raw marks = .error ⟨.tooLong, offset⟩ := by
  unfold closeGroup
  rw [hcount]
  dsimp only [bind, Except.bind]
  rw [if_neg (by simp [hink])]
  rcases grow_cases (size - (raw.length + 2 + marks.length)) (trimOne raw).length count
    close.origin with ⟨grown, hgrow⟩ | hgrow
  · rw [hgrow]
    exact .inl ⟨grown, rfl⟩
  · rw [hgrow]
    exact .inr ⟨_, rfl⟩

/-- The pass over groups writes copies of what it writes of the text of a group. -/
theorem writes_group (move : Nat → Nat) (hopen : bracket.char = '[') (hclose : close.char = ']')
    (hcount : readCount close.origin marks = .ok (count, marks.length))
    (hclosed : quotedAfterAll false unit = false) (hink : (trimOne out).all Symbol.isBlank = false)
    (h : writeGroups size [] [] false unit = .ok out) :
    groupPass.Writes (bracket :: (unit.map (Symbol.moved move) ++ close :: marks))
      (copies ((trimOne out).map (Symbol.moved move)) count close.origin) := by
  intro length before _
  have hplain {symbol : Symbol} {c : Char} (hchar : symbol.char = c) (hc : c ≠ '"') :
      ¬(symbol.isQuote || false) = true := by simp [Symbol.isQuote, hchar, hc]
  have hdigit : NoDigitNext (close :: marks) := by simp [NoDigitNext, hclose]
  have hmoved : (trimOne (out.map (Symbol.moved move))).all Symbol.isBlank = false := by
    rw [trimOne_map_moved, List.all_map]
    exact hink
  rw [groupPass, writeGroups_cons, if_neg (hplain hopen (by decide)), if_pos hopen]
  refine fits_writeGroups_inside [] hdigit (fun length => ?_) hclosed h length
  rw [writeGroups_cons, if_neg (hplain hclose (by decide)), if_neg (by rw [hclose]; decide),
    if_pos hclose]
  dsimp only
  rw [List.append_nil, List.reverse_reverse]
  rcases closeGroup_cases length bracket hcount hmoved with
    ⟨size', hgroup⟩ | ⟨offset, hlong⟩
  · rw [hgroup]
    dsimp only
    rw [List.drop_length, writeGroups, trimOne_map_moved]
    exact .inl (by simp)
  · rw [hlong]
    exact .inr ⟨offset, rfl⟩

end Repeat

/-- The passes over chords and words write out the trimmed text of a group as they write out the
text, between the blanks that trimming drops. -/
structure TrimsTo (move : Nat → Nat) (grouped out front chords words back : List Symbol) :
    Prop where
  out_eq : out = front ++ (words ++ back)
  front_blank : ∀ symbol ∈ front, symbol.isBlank = true
  back_blank : ∀ symbol ∈ back, symbol.isBlank = true
  chords_lead : Repeat.chordPass.Leads ((Repeat.trimOne grouped).map (Symbol.moved move))
    (chords.map (Symbol.moved move))
  words_lead : Pass.Leads Repeat.writeWords (chords.map (Symbol.moved move))
    (words.map (Symbol.moved move))
  words_of_blank : (Repeat.trimOne grouped).all Symbol.isBlank = true →
    words = Repeat.trimOne grouped

theorem Stages.exists_trimsTo {grouped chorded : List Symbol} (move : Nat → Nat)
    (stages : Stages line grouped chorded out) :
    ∃ front chords words back, TrimsTo move grouped out front chords words back := by
  obtain ⟨front, back, hgrouped, hfront, hback⟩ := Repeat.exists_trimOne_eq grouped
  have hquoted := stages.grouped_quoted
  have hlast := stages.grouped_last
  have hchords := stages.chords
  have hwords := stages.words
  have hchordedQuoted := stages.chorded_quoted
  unfold Repeat.expandChords at hchords
  unfold Repeat.expandWords at hwords
  generalize grouped.length = length at hchords
  rw [hgrouped] at hchords
  rw [hgrouped, Repeat.quotedAfterAll_between hfront hback] at hquoted
  rw [hgrouped, Repeat.lastBracket_between hfront hback] at hlast
  obtain ⟨chords, hinnerChords, rfl⟩ :=
    Repeat.exists_writeChords_between hfront hback hquoted hlast hchords
  rw [Repeat.quotedAfterAll_between hfront hback] at hchordedQuoted
  obtain ⟨words, hinnerWords, rfl⟩ :=
    Repeat.exists_writeWords_between hfront hback hchordedQuoted hwords
  have hstart : lastBracket (escapedBy []) false (Repeat.trimOne grouped) ≠ some '<' := hlast
  refine ⟨front, chords, words, back, rfl, hfront, hback, ?_, ?_, fun hblank => ?_⟩
  · exact fun rest outRest hrest size before hfree =>
      Repeat.fits_writeChords hrest hquoted hstart hfree hinnerChords size
  · exact fun rest outRest hrest size before _ =>
      Repeat.fits_writeWords before hrest hchordedQuoted hinnerWords size
  · have hblanks := List.all_eq_true.1 hblank
    have hsame := (Repeat.copiesBlanks_chordPass.only_blanks hblanks length []).symm.trans
      hinnerChords
    cases hsame
    have hsame := (Repeat.copiesBlanks_writeWords.only_blanks hblanks _ []).symm.trans hinnerWords
    cases hsame
    rfl

/-- A line that is one group is expanded to copies of the expansion of its text, a blank at
either end left out. -/
theorem expands_group (move : Nat → Nat) (hopen : bracket.char = '[') (hclose : close.char = ']')
    (hcount : Repeat.readCount close.origin marks = .ok (count, marks.length))
    (hsettled : Settled out) (hink : ∃ symbol ∈ out, symbol.isBlank = false)
    (h : expandSymbols unit = .ok out) :
    ∃ front inner back, out = front ++ (inner ++ back) ∧
      (∀ symbol ∈ front, symbol.isBlank = true) ∧ (∀ symbol ∈ back, symbol.isBlank = true) ∧
      Expands (bracket :: (unit.map (Symbol.moved move) ++ close :: marks))
        (Repeat.copies (inner.map (Symbol.moved move)) count close.origin) := by
  obtain ⟨grouped, chorded, stages⟩ := exists_stages_of_expandSymbols hsettled h
  obtain ⟨front, chords, words, back, trims⟩ := stages.exists_trimsTo move
  have hpos := (Repeat.readCount_eq_ok hcount).1
  have hkept : (Repeat.trimOne grouped).all Symbol.isBlank = false := by
    refine Bool.eq_false_iff.2 fun hblank => ?_
    obtain ⟨symbol, hmem, hsymbol⟩ := hink
    rw [trims.out_eq, trims.words_of_blank hblank, List.mem_append, List.mem_append] at hmem
    have hall : symbol.isBlank = true := by
      rcases hmem with hmem | hmem | hmem
      · exact trims.front_blank symbol hmem
      · exact List.all_eq_true.1 hblank symbol hmem
      · exact trims.back_blank symbol hmem
    rw [hsymbol] at hall
    cases hall
  exact ⟨front, words, back, trims.out_eq, trims.front_blank, trims.back_blank, _, _,
    Repeat.writes_group move hopen hclose hcount stages.line_quoted hkept stages.groups,
    (trims.chords_lead.copies Repeat.copiesBlanks_chordPass hpos _).writes
      Repeat.copiesBlanks_chordPass,
    (trims.words_lead.copies Repeat.copiesBlanks_writeWords hpos _).writes
      Repeat.copiesBlanks_writeWords⟩

/-! ### Words and chords -/

/-- A star and the digits of a count. -/
structure CountedBy (star : Symbol) (digits : List Symbol) (count : Nat) : Prop where
  star_eq : star.char = '*'
  digits_eq : Symbol.chars digits = Nat.toDigits 10 count
  pos : 0 < count
  le : count ≤ Repeat.largestCount

/-- A text that has nothing to repeat leaves no quotation open and has no sign of a repeat outside
quotes. -/
structure Unrepeated (symbols : List Symbol) : Prop where
  closed : quotedAfterAll false symbols = false
  signs : ∀ c ∈ unquoted false (Symbol.chars symbols), c ∉ repeatSigns

namespace CountedBy

variable (h : CountedBy star digits count)
include h

theorem isDigit_of_mem {digit : Symbol} (hmem : digit ∈ digits) : digit.char.isDigit = true := by
  have hchar : digit.char ∈ Nat.toDigits 10 count := h.digits_eq ▸ List.mem_map_of_mem hmem
  exact Nat.isDigit_of_mem_toDigits (by decide) (by decide) hchar

theorem star_not_mem : '*' ∉ Symbol.chars digits := by
  intro hmem
  obtain ⟨digit, hdigit, hchar⟩ := List.mem_map.1 hmem
  have hisDigit := h.isDigit_of_mem hdigit
  rw [hchar] at hisDigit
  cases hisDigit

theorem readWordCount_eq : Repeat.readWordCount star digits = .ok count := by
  unfold Repeat.readWordCount
  rw [(Repeat.readCount_digits star h.digits_eq h.pos h.le).1]
  exact if_pos rfl

theorem isPlain {c : Char} (hmem : c ∈ Symbol.chars (star :: digits)) : IsPlain c := by
  rcases List.mem_cons.1 hmem with rfl | hmem
  · rw [h.star_eq]
    decide
  · obtain ⟨digit, hdigit, rfl⟩ := List.mem_map.1 hmem
    exact (isOrdinary_of_isDigit (h.isDigit_of_mem hdigit)).isPlain

/-- A star and digits may end a word. -/
theorem blanksQuoted : BlanksQuoted quoted (star :: digits) := by
  refine blanksQuoted_of_not_isBlank (List.forall_mem_cons.2 ⟨?_, fun digit hmem => ?_⟩)
  · rw [Symbol.isBlank, h.star_eq]
    decide
  · refine Bool.eq_false_iff.2 fun hblank => ?_
    have hnot := Text.not_isDigit_of_isBlank hblank
    rw [h.isDigit_of_mem hmem] at hnot
    cases hnot

/-- What goes on with a star and digits has no bracket if it had none. -/
theorem ungrouped_append (hunit : Unrepeated unit) :
    Repeat.Ungrouped (unit ++ star :: digits) := by
  have hmarks {c : Char} (hmem : c ∈ unquoted false (Symbol.chars (star :: digits))) :
      c ∉ ['[', ']'] := by
    rcases List.mem_cons.1 (mem_of_mem_unquoted hmem) with rfl | hmem
    · rw [h.star_eq]
      decide
    · obtain ⟨digit, hdigit, rfl⟩ := List.mem_map.1 hmem
      intro hbracket
      refine (isOrdinary_of_isDigit (h.isDigit_of_mem hdigit)).not_mem_groupSigns ?_
      exact List.mem_append_left _ (List.mem_append_left ['*'] hbracket)
  refine (Repeat.ungrouped_append hunit.closed).2 ⟨⟨?_, ?_⟩, ?_, ?_⟩
  · exact fun hmem => hunit.signs _ hmem (by decide)
  · exact fun hmem => hunit.signs _ hmem (by decide)
  · exact fun hmem => hmarks hmem (by decide)
  · exact fun hmem => hmarks hmem (by decide)

end CountedBy

theorem Unrepeated.copies (h : Unrepeated unit) :
    '*' ∉ unquoted false (Symbol.chars (Repeat.copies unit count offset)) := by
  intro hmem
  rcases Repeat.mem_unquoted_copies h.closed hmem with hspace | hmem
  · cases hspace
  · exact h.signs _ hmem (by decide)

/-- A line without brackets that the passes over chords and words write out is expanded so. -/
theorem expands_of_ungrouped (chorded : List Symbol) (hgroups : Repeat.Ungrouped line)
    (hchords : Repeat.chordPass.Writes line chorded)
    (hwords : Pass.Writes Repeat.writeWords chorded out) : Expands line out :=
  ⟨line, chorded,
    fun _ _ _ => .inl (Repeat.writeGroups_eq_of_unquoted hgroups.1 hgroups.2), hchords, hwords⟩

namespace Repeat

variable {suffix chord tail word : List Symbol}

theorem writeWord_cases (size : Nat) (hsplit : splitLastStar false word = some (unit, star, digits))
    (hne : unit ≠ []) (hcount : readWordCount star digits = .ok count) :
    (∃ size', writeWord size word = .ok (size', copies unit count star.origin)) ∨
      ∃ offset, writeWord size word = .error ⟨.tooLong, offset⟩ := by
  unfold writeWord
  rw [hsplit]
  dsimp only
  rw [if_neg (by simpa using hne), hcount]
  dsimp only [bind, Except.bind]
  rcases grow_cases (size - word.length) unit.length count star.origin with
    ⟨grown, hgrow⟩ | hgrow
  · rw [hgrow]
    exact .inl ⟨grown, rfl⟩
  · rw [hgrow]
    exact .inr ⟨_, rfl⟩

theorem writeChord_cases (size : Nat) (hstar : chordStar tail = some (suffix, star, digits))
    (hcount : readWordCount star digits = .ok count) :
    (∃ size', writeChord size chord tail =
        .ok (size', copies (chord ++ suffix) count star.origin)) ∨
      ∃ offset, writeChord size chord tail = .error ⟨.tooLong, offset⟩ := by
  unfold writeChord
  rw [hstar]
  dsimp only
  rw [hcount]
  dsimp only [bind, Except.bind]
  rcases grow_cases (size - (chord.length + tail.length)) (chord ++ suffix).length count
    star.origin with ⟨grown, hgrow⟩ | hgrow
  · rw [hgrow]
    exact .inl ⟨grown, rfl⟩
  · rw [hgrow]
    exact .inr ⟨_, rfl⟩

end Repeat

/-- A word with a count is expanded to copies of the word. -/
theorem expands_word (hcount : CountedBy star digits count) (hunit : Unrepeated unit)
    (hne : unit ≠ []) (hword : BlanksQuoted false unit)
    (hbrackets : chordBrackets false false (Symbol.chars unit) = []) :
    Expands (unit ++ star :: digits) (Repeat.copies unit count star.origin) := by
  refine expands_of_ungrouped (unit ++ star :: digits) (hcount.ungrouped_append hunit)
    (fun size before hfree => .inl ?_) fun size before _ => ?_
  · refine Repeat.writeChords_eq_of_chordBrackets ?_
    rw [hfree, Symbol.chars_append, chordBrackets_append, hbrackets, List.nil_append]
    exact chordBrackets_eq_nil_of_isPlain fun c => hcount.isPlain
  · have hsplit := Repeat.splitLastStar_append hunit.closed hcount.star_eq
      (mt mem_of_mem_unquoted hcount.star_not_mem)
    have hwhole : BlanksQuoted false (unit ++ star :: digits) :=
      blanksQuoted_append.2 ⟨hword, hcount.blanksQuoted⟩
    obtain ⟨head, rest, rfl⟩ := List.exists_cons_of_ne_nil hne
    rw [List.cons_append] at hsplit hwhole ⊢
    rw [Repeat.writeWords, if_neg (by simp [hwhole.head])]
    dsimp only
    rw [splitWord_of_blanksQuoted hwhole.2]
    rcases Repeat.writeWord_cases size hsplit hne hcount.readWordCount_eq with
      ⟨size', hwrite⟩ | ⟨offset, hlong⟩
    · rw [hwrite]
      dsimp only
      rw [Repeat.writeWords]
      exact .inl (by simp)
    · rw [hlong]
      exact .inr ⟨offset, rfl⟩

/-- A chord with a count is expanded to copies of the chord and what follows it. -/
theorem expands_chord {body suffix : List Symbol} (hcount : CountedBy star digits count)
    (hopen : bracket.char = '<')
    (hchord : Repeat.splitChord bracket.char false (body ++ suffix) = some (body, suffix))
    (hunit : Unrepeated (bracket :: body ++ suffix)) (hword : BlanksQuoted false suffix) :
    Expands (bracket :: body ++ suffix ++ star :: digits)
      (Repeat.copies (bracket :: body ++ suffix) count star.origin) := by
  refine expands_of_ungrouped _ (hcount.ungrouped_append hunit) (fun size before hfree => ?_)
    fun size before _ => .inl (Repeat.writeWords_eq_of_unquoted hunit.copies)
  have hfound : Repeat.chordAt? before false bracket (body ++ (suffix ++ star :: digits)) =
      some (body, suffix ++ star :: digits) := by
    unfold Repeat.chordAt?
    rw [escapedBy] at hfree
    rw [hfree, ← List.append_assoc]
    simp only [hopen, Bool.not_false, Bool.and_self, decide_true, if_true]
    rw [← hopen]
    exact Repeat.splitChord_append_of_some _ hchord
  have hclosed : quotedAfterAll false suffix = false := by
    have hall := hunit.closed
    rwa [quotedAfterAll_append, (Repeat.chordAt?_opens hfound).2.2.2] at hall
  have hstar : Repeat.chordStar (suffix ++ star :: digits) = some (suffix, star, digits) := by
    rw [Repeat.chordStar, Repeat.splitLastStar_append hclosed hcount.star_eq
      (mt mem_of_mem_unquoted hcount.star_not_mem)]
    refine Option.filter_eq_some_iff.2 ⟨rfl, List.all_eq_true.2 fun digit hmem => ?_⟩
    rw [bne_iff_ne]
    rintro hchar
    exact hcount.star_not_mem (hchar ▸ List.mem_map_of_mem hmem)
  have hwhole : BlanksQuoted false (suffix ++ star :: digits) :=
    blanksQuoted_append.2 ⟨hword, hcount.blanksQuoted⟩
  rw [List.append_assoc, List.cons_append, Repeat.chordPass, Repeat.writeChords]
  split
  case h_1 hnone =>
    rw [hfound] at hnone
    cases hnone
  case h_2 body' after' hfound' =>
    rw [hfound] at hfound'
    cases hfound'
    dsimp only
    rw [splitWord_of_blanksQuoted hwhole]
    rcases Repeat.writeChord_cases size hstar hcount.readWordCount_eq with
      ⟨size', hwrite⟩ | ⟨offset, hlong⟩
    · rw [hwrite]
      dsimp only
      rw [Repeat.writeChords]
      exact .inl (by simp)
    · rw [hlong]
      exact .inr ⟨offset, rfl⟩

end Stave.Shorthand
