import Stave.Proofs.Brace.Pieces
import Stave.Proofs.Repeat.Unquoted

/-!
# The two spellings of a line with a brace

A line with blanks on one side of a brace can be spelled without them. Its expansion then
differs from that of the line as it stands only in these blanks and their copies, provided that a
repeat does not take the glued brace for a part of what it counts: once the groups are written
out, and once the chords are, every copy of the brace stands at the outer edge of its word, and
nothing is counted there.
-/
namespace Stave.Shorthand

/-- Where the symbols of a text were typed. -/
theorem Symbol.origin_of_mem_ofChars {symbol : Symbol} {start : Nat} {cs : List Char}
    (h : symbol ∈ Symbol.ofChars start cs) :
    start ≤ symbol.origin ∧ symbol.origin < start + Text.byteSize cs := by
  induction cs generalizing start with
  | nil => cases h
  | cons c cs ih =>
    have hsize := c.utf8Size_pos
    rw [Text.byteSize_cons]
    rcases List.mem_cons.1 h with rfl | hmem
    · exact ⟨Nat.le_refl _, by dsimp only; omega⟩
    · have hrest := ih hmem
      omega

/-- The passes keep what a line quotes. -/
theorem quotedAfterAll_of_expandGroups {line grouped : List Symbol}
    (h : Repeat.expandGroups line = .ok grouped) :
    quotedAfterAll false grouped = quotedAfterAll false line :=
  Repeat.quotedAfterAll_of_writeGroups (List.forall_mem_nil _) rfl h

theorem quotedAfterAll_of_expandChords {line chorded : List Symbol}
    (h : Repeat.expandChords line = .ok chorded) :
    quotedAfterAll false chorded = quotedAfterAll false line := by
  obtain ⟨chords, heq, hkept⟩ := Repeat.kept_writeChords h
  obtain rfl : chorded = chords := heq
  exact hkept.quoted_eq

theorem quotedAfterAll_of_expandSymbols {line out : List Symbol}
    (h : expandSymbols line = .ok out) :
    quotedAfterAll false out = quotedAfterAll false line := by
  unfold expandSymbols at h
  obtain ⟨grouped, hgroups, h⟩ := bind_ok_iff.1 h
  obtain ⟨chorded, hchords, hwords⟩ := bind_ok_iff.1 h
  obtain ⟨words, heq, hkept⟩ := Repeat.kept_writeWords hwords
  obtain rfl : out = words := heq
  rw [hkept.quoted_eq, quotedAfterAll_of_expandChords hchords,
    quotedAfterAll_of_expandGroups hgroups]

namespace Word

variable {symbols before rest word : List Symbol} {symbol : Symbol} {c : Char}

/-- What is asked of the words of a line is asked of their texts. -/
theorem forall_mem_split {p : List Symbol → Prop} {position : Nat} :
    (∀ word ∈ split position symbols, p word.symbols) ↔ ∀ word ∈ texts symbols, p word := by
  rw [texts, map_symbols_split 0 position, List.forall_mem_map]

/-- A word stands in its line, where nothing is quoted. -/
theorem exists_of_mem_texts (h : word ∈ texts symbols) :
    ∃ front back, symbols = front ++ (word ++ back) ∧ quotedAfterAll false front = false ∧
      word ≠ [] := by
  fun_induction split 0 symbols with
  | case1 =>
    rw [texts_nil] at h
    cases h
  | case2 position symbol rest hblank ih =>
    rw [texts_cons_of_isBlank hblank] at h
    obtain ⟨front, back, rfl, hquoted, hne⟩ := ih h
    refine ⟨symbol :: front, back, rfl, ?_, hne⟩
    rwa [quotedAfterAll_cons, Symbol.quotedAfter, not_isQuote_of_isBlank hblank]
  | case3 position symbol rest hblank tail ih =>
    rw [texts_cons_of_not_isBlank hblank, List.mem_cons] at h
    have hsplit : symbol :: rest = (symbol :: tail.1) ++ tail.2 :=
      congrArg (symbol :: ·) (Symbol.splitWord_append (symbol.quotedAfter false) rest).symm
    rcases h with rfl | h
    · exact ⟨[], tail.2, hsplit, rfl, List.cons_ne_nil _ _⟩
    · obtain ⟨front, back, hrest, hquoted, hne⟩ := ih h
      refine ⟨(symbol :: tail.1) ++ front, back, ?_, ?_, hne⟩
      · rw [hsplit, hrest, List.append_assoc]
      · rcases splitWord_rest (symbol.quotedAfter false) rest with hnil | ⟨hclosed, -⟩
        · have htail : tail.2 = [] := hnil
          rw [htail] at hrest
          simp [hne] at hrest
        · have hword : quotedAfterAll false (symbol :: tail.1) = false := hclosed
          rw [quotedAfterAll_append, hword, hquoted]

theorem mem_unquoted_of_mem_texts (h : word ∈ texts symbols)
    (hmem : c ∈ unquoted false (Symbol.chars word)) :
    c ∈ unquoted false (Symbol.chars symbols) := by
  obtain ⟨front, back, rfl, hquoted, -⟩ := exists_of_mem_texts h
  rw [unquoted_chars_append, hquoted, unquoted_chars_append]
  exact List.mem_append_right _ (List.mem_append_left _ hmem)

theorem mem_of_mem_texts (h : word ∈ texts symbols) (hmem : symbol ∈ word) : symbol ∈ symbols := by
  obtain ⟨front, back, rfl, -, -⟩ := exists_of_mem_texts h
  exact List.mem_append_right _ (List.mem_append_left _ hmem)

theorem mem_tail_of_mem_texts (h : word ∈ texts symbols) (hmem : symbol ∈ word.tail) :
    symbol ∈ symbols.tail := by
  obtain ⟨front, back, rfl, -, hne⟩ := exists_of_mem_texts h
  cases front with
  | nil =>
    rw [List.nil_append, List.tail_append_of_ne_nil hne]
    exact List.mem_append_left _ hmem
  | cons first front =>
    exact List.mem_append_right _ (List.mem_append_left _ (List.mem_of_mem_tail hmem))

theorem mem_dropLast_of_mem_texts (h : word ∈ texts symbols) (hmem : symbol ∈ word.dropLast) :
    symbol ∈ symbols.dropLast := by
  obtain ⟨front, back, rfl, -, hne⟩ := exists_of_mem_texts h
  rw [List.dropLast_append_of_ne_nil (List.append_ne_nil_of_left_ne_nil hne back)]
  refine List.mem_append_right _ ?_
  cases back with
  | nil => rwa [List.append_nil]
  | cons next back =>
    rw [List.dropLast_append_of_ne_nil (List.cons_ne_nil _ _)]
    exact List.mem_append_left _ (List.dropLast_subset _ hmem)

/-- A line that ends with a blank has the same words whatever comes after it. -/
theorem texts_append_of_blankLast (hopen : quotedAfterAll false before = false)
    (hlast : ∀ symbol ∈ before.getLast?, symbol.isBlank = true) :
    texts (before ++ rest) = texts before ++ texts rest := by
  rcases List.eq_nil_or_concat before with rfl | ⟨init, blank, rfl⟩
  · rw [texts_nil, List.nil_append, List.nil_append]
  · rw [List.concat_eq_append] at hopen hlast ⊢
    have hblank : blank.isBlank = true := by simpa using hlast
    rw [quotedAfterAll_append, quotedAfterAll_cons, Symbol.quotedAfter,
      not_isQuote_of_isBlank hblank] at hopen
    have hinit : quotedAfterAll false init = false := by simpa using hopen
    rw [List.append_assoc, List.singleton_append, texts_append hinit (blankNext_cons hblank),
      texts_append hinit (blankNext_cons hblank), texts_cons_of_isBlank hblank,
      texts_cons_of_isBlank hblank, texts_nil, List.append_nil]

end Word

/-- A line with a brace outside quotes and blanks on one side of it, which can be left out. A
closing brace is glued to what precedes it only. -/
structure SpacedBrace where
  side : Side
  before : String
  brace : Char
  blanks : String
  after : String
  char : brace = '\x7b' ∨ brace = '\x7d' ∧ side = .preceding
  blank : blanks.toList.all Text.isBlank = true
  closed : quotedChars false before.toList = false

namespace SpacedBrace

variable (line : SpacedBrace)

/-- The line with the blanks. -/
def loose : String :=
  match line.side with
  | .following => line.before ++ line.brace.toString ++ line.blanks ++ line.after
  | .preceding => line.before ++ line.blanks ++ line.brace.toString ++ line.after

/-- The line with the brace glued on. -/
def tight : String := line.before ++ line.brace.toString ++ line.after

/-- The blanks in the line. -/
def gap : Gap := ⟨line.side, Text.byteSize line.before.toList, Text.byteSize line.blanks.toList⟩

/-- Every copy of the brace stands at the outer edge of its word, and nothing is counted there:
asked of the words that the chords are found in, and of those that are counted then. -/
structure Outer : Prop where
  grouped : ∀ {grouped : List Symbol},
    Repeat.expandGroups (Symbol.ofChars 0 line.tight.toList) = .ok grouped →
      ∀ word ∈ Word.split 0 grouped, line.gap.AtEdge false word.symbols
  chorded : ∀ {grouped chorded : List Symbol},
    Repeat.expandGroups (Symbol.ofChars 0 line.tight.toList) = .ok grouped →
      Repeat.expandChords grouped = .ok chorded →
        ∀ word ∈ Word.split 0 chorded, line.gap.AtEdge true word.symbols

instance : Decidable line.Outer :=
  decidable_of_iff
    (∀ grouped ∈ (Repeat.expandGroups (Symbol.ofChars 0 line.tight.toList)).toOption,
      (∀ word ∈ Word.split 0 grouped, line.gap.AtEdge false word.symbols) ∧
        ∀ chorded ∈ (Repeat.expandChords grouped).toOption,
          ∀ word ∈ Word.split 0 chorded, line.gap.AtEdge true word.symbols)
    ⟨fun h => ⟨fun hgroups => (h _ (toOption_eq_some_iff.2 hgroups)).1, fun hgroups hchords =>
        (h _ (toOption_eq_some_iff.2 hgroups)).2 _ (toOption_eq_some_iff.2 hchords)⟩,
      fun h _ hgroups => ⟨h.grouped (toOption_eq_some_iff.1 hgroups), fun _ hchords =>
        h.chorded (toOption_eq_some_iff.1 hgroups) (toOption_eq_some_iff.1 hchords)⟩⟩

variable {line} in
theorem origin_lt_place {symbol : Symbol} (h : symbol ∈ Symbol.ofChars 0 line.before.toList) :
    symbol.origin < line.gap.place := by
  have hbefore := (Symbol.origin_of_mem_ofChars h).2
  rwa [Nat.zero_add] at hbefore

/-- Before the brace, nothing moves. -/
theorem map_moved_before :
    (Symbol.ofChars 0 line.before.toList).map (Symbol.moved line.gap.move) =
      Symbol.ofChars 0 line.before.toList := by
  refine (List.map_congr_left fun symbol hmem => ?_).trans (List.map_id _)
  rw [Symbol.moved, Gap.move, if_pos (.inl (origin_lt_place hmem))]
  rfl

/-- After the brace, everything moves by the blanks. -/
theorem map_moved_after {start : Nat} (hstart : line.gap.place < start) (cs : List Char) :
    (Symbol.ofChars start cs).map (Symbol.moved line.gap.move) =
      Symbol.ofChars (start + line.gap.width) cs := by
  rw [Symbol.ofChars_add]
  refine List.map_congr_left fun symbol hmem => ?_
  have hafter := (Symbol.origin_of_mem_ofChars hmem).1
  rw [Symbol.moved, Gap.move, if_neg (by omega)]
  rfl

/-- What is typed before the brace, the brace with its blanks, and what is typed after it. -/
theorem ofChars_loose :
    ∃ blanks, (∀ symbol ∈ blanks, symbol.isBlank = true) ∧
      Symbol.ofChars 0 line.loose.toList = Symbol.ofChars 0 line.before.toList ++
        (line.gap.spread (Symbol.moved line.gap.move ⟨line.brace, line.gap.place⟩) blanks ++
          (Symbol.ofChars (line.gap.place + line.brace.utf8Size) line.after.toList).map
            (Symbol.moved line.gap.move)) := by
  have hsize := line.brace.utf8Size_pos
  have hblanks (start : Nat) :
      ∀ symbol ∈ Symbol.ofChars start line.blanks.toList, symbol.isBlank = true := by
    intro symbol hmem
    refine List.all_eq_true.1 line.blank symbol.char ?_
    rw [← Symbol.chars_ofChars start line.blanks.toList]
    exact List.mem_map_of_mem hmem
  rw [line.map_moved_after (by omega), Symbol.moved]
  unfold loose gap Gap.spread Gap.move
  cases line.side with
  | following =>
    refine ⟨Symbol.ofChars (line.gap.place + line.brace.utf8Size) line.blanks.toList, hblanks _, ?_⟩
    simp [Symbol.ofChars_append, Symbol.ofChars, gap, Nat.add_assoc]
  | preceding =>
    refine ⟨Symbol.ofChars line.gap.place line.blanks.toList, hblanks _, ?_⟩
    simp [Symbol.ofChars_append, Symbol.ofChars, gap, Nat.add_right_comm]

theorem ofChars_tight :
    Symbol.ofChars 0 line.tight.toList = Symbol.ofChars 0 line.before.toList ++
      ⟨line.brace, line.gap.place⟩ ::
        Symbol.ofChars (line.gap.place + line.brace.utf8Size) line.after.toList := by
  simp [tight, Symbol.ofChars_append, Symbol.ofChars, gap]

variable {line} in
theorem place_lt_origin {symbol : Symbol}
    (h : symbol ∈ Symbol.ofChars (line.gap.place + line.brace.utf8Size) line.after.toList) :
    line.gap.place < symbol.origin :=
  Nat.lt_of_lt_of_le (Nat.lt_add_of_pos_right line.brace.utf8Size_pos)
    (Symbol.origin_of_mem_ofChars h).1

/-- No quotation is open at the brace. -/
theorem quotedAfterAll_before :
    quotedAfterAll false (Symbol.ofChars 0 line.before.toList) = false := by
  rw [quotedAfterAll_eq_quotedChars, Symbol.chars_ofChars, line.closed]

/-- The line as it is typed is the glued one, loosened. -/
theorem loosened :
    line.gap.Loosened false (Symbol.ofChars 0 line.tight.toList)
      (Symbol.ofChars 0 line.loose.toList) := by
  obtain ⟨blanks, hblanks, hloose⟩ := line.ofChars_loose
  have hbefore : line.gap.Loosened false (Symbol.ofChars 0 line.before.toList)
      (Symbol.ofChars 0 line.before.toList) := by
    have hmoved : line.gap.Loosened false _ _ := .of_typed fun symbol hmem =>
      Nat.ne_of_lt (origin_lt_place hmem)
    rwa [line.map_moved_before] at hmoved
  rw [line.ofChars_tight, hloose]
  refine hbefore.append ?_
  rw [line.quotedAfterAll_before]
  exact .brace ⟨rfl, line.char⟩ hblanks
    (.of_typed fun symbol hmem => (Nat.ne_of_lt (place_lt_origin hmem)).symm)

/-- Writing out the repeats leaves the line as it is typed reworded, unless it gets too long. -/
theorem follows_expandSymbols (houter : line.Outer)
    (hclosed : quotedAfterAll false (Symbol.ofChars 0 line.tight.toList) = false) :
    Follows line.gap.Reworded (expandSymbols (Symbol.ofChars 0 line.tight.toList))
      (expandSymbols (Symbol.ofChars 0 line.loose.toList)) := by
  unfold expandSymbols
  refine (Repeat.follows_expandGroups line.loosened).with_ok.bind ?_
  rintro grouped' grouped ⟨hgroups, hgrouped⟩
  have hgroupedClosed := (quotedAfterAll_of_expandGroups hgroups).trans hclosed
  have hgroupedSeat := Gap.seated_of_words 0 (houter.grouped hgroups)
  refine (Repeat.follows_expandChords hgrouped hgroupedClosed hgroupedSeat).with_ok.bind ?_
  rintro chorded' chorded ⟨hchords, hchorded⟩
  have hchordedClosed := (quotedAfterAll_of_expandChords hchords).trans hgroupedClosed
  have hchordedSeat := Gap.seated_of_words 0 (houter.chorded hgroups hchords)
  exact Repeat.follows_expandWords (Gap.reworded_of_loosened hchorded hchordedClosed hchordedSeat)

/-- The brace is a word of its own: on its other side stands a blank, or nothing. -/
def StandsAlone : Prop :=
  (match line.side with
    | .following => line.before.toList.getLast?
    | .preceding => line.after.toList.head?).all Text.isBlank = true

instance : Decidable line.StandsAlone := inferInstanceAs (Decidable (_ = true))

/-- Glued to a word from a word of its own, the brace stands at the outer edge of it. -/
theorem inner_of_standsAlone (halone : line.StandsAlone) :
    ∀ word ∈ Word.texts (Symbol.ofChars 0 line.tight.toList),
      ∀ symbol ∈ line.gap.inside word, symbol.origin ≠ line.gap.place := by
  intro word hword symbol hmem
  have hgap : line.gap.side = line.side := rfl
  rw [line.ofChars_tight] at hword
  unfold StandsAlone at halone
  rw [Gap.inside, hgap] at hmem
  cases hside : line.side with
  | following =>
    simp only [hside] at halone hmem
    have hlast : ∀ symbol ∈ (Symbol.ofChars 0 line.before.toList).getLast?,
        symbol.isBlank = true := by
      intro symbol hsymbol
      refine (Option.all_eq_true _ _).1 halone symbol.char ?_
      rw [← Symbol.chars_ofChars 0 line.before.toList, Symbol.chars, List.getLast?_map]
      exact Option.mem_map_of_mem _ hsymbol
    rw [Word.texts_append_of_blankLast line.quotedAfterAll_before hlast, List.mem_append] at hword
    rcases hword with hword | hword
    · exact Nat.ne_of_lt
        (origin_lt_place (Word.mem_of_mem_texts hword (List.mem_of_mem_tail hmem)))
    · exact (Nat.ne_of_lt (place_lt_origin (Word.mem_tail_of_mem_texts hword hmem))).symm
  | preceding =>
    simp only [hside] at halone hmem
    have hnext : BlankNext
        (Symbol.ofChars (line.gap.place + line.brace.utf8Size) line.after.toList) := by
      intro symbol hsymbol
      refine (Option.all_eq_true _ _).1 halone symbol.char ?_
      rw [← Symbol.chars_ofChars (line.gap.place + line.brace.utf8Size) line.after.toList,
        Symbol.chars, List.head?_map]
      exact Option.mem_map_of_mem _ hsymbol
    have hclosed : quotedAfterAll false
        (Symbol.ofChars 0 line.before.toList ++ [⟨line.brace, line.gap.place⟩]) = false := by
      have hbrace : line.gap.IsBrace ⟨line.brace, line.gap.place⟩ := ⟨rfl, line.char⟩
      rw [quotedAfterAll_append, line.quotedAfterAll_before]
      exact hbrace.quotedAfter false
    rw [← List.singleton_append, ← List.append_assoc, Word.texts_append hclosed hnext,
      List.mem_append] at hword
    rcases hword with hword | hword
    · have hbefore := Word.mem_dropLast_of_mem_texts hword hmem
      rw [List.dropLast_concat] at hbefore
      exact Nat.ne_of_lt (origin_lt_place hbefore)
    · exact (Nat.ne_of_lt
        (place_lt_origin (Word.mem_of_mem_texts hword (List.dropLast_subset _ hmem)))).symm

/-- A brace that is a word of its own may be glued in every line without repeats. -/
theorem outer_of_standsAlone (halone : line.StandsAlone)
    (hfree : ∀ c ∈ unquoted false line.tight.toList, c ∉ repeatSigns) : line.Outer := by
  have hchars := Symbol.chars_ofChars 0 line.tight.toList
  have hsign (c : Char) (hc : c ∈ repeatSigns) :
      c ∉ unquoted false (Symbol.chars (Symbol.ofChars 0 line.tight.toList)) := by
    rw [hchars]
    exact fun hmem => hfree c hmem hc
  have hstar := hsign '*' (by decide)
  have hedge (chorded : Bool) : ∀ word ∈ Word.split 0 (Symbol.ofChars 0 line.tight.toList),
      line.gap.AtEdge chorded word.symbols := by
    rw [Word.forall_mem_split (p := line.gap.AtEdge chorded)]
    exact fun word hword => ⟨line.inner_of_standsAlone halone word hword,
      fun _ _ hmem => hstar (Word.mem_unquoted_of_mem_texts hword hmem)⟩
  have hgroups : Repeat.expandGroups (Symbol.ofChars 0 line.tight.toList) =
      .ok (Symbol.ofChars 0 line.tight.toList) :=
    Repeat.writeGroups_eq_of_unquoted (hsign '[' (by decide)) (hsign ']' (by decide))
  have hchords : Repeat.expandChords (Symbol.ofChars 0 line.tight.toList) =
      .ok (Symbol.ofChars 0 line.tight.toList) := Repeat.writeChords_eq_of_unquoted hstar
  constructor
  · intro grouped hgrouped
    obtain rfl := Except.ok.inj (hgroups.symm.trans hgrouped)
    exact hedge false
  · intro grouped chorded hgrouped hchorded
    obtain rfl := Except.ok.inj (hgroups.symm.trans hgrouped)
    obtain rfl := Except.ok.inj (hchords.symm.trans hchorded)
    exact hedge true

end SpacedBrace

end Stave.Shorthand
