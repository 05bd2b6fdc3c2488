import Stave.Proofs.Chain
import Stave.Shorthand.Expansion

/-!
# Repeats are written out one at a time

Whatever the pass, writing out a line goes in steps: a stretch of the line that asks for a
repeat gives way to copies of a unit that stands in it, and all around it stays. `Step` says
what such a stretch looks like, a bracketed group with its count or a unit with a star and its
count. The copies are made of the very symbols of the unit, so what they came from is still the
one place where the unit was typed. What a group, a chord or a word is written out to is said
here once, and where it is reported if it cannot be.
-/
namespace Stave.Shorthand

namespace Repeat

/-- One repeat of a line is written out. -/
inductive Step : List Symbol → List Symbol → Prop where
  | group {before raw marks after : List Symbol} {bracket close : Symbol} {count : Nat}
      (opens : bracket.char = '[') (closes : close.char = ']')
      (counted : readCount close.origin (marks ++ after) = .ok (count, marks.length)) :
      Step (before ++ bracket :: (raw ++ close :: (marks ++ after)))
        (before ++ (copies (trimOne raw) count close.origin ++ after))
  | starred {before unit digits after : List Symbol} {star : Symbol} {count : Nat}
      (starred : star.char = '*') (counted : readWordCount star digits = .ok count) :
      Step (before ++ (unit ++ star :: (digits ++ after)))
        (before ++ (copies unit count star.origin ++ after))

variable {size used count offset : Nat} {symbols unit line out : List Symbol}
  {failure : RepeatFailure} {symbol : Symbol}

@[simp] theorem copies_zero (unit : List Symbol) (offset : Nat) : copies unit 0 offset = [] := rfl

/-- The first copy stands as it is, every other one after a space. -/
theorem copies_succ (unit : List Symbol) (count offset : Nat) :
    copies unit (count + 1) offset =
      unit ++ (List.replicate count (⟨' ', offset⟩ :: unit)).flatten := by
  induction count with
  | zero => simp [copies]
  | succ count ih =>
    have hnext : copies unit (count + 2) offset =
        unit ++ ⟨' ', offset⟩ :: copies unit (count + 1) offset := by
      simp [copies, List.replicate_succ]
    rw [hnext, ih, List.replicate_succ, List.flatten_cons, List.cons_append]

/-- Copies hold the symbols of the unit and, if there are several, joining spaces. -/
theorem mem_of_mem_copies (h : symbol ∈ copies unit count offset) :
    symbol ∈ unit ∨ symbol = ⟨' ', offset⟩ ∧ 1 < count := by
  cases count with
  | zero => simp at h
  | succ count =>
    rw [copies_succ, List.mem_append, List.mem_flatten] at h
    rcases h with h | ⟨copy, hcopy, h⟩
    · exact .inl h
    · obtain ⟨hcount, rfl⟩ := List.mem_replicate.1 hcopy
      exact (List.mem_cons.1 h).symm.imp_right fun hspace => ⟨hspace, by omega⟩

/-- A count is read off stars and digits, so it holds none of the other signs. -/
theorem char_ne_of_mark {mark : Symbol} {c : Char}
    (hmark : mark.char = '*' ∨ mark.char.isDigit = true) (hstar : c ≠ '*')
    (hdigit : c.isDigit = false) : mark.char ≠ c := by
  rintro rfl
  rcases hmark with hmark | hmark
  · exact hstar hmark
  · rw [hmark] at hdigit
    cases hdigit

theorem not_isQuote_of_mark {mark : Symbol}
    (hmark : mark.char = '*' ∨ mark.char.isDigit = true) : mark.isQuote = false :=
  beq_eq_false_iff_ne.2 (char_ne_of_mark hmark (by decide) (by decide))

/-- A count that is read asks for a copy; it stands at the head of the symbols, as a star and
digits. -/
theorem readCount_eq_ok (h : readCount offset symbols = .ok (count, used)) :
    0 < count ∧ ∃ marks after, symbols = marks ++ after ∧ used = marks.length ∧
      ∀ mark ∈ marks, mark.char = '*' ∨ mark.char.isDigit = true := by
  unfold readCount at h
  dsimp only at h
  generalize hstar : (symbols.head?.map (·.char == '*')).getD false = starred at h
  generalize hdigits :
    (if starred = true then symbols.drop 1 else symbols).takeWhile (·.char.isDigit) = digits at h
  split at h
  · cases h
  split at h
  · cases h
  split at h
  · cases h
  case isFalse hzero =>
    split at h
    · cases h
    · cases h
      refine ⟨Nat.pos_of_ne_zero hzero, ?_⟩
      have hall (tail : List Symbol) : ∀ mark ∈ tail.takeWhile (·.char.isDigit),
          mark.char = '*' ∨ mark.char.isDigit = true :=
        fun mark hmem => .inr (List.all_eq_true.1 List.all_takeWhile mark hmem)
      cases symbols with
      | nil => exact ⟨[], [], by simp_all⟩
      | cons first rest =>
        cases starred with
        | true =>
          refine ⟨first :: digits, rest.dropWhile (·.char.isDigit), ?_, ?_, ?_⟩
          · rw [← hdigits, List.cons_append]
            exact congrArg (first :: ·) List.takeWhile_append_dropWhile.symm
          · simp [Nat.add_comm]
          · rw [← hdigits]
            exact List.forall_mem_cons.2 ⟨.inl (by simpa using hstar), hall rest⟩
        | false =>
          refine ⟨digits, (first :: rest).dropWhile (·.char.isDigit), ?_, ?_, ?_⟩
          · rw [← hdigits]
            exact List.takeWhile_append_dropWhile.symm
          · simp
          · rw [← hdigits]
            exact hall (first :: rest)

/-- What a count is read off is stars and digits. -/
theorem mark_of_readCount {marks after : List Symbol}
    (h : readCount offset (marks ++ after) = .ok (count, marks.length)) :
    ∀ mark ∈ marks, mark.char = '*' ∨ mark.char.isDigit = true := by
  obtain ⟨-, read, rest, heq, hlength, hall⟩ := readCount_eq_ok h
  obtain ⟨rfl, -⟩ := List.append_inj heq hlength
  exact hall

/-- Trimming drops blanks at the ends. -/
theorem exists_trimOne_eq (symbols : List Symbol) :
    ∃ front back, symbols = front ++ (trimOne symbols ++ back) ∧
      (∀ symbol ∈ front, symbol.isBlank = true) ∧ ∀ symbol ∈ back, symbol.isBlank = true := by
  have hend (kept : List Symbol) :
      ∃ back, kept = (if (kept.getLast?.map Symbol.isBlank).getD false then kept.dropLast
          else kept) ++ back ∧ ∀ symbol ∈ back, symbol.isBlank = true := by
    split
    case isTrue hblank =>
      cases hlast : kept.getLast? with
      | none => simp [hlast] at hblank
      | some last =>
        obtain ⟨init, rfl⟩ := List.getLast?_eq_some_iff.1 hlast
        exact ⟨[last], by simp, by simpa using hblank⟩
    case isFalse => exact ⟨[], (List.append_nil _).symm, List.forall_mem_nil _⟩
  cases symbols with
  | nil => exact ⟨[], [], rfl, List.forall_mem_nil _, List.forall_mem_nil _⟩
  | cons symbol rest =>
    by_cases hblank : symbol.isBlank = true
    · obtain ⟨back, hback, hall⟩ := hend rest
      refine ⟨[symbol], back, ?_, by simpa using hblank, hall⟩
      simpa [trimOne, hblank] using hback
    · obtain ⟨back, hback, hall⟩ := hend (symbol :: rest)
      refine ⟨[], back, ?_, List.forall_mem_nil _, hall⟩
      simpa [trimOne, hblank] using hback

/-- Drop a blank in front. -/
def trimFront : List Symbol → List Symbol
  | [] => []
  | symbol :: rest => if symbol.isBlank then rest else symbol :: rest

/-- Drop a blank at the end. -/
def trimBack (symbols : List Symbol) : List Symbol :=
  if (symbols.getLast?.map Symbol.isBlank).getD false then symbols.dropLast else symbols

theorem trimOne_eq (symbols : List Symbol) : trimOne symbols = trimBack (trimFront symbols) := by
  cases symbols <;> rfl

theorem trimBack_concat (symbols : List Symbol) (last : Symbol) :
    trimBack (symbols ++ [last]) = if last.isBlank then symbols else symbols ++ [last] := by
  simp [trimBack]

theorem readCount_offset (h : readCount offset symbols = .error failure) :
    failure.offset = offset := by
  unfold readCount at h
  dsimp only at h
  generalize (symbols.head?.map (·.char == '*')).getD false = starred at h
  generalize (if starred = true then symbols.drop 1 else symbols).takeWhile (·.char.isDigit) =
    digits at h
  repeat' split at h
  all_goals
    cases h
    try rfl

theorem grow_offset {kept length : Nat} (h : grow kept length count offset = .error failure) :
    failure.offset = offset := by
  unfold grow at h
  dsimp only at h
  split at h
  · cases h; rfl
  · cases h

/-- A sign that asks for a repeat. -/
def IsSign (symbol : Symbol) : Prop := symbol.char ∈ ['[', ']', '*']

theorem not_isQuote_of_isSign (h : IsSign symbol) : symbol.isQuote = false := by
  rw [Symbol.isQuote, beq_eq_false_iff_ne]
  intro hquote
  rw [IsSign, hquote] at h
  exact absurd h (by decide)

theorem quotedAfter_of_isSign (h : IsSign symbol) (quoted : Bool) :
    symbol.quotedAfter quoted = quoted := by
  rw [Symbol.quotedAfter, not_isQuote_of_isSign h, Bool.bne_false]

/-! ### Groups -/

variable {group : OpenGroup} {groups : List OpenGroup} {quoted : Bool} {written : List Symbol}
  {bracket close : Symbol} {raw rest text : List Symbol}

/-- The line around the text of the innermost open group. -/
def enclose (groups : List OpenGroup) (inner : List Symbol) : List Symbol :=
  groups.foldl (fun inner group => group.before.reverse ++ group.bracket :: inner) inner

theorem exists_enclose_eq (groups : List OpenGroup) :
    ∃ before, ∀ inner, enclose groups inner = before ++ inner := by
  induction groups with
  | nil => exact ⟨[], fun _ => rfl⟩
  | cons group outer ih =>
    obtain ⟨before, hbefore⟩ := ih
    refine ⟨before ++ (group.before.reverse ++ [group.bracket]), fun inner => ?_⟩
    rw [List.append_assoc, List.append_assoc]
    exact hbefore _

theorem enclose_append (groups : List OpenGroup) (first second : List Symbol) :
    enclose groups (first ++ second) = enclose groups first ++ second := by
  obtain ⟨before, hbefore⟩ := exists_enclose_eq groups
  rw [hbefore, hbefore, List.append_assoc]

theorem enclose_cons (group : OpenGroup) (outer : List OpenGroup) (inner : List Symbol) :
    enclose (group :: outer) inner =
      enclose outer group.before.reverse ++ group.bracket :: inner :=
  enclose_append outer group.before.reverse (group.bracket :: inner)

/-- A group that closes gives way to copies of its text. -/
theorem closeGroup_eq_ok {size' : Nat}
    (h : closeGroup size bracket close raw rest = .ok (size', text, used)) :
    (trimOne raw).all Symbol.isBlank = false ∧
      ∃ count, readCount close.origin rest = .ok (count, used) ∧
        text = copies (trimOne raw) count close.origin := by
  unfold closeGroup at h
  obtain ⟨⟨count, read⟩, hcount, h⟩ := bind_ok_iff.1 h
  dsimp only at h
  split at h
  · cases h
  case isFalse hblank =>
    obtain ⟨grown, -, h⟩ := bind_ok_iff.1 h
    cases h
    exact ⟨by simpa using hblank, count, hcount, rfl⟩

theorem closeGroup_offset (h : closeGroup size bracket close raw rest = .error failure) :
    failure.offset = bracket.origin ∨ failure.offset = close.origin := by
  unfold closeGroup at h
  rcases bind_error_iff.1 h with hcount | ⟨⟨count, read⟩, -, h⟩
  · exact .inr (readCount_offset hcount)
  dsimp only at h
  split at h
  · cases h
    exact .inl rfl
  · rcases bind_error_iff.1 h with hgrow | ⟨grown, -, h⟩
    · exact .inr (grow_offset hgrow)
    · cases h

/-! ### Chords and words -/

variable {before after body tail word digits chord suffix : List Symbol} {star : Symbol}
  {previous : Char}

theorem splitLastStar_eq_some (h : splitLastStar quoted symbols = some (before, star, after)) :
    symbols = before ++ star :: after ∧ star.char = '*' := by
  induction symbols generalizing quoted before with
  | nil => cases h
  | cons symbol rest ih =>
    unfold splitLastStar at h
    split at h
    case h_1 found =>
      cases h
      obtain ⟨rfl, hstar⟩ := ih found
      exact ⟨rfl, hstar⟩
    case h_2 =>
      split at h
      case isTrue hstar =>
        cases h
        exact ⟨rfl, by simp_all⟩
      case isFalse => cases h

theorem readWordCount_eq_ok (h : readWordCount star digits = .ok count) :
    readCount star.origin digits = .ok (count, digits.length) := by
  unfold readWordCount at h
  obtain ⟨⟨read, used⟩, hcount, h⟩ := bind_ok_iff.1 h
  dsimp only at h
  split at h
  case isTrue hused =>
    cases h
    rw [hcount, hused]
  case isFalse => cases h

theorem mark_of_readWordCount (h : readWordCount star digits = .ok count) :
    ∀ mark ∈ digits, mark.char = '*' ∨ mark.char.isDigit = true := by
  have hread : readCount star.origin (digits ++ []) = .ok (count, digits.length) := by
    rw [List.append_nil, readWordCount_eq_ok h]
  exact mark_of_readCount hread

theorem readWordCount_offset (h : readWordCount star digits = .error failure) :
    failure.offset = star.origin := by
  unfold readWordCount at h
  rcases bind_error_iff.1 h with hcount | ⟨⟨read, used⟩, -, h⟩
  · exact readCount_offset hcount
  dsimp only at h
  split at h
  · cases h
  · cases h; rfl

theorem splitChord_eq_some (h : splitChord previous quoted symbols = some (body, after)) :
    symbols = body ++ after := by
  induction symbols generalizing previous quoted body with
  | nil => cases h
  | cons symbol rest ih =>
    unfold splitChord at h
    split at h
    · cases h
    split at h
    · cases h
      rfl
    · obtain ⟨⟨body, after⟩, hrest, heq⟩ := Option.map_eq_some_iff.1 h
      cases heq
      rw [List.cons_append, ← ih hrest]

theorem chordAt?_eq_some (h : chordAt? written quoted symbol rest = some (body, after)) :
    rest = body ++ after := by
  unfold chordAt? at h
  dsimp only at h
  split at h
  · exact splitChord_eq_some h
  · cases h

theorem chordStar_eq_some (h : chordStar tail = some (suffix, star, digits)) :
    tail = suffix ++ star :: digits ∧ star.char = '*' :=
  splitLastStar_eq_some (Option.filter_eq_some_iff.1 h).1

/-- A word with a star is copied, and any other stays. -/
theorem writeWord_eq_ok {size' : Nat} (h : writeWord size word = .ok (size', text)) :
    (splitLastStar false word = none ∧ text = word) ∨
      ∃ unit star digits count, splitLastStar false word = some (unit, star, digits) ∧
        unit ≠ [] ∧ readWordCount star digits = .ok count ∧
          text = copies unit count star.origin := by
  unfold writeWord at h
  split at h
  case h_1 hnone =>
    cases h
    exact .inl ⟨hnone, rfl⟩
  case h_2 unit star digits hstar =>
    split at h
    · cases h
    case isFalse hempty =>
      obtain ⟨count, hcount, h⟩ := bind_ok_iff.1 h
      obtain ⟨grown, -, h⟩ := bind_ok_iff.1 h
      cases h
      exact .inr ⟨unit, star, digits, count, hstar, by simpa using hempty, hcount, rfl⟩

/-- A word that cannot be written out is reported at its star. -/
theorem writeWord_offset (h : writeWord size word = .error failure) :
    ∃ unit star digits, splitLastStar false word = some (unit, star, digits) ∧
      failure.offset = star.origin := by
  unfold writeWord at h
  split at h
  · cases h
  case h_2 unit star digits hsplit =>
    refine ⟨unit, star, digits, hsplit, ?_⟩
    split at h
    · cases h; rfl
    rcases bind_error_iff.1 h with hcount | ⟨count, -, h⟩
    · exact readWordCount_offset hcount
    rcases bind_error_iff.1 h with hgrow | ⟨grown, -, h⟩
    · exact grow_offset hgrow
    · cases h

/-- A chord whose word has a star is copied with what stands before the star, and any other
stays. -/
theorem writeChord_eq_ok {size' : Nat} (h : writeChord size chord tail = .ok (size', text)) :
    (chordStar tail = none ∧ text = chord ++ tail) ∨
      ∃ suffix star digits count, chordStar tail = some (suffix, star, digits) ∧
        readWordCount star digits = .ok count ∧
        text = copies (chord ++ suffix) count star.origin := by
  unfold writeChord at h
  split at h
  case h_1 hnone =>
    cases h
    exact .inl ⟨hnone, rfl⟩
  case h_2 suffix star digits hstar =>
    obtain ⟨count, hcount, h⟩ := bind_ok_iff.1 h
    obtain ⟨grown, -, h⟩ := bind_ok_iff.1 h
    cases h
    exact .inr ⟨suffix, star, digits, count, hstar, hcount, rfl⟩

/-- A chord that cannot be written out is reported at its star. -/
theorem writeChord_offset (h : writeChord size chord tail = .error failure) :
    ∃ suffix star digits, chordStar tail = some (suffix, star, digits) ∧
      failure.offset = star.origin := by
  unfold writeChord at h
  split at h
  · cases h
  case h_2 suffix star digits hsplit =>
    refine ⟨suffix, star, digits, hsplit, ?_⟩
    rcases bind_error_iff.1 h with hcount | ⟨count, -, h⟩
    · exact readWordCount_offset hcount
    rcases bind_error_iff.1 h with hgrow | ⟨grown, -, h⟩
    · exact grow_offset hgrow
    · cases h

end Repeat

end Stave.Shorthand
