import Mathlib.Algebra.Group.Nat.Defs
import Stave.Proofs.Chain
import Stave.Shorthand.PostEvent

/-!
# The grammar of post-events and suffixes

How a post-event, a run of them and a suffix are written, as relations that do not mention the
reader: each has a case for every form, with the text of that form and what it means. The reader
cuts off as much as it can at every step. It never cuts too much, because what comes after a
command begins with no letter, and what comes after digits or dots with no digit and no dot; so it
accepts the texts of the grammar and no others, and each with its meaning.

## Main statements

* `PostEvent.readRun_eq_ok_iff`: a run of post-events is read if and only if it is written as one.
* `PostEvent.readRun_append_iff`: after a run of post-events, a text is read as it is alone.
* `Suffix.read_eq_ok_iff`: the same of a suffix.
-/
namespace Stave.Shorthand

variable {c : Char} {cs first rest after : List Char}

/-! ### Runs of one class of characters -/

theorem takeWhile_append_of_class {p : Char → Bool} (hfirst : ∀ c ∈ first, p c = true)
    (hrest : ∀ c ∈ rest.head?, p c = false) : (first ++ rest).takeWhile p = first := by
  rw [List.takeWhile_append_of_pos hfirst]
  cases rest with
  | nil => simp
  | cons c rest => rw [List.takeWhile_cons_of_neg (by simp [hrest c rfl]), List.append_nil]

theorem dropWhile_append_of_class {p : Char → Bool} (hfirst : ∀ c ∈ first, p c = true)
    (hrest : ∀ c ∈ rest.head?, p c = false) : (first ++ rest).dropWhile p = rest := by
  rw [List.dropWhile_append_of_pos hfirst]
  cases rest with
  | nil => rfl
  | cons c rest => rw [List.dropWhile_cons_of_neg (by simp [hrest c rfl])]

/-! ### Post-events -/

/-- The signs that attach an articulation or a text. -/
def directionSigns : List Char := ['-', '^', '_']

/-- The characters that begin a run of post-events. -/
def postEventHeads : List Char := ['\\', '~', '(', ')', '-', '^', '_']

/-- The characters that begin a suffix. -/
def suffixHeads : List Char :=
  ['0', '1', '2', '3', '4', '5', '6', '7', '8', '9'] ++ postEventHeads

namespace PostEvent

variable {event : PostEvent} {events : List PostEvent}

/-- How a post-event is written. -/
inductive WrittenAs : PostEvent → List Char → Prop where
  | tie : WrittenAs .tie ['~']
  | slurOpen : WrittenAs .slurOpen ['(']
  | slurClose : WrittenAs .slurClose [')']
  | crescendo : WrittenAs (.rampStart .crescendo) ['\\', '<']
  | diminuendo : WrittenAs (.rampStart .diminuendo) ['\\', '>']
  | rampStop : WrittenAs .rampStop ['\\', '!']
  | command {name : List Char} {event : PostEvent}
      (named : ofCommand? (String.ofList name) = some event) : WrittenAs event ('\\' :: name)
  | articulation {sign symbol : Char} {mark : Articulation} (signed : sign ∈ directionSigns)
      (named : Articulation.ofSymbol? symbol = some mark) :
      WrittenAs (.articulation mark) [sign, symbol]
  | text {sign : Char} {inside : List Char} (signed : sign ∈ directionSigns)
      (unquoted : '"' ∉ inside) :
      WrittenAs (.text ⟨String.ofList inside, if sign = '_' then .below else .above⟩)
        (sign :: '"' :: (inside ++ ['"']))

/-- How a run of post-events is written: one after the other. -/
inductive RunWrittenAs : List PostEvent → List Char → Prop where
  | nil : RunWrittenAs [] []
  | cons {event : PostEvent} {events : List PostEvent} {first rest : List Char}
      (head : event.WrittenAs first) (tail : RunWrittenAs events rest) :
      RunWrittenAs (event :: events) (first ++ rest)

/-- A command is a word of letters. -/
theorem isAlpha_of_ofCommand? {name : List Char}
    (h : ofCommand? (String.ofList name) = some event) : ∀ c ∈ name, c.isAlpha = true := by
  have hcommands : ∀ entry ∈ commands, ∀ c ∈ entry.1.toList, c.isAlpha = true := by
    simp [commands]
  have hlevels : ∀ entry ∈ Dynamic.levels, ∀ c ∈ entry.1.toList, c.isAlpha = true := by
    simp [Dynamic.levels]
  unfold ofCommand? at h
  split at h
  case h_1 found hfound =>
    obtain ⟨before, after, heq, -⟩ := List.lookup_eq_some_iff.1 hfound
    simpa using hcommands (String.ofList name, found) (by simp [heq])
  case h_2 =>
    obtain ⟨mark, hmark, -⟩ := Option.map_eq_some_iff.1 h
    obtain ⟨level, hlevel, -⟩ := Option.map_eq_some_iff.1 hmark
    obtain ⟨before, after, heq, -⟩ := List.lookup_eq_some_iff.1 hlevel
    simpa using hlevels (String.ofList name, level) (by simp [heq])

theorem mem_postEventHeads_of_sign (h : c ∈ directionSigns) : c ∈ postEventHeads :=
  List.mem_append_right ['\\', '~', '(', ')'] h

theorem WrittenAs.head_mem (h : event.WrittenAs cs) : ∃ c tail, cs = c :: tail ∧
    c ∈ postEventHeads := by
  cases h with
  | articulation signed named => exact ⟨_, _, rfl, mem_postEventHeads_of_sign signed⟩
  | text signed unquoted => exact ⟨_, _, rfl, mem_postEventHeads_of_sign signed⟩
  | _ => exact ⟨_, _, rfl, by decide⟩

theorem RunWrittenAs.head_mem (h : RunWrittenAs events cs) :
    ∀ c ∈ cs.head?, c ∈ postEventHeads := by
  cases h with
  | nil => exact nofun
  | cons head tail =>
    obtain ⟨c, others, rfl, hc⟩ := head.head_mem
    rintro _ ⟨⟩
    exact hc

/-- No letter, no digit and no dot begins a run of post-events. -/
theorem not_class_of_mem_postEventHeads (h : c ∈ postEventHeads) :
    c.isAlpha = false ∧ c.isDigit = false ∧ c ≠ '.' := by
  have hall : ∀ d ∈ postEventHeads, d.isAlpha = false ∧ d.isDigit = false ∧ d ≠ '.' := by
    simp [postEventHeads]
  exact hall c h

theorem not_isAlpha_of_head_mem (h : ∀ c ∈ cs.head?, c ∈ postEventHeads) :
    ∀ c ∈ cs.head?, c.isAlpha = false :=
  fun c hc => (not_class_of_mem_postEventHeads (h c hc)).1

/-! The reader takes what is written, and leaves what comes after it. -/

theorem readCommand_name {name : List Char}
    (h : ofCommand? (String.ofList name) = some event)
    (hafter : ∀ c ∈ after.head?, c.isAlpha = false) :
    readCommand (name ++ after) = .ok (event, after) := by
  have hletters := isAlpha_of_ofCommand? h
  cases name with
  | nil => cases h
  | cons c name =>
    have hhead : c ≠ '<' ∧ c ≠ '>' ∧ c ≠ '!' := by
      have hletter := hletters c List.mem_cons_self
      refine ⟨?_, ?_, ?_⟩ <;> rintro rfl <;> cases hletter
    have hname : (c :: name ++ after).takeWhile Char.isAlpha = c :: name :=
      takeWhile_append_of_class hletters hafter
    have hdrop : (c :: name ++ after).dropWhile Char.isAlpha = after :=
      dropWhile_append_of_class hletters hafter
    unfold readCommand
    split
    · simp_all
    · simp_all
    · simp_all
    · rw [hname, hdrop, h]

theorem readAttached_articulation {sign symbol : Char} {mark : Articulation}
    (h : Articulation.ofSymbol? symbol = some mark) (after : List Char) :
    readAttached sign (symbol :: after) = .ok (.articulation mark, after) := by
  have hquote : symbol ≠ '"' := by
    rintro rfl
    cases h
  rw [readAttached, if_neg hquote, h]

theorem readAttached_text {sign : Char} {inside : List Char} (h : '"' ∉ inside)
    (after : List Char) :
    readAttached sign ('"' :: (inside ++ '"' :: after)) =
      .ok (.text ⟨String.ofList inside, if sign = '_' then .below else .above⟩, after) := by
  rw [readAttached, if_pos rfl, readQuoted, Text.splitAtFirst?_append h]

theorem readOne_sign {sign : Char} (h : sign ∈ directionSigns) (cs : List Char) :
    readOne sign cs = readAttached sign cs := by
  simp only [directionSigns, List.mem_cons, List.not_mem_nil, or_false] at h
  rcases h with rfl | rfl | rfl <;> rfl

/-- A post-event is read as what it is written for, if no letter comes after it. -/
theorem WrittenAs.readOne_eq (h : event.WrittenAs (c :: cs))
    (hafter : ∀ c ∈ after.head?, c.isAlpha = false) :
    readOne c (cs ++ after) = .ok (event, after) := by
  generalize htext : c :: cs = text at h
  cases h with
  | command named =>
    cases htext
    exact readCommand_name named hafter
  | articulation signed named =>
    cases htext
    rw [readOne_sign signed]
    exact readAttached_articulation named after
  | text signed unquoted =>
    cases htext
    rw [readOne_sign signed, List.cons_append, List.append_assoc]
    exact readAttached_text unquoted after
  | _ =>
    cases htext
    rfl

/-! What the reader takes is written so. -/

theorem exists_writtenAs_of_readCommand (h : readCommand cs = .ok (event, after)) :
    ∃ text, '\\' :: cs = text ++ after ∧ event.WrittenAs text := by
  unfold readCommand at h
  split at h
  · cases h
    exact ⟨_, rfl, .crescendo⟩
  · cases h
    exact ⟨_, rfl, .diminuendo⟩
  · cases h
    exact ⟨_, rfl, .rampStop⟩
  · split at h
    case h_1 named =>
      cases h
      refine ⟨_, ?_, .command named⟩
      rw [List.cons_append, List.takeWhile_append_dropWhile]
    case h_2 => cases h

theorem exists_writtenAs_of_readAttached {sign : Char} (signed : sign ∈ directionSigns)
    (h : readAttached sign cs = .ok (event, after)) :
    ∃ text, sign :: cs = text ++ after ∧ event.WrittenAs text := by
  unfold readAttached at h
  split at h
  · cases h
  case h_2 symbol rest =>
    by_cases hquote : symbol = '"'
    · rw [if_pos hquote] at h
      unfold readQuoted at h
      split at h
      case h_1 inside behind hsplit =>
        cases h
        refine ⟨_, ?_, .text signed (Text.not_mem_of_splitAtFirst? hsplit)⟩
        rw [hquote, Text.eq_append_of_splitAtFirst? hsplit]
        simp
      case h_2 => cases h
    · rw [if_neg hquote] at h
      split at h
      case h_1 mark named =>
        cases h
        exact ⟨_, rfl, .articulation signed named⟩
      case h_2 => cases h

theorem exists_writtenAs_of_readOne (h : readOne c cs = .ok (event, after)) :
    ∃ text, c :: cs = text ++ after ∧ event.WrittenAs text := by
  unfold readOne at h
  split at h
  · cases h
    exact ⟨_, rfl, .tie⟩
  · cases h
    exact ⟨_, rfl, .slurOpen⟩
  · cases h
    exact ⟨_, rfl, .slurClose⟩
  · exact exists_writtenAs_of_readCommand h
  · exact exists_writtenAs_of_readAttached (by decide) h
  · exact exists_writtenAs_of_readAttached (by decide) h
  · exact exists_writtenAs_of_readAttached (by decide) h
  · cases h

theorem runWrittenAs_of_readRun (h : readRun cs = .ok events) : RunWrittenAs events cs := by
  fun_induction readRun cs generalizing events with
  | case1 =>
    cases h
    exact .nil
  | case2 => cases h
  | case3 => cases h
  | case4 first rest event after hread tail htail ih =>
    cases h
    obtain ⟨text, heq, head⟩ := exists_writtenAs_of_readOne hread
    rw [heq]
    exact .cons head (ih htail)

/-- A post-event is read first, if no letter comes after it. -/
theorem WrittenAs.readRun_append (h : event.WrittenAs first)
    (hrest : ∀ c ∈ rest.head?, c.isAlpha = false) :
    readRun (first ++ rest) = (readRun rest).map (event :: ·) := by
  obtain ⟨c, others, rfl, -⟩ := h.head_mem
  have hone : readOne c (others ++ rest) = .ok (event, rest) := h.readOne_eq hrest
  rw [List.cons_append, readRun]
  split
  case h_1 hfail =>
    rw [hone] at hfail
    cases hfail
  case h_2 found behind hfound =>
    rw [hone] at hfound
    cases hfound
    cases readRun rest <;> rfl

/-- A run of post-events is read first, if no letter comes after it; then the rest is read as if
it stood alone, its error included. -/
theorem RunWrittenAs.readRun_append (h : RunWrittenAs events cs)
    (hrest : ∀ c ∈ rest.head?, c.isAlpha = false) :
    readRun (cs ++ rest) = (readRun rest).map (events ++ ·) := by
  induction h with
  | nil =>
    rw [List.nil_append]
    cases readRun rest <;> rfl
  | @cons event events first others head tail ih =>
    -- what comes after the first post-event is the next one, or the rest
    have hnext : ∀ c ∈ (others ++ rest).head?, c.isAlpha = false := by
      intro c hc
      cases others with
      | nil => exact hrest c hc
      | cons d others => exact not_isAlpha_of_head_mem tail.head_mem c hc
    rw [List.append_assoc, head.readRun_append hnext, ih]
    cases readRun rest <;> rfl

theorem RunWrittenAs.readRun_eq (h : RunWrittenAs events cs) : readRun cs = .ok events := by
  have hread : readRun (cs ++ []) = (readRun []).map (events ++ ·) := h.readRun_append nofun
  rw [List.append_nil, readRun] at hread
  rw [hread]
  exact congrArg Except.ok (List.append_nil events)

/-- The runs of post-events are those the grammar has. -/
theorem readRun_eq_ok_iff : readRun cs = .ok events ↔ RunWrittenAs events cs :=
  ⟨runWrittenAs_of_readRun, RunWrittenAs.readRun_eq⟩

/-- **Runs of post-events are put together and taken apart.** After a run that is read, another
text is read if and only if the two together are and the other begins as a run does; the events of
the two together are then those of the first and those of the other. -/
theorem readRun_append_iff {all : List PostEvent} (hfirst : readRun first = .ok events) :
    readRun (first ++ rest) = .ok all ∧ (∀ c ∈ rest.head?, c ∈ postEventHeads) ↔
      ∃ others, readRun rest = .ok others ∧ all = events ++ others := by
  have hwritten := runWrittenAs_of_readRun hfirst
  constructor
  · rintro ⟨hall, hheads⟩
    rw [hwritten.readRun_append (not_isAlpha_of_head_mem hheads)] at hall
    obtain ⟨others, hothers, heq⟩ := map_ok_iff.1 hall
    exact ⟨others, hothers, heq.symm⟩
  · rintro ⟨others, hothers, rfl⟩
    have hheads : ∀ c ∈ rest.head?, c ∈ postEventHeads :=
      (runWrittenAs_of_readRun hothers).head_mem
    refine ⟨?_, hheads⟩
    rw [hwritten.readRun_append (not_isAlpha_of_head_mem hheads), hothers]
    rfl

/-- A marcato before a sign of its own, a command before a sign, and a text with marks in it. -/
theorem readRun_append_iff_marcato :
    readRun "-^\\cresc".toList = .ok [.articulation .marcato, .rampStart .crescendo] ∧
      readRun "^._\"\\f~\"\\mf".toList =
        .ok [.articulation .staccato, .text ⟨"\\f~", .below⟩, .dynamic ⟨"mf", 4⟩] ∧
      readRun ("-^\\cresc".toList ++ "^._\"\\f~\"\\mf".toList) =
        .ok [.articulation .marcato, .rampStart .crescendo, .articulation .staccato,
          .text ⟨"\\f~", .below⟩, .dynamic ⟨"mf", 4⟩] := by
  have hfirst : readRun "-^\\cresc".toList =
      .ok [.articulation .marcato, .rampStart .crescendo] :=
    toOption_eq_some_iff.1 (by decide +kernel)
  have hothers : readRun "^._\"\\f~\"\\mf".toList =
      .ok [.articulation .staccato, .text ⟨"\\f~", .below⟩, .dynamic ⟨"mf", 4⟩] :=
    toOption_eq_some_iff.1 (by decide +kernel)
  exact ⟨hfirst, hothers, ((readRun_append_iff hfirst).2 ⟨_, hothers, rfl⟩).1⟩

/-- A command takes a letter that comes after it, which alone would not be read. -/
example : readRun "\\f".toList = .ok [.dynamic ⟨"f", 5⟩] ∧
    readRun ("\\f".toList ++ "f".toList) = .ok [.dynamic ⟨"ff", 6⟩] ∧
      readRun "f".toList = .error (.unexpectedChar 'f') := ⟨by cbv, by cbv, by cbv⟩

end PostEvent

/-! ### Suffixes -/

/-- How a length is written: a power of two up to 128 in digits and then any number of dots, or
nothing at all. -/
inductive NoteLength.WrittenAs : Option NoteLength → List Char → Prop where
  | none : WrittenAs none []
  | some {digits : List Char} {exponent : Nat} (dots : Nat)
      (numeral : ∀ c ∈ digits, c.isDigit = true) (small : exponent ≤ 7)
      (value : Text.digitsValue digits = 2 ^ exponent) :
      WrittenAs (some ⟨256 / Text.digitsValue digits, min dots 255⟩)
        (digits ++ List.replicate dots '.')

/-- How a suffix is written: a length, if it has one, and its post-events. -/
inductive Suffix.WrittenAs : Suffix → List Char → Prop where
  | mk {length : Option NoteLength} {post : List PostEvent} {first rest : List Char}
      (timed : NoteLength.WrittenAs length first) (events : PostEvent.RunWrittenAs post rest) :
      WrittenAs ⟨length, post⟩ (first ++ rest)

/-- The digits of durations are the powers of two up to 128. -/
theorem digitUnits?_eq_some_iff {digit base : Nat} :
    digitUnits? digit = some base ↔
      (∃ exponent ≤ 7, digit = 2 ^ exponent) ∧ base = 256 / digit := by
  have hpowers : digit ∈ [1, 2, 4, 8, 16, 32, 64, 128] ↔ ∃ exponent ≤ 7, digit = 2 ^ exponent := by
    constructor
    · intro hmem
      have hall : ∀ d ∈ [1, 2, 4, 8, 16, 32, 64, 128], ∃ exponent ≤ 7, d = 2 ^ exponent := by decide
      exact hall digit hmem
    · rintro ⟨exponent, hle, rfl⟩
      have hall : ∀ e ≤ 7, 2 ^ e ∈ [1, 2, 4, 8, 16, 32, 64, 128] := by decide
      exact hall exponent hle
  rw [← hpowers, digitUnits?, wholeUnits]
  split
  case isTrue hmem => simp [hmem, eq_comm]
  case isFalse hmem => simp [hmem]

/-- A run of digits is read as its value, unless that is too large. -/
theorem natural?_eq_some_iff {digits : List Char} {largest n : Nat} (hne : digits ≠ [])
    (hdigits : ∀ c ∈ digits, c.isDigit = true) :
    Text.natural? largest digits = some n ↔ n = Text.digitsValue digits ∧ n ≤ largest := by
  obtain ⟨first, rest, rfl⟩ := List.exists_cons_of_ne_nil hne
  have hvalue : Text.digits? (first :: rest) = some (Text.digitsValue (first :: rest)) := by
    rw [Text.digits?, if_pos]
    simpa using hdigits
  unfold Text.natural?
  split
  case h_1 rest heq =>
    -- a plus sign is no digit
    cases heq
    exact absurd (hdigits '+' List.mem_cons_self) (by decide)
  case h_2 =>
    change (Text.digits? (first :: rest)).filter _ = some n ↔ _
    rw [hvalue, Option.filter_eq_some_iff, Option.some.injEq, decide_eq_true_eq, eq_comm]

namespace Suffix

variable {suffix : Suffix} {digits : List Char} {dots : Nat} {length : Option NoteLength}

theorem lengthOf_digits {exponent : Nat} (numeral : ∀ c ∈ digits, c.isDigit = true)
    (small : exponent ≤ 7) (value : Text.digitsValue digits = 2 ^ exponent) :
    lengthOf digits dots = .ok (some ⟨256 / Text.digitsValue digits, min dots 255⟩) := by
  have hne : digits ≠ [] := by
    rintro rfl
    exact absurd value (Nat.ne_of_lt (Nat.two_pow_pos exponent))
  have hsmall : Text.digitsValue digits ≤ Text.largestCount := by
    have hle : 2 ^ exponent ≤ 2 ^ 7 := Nat.pow_le_pow_right (by decide) small
    rw [value]
    exact Nat.le_trans hle (by decide)
  have hnumber : Text.natural? Text.largestCount digits = some (Text.digitsValue digits) :=
    (natural?_eq_some_iff hne numeral).2 ⟨rfl, hsmall⟩
  have hunits : digitUnits? (Text.digitsValue digits) = some (256 / Text.digitsValue digits) :=
    digitUnits?_eq_some_iff.2 ⟨⟨exponent, small, value⟩, rfl⟩
  rw [lengthOf, if_neg (by simpa using hne), hnumber, Option.bind_some, hunits]
  rfl

theorem writtenAs_of_lengthOf (numeral : ∀ c ∈ digits, c.isDigit = true)
    (h : lengthOf digits dots = .ok length) :
    NoteLength.WrittenAs length (digits ++ List.replicate dots '.') := by
  unfold lengthOf at h
  by_cases hnone : digits = []
  · rw [if_pos (by simpa using hnone)] at h
    by_cases hdots : dots = 0
    · rw [if_pos hdots] at h
      cases h
      rw [hnone, hdots]
      exact .none
    · rw [if_neg hdots] at h
      cases h
  · rw [if_neg (by simpa using hnone)] at h
    split at h
    case h_1 base hbase =>
      cases h
      obtain ⟨n, hn, hunits⟩ := Option.bind_eq_some_iff.1 hbase
      obtain ⟨rfl, -⟩ := (natural?_eq_some_iff hnone numeral).1 hn
      obtain ⟨⟨exponent, small, value⟩, rfl⟩ := digitUnits?_eq_some_iff.1 hunits
      exact .some dots numeral small value
    case h_2 => cases h

theorem WrittenAs.read_eq (h : suffix.WrittenAs cs) : Suffix.read cs = .ok suffix := by
  obtain @⟨length, post, first, rest, timed, events⟩ := h
  have hrest : ∀ c ∈ rest.head?, c.isDigit = false ∧ decide (c = '.') = false := by
    intro c hc
    obtain ⟨-, hdigit, hdot⟩ := PostEvent.not_class_of_mem_postEventHeads (events.head_mem c hc)
    exact ⟨hdigit, by simpa using hdot⟩
  -- the text is cut into digits, dots and post-events
  obtain ⟨digits, dots, rfl, numeral, hlength⟩ : ∃ digits dots,
      first = digits ++ List.replicate dots '.' ∧ (∀ c ∈ digits, c.isDigit = true) ∧
        lengthOf digits dots = .ok length := by
    cases timed with
    | none => exact ⟨[], 0, rfl, List.forall_mem_nil _, rfl⟩
    | @some digits exponent dots numeral small value =>
      exact ⟨digits, dots, rfl, numeral, lengthOf_digits numeral small value⟩
  have hpoints : ∀ c ∈ List.replicate dots '.', decide (c = '.') = true := fun c hmem => by
    rw [List.eq_of_mem_replicate hmem]
    rfl
  have hafter : ∀ c ∈ (List.replicate dots '.' ++ rest).head?, c.isDigit = false := by
    intro c hc
    cases dots with
    | zero => exact (hrest c hc).1
    | succ dots =>
      cases hc
      rfl
  rw [List.append_assoc, Suffix.read, takeWhile_append_of_class numeral hafter,
    dropWhile_append_of_class numeral hafter,
    takeWhile_append_of_class hpoints fun c hc => (hrest c hc).2,
    dropWhile_append_of_class hpoints fun c hc => (hrest c hc).2, List.length_replicate, hlength,
    events.readRun_eq]
  rfl

theorem writtenAs_of_read (h : Suffix.read cs = .ok suffix) : suffix.WrittenAs cs := by
  unfold Suffix.read at h
  dsimp only at h
  obtain ⟨length, hlength, h⟩ := bind_ok_iff.1 h
  obtain ⟨post, hpost, h⟩ := bind_ok_iff.1 h
  cases h
  have numeral : ∀ c ∈ cs.takeWhile Char.isDigit, c.isDigit = true :=
    List.all_eq_true.1 List.all_takeWhile
  have hpoints : (cs.dropWhile Char.isDigit).takeWhile (· = '.') =
      List.replicate ((cs.dropWhile Char.isDigit).takeWhile (· = '.')).length '.' :=
    List.eq_replicate_of_mem fun c hmem =>
      of_decide_eq_true (List.all_eq_true.1 List.all_takeWhile c hmem)
  have htext : cs = cs.takeWhile Char.isDigit ++
      (cs.dropWhile Char.isDigit).takeWhile (· = '.') ++
        (cs.dropWhile Char.isDigit).dropWhile (· = '.') := by
    rw [List.append_assoc, List.takeWhile_append_dropWhile, List.takeWhile_append_dropWhile]
  rw [htext]
  refine .mk ?_ (PostEvent.runWrittenAs_of_readRun hpost)
  rw [hpoints]
  exact writtenAs_of_lengthOf numeral hlength

/-- The suffixes are those the grammar has. -/
theorem read_eq_ok_iff : Suffix.read cs = .ok suffix ↔ suffix.WrittenAs cs :=
  ⟨writtenAs_of_read, WrittenAs.read_eq⟩

theorem mem_suffixHeads_of_isDigit (h : c.isDigit = true) : c ∈ suffixHeads := by
  obtain ⟨hlow, hhigh⟩ := Char.isDigit_iff_toNat.1 h
  have hdigits : ∀ code ∈ List.range' '0'.toNat 10, Char.ofNat code ∈ suffixHeads := by decide
  rw [← Char.ofNat_toNat c]
  exact hdigits c.toNat (List.mem_range'_1.2 ⟨hlow, Nat.lt_succ_of_le hhigh⟩)

theorem WrittenAs.head_mem (h : suffix.WrittenAs cs) : ∀ c ∈ cs.head?, c ∈ suffixHeads := by
  obtain ⟨timed, events⟩ := h
  cases timed with
  | none => exact fun c hc => List.mem_append_right _ (events.head_mem c hc)
  | @some digits exponent dots numeral small value =>
    cases digits with
    | nil => exact absurd value (Nat.ne_of_lt (Nat.two_pow_pos exponent))
    | cons digit digits =>
      rintro _ ⟨⟩
      exact mem_suffixHeads_of_isDigit (numeral digit List.mem_cons_self)

end Suffix

end Stave.Shorthand
