import Stave.Proofs.Expansion.Bounded
import Stave.Proofs.Token.Tiled
import Stave.Proofs.Tuplet.Fitting
import Stave.Proofs.WrittenLine.Tuplets

/-!
# Times of a line that fit

A line begins with the length that a line read before it left, so all its lengths are legible, and
with all their dots they fit. Tuplets are different: a ratio may have any two numbers that can be
read, and neither the product of a range with its ratio nor the sum of a bar is checked before it
is formed. Whether a text is left without an answer depends on these two alone; where there is
one, every number that was formed for it fits. A text cannot have more slots than characters, so
ratios have to be large for its length.
-/
namespace Stave.Shorthand

/-- What the first bar of a piece starts from, and what a line that is read leaves. -/
inductive LeftByReading : Carry → Prop where
  | initial : LeftByReading .initial
  | line {text : String} {instrument : Instrument} {prior : Carry} {frame : Frame}
      {written : WrittenLine} (before : LeftByReading prior)
      (read : readLine text instrument prior frame = .ok written) :
      LeftByReading written.line.closing

/-- The tuplets of a text and its slots, which are not scaled yet. -/
inductive ComesTo (text : String) (instrument : Instrument) (prior : Carry) (frame : Frame) :
    List TupletRange → List Slot → Prop where
  | finish {tokens : List Token} {groups : List TupletGroup} {draft : Draft}
      (read : readTokens text = .ok tokens)
      (scanned : TupletGroup.scan tokens (Ledger.scan tokens) = .ok groups)
      (taken : (Draft.start instrument prior frame).acceptAll instrument 0 tokens = .ok draft) :
      ComesTo text instrument prior frame (groups.map TupletGroup.range)
        (draft.resolvedSlots instrument)

/-- Reading stops without an answer at a number that does not fit. -/
def Overflows (text : String) (instrument : Instrument) (prior : Carry) (frame : Frame) : Prop :=
  ∃ offset, readLine text instrument prior frame = .error (.build ⟨.overflow, offset⟩)

/-- What can be said of the numbers formed for the times of a text. -/
structure TimesCounted (text : String) (instrument : Instrument) (prior : Carry)
    (frame : Frame) : Prop where
  /-- A slot lasts, and is drawn with, the units of its length, and these fit. -/
  drawn : ∀ tuplets slots, ComesTo text instrument prior frame tuplets slots → ∀ slot ∈ slots,
    slot.duration = slot.length.units ∧ slot.displayDuration = slot.length.units ∧
      slot.length.units < wordLimit
  /-- There is no answer just if the product of a tuplet does not fit, or the sum of the bar. -/
  overflows_iff : Overflows text instrument prior frame ↔
    ∃ tuplets slots, ComesTo text instrument prior frame tuplets slots ∧
      ((∃ range ∈ tuplets,
          wordLimit ≤ TupletRange.drawnUnits (range.slotsIn slots) * range.normal) ∨
        wordLimit ≤ sumOf ((scaleTuplets tuplets slots).map Slot.duration))
  /-- The slots of a line that is read last what they are scaled to, and all numbers fit. -/
  read : ∀ written, readLine text instrument prior frame = .ok written →
    ∃ tuplets slots, ComesTo text instrument prior frame tuplets slots ∧
      TimesFit tuplets slots ∧ (slots ≠ [] →
        written.line.slots.map Slot.times = (scaleTuplets tuplets slots).map Slot.times)
  /-- A line that does not fill its bar is said to last what its slots are scaled to. -/
  refused : ∀ expected actual offset,
    readLine text instrument prior frame = .error (.build ⟨.barLength expected actual, offset⟩) →
      ∃ tuplets slots, ComesTo text instrument prior frame tuplets slots ∧
        TimesFit tuplets slots ∧ actual = sumOf ((scaleTuplets tuplets slots).map Slot.duration)
  /-- There is an answer if the ratios are small for the length of the text: those below 128 are,
  if it has no more characters than an expansion may have. -/
  small : ∀ tokens factor, readTokens text = .ok tokens → 0 < factor →
    (∀ token ∈ tokens, ∀ actual normal, token.kind = .tuplet actual normal → normal ≤ factor) →
      max text.length Repeat.longestLine * (2 * wholeUnits) * factor < wordLimit →
        ¬Overflows text instrument prior frame

variable {text : String} {instrument : Instrument} {prior : Carry} {frame : Frame}
  {tokens : List Token} {draft : Draft} {groups : List TupletGroup} {offset : Nat}
  {position : Nat} {symbols : List Symbol} {pieces : List Piece} {expansion : Expansion}

/-! ### Lengths -/

theorem Suffix.WrittenAs.legible {suffix : Suffix} {cs : List Char} (h : suffix.WrittenAs cs) :
    ∀ length ∈ suffix.length, length.Legible := by
  obtain ⟨timed, -⟩ := h
  intro length hmem
  cases timed with
  | none => cases hmem
  | some dots numeral small value =>
    cases hmem
    exact ⟨_, digitUnits?_eq_some_iff.2 ⟨⟨_, small, value⟩, rfl⟩⟩

/-- A length written at a token that is read is legible. -/
theorem TokenKind.IsRead.legible {kind : TokenKind} (h : kind.IsRead) :
    ∀ length ∈ kind.length?, length.Legible := by
  cases h with
  | note written =>
    obtain ⟨-, -, -, -, -, ended⟩ := written
    exact ended.legible
  | rest written => exact written.legible
  | duration written => exact written.legible
  | chordEnd written => exact written.legible
  | _ => exact nofun

theorem LeftByReading.legible (h : LeftByReading prior) :
    ∀ length ∈ prior.lastLength, length.Legible := by
  induction h with
  | initial => exact nofun
  | line before read ih =>
    obtain ⟨tokens, htokens, hbuild⟩ := readLine_eq_ok.1 read
    obtain ⟨groups, draft, -, built, finished⟩ := exists_finished_of_buildLine hbuild
    have readAll := allRead_of_readTokens htokens
    have timed := built.timed ih fun token hmem => (readAll.isRead token hmem).legible
    cases finished with
    | rest => exact timed.last
    | slots => exact timed.last

/-- The slots of a draft have legible lengths and last what is written. -/
theorem Draft.Timed.resolvedSlots (h : draft.Timed NoteLength.Legible) (instrument : Instrument) :
    ∀ slot ∈ draft.resolvedSlots instrument, slot.length.Legible ∧ slot.AsWritten := by
  intro slot hmem
  have htimes := List.mem_map_of_mem (f := fun slot => (slot.length, slot.times)) hmem
  rw [draft.map_resolvedSlots _ (fun _ _ => rfl) instrument] at htimes
  obtain ⟨raw, hraw, heq⟩ := List.mem_map.1 htimes
  obtain ⟨hlength, hdurations⟩ := Prod.mk.inj heq
  obtain ⟨hduration, hdisplay⟩ := Prod.mk.inj hdurations
  have hwritten := h.asWritten raw (List.mem_reverse.1 hraw)
  rw [← hlength]
  refine ⟨h.lengths raw (List.mem_reverse.1 hraw), ?_, ?_⟩
  · rw [← hduration, ← hlength, hwritten.duration_eq]
  · rw [← hdisplay, ← hlength, hwritten.displayDuration_eq]

/-! ### Where reading stops -/

/-- No token is refused for a time that does not fit, if the length that is given at the start is
legible. -/
theorem acceptAll_ne_overflow (readAll : Token.AllRead false tokens)
    (hprior : ∀ length ∈ prior.lastLength, length.Legible) :
    (Draft.start instrument prior frame).acceptAll instrument 0 tokens ≠
      .error ⟨.overflow, offset⟩ := by
  intro h
  have hwritten : ∀ token ∈ tokens, ∀ length ∈ token.kind.length?, length.Legible :=
    fun token hmem => (readAll.isRead token hmem).legible
  cases Building.start.stops h with
  | @place read rest token draft split built refused =>
    subst split
    obtain ⟨hread, htoken⟩ := List.forall_mem_append.1 hwritten
    obtain ⟨hone, -⟩ := List.forall_mem_cons.1 htoken
    have timed := built.timed hprior hread
    cases Draft.unplaced_of_place refused with
    | @exceeds length given large =>
      have legible : length.Legible := by
        rcases Option.or_eq_some_iff.1 given with hgiven | ⟨-, hcarried⟩
        · exact hone length hgiven
        · exact timed.last length hcarried
      exact absurd legible.units_lt (Nat.not_lt.2 large)
    | misplaced fault => simp [Draft.misplacedFaults] at fault
  | attach split built last refused located =>
    rcases Draft.fault_of_attachOne refused with ⟨-, rfl⟩ | ⟨-, rfl⟩ <;> cases located

/-- Without slots there is nothing that does not fit. -/
theorem timesFit_of_empty (inside : ∀ group ∈ groups, group.range.Within draft.slots.length)
    (empty : draft.slots = []) :
    TimesFit (groups.map TupletGroup.range) (draft.resolvedSlots instrument) := by
  rw [eq_nil_of_groupsWithin inside empty, Draft.resolvedSlots_eq_nil empty]
  decide

/-- A draft whose times do not fit is refused for it, once its groups and chords are closed. -/
theorem finish_eq_overflow (closed : draft.chord = none)
    (inside : ∀ group ∈ groups, group.range.Within draft.slots.length)
    (exceed : ¬TimesFit (groups.map TupletGroup.range) (draft.resolvedSlots instrument)) :
    draft.finish instrument prior tokens (Ledger.scan tokens) groups =
      .error ⟨.overflow, Draft.lastOffset tokens⟩ := by
  have nonempty : draft.slots ≠ [] := fun empty => exceed (timesFit_of_empty inside empty)
  have htimes : Draft.checkTimes (Draft.lastOffset tokens) (groups.map TupletGroup.range)
      (draft.resolvedSlots instrument) = .error ⟨.overflow, Draft.lastOffset tokens⟩ :=
    Draft.checkTimes_eq_error.2 ⟨exceed, rfl⟩
  simp [Draft.finish, closed, nonempty, checkTuplets_eq_ok inside, htimes, bind, Except.bind]

/-! ### Slots are no more than characters -/

theorem Piece.Tiles.length_le (h : Piece.Tiles position symbols pieces)
    (hne : ∀ piece ∈ pieces, piece.symbols ≠ []) : pieces.length ≤ symbols.length := by
  induction h with
  | nil => exact Nat.zero_le _
  | cons blank position_eq others ih =>
    obtain ⟨hpiece, hpieces⟩ := List.forall_mem_cons.1 hne
    have hpos := List.length_pos_iff.2 hpiece
    have hrest := ih hpieces
    simp only [List.length_cons, List.length_append]
    omega

theorem Token.length_le_of_takes {shares : List (List Piece)}
    (h : List.Forall₂ Token.Takes tokens shares) : tokens.length ≤ shares.flatten.length := by
  induction h with
  | nil => exact Nat.zero_le _
  | cons takes others ih =>
    obtain ⟨piece, hmem, -⟩ := takes.exists_piece
    have hpos := List.length_pos_of_mem hmem
    rw [List.length_cons, List.flatten_cons, List.length_append]
    omega

theorem length_le_of_tokenize (h : tokenize expansion = .ok tokens) :
    tokens.length ≤ expansion.symbols.length := by
  obtain ⟨read, shares, hfound, htakes, hshares⟩ :=
    Token.exists_shares_of_readPieces (readPieces_of_tokenize h)
  obtain rfl : tokens = read := hfound
  have htokens := Token.length_le_of_takes htakes
  rw [hshares] at htokens
  exact Nat.le_trans htokens
    ((Piece.tiles_ofSymbols expansion.symbols).length_le fun _ => Piece.ne_nil_of_mem)

/-- A text has no more tokens than characters, unless it has repeats. -/
theorem length_le_of_readTokens (h : readTokens text = .ok tokens) :
    tokens.length ≤ max text.length Repeat.longestLine := by
  obtain ⟨expansion, hexpand, htokens⟩ := exists_expansion_of_readTokens h
  have hlength := length_le_of_tokenize htokens
  rcases within_of_expandSymbols (exists_expandSymbols_of_expand hexpand) with hsame | hlongest
  · have hsymbols : expansion.symbols.length = text.length := by
      rw [hsame, ← String.length_toList]
      simpa [Symbol.chars] using congrArg List.length (Symbol.chars_ofChars 0 text.toList)
    omega
  · omega

theorem Building.length_slots_le (readAll : Token.AllRead false tokens)
    (h : Building instrument (.start instrument prior frame) tokens draft []) :
    draft.slots.length ≤ tokens.length := by
  rw [h.length_slots readAll, Ledger.headsFrom_eq_filter_isRemoved]
  exact Nat.le_trans (List.length_filter_le _ _) (Nat.le_of_eq List.length_range)

/-! ### Times -/

/-- What slots of legible lengths are drawn with is bounded by their number. -/
theorem drawnUnits_le {slots : List Slot}
    (h : ∀ slot ∈ slots, slot.length.Legible ∧ slot.AsWritten) :
    TupletRange.drawnUnits slots ≤ slots.length * (2 * wholeUnits) := by
  induction slots with
  | nil => exact Nat.zero_le _
  | cons slot rest ih =>
    obtain ⟨⟨hlegible, hwritten⟩, hrest⟩ := List.forall_mem_cons.1 h
    have hslot := hlegible.units_le
    have hdrawn := hwritten.displayDuration_eq
    have hothers := ih hrest
    simp only [TupletRange.drawnUnits, List.map_cons, sumOf_cons, List.length_cons,
      Nat.add_mul] at hothers ⊢
    omega

namespace ComesTo

variable {tuplets : List TupletRange} {slots : List Slot}

theorem braced (h : ComesTo text instrument prior frame tuplets slots) :
    ∃ tokens, readTokens text = .ok tokens ∧ Braced tokens tuplets := by
  cases h with
  | finish read scanned => exact ⟨_, read, braced_of_scan scanned⟩

theorem within (h : ComesTo text instrument prior frame tuplets slots) :
    ∀ range ∈ tuplets, range.Within slots.length := by
  cases h with
  | finish read scanned taken =>
    have built := Building.start.append taken
    rw [Draft.length_resolvedSlots]
    exact List.forall_mem_map.2 (built.groupsWithin (allRead_of_readTokens read) scanned)

theorem positive (h : ComesTo text instrument prior frame tuplets slots) :
    ∀ range ∈ tuplets, 0 < range.actual ∧ 0 < range.normal := by
  obtain ⟨tokens, htokens, braced⟩ := h.braced
  exact braced.positive (allRead_of_readTokens htokens)

/-- The slots have legible lengths, if the line before has left one, and last what is written. -/
theorem asWritten (h : ComesTo text instrument prior frame tuplets slots)
    (hprior : LeftByReading prior) : ∀ slot ∈ slots, slot.length.Legible ∧ slot.AsWritten := by
  cases h with
  | finish read scanned taken =>
    have readAll := allRead_of_readTokens read
    have built := Building.start.append taken
    have timed := built.timed hprior.legible fun token hmem => (readAll.isRead token hmem).legible
    exact timed.resolvedSlots instrument

theorem length_le (h : ComesTo text instrument prior frame tuplets slots) :
    slots.length ≤ max text.length Repeat.longestLine := by
  cases h with
  | finish read scanned taken =>
    have built := Building.start.append taken
    rw [Draft.length_resolvedSlots]
    exact Nat.le_trans (built.length_slots_le (allRead_of_readTokens read))
      (length_le_of_readTokens read)

/-- Times do not fit just if a product does not, or the sum. -/
theorem not_timesFit_iff (h : ComesTo text instrument prior frame tuplets slots) :
    ¬TimesFit tuplets slots ↔
      (∃ range ∈ tuplets,
          wordLimit ≤ TupletRange.drawnUnits (range.slotsIn slots) * range.normal) ∨
        wordLimit ≤ sumOf ((scaleTuplets tuplets slots).map Slot.duration) := by
  rw [timesFit_iff h.positive, not_and_or]
  simp only [not_forall, Nat.not_lt, exists_prop]

/-- They fit if the ratios are small. -/
theorem timesFit (h : ComesTo text instrument prior frame tuplets slots)
    (hprior : LeftByReading prior) {factor : Nat} (hfactor : 0 < factor)
    (hnormal : ∀ range ∈ tuplets, range.normal ≤ factor)
    (hsmall : max text.length Repeat.longestLine * (2 * wholeUnits) * factor < wordLimit) :
    TimesFit tuplets slots := by
  obtain ⟨tokens, -, braced⟩ := h.braced
  have hslots := h.asWritten hprior
  have hdrawn : TupletRange.drawnUnits slots ≤
      max text.length Repeat.longestLine * (2 * wholeUnits) :=
    Nat.le_trans (drawnUnits_le hslots) (Nat.mul_le_mul_right _ h.length_le)
  refine timesFit_of_small (fun slot hmem => ?_) h.positive h.within
    (braced.pairwise fun range hmem => (h.within range hmem).start_le) hnormal
    (Nat.lt_of_le_of_lt (Nat.mul_le_mul_right factor hdrawn) hsmall)
  -- before any range is scaled every slot lasts what it is drawn with
  have hwritten := (hslots slot hmem).2
  rw [hwritten.duration_eq, hwritten.displayDuration_eq]
  exact Nat.le_mul_of_pos_right _ hfactor

end ComesTo

/-- There is no answer just where a text comes to times that do not fit. -/
theorem overflows_iff_exists_not_timesFit (hprior : LeftByReading prior) :
    Overflows text instrument prior frame ↔
      ∃ tuplets slots, ComesTo text instrument prior frame tuplets slots ∧
        ¬TimesFit tuplets slots := by
  constructor
  · rintro ⟨offset, h⟩
    obtain ⟨tokens, read, hbuild⟩ := readLine_eq_build.1 h
    cases stops_of_buildLine hbuild with
    | groups fault => simp [TupletGroup.scanFaults] at fault
    | run scanned fault refused =>
      exact absurd refused (acceptAll_ne_overflow (allRead_of_readTokens read) hprior.legible)
    | finish scanned taken refused =>
      cases refused with
      | times closed nonempty inside exceed => exact ⟨_, _, .finish read scanned taken, exceed⟩
  · rintro ⟨_, _, @⟨tokens, groups, draft, read, scanned, taken⟩, exceed⟩
    have readAll := allRead_of_readTokens read
    have built := Building.start.append taken
    have closed := (built.heads_eq_headsFrom readAll.alternate readAll.closed).1
    have hfinish : draft.finish instrument prior tokens (Ledger.scan tokens) groups =
        .error ⟨.overflow, Draft.lastOffset tokens⟩ :=
      finish_eq_overflow closed (built.groupsWithin readAll scanned) exceed
    exact ⟨_, readLine_eq_build.2 ⟨_, read, bind_error_iff.2 (.inr ⟨_, scanned,
      bind_error_iff.2 (.inr ⟨_, taken, hfinish⟩)⟩)⟩⟩

/-- **Whether a text has an answer depends on the products of its tuplets and the sum of its bar.**
Where there is an answer every number formed for it fits. -/
theorem LeftByReading.timesCounted (hprior : LeftByReading prior) (text : String)
    (instrument : Instrument) (frame : Frame) : TimesCounted text instrument prior frame := by
  have overflows_iff := @overflows_iff_exists_not_timesFit text instrument prior frame hprior
  constructor
  case drawn =>
    intro tuplets slots h slot hmem
    obtain ⟨legible, written⟩ := h.asWritten hprior slot hmem
    exact ⟨written.duration_eq, written.displayDuration_eq, legible.units_lt⟩
  case overflows_iff =>
    rw [overflows_iff]
    exact exists_congr fun _ => exists_congr fun _ => and_congr_right fun h => h.not_timesFit_iff
  case read =>
    intro written h
    obtain ⟨tokens, htokens, hbuild⟩ := readLine_eq_ok.1 h
    obtain ⟨groups, scanned, hbuild⟩ := bind_ok_iff.1 hbuild
    obtain ⟨draft, taken, hfinish⟩ := bind_ok_iff.1 hbuild
    refine ⟨_, _, .finish htokens scanned taken, ?_⟩
    cases finished_of_finish hfinish with
    | rest closed empty =>
      have inside := (Building.start.append taken).groupsWithin (allRead_of_readTokens htokens)
        scanned
      exact ⟨timesFit_of_empty inside empty,
        fun nonempty => absurd (Draft.resolvedSlots_eq_nil empty) nonempty⟩
    | slots closed nonempty inside fills fits =>
      exact ⟨fits, fun _ => draft.map_times_slotLine instrument _ prior.level _⟩
  case refused =>
    intro expected actual offset h
    obtain ⟨tokens, read, hbuild⟩ := readLine_eq_build.1 h
    cases stops_of_buildLine hbuild with
    | groups fault => simp [TupletGroup.scanFaults] at fault
    | run scanned fault =>
      simp [Building.runFaults, Draft.placeFaults, Draft.misplacedFaults] at fault
    | finish scanned taken refused =>
      cases refused with
      | length closed nonempty inside fits differs =>
        exact ⟨_, _, .finish read scanned taken, fits, rfl⟩
  case small =>
    intro tokens factor htokens hfactor hnormal hsmall hoverflows
    obtain ⟨tuplets, slots, h, exceed⟩ := overflows_iff.1 hoverflows
    obtain ⟨same, hsame, braced⟩ := h.braced
    rw [htokens] at hsame
    cases hsame
    refine exceed (h.timesFit hprior hfactor (fun range hmem => ?_) hsmall)
    obtain ⟨token, htoken, hkind⟩ := braced.exists_ratio hmem
    exact hnormal token htoken _ _ hkind

/-- A whole note in the ratio of a large number to itself would fill the bar, but its product is the
first number that does not fit. -/
theorem timesCounted_large_ratio :
    LeftByReading .initial ∧
      TimesCounted "\\tuplet 16777216/16777216 \x7b c1 \x7d" (.named "flute") .initial
        ⟨.common, .moderate⟩ ∧
      ∃ tuplets slots,
        ComesTo "\\tuplet 16777216/16777216 \x7b c1 \x7d" (.named "flute") .initial
            ⟨.common, .moderate⟩ tuplets slots ∧
          tuplets = [⟨0, 0, 16777216, 16777216⟩] ∧ slots.map Slot.displayDuration = [256] ∧
          Overflows "\\tuplet 16777216/16777216 \x7b c1 \x7d" (.named "flute") .initial
            ⟨.common, .moderate⟩ := by
  have hparts : (readTokens "\\tuplet 16777216/16777216 \x7b c1 \x7d").toOption.bind (fun tokens =>
      (TupletGroup.scan tokens (Ledger.scan tokens)).toOption.bind fun groups =>
        ((Draft.start (.named "flute") .initial ⟨.common, .moderate⟩).acceptAll (.named "flute") 0
          tokens).toOption.map fun draft =>
            (groups.map TupletGroup.range,
              (draft.resolvedSlots (.named "flute")).map Slot.displayDuration)) =
      some ([⟨0, 0, 16777216, 16777216⟩], [256]) := by
    decide +kernel
  obtain ⟨tokens, htokens, hparts⟩ := Option.bind_eq_some_iff.1 hparts
  obtain ⟨groups, hscan, hparts⟩ := Option.bind_eq_some_iff.1 hparts
  obtain ⟨draft, hrun, heq⟩ := Option.map_eq_some_iff.1 hparts
  obtain ⟨hranges, hdrawn⟩ := by simpa only [Prod.mk.injEq] using heq
  rw [toOption_eq_some_iff] at htokens hscan hrun
  have counted := LeftByReading.timesCounted .initial
    "\\tuplet 16777216/16777216 \x7b c1 \x7d" (.named "flute") ⟨.common, .moderate⟩
  have comesTo := ComesTo.finish htokens hscan hrun
  refine ⟨.initial, counted, _, _, comesTo, hranges, hdrawn,
    counted.overflows_iff.2 ⟨_, _, comesTo, .inl ⟨⟨0, 0, 16777216, 16777216⟩, ?_, ?_⟩⟩⟩
  · rw [hranges]
    exact List.mem_singleton_self _
  · rw [TupletRange.drawnUnits, TupletRange.map_slotsIn, hdrawn]
    decide

/-- Two whole notes whose products fit, but not the sum of what they last. -/
example : failure? (readLine "\\tuplet 1/8388608 \x7b c1 \x7d \\tuplet 1/8388609 \x7b c1 \x7d"
    (.named "flute") .initial ⟨.common, .moderate⟩) = some (.build ⟨.overflow, 48⟩) := by
  decide +kernel

end Stave.Shorthand
