import Stave.Proofs.Draft.Lengths
import Stave.Proofs.Draft.Sources
import Stave.Proofs.Tuplet.Braced
import Stave.Proofs.Tuplet.Scaled
import Stave.Proofs.WrittenLine.InRange

/-!
# The tuplets of a line

The ranges of a line that is built belong to the braces of its tokens, and since braces alternate
the ranges lie apart. So each of them is scaled as if it were alone, and every slot outside them
lasts what it is drawn with. A ratio that is read has positive numbers, and the product of a range
fits, or the line would have been refused.
-/
namespace Stave.Shorthand

/-- The tuplets of a line are those of its tokens, and are played in their time. -/
structure TupletsPlayed (tokens : List Token) (line : Line) : Prop where
  braced : Braced tokens line.tuplets
  /-- The index of a slot is that of the token that heads it among all heads, unless there are
  none and the line is a full rest. -/
  headed : Ledger.headsFrom 0 false tokens ≠ [] →
    List.Forall₂ (fun slot head => ∃ token, tokens[head]? = some token ∧
      token.kind.isHead false ∧ slot.offset = token.origin)
      line.slots (Ledger.headsFrom 0 false tokens)
  within : ∀ range ∈ line.tuplets, range.Within line.slots.length
  positive : ∀ range ∈ line.tuplets, 0 < range.actual ∧ 0 < range.normal
  apart : line.tuplets.Pairwise fun first second => first.stop < second.start
  fits : ∀ range ∈ line.tuplets,
    TupletRange.drawnUnits (range.slotsIn line.slots) * range.normal < wordLimit
  scaled : ∀ range ∈ line.tuplets, range.Scaled (range.slotsIn line.slots)
  outside : ∀ (index : Nat) (slot : Slot), line.slots[index]? = some slot →
    (∀ range ∈ line.tuplets, ¬range.contains index = true) →
      slot.duration = slot.displayDuration

variable {instrument : Instrument} {prior : Carry} {frame : Frame} {tokens : List Token}
  {draft : Draft} {due : List PostEvent} {groups : List TupletGroup} {written : WrittenLine}
  {expansion : Expansion} {ranges : List TupletRange} {range : TupletRange} {before : Level}
  {ledger : Ledger}

/-! ### Ranges -/

/-- The ratio of a range is that of a directive. -/
theorem Braced.exists_ratio (h : Braced tokens ranges) (hmem : range ∈ ranges) :
    ∃ token ∈ tokens, token.kind = .tuplet range.actual range.normal := by
  obtain ⟨braces, -, hbelongs⟩ := exists_mem_of_forall₂ h.belong hmem
  obtain ⟨directive, token, -, htoken, hkind⟩ := hbelongs.ratio
  exact ⟨token, List.mem_of_getElem? htoken, hkind⟩

theorem Braced.positive (h : Braced tokens ranges) (readAll : Token.AllRead false tokens) :
    ∀ range ∈ ranges, 0 < range.actual ∧ 0 < range.normal := by
  intro range hmem
  obtain ⟨token, htoken, hkind⟩ := h.exists_ratio hmem
  have hread := readAll.isRead token htoken
  rw [hkind] at hread
  cases hread with
  | tuplet positive => exact positive

/-- Ranges that come one after the other lie apart. -/
theorem pairwise_apart (h : ranges.Pairwise fun first second => first.stop < second.start) :
    ranges.Pairwise TupletRange.Apart :=
  h.imp fun hbefore => .inl hbefore

/-! ### Slots before they are scaled -/

namespace Draft

/-- A slot that is not scaled lasts what it is drawn with. -/
theorem duration_of_mem_resolvedSlots (asWritten : ∀ slot ∈ draft.slots, slot.slot.AsWritten)
    {slot : Slot} (hmem : slot ∈ draft.resolvedSlots instrument) :
    slot.duration = slot.displayDuration := by
  have htimes := List.mem_map_of_mem (f := Slot.times) hmem
  rw [draft.map_resolvedSlots Slot.times (fun _ _ => rfl) instrument] at htimes
  obtain ⟨raw, hraw, heq⟩ := List.mem_map.1 htimes
  obtain ⟨hduration, hdisplay⟩ := Prod.mk.inj heq
  have hwritten := asWritten raw (List.mem_reverse.1 hraw)
  rw [← hduration, ← hdisplay, hwritten.duration_eq, hwritten.displayDuration_eq]

/-- Setting the loudness does not change times. -/
theorem map_times_slotLine (draft : Draft) (instrument : Instrument) (ledger : Ledger)
    (before : Level) (ranges : List TupletRange) :
    (draft.slotLine instrument ledger before ranges).slots.map Slot.times =
      (scaleTuplets ranges (draft.resolvedSlots instrument)).map Slot.times :=
  map_setLoudness Slot.times (fun _ _ _ => rfl) _ before _

/-- The slots of a line stand in the order of the tokens that head them. -/
theorem Sourced.forall₂_heads (h : draft.Sourced tokens) {slots : List Slot}
    (hmap : slots.map Slot.offset = draft.slots.reverse.map fun slot => slot.slot.offset) :
    List.Forall₂ (fun slot head => ∃ token, tokens[head]? = some token ∧
      token.kind.isHead false ∧ slot.offset = token.origin) slots draft.heads := by
  have hsame : List.Forall₂ (fun slot source => slot.offset = source.slot.offset) slots
      draft.slots.reverse := by
    have hequal : List.Forall₂ Eq (slots.map Slot.offset)
        (draft.slots.reverse.map fun slot => slot.slot.offset) := by
      rw [List.forall₂_eq_eq_eq]
      exact hmap
    rwa [List.forall₂_map_left_iff, List.forall₂_map_right_iff] at hequal
  have hsource := (List.forall₂_and_left draft.slots.reverse slots).2
    ⟨fun slot hmem => h.slot slot (List.mem_reverse.1 hmem), hsame.flip⟩
  rw [heads, List.forall₂_map_right_iff]
  refine hsource.flip.imp fun slot source hboth => ?_
  obtain ⟨⟨token, htoken, hkind, horigin⟩, hoffset⟩ := hboth
  exact ⟨token, htoken, hkind, hoffset.trans horigin.symm⟩

end Draft

/-! ### Lines -/

/-- In a line whose tuplets lie apart the slots of each have the times they are scaled to. -/
theorem times_slotsIn_slotLine (within : ∀ range ∈ ranges, range.Within draft.slots.length)
    (apart : ranges.Pairwise TupletRange.Apart) (hmem : range ∈ ranges) {slots : List Slot}
    (htimes : slots.map Slot.times =
      (scaleTuplets ranges (draft.resolvedSlots instrument)).map Slot.times) :
    (range.slotsIn slots).map Slot.times =
      (range.scaleSlots (range.slotsIn (draft.resolvedSlots instrument))).map Slot.times := by
  rw [range.map_slotsIn, htimes, ← range.map_slotsIn,
    slotsIn_scaleTuplets (by rwa [Draft.length_resolvedSlots]) apart hmem]

theorem outside_slotLine (within : ∀ range ∈ ranges, range.Within draft.slots.length)
    (asWritten : ∀ slot ∈ draft.slots, slot.slot.AsWritten) {slots : List Slot}
    (htimes : slots.map Slot.times =
      (scaleTuplets ranges (draft.resolvedSlots instrument)).map Slot.times)
    {index : Nat} {slot : Slot} (hslot : slots[index]? = some slot)
    (houtside : ∀ range ∈ ranges, ¬range.contains index = true) :
    slot.duration = slot.displayDuration := by
  have hleft : (scaleTuplets ranges (draft.resolvedSlots instrument))[index]? =
      (draft.resolvedSlots instrument)[index]? :=
    getElem?_scaleTuplets_of_not_contains (by rwa [Draft.length_resolvedSlots]) houtside
  have hsame := congrArg (·[index]?) htimes
  simp only [List.getElem?_map, hslot, Option.map_some, hleft] at hsame
  obtain ⟨same, hresolved, heq⟩ := Option.map_eq_some_iff.1 hsame.symm
  obtain ⟨hduration, hdisplay⟩ := Prod.mk.inj heq
  rw [← hduration, ← hdisplay]
  exact Draft.duration_of_mem_resolvedSlots asWritten (List.mem_of_getElem? hresolved)

/-- **The tuplets of a line are those of its braces, and each is played in its time.** -/
theorem tupletsPlayed_of_buildLine (htokens : tokenize expansion = .ok tokens)
    (h : buildLine tokens instrument prior frame = .ok written) :
    TupletsPlayed tokens written.line := by
  have readAll := allRead_of_tokenize htokens
  obtain ⟨groups, draft, hscan, built, finished⟩ := exists_finished_of_buildLine h
  have groupsWithin := built.groupsWithin readAll hscan
  have braced := braced_of_scan hscan
  have heads := (built.heads_eq_headsFrom readAll.alternate readAll.closed).2
  cases finished with
  | rest closed empty =>
    obtain rfl : groups = [] := eq_nil_of_groupsWithin groupsWithin empty
    refine ⟨braced, fun hheads => ?_, nofun, nofun, .nil, nofun, nofun,
      fun index slot hslot _ => ?_⟩
    · rw [← heads, Draft.heads, empty] at hheads
      exact absurd rfl hheads
    · rw [List.mem_singleton.1 (List.mem_of_getElem? hslot)]
      rfl
  | slots closed nonempty inside fills fits =>
    have hranges := start_le_of_groupsWithin groupsWithin
    have hpairwise := braced.pairwise hranges
    have within : ∀ range ∈ groups.map TupletGroup.range, range.Within draft.slots.length :=
      List.forall_mem_map.2 groupsWithin
    have htimes := draft.map_times_slotLine instrument (Ledger.scan tokens) prior.level
      (groups.map TupletGroup.range)
    have hinside (range : TupletRange) (hmem : range ∈ groups.map TupletGroup.range) :=
      times_slotsIn_slotLine within (pairwise_apart hpairwise) hmem htimes
    have hlength := Draft.length_slots_slotLine hranges draft instrument (Ledger.scan tokens)
      prior.level
    have hcount : draft.heads.length = draft.slots.length := by simp [Draft.heads]
    refine ⟨braced, fun _ => ?_, ?_, braced.positive readAll, hpairwise, ?_, ?_, ?_⟩
    · rw [← heads]
      exact built.sourced.forall₂_heads
        (Draft.map_slots_slotLine Slot.offset (fun _ _ _ _ _ => rfl) hranges _ _ _ _)
    · rw [hlength, hcount]
      exact within
    · intro range hmem
      rw [TupletRange.drawnUnits_congr (hinside range hmem), TupletRange.drawnUnits_scaleSlots]
      exact (fits.ranges range hmem).product
    · intro range hmem
      have hactual := (braced.positive readAll range hmem).1
      exact (TupletRange.scaled_scaleSlots hactual _).congr (hinside range hmem)
    · intro index slot hslot houtside
      exact outside_slotLine within built.asWritten htimes hslot houtside

/-- A triplet whose second slot is a chord, and a quintuplet: what rounding loses, one unit and
four, is given to their first slots. -/
theorem tupletsPlayed_quintuplet :
    ∃ expansion tokens written,
      expand "\\tuplet 3/2 \x7bc8 <e g>4\x7d \\tuplet 5/4 \x7bd16 e f g a\x7d r2" =
          .ok expansion ∧
        tokenize expansion = .ok tokens ∧
        buildLine tokens (.named "flute") .initial ⟨.common, .moderate⟩ = .ok written ∧
        bracePairs tokens = [(1, 7), (9, 15)] ∧
        written.line.tuplets = [⟨0, 1, 3, 2⟩, ⟨2, 6, 5, 4⟩] ∧
        written.line.slots.map Slot.times =
          [(22, 32), (42, 64), (16, 16), (12, 16), (12, 16), (12, 16), (12, 16), (128, 128)] ∧
        TupletsPlayed tokens written.line := by
  have hparts : (expand
      "\\tuplet 3/2 \x7bc8 <e g>4\x7d \\tuplet 5/4 \x7bd16 e f g a\x7d r2").toOption.bind
        (fun expansion => (tokenize expansion).toOption.bind fun tokens =>
          (buildLine tokens (.named "flute") .initial ⟨.common, .moderate⟩).toOption.map
            fun written => (bracePairs tokens, written.line.tuplets,
              written.line.slots.map Slot.times)) =
      some ([(1, 7), (9, 15)], [⟨0, 1, 3, 2⟩, ⟨2, 6, 5, 4⟩],
        [(22, 32), (42, 64), (16, 16), (12, 16), (12, 16), (12, 16), (12, 16), (128, 128)]) := by
    decide +kernel
  obtain ⟨expansion, hexpand, hparts⟩ := Option.bind_eq_some_iff.1 hparts
  obtain ⟨tokens, htokens, hparts⟩ := Option.bind_eq_some_iff.1 hparts
  obtain ⟨written, hwritten, heq⟩ := Option.map_eq_some_iff.1 hparts
  obtain ⟨hbraces, htuplets, htimes⟩ := by simpa only [Prod.mk.injEq] using heq
  rw [toOption_eq_some_iff] at hexpand htokens hwritten
  exact ⟨expansion, tokens, written, hexpand, htokens, hwritten, hbraces, htuplets, htimes,
    tupletsPlayed_of_buildLine htokens hwritten⟩

end Stave.Shorthand
