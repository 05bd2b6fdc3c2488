import Stave.Proofs.Draft.Ramps
import Stave.Proofs.WrittenLine.Built

/-!
# Slots and indices that fit

A ledger and a builder walk the tokens of a line apart from each other, and every index a
line holds is one that the ledger has moved. Since the two agree on what a slot is, the
indices fit: links, ramps and tuplets stay inside the line they belong to, the checks that a
builder makes of this never fail, and neither does any access by index on the way.
-/
namespace Stave

/-- Every index of a line is that of one of its slots, and every level one of the scale. -/
structure Line.InRange (line : Line) : Prop where
  slurs : ∀ link ∈ line.slurs, link.Within (List.range line.slots.length)
  ties : ∀ link ∈ line.ties, link.Within (List.range line.slots.length)
  ramps : ∀ ramp ∈ line.ramps, ramp.link.Within (List.range line.slots.length) ∧ ramp.InScale
  tuplets : ∀ range ∈ line.tuplets, range.Within line.slots.length
  closing : line.closing.level ≤ highestLevel

/-- What setting level and loudness looks up is there: the level that is in force at a slot
is one of the scale, and a slot inside a ramp is one of the line. -/
structure Line.LoudnessInRange (line : Line) (before : Level) : Prop where
  level_le : ∀ slot ∈ setLevels (line.ramps.filter (·.stop.isSome)) before 0 line.slots,
    slot.level ≤ highestLevel
  covers_lt : ∀ ramp ∈ line.ramps, ∀ slot, ramp.covers line.slots.length slot →
    slot < line.slots.length

theorem Ramp.lt_of_covers {ramp : Ramp} {count slot : Nat}
    (h : ramp.link.Within (List.range count)) (hcovers : ramp.covers count slot) :
    slot < count := by
  simp only [covers, endInside, Bool.and_eq_true, decide_eq_true_eq] at hcovers
  cases hstop : ramp.stop with
  | none => simpa [hstop] using hcovers.2
  | some stop =>
    have hlt := List.mem_range.1 (h.stop_mem stop hstop)
    have hslot : slot < stop := by simpa [hstop] using hcovers.2
    omega

namespace Shorthand

variable {instrument : Instrument} {prior : Carry} {frame : Frame} {tokens read : List Token}
  {draft : Draft} {due : List PostEvent} {groups : List TupletGroup} {written : WrittenLine}
  {link : Link}

/-- A link between heads becomes one between slots. -/
theorem within_rebaseLink (h : link.Within (Ledger.headsFrom 0 false tokens)) :
    (rebaseLink (Ledger.scan tokens) link).Within
      (List.range (Ledger.headsFrom 0 false tokens).length) := by
  constructor
  · intro a ha
    obtain ⟨head, hhead, rfl⟩ := Option.map_eq_some_iff.1 ha
    exact List.mem_range.2 (Ledger.rebase_lt (h.start_mem head hhead))
  · intro b hb
    obtain ⟨head, hhead, rfl⟩ := Option.map_eq_some_iff.1 hb
    exact List.mem_range.2 (Ledger.rebase_lt (h.stop_mem head hhead))
  · intro a b ha hb
    obtain ⟨start, hstart, rfl⟩ := Option.map_eq_some_iff.1 ha
    obtain ⟨stop, hstop, rfl⟩ := Option.map_eq_some_iff.1 hb
    have hlt := Ledger.lt_of_mem_headsFrom (h.stop_mem stop hstop)
    exact Ledger.rebase_le_rebase (h.start_le start stop hstart hstop) (Nat.le_of_lt hlt)

theorem within_of_mem_tiesOf {slots : List Slot} (h : link ∈ tiesOf slots) :
    link.Within (List.range slots.length) := by
  obtain ⟨⟨slot, index⟩, hmem, rfl⟩ := List.mem_map.1 h
  have hlt : index < slots.length := by
    have := (List.mem_zipIdx (List.mem_filter.1 hmem).1).2.1
    omega
  have hstop (b : Nat) (hb : (if index + 1 < slots.length then some (index + 1) else none) =
      some b) : index + 1 = b ∧ b < slots.length := by
    by_cases hnext : index + 1 < slots.length <;> simp_all
  constructor
  · intro a ha
    cases ha
    exact List.mem_range.2 hlt
  · intro b hb
    exact List.mem_range.2 (hstop b hb).2
  · intro a b ha hb
    cases ha
    have := (hstop b hb).1
    omega

/-- The ties of a line lie within its slots. -/
theorem Draft.within_of_mem_ties_slotLine {draft : Draft} {instrument : Instrument}
    {ledger : Ledger} {before : Level} {tuplets : List TupletRange}
    (h : link ∈ (draft.slotLine instrument ledger before tuplets).ties) :
    link.Within (List.range (draft.slotLine instrument ledger before tuplets).slots.length) := by
  have hlength : (draft.slotLine instrument ledger before tuplets).slots.length =
      (draft.timedSlots instrument tuplets).length := by
    simpa [slotLine] using congrArg List.length (map_setLoudness Slot.offset (fun _ _ _ => rfl)
      (draft.allRamps.map (rebaseRamp ledger)) before (draft.timedSlots instrument tuplets))
  rw [hlength]
  exact within_of_mem_tiesOf h

theorem Building.within_allSlurs
    (h : Building instrument (.start instrument prior frame) read draft due)
    (alternate : ChordsAlternate false read) (hmem : link ∈ draft.allSlurs) :
    link.Within draft.heads := by
  rcases List.mem_append.1 hmem with hmem | hmem
  · have hwithin := (h.consistent alternate).within link hmem
    rw [Draft.map_head_slurView] at hwithin
    exact hwithin.mono fun _ => List.mem_reverse.1
  · rw [List.eq_of_mem_replicate hmem]
    exact ⟨nofun, nofun, nofun⟩

theorem Draft.RampsSound.of_mem_allRamps (h : draft.RampsSound) {ramp : Ramp}
    (hmem : ramp ∈ draft.allRamps) : ramp.link.Within draft.heads := by
  rcases List.mem_append.1 hmem with hmem | hmem
  · exact h.within ramp (List.mem_reverse.1 hmem)
  · rw [Option.mem_toList] at hmem
    obtain ⟨opened, hopen, rfl⟩ := Option.map_eq_some_iff.1 hmem
    exact ⟨h.opened_mem opened hopen, nofun, nofun⟩

/-- A draft of tokens that are read has a slot for every head the ledger keeps. -/
theorem Building.length_slots (readAll : Token.AllRead false tokens)
    (h : Building instrument (.start instrument prior frame) tokens draft due) :
    draft.slots.length = (Ledger.headsFrom 0 false tokens).length := by
  rw [← (h.heads_eq_headsFrom readAll.alternate readAll.closed).2]
  simp [Draft.heads]

theorem start_le_of_groupsWithin
    (groupsWithin : ∀ group ∈ groups, group.range.Within draft.slots.length) :
    ∀ range ∈ groups.map TupletGroup.range, range.start ≤ range.stop := by
  intro range hmem
  obtain ⟨group, hgroup, rfl⟩ := List.mem_map.1 hmem
  exact (groupsWithin group hgroup).start_le

/-- A draft without slots has no groups. -/
theorem eq_nil_of_groupsWithin
    (groupsWithin : ∀ group ∈ groups, group.range.Within draft.slots.length)
    (empty : draft.slots = []) : groups = [] := by
  refine List.eq_nil_iff_forall_not_mem.2 fun group hmem => ?_
  have hstop := (groupsWithin group hmem).stop_lt
  rw [empty] at hstop
  exact Nat.not_lt_zero _ hstop

/-- The line of a finished draft is in range. -/
theorem Finished.inRange (readAll : Token.AllRead false tokens)
    (groupsWithin : ∀ group ∈ groups, group.range.Within draft.slots.length)
    (built : Building instrument (.start instrument prior frame) tokens draft [])
    (h : Finished draft instrument prior (Ledger.scan tokens) groups written) :
    written.line.InRange ∧ written.line.LoudnessInRange prior.level := by
  have sound := built.rampsSound readAll.alternate
  obtain ⟨-, hheads⟩ := built.heads_eq_headsFrom readAll.alternate readAll.closed
  cases h with
  | rest closed empty =>
    exact ⟨⟨nofun, nofun, nofun, nofun, Fin.is_le _⟩, fun slot _ => slot.level.is_le, nofun⟩
  | slots closed nonempty inside fills =>
    have hranges := start_le_of_groupsWithin groupsWithin
    have hcount := Draft.length_slots_slotLine hranges draft instrument (Ledger.scan tokens)
      prior.level
    have hslots : draft.slots.length = draft.heads.length := by simp [Draft.heads]
    have hramps : ∀ ramp ∈ draft.allRamps.map (rebaseRamp (Ledger.scan tokens)),
        ramp.link.Within (List.range draft.heads.length) := by
      intro ramp hmem
      obtain ⟨raw, hraw, rfl⟩ := List.mem_map.1 hmem
      have hwithin := sound.of_mem_allRamps hraw
      rw [hheads] at hwithin ⊢
      exact within_rebaseLink hwithin
    refine ⟨⟨?_, ?_, ?_, ?_, Fin.is_le _⟩, fun slot _ => slot.level.is_le, ?_⟩
    · intro link hmem
      obtain ⟨raw, hraw, rfl⟩ := List.mem_map.1 hmem
      have hwithin := built.within_allSlurs readAll.alternate hraw
      rw [hcount]
      rw [hheads] at hwithin ⊢
      exact within_rebaseLink hwithin
    · intro link hmem
      exact Draft.within_of_mem_ties_slotLine hmem
    · intro ramp hmem
      rw [hcount]
      exact ⟨hramps ramp hmem, ramp.inScale⟩
    · intro range hmem
      obtain ⟨group, hgroup, rfl⟩ := List.mem_map.1 hmem
      rw [hcount, ← hslots]
      exact groupsWithin group hgroup
    · intro ramp hmem slot hcovers
      rw [hcount] at hcovers ⊢
      exact Ramp.lt_of_covers (hramps ramp hmem) hcovers

/-- Groups of a line that is read lie within the slots of its draft. -/
theorem Building.groupsWithin (readAll : Token.AllRead false tokens)
    (h : Building instrument (.start instrument prior frame) tokens draft due)
    (scanned : TupletGroup.scan tokens (Ledger.scan tokens) = .ok groups) :
    ∀ group ∈ groups, group.range.Within draft.slots.length := by
  rw [h.length_slots readAll]
  exact TupletGroup.within_of_scan scanned

/-- What reading a line never gets wrong about slots and indices. -/
structure ReadsInRange (text : String) (instrument : Instrument) (prior : Carry)
    (frame : Frame) : Prop where
  /-- A run that gets to its finish has a slot for every token the ledger keeps, in order;
  the head of a slot is moved to its index, and the groups are slices of the slots. -/
  heads : ∀ tokens groups draft, readTokens text = .ok tokens →
    TupletGroup.scan tokens (Ledger.scan tokens) = .ok groups →
    (Draft.start instrument prior frame).acceptAll instrument 0 tokens = .ok draft →
      draft.heads =
          ((List.range tokens.length).filter fun token => token ∉ (Ledger.scan tokens).removed) ∧
        (∀ (index head : Nat), draft.heads[index]? = some head →
          (Ledger.scan tokens).rebase head = index) ∧
        ∀ group ∈ groups, group.range.Within draft.slots.length
  /-- Post-events find a slot to attach to, and a slur that closes is one of the slurs. Of a
  ramp that stops no index is looked up: an open ramp is held as it is. -/
  attach : ∀ tokens read rest draft due, readTokens text = .ok tokens → tokens = read ++ rest →
    Building instrument (.start instrument prior frame) read draft due →
      (due ≠ [] → draft.slots ≠ []) ∧ ∀ id ∈ draft.openSlurs, id < draft.slurs.size
  /-- A chord left open is found when the tokens are read, not when the line is built. -/
  chords : ∀ offset, readLine text instrument prior frame ≠
    .error (.build ⟨.unterminatedChord, offset⟩)
  tuplets : ∀ offset, readLine text instrument prior frame ≠
    .error (.build ⟨.tupletOutOfRange, offset⟩)
  line : ∀ written, readLine text instrument prior frame = .ok written →
    written.line.InRange ∧ written.line.LoudnessInRange prior.level

/-- Whatever is typed, the builder's slots are those of the ledger, and every index fits. -/
theorem readsInRange (text : String) (instrument : Instrument) (prior : Carry) (frame : Frame) :
    ReadsInRange text instrument prior frame := by
  have hrefused (error : BuildError)
      (h : readLine text instrument prior frame = .error (.build error)) :
      error.fault ≠ .unterminatedChord ∧ error.fault ≠ .tupletOutOfRange := by
    obtain ⟨tokens, htokens, hbuild⟩ := readLine_eq_build.1 h
    cases stops_of_buildLine hbuild with
    | groups fault =>
      constructor <;> intro heq <;> simp [heq, TupletGroup.scanFaults] at fault
    | run scanned fault =>
      constructor <;> intro heq <;>
        simp [heq, Building.runFaults, Draft.placeFaults, Draft.misplacedFaults] at fault
    | finish scanned taken refused =>
      have readAll := allRead_of_readTokens htokens
      have built := Building.start.append taken
      have closed := (built.heads_eq_headsFrom readAll.alternate readAll.closed).1
      rcases refused.fault closed (built.groupsWithin readAll scanned) with
        hfault | ⟨expected, actual, hfault⟩
      · constructor <;> intro heq <;> simp [heq] at hfault
      · constructor <;> intro heq <;> simp [heq] at hfault
  refine ⟨?_, ?_, ?_, ?_, ?_⟩
  · intro tokens groups draft htokens hscan hrun
    have readAll := allRead_of_readTokens htokens
    have built : Building instrument _ tokens draft [] := Building.start.append hrun
    obtain ⟨-, hheads⟩ := built.heads_eq_headsFrom readAll.alternate readAll.closed
    refine ⟨?_, ?_, built.groupsWithin readAll hscan⟩
    · rw [hheads, Ledger.headsFrom_eq_filter, List.range_eq_range']
      simp [Ledger.scan]
    · intro index head hhead
      rw [hheads] at hhead
      exact Ledger.rebase_of_getElem? hhead
  · intro tokens read rest draft due htokens hsplit built
    have alternate := (allRead_of_readTokens htokens).alternate
    rw [hsplit] at alternate
    constructor
    · intro hdue hslots
      obtain ⟨event, others, rfl⟩ := List.exists_cons_of_ne_nil hdue
      obtain ⟨head, hlast⟩ := built.exists_lastHead
      simp [Draft.lastHead?, hslots] at hlast
    · intro id hmem
      have consistent := built.consistent (chordsAlternate_append.1 alternate).1
      obtain ⟨start, hlink⟩ := (consistent.mem_opened id).1 hmem
      simpa [Draft.slurView] using (List.getElem?_eq_some_iff.1 hlink).1
  · intro offset h
    exact (hrefused _ h).1 rfl
  · intro offset h
    exact (hrefused _ h).2 rfl
  · intro written h
    obtain ⟨tokens, htokens, hbuild⟩ := readLine_eq_ok.1 h
    obtain ⟨groups, draft, hscan, built, finished⟩ := exists_finished_of_buildLine hbuild
    have readAll := allRead_of_readTokens htokens
    exact finished.inRange readAll (built.groupsWithin readAll hscan) built

/-- A bar with a slur into a chord, a crescendo and a triplet, read from the start of a piece. -/
theorem readsInRange_triplet :
    (readLine "c4( e8\\< <g b>8)\\f \\tuplet 3/2 \x7b a8 b c \x7d r4" (.named "flute") .initial
        ⟨.common, .moderate⟩).toOption.map (fun written =>
          (written.line.slots.length, written.line.slurs, written.line.tuplets)) =
        some (7, [⟨some 0, some 2⟩], [⟨3, 5, 3, 2⟩]) ∧
      ReadsInRange "c4( e8\\< <g b>8)\\f \\tuplet 3/2 \x7b a8 b c \x7d r4" (.named "flute")
        .initial ⟨.common, .moderate⟩ :=
  ⟨by decide +kernel, readsInRange _ _ _ _⟩

end Shorthand

end Stave
