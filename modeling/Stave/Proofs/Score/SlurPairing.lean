import Mathlib.Data.List.Perm.Basic
import Stave.Proofs.Draft.SlurTrail
import Stave.Proofs.Score.BarLine

/-!
# Which slurs are warned about

Slurs pair across a bar line like nested brackets, so of those that go on in excess the ones
opened first should be warned about, and of those that come in in excess the ones that close
last. A line lists what comes in in the order it closes, and its warnings on the left are these.
It lists what goes on in the order it opens only as far as its own slurs are concerned: those
that run through the bar are opened before them and listed after. So on the right a slur of the
bar is warned about in place of one that runs through, and the warning is in the wrong place
unless that slur opens at the first slot, where one that runs through is warned about as well.
-/
namespace Stave

namespace LinkWarning

/-- The warnings for slurs on one side of a line. -/
def ofSlurs (incoming : Bool) (warnings : List LinkWarning) : List LinkWarning :=
  warnings.filter fun warning => warning.link = .slur && warning.incoming == incoming

theorem ofSlurs_false (warnings : List LinkWarning) :
    ofSlurs false warnings = (outgoing warnings).filter (·.link = .slur) := by
  simp [ofSlurs, outgoing, List.filter_filter]

theorem ofSlurs_true (warnings : List LinkWarning) :
    ofSlurs true warnings = (ingoing warnings).filter (·.link = .slur) := by
  simp [ofSlurs, ingoing, List.filter_filter]

end LinkWarning

namespace Line

open LinkWarning (ofSlurs)
open Shorthand (SlurTrail)

variable {line : Line} {previous next : Option Line} {trail : SlurTrail}

theorem ofSlurs_outgoing (line : Line) (previous next : Option Line) :
    ofSlurs false (linkWarnings previous line next) = line.outgoingSlurWarnings next := by
  have hslurs : (line.outgoingSlurWarnings next).filter (·.link = .slur) =
      line.outgoingSlurWarnings next :=
    List.filter_eq_self.2 fun warning hmem => by simp [link_of_mem_outgoingSlurWarnings hmem]
  have hties : (line.tieWarnings next).filter (·.link = .slur) = [] :=
    List.filter_eq_nil_iff.2 fun warning hmem => by simp [(link_of_mem_tieWarnings hmem).1]
  rw [LinkWarning.ofSlurs_false, outgoing_linkWarnings, List.filter_append, List.filter_append,
    hslurs, hties,
    List.filter_eq_nil_iff.2 fun warning hmem => by simp [link_of_mem_outgoing_ramps hmem],
    List.append_nil, List.append_nil]

theorem ofSlurs_ingoing (line : Line) (previous next : Option Line) :
    ofSlurs true (linkWarnings previous line next) = line.incomingSlurWarnings previous := by
  have hslurs : (line.incomingSlurWarnings previous).filter (·.link = .slur) =
      line.incomingSlurWarnings previous :=
    List.filter_eq_self.2 fun warning hmem => by simp [link_of_mem_incomingSlurWarnings hmem]
  rw [LinkWarning.ofSlurs_true, ingoing_linkWarnings, List.filter_append, hslurs,
    List.filter_eq_nil_iff.2 fun warning hmem => by simp [link_of_mem_ingoing_ramps hmem],
    List.append_nil]

/-- How many slurs the line after takes. -/
def slursMet (next : Option Line) : Nat := (next.map (·.incomingSlurs.length)).getD 0

/-- How many slurs the line before leaves. -/
def slursLeft (previous : Option Line) : Nat := (previous.map (·.outgoingSlurs.length)).getD 0

/-- The warning for a slur that goes on, opened at a slot or before the line. -/
def slurGoesOn (line : Line) (slot : Option Nat) : LinkWarning :=
  line.warningAt .slur false (slot.getD 0)

/-- The warning for a slur that comes in, closed at a slot or after the line. -/
def slurComesIn (line : Line) (slot : Option Nat) : LinkWarning :=
  line.warningAt .slur true (slot.getD (line.slots.length - 1))

/-- The slur warnings of a line, told from the trail of its signs. -/
structure SlursPaired (line : Line) (trail : SlurTrail) : Prop where
  outgoing_length : line.outgoingSlurs.length = trail.waiting.length
  incoming_length : line.incomingSlurs.length = trail.closed.length + trail.carried
  /-- Of the slurs that go on in excess the first of the bar are warned about, and after them
  those that run through it. -/
  outgoing : ∀ previous next, ofSlurs false (linkWarnings previous line next) =
    ((trail.opened.map some ++ List.replicate trail.carried none).take
      (line.outgoingSlurs.length - slursMet next)).map line.slurGoesOn
  /-- Of the slurs that come in in excess the last ones to close are warned about, those that
  do not close in the bar being last. -/
  incoming : ∀ previous next, ofSlurs true (linkWarnings previous line next) =
    ((trail.closed.map some ++ List.replicate trail.carried none).drop
      (slursLeft previous)).map line.slurComesIn
  /-- What is warned about on the right are the slurs opened earliest just if every slur that is
  warned about in place of an earlier one opens at the first slot. -/
  earliest_iff : ∀ previous next,
    (ofSlurs false (linkWarnings previous line next)).Perm
        ((trail.waiting.reverse.take (line.outgoingSlurs.length - slursMet next)).map
          line.slurGoesOn) ↔
      ∀ slot ∈ (trail.opened.take (line.outgoingSlurs.length - slursMet next)).drop
        (line.outgoingSlurs.length - slursMet next - trail.carried), slot = 0

/-- Moving what has no place from the front of a list to its end leaves the same places among
the first `count` just if those that take its room are zero. -/
theorem perm_take_append_iff (places : List Nat) {carried count : Nat}
    (h : count ≤ places.length + carried) :
    (((places.map some ++ List.replicate carried none).take count).map (Option.getD · 0)).Perm
        (((List.replicate carried none ++ places.map some).take count).map (Option.getD · 0)) ↔
      ∀ place ∈ (places.take count).drop (count - carried), place = 0 := by
  have hlate : ((places.map some ++ List.replicate carried none).take count).map
        (Option.getD · 0) =
      places.take (count - carried) ++ ((places.take count).drop (count - carried) ++
        List.replicate (count - places.length) 0) := by
    have hsplit := List.take_append_drop (count - carried) (places.take count)
    rw [List.take_take, Nat.min_eq_left (Nat.sub_le _ _)] at hsplit
    rw [← List.append_assoc, hsplit, List.take_append, List.map_append, ← List.map_take,
      List.take_replicate, List.length_map, Nat.min_eq_left (by omega)]
    simp [Function.comp_def]
  have hearly : ((List.replicate carried none ++ places.map some).take count).map
        (Option.getD · 0) =
      List.replicate (min count carried) 0 ++ places.take (count - carried) := by
    rw [List.take_append, List.map_append, ← List.map_take, List.take_replicate,
      List.length_replicate]
    simp [Function.comp_def]
  have hlength : ((places.take count).drop (count - carried) ++
      List.replicate (count - places.length) 0).length = min count carried := by
    simp only [List.length_append, List.length_drop, List.length_take, List.length_replicate]
    omega
  rw [hlate, hearly, List.perm_append_comm.congr_right _, List.perm_append_left_iff,
    List.perm_replicate, List.eq_replicate_iff]
  simp only [hlength, true_and, List.mem_append]
  constructor
  · intro hzero place hmem
    exact hzero place (.inl hmem)
  · rintro hzero place (hmem | hmem)
    · exact hzero place hmem
    · exact List.eq_of_mem_replicate hmem

/-- What is warned about is told from where the slurs without a stop start and where those
without a start stop. -/
theorem slursPaired (stacked : trail.Stacked trail.opened trail.carried)
    (houts : line.outgoingSlurs.map Link.start =
      trail.opened.map some ++ List.replicate trail.carried none)
    (hins : line.incomingSlurs.map Link.stop =
      trail.closed.map some ++ List.replicate trail.carried none) : line.SlursPaired trail := by
  have hcount : line.outgoingSlurs.length = trail.opened.length + trail.carried := by
    simpa using congrArg List.length houts
  have houtgoing (previous next : Option Line) : ofSlurs false (linkWarnings previous line next) =
      ((trail.opened.map some ++ List.replicate trail.carried none).take
        (line.outgoingSlurs.length - slursMet next)).map line.slurGoesOn := by
    rw [ofSlurs_outgoing, ← houts, ← List.map_take, List.map_map]
    rfl
  refine ⟨?_, ?_, houtgoing, fun previous next => ?_, fun previous next => ?_⟩
  · rw [hcount, stacked.waiting]
    simp
  · simpa using congrArg List.length hins
  · rw [ofSlurs_ingoing, ← hins, ← List.map_drop, List.map_map]
    rfl
  · have hplaces : line.slurGoesOn =
        fun slot => line.warningAt .slur false (Option.getD slot 0) := rfl
    have hinjective : Function.Injective (line.warningAt .slur false) :=
      fun _ _ heq => congrArg LinkWarning.slot heq
    have hearliest : trail.waiting.reverse =
        List.replicate trail.carried none ++ trail.opened.map some := by
      rw [stacked.waiting, List.reverse_append, List.reverse_replicate, ← List.map_reverse,
        List.reverse_reverse]
    rw [houtgoing, hearliest, hplaces, ← perm_take_append_iff trail.opened (by omega),
      ← List.map_perm_map_iff hinjective, List.map_map, List.map_map]
    rfl

end Line

namespace Shorthand

variable {text : String} {instrument : Instrument} {prior : Carry} {frame : Frame}
  {tokens : List Token} {draft : Draft} {groups : List TupletGroup} {written : WrittenLine}

/-- The head of a slot is moved back to the slot. -/
theorem map_rebase_getElem? {slots : List Nat}
    (h : ∀ slot ∈ slots, slot < (Ledger.headsFrom 0 false tokens).length) :
    (slots.map ((Ledger.headsFrom 0 false tokens)[·]?)).map
      (Option.map (Ledger.scan tokens).rebase) = slots.map some := by
  rw [List.map_map]
  refine List.map_congr_left fun slot hmem => ?_
  have hhead := List.getElem?_eq_getElem (h slot hmem)
  simp only [Function.comp_apply, hhead, Option.map_some, Ledger.rebase_of_getElem? hhead]

/-- The slurs of a line with slots are paired as its signs say. -/
theorem Building.slursPaired
    (h : Building instrument (.start instrument prior frame) tokens draft [])
    (readAll : Token.AllRead false tokens) (before : Level) (tuplets : List TupletRange) :
    (draft.slotLine instrument (Ledger.scan tokens) before tuplets).SlursPaired
      (.ofTokens prior.openSlurs tokens) := by
  have trailed := h.trailed readAll
  have hcarried : draft.carriedSlurs = (SlurTrail.ofTokens prior.openSlurs tokens).carried :=
    trailed.stacked.carried_eq.symm
  have houts := map_rebase_getElem? trailed.begun_lt
  have hins := map_rebase_getElem? trailed.closed_lt
  rw [← trailed.starts] at houts
  rw [← trailed.stops] at hins
  refine Line.slursPaired (hcarried ▸ trailed.stacked) ?_ ?_
  · rw [← houts, ← hcarried]
    simp [Line.outgoingSlurs, Draft.slotLine, Draft.allSlurs, Draft.slurView, List.filter_map,
      rebaseLink, Function.comp_def]
  · rw [← hins, ← hcarried]
    simp [Line.incomingSlurs, Draft.slotLine, Draft.allSlurs, Draft.slurView, List.filter_map,
      rebaseLink, Function.comp_def]

/-- Whatever is typed, the slurs a line is warned about are told from the trail of its signs;
a line without a slot has none. -/
theorem slursPaired_of_readLine (htokens : readTokens text = .ok tokens)
    (h : readLine text instrument prior frame = .ok written) :
    (writesSlot text → written.line.SlursPaired (.ofTokens prior.openSlurs tokens)) ∧
      (¬writesSlot text → ∀ previous next incoming,
        LinkWarning.ofSlurs incoming (Line.linkWarnings previous written.line next) = []) := by
  obtain ⟨groups, draft, -, built, finished⟩ := exists_finished_of_readLine htokens h
  have hslots := built.slots_ne_nil_iff htokens
  cases finished with
  | rest closed empty =>
    refine ⟨fun hslot => absurd empty (hslots.2 hslot), fun _ previous next incoming => ?_⟩
    have hnone : (draft.restLine instrument).slurs = [] := rfl
    cases incoming with
    | false => simp [Line.ofSlurs_outgoing, Line.outgoingSlurWarnings, Line.outgoingSlurs, hnone]
    | true => simp [Line.ofSlurs_ingoing, Line.incomingSlurWarnings, Line.incomingSlurs, hnone]
  | slots closed nonempty =>
    exact ⟨fun _ => built.slursPaired (allRead_of_readTokens htokens) _ _,
      fun hslot => absurd (hslots.1 nonempty) hslot⟩

/-- A slur runs through a bar in which another opens at the second slot, and the next bar takes
one of the two. The one that is left was opened before the bar, but the warning is for the one
that opens in it. -/
theorem not_earliest_slur_through :
    ∃ tokens left right,
      readTokens "c2 d2(" = .ok tokens ∧
        readLine "c2 d2(" (.named "flute") { Carry.initial with openSlurs := 1 }
            ⟨.common, .moderate⟩ = .ok left ∧
          readLine "c1)" (.named "flute") { Carry.initial with openSlurs := 1 }
              ⟨.common, .moderate⟩ = .ok right ∧
            left.line.SlursPaired (.ofTokens 1 tokens) ∧
            SlurTrail.ofTokens 1 tokens = ⟨[some 1, none], []⟩ ∧
            LinkWarning.ofSlurs false (Line.linkWarnings none left.line (some right.line)) =
              [⟨.slur, 1, 3, false⟩] ∧
            ¬(LinkWarning.ofSlurs false
                (Line.linkWarnings none left.line (some right.line))).Perm
              (([none, some 1].take 1).map left.line.slurGoesOn) := by
  have htokens : (readTokens "c2 d2(").toOption.map (SlurTrail.ofTokens 1) =
      some ⟨[some 1, none], []⟩ := by
    decide +kernel
  have hright : (readLine "c1)" (.named "flute") { Carry.initial with openSlurs := 1 }
      ⟨.common, .moderate⟩).toOption.map (·.line.incomingSlurs.length) = some 1 := by
    decide +kernel
  have hleft : (readLine "c2 d2(" (.named "flute") { Carry.initial with openSlurs := 1 }
      ⟨.common, .moderate⟩).toOption.map (fun left => left.line.slots.map Slot.offset) =
        some [0, 3] := by
    decide +kernel
  have hslot : writesSlot "c2 d2(" := by decide +kernel
  obtain ⟨tokens, hread, htrail⟩ := Option.map_eq_some_iff.1 htokens
  obtain ⟨left, hreadLeft, hoffsets⟩ := Option.map_eq_some_iff.1 hleft
  obtain ⟨right, hreadRight, hmet⟩ := Option.map_eq_some_iff.1 hright
  rw [toOption_eq_some_iff] at hread hreadLeft hreadRight
  have paired := (slursPaired_of_readLine hread hreadLeft).1 hslot
  have hcount : left.line.outgoingSlurs.length - Line.slursMet (some right.line) = 1 := by
    rw [paired.outgoing_length, Line.slursMet, Option.map_some, hmet, htrail]
    rfl
  have hoffset : left.line.slots[1]?.map Slot.offset = some 3 := by
    rw [← List.getElem?_map, hoffsets]
    rfl
  have hwarned := paired.outgoing none (some right.line)
  have hearliest := paired.earliest_iff none (some right.line)
  rw [hcount, htrail] at hwarned hearliest
  refine ⟨tokens, left, right, hread, hreadLeft, hreadRight, paired, htrail, ?_, ?_⟩
  · rw [hwarned]
    simp [SlurTrail.opened, SlurTrail.carried, Line.slurGoesOn, Line.warningAt, hoffset]
  · intro hperm
    have hzero := hearliest.1 hperm 1
    simp [SlurTrail.opened, SlurTrail.carried] at hzero

end Shorthand

end Stave
