import Stave.Proofs.WrittenLine.InRange

/-!
# The slurs of a line

A line names its slurs by their place in a list, lists them at the slots they open and close
at, and counts those it leaves open. That all of this fits together carries over from the
draft, since heads become slot indices one to one and in order. Slurs that only run through a
bar are added at the end; they start before everything and stop after everything, and so
cross nothing.
-/
namespace Stave

/-- The place a link comes from; one without a start comes from before the first slot. -/
def Link.entry (link : Link) : Int := (link.start.map Int.ofNat).getD (-1)

/-- The place a link goes to in a line of `count` slots; one without a stop goes on past the
last slot. -/
def Link.exit (link : Link) (count : Nat) : Int := ((link.stop.getD count : Nat) : Int)

/-- The slurs of a line and the slots they are listed at belong together, where `incoming`
slurs came in. -/
structure Line.SlursConsistent (line : Line) (incoming : Nat) : Prop where
  within : ∀ link ∈ line.slurs, link.Within (List.range line.slots.length)
  /-- A slur opens once at the slot it starts at, and at no other. -/
  opened : ∀ (id : Nat) link, line.slurs[id]? = some link →
    ∀ (index : Nat) slot, line.slots[index]? = some slot →
      slot.slursOpened.count id = if link.start = some index then 1 else 0
  /-- A slur closes once at the slot it stops at, and at no other. -/
  closed : ∀ (id : Nat) link, line.slurs[id]? = some link →
    ∀ (index : Nat) slot, line.slots[index]? = some slot →
      slot.slursClosed.count id = if link.stop = some index then 1 else 0
  known : ∀ slot ∈ line.slots, ∀ id, id ∈ slot.slursOpened ∨ id ∈ slot.slursClosed →
    id < line.slurs.length
  incoming : line.slurs.countP (·.start.isNone) = incoming
  outgoing : line.slurs.countP (·.stop.isNone) = line.closing.openSlurs
  uncrossed : ∀ first ∈ line.slurs, ∀ second ∈ line.slurs,
    ¬(first.entry < second.entry ∧ second.entry < first.exit line.slots.length ∧
      first.exit line.slots.length < second.exit line.slots.length)

namespace Shorthand

variable {instrument : Instrument} {prior : Carry} {frame : Frame} {tokens read : List Token}
  {draft : Draft} {due : List PostEvent} {groups : List TupletGroup} {written : WrittenLine}
  {raw link first second : Link} {id : Nat}

/-- The ends of the slurs of a line are those of the draft; a slur that runs through has
none. -/
theorem Draft.ends_of_allSlurs (h : draft.allSlurs[id]? = some raw) :
    raw.start = SlurView.startOf? draft.slurView.links id ∧
      raw.stop = SlurView.stopOf? draft.slurView.links id := by
  simp only [SlurView.startOf?, SlurView.stopOf?, slurView]
  by_cases hid : id < draft.slurs.toList.length
  · rw [allSlurs, List.getElem?_append_left hid] at h
    simp [h]
  · rw [allSlurs, List.getElem?_append_right (by omega)] at h
    rw [List.eq_of_mem_replicate (List.mem_of_getElem? h), List.getElem?_eq_none (by omega)]
    exact ⟨rfl, rfl⟩

theorem Ledger.lt_of_rebase_lt {token other : Nat} (hlength : token ≤ tokens.length)
    (h : (Ledger.scan tokens).rebase token < (Ledger.scan tokens).rebase other) :
    token < other := by
  rcases Nat.lt_or_ge token other with hlt | hge
  · exact hlt
  · have := Ledger.rebase_le_rebase hge hlength
    omega

/-- Links that cross by slots cross by heads. -/
theorem crosses_of_rebaseLink (hfirst : first.Within (Ledger.headsFrom 0 false tokens))
    (hsecond : second.Within (Ledger.headsFrom 0 false tokens))
    {count : Nat} (hcount : count = (Ledger.headsFrom 0 false tokens).length)
    (hentry : (rebaseLink (Ledger.scan tokens) first).entry <
      (rebaseLink (Ledger.scan tokens) second).entry)
    (hinside : (rebaseLink (Ledger.scan tokens) second).entry <
      (rebaseLink (Ledger.scan tokens) first).exit count)
    (hexit : (rebaseLink (Ledger.scan tokens) first).exit count <
      (rebaseLink (Ledger.scan tokens) second).exit count) : first.Crosses second := by
  have hlength {head : Nat} (hmem : head ∈ Ledger.headsFrom 0 false tokens) :
      head ≤ tokens.length := Nat.le_of_lt (Ledger.lt_of_mem_headsFrom hmem)
  simp only [Link.entry, Link.exit, rebaseLink] at hentry hinside hexit
  cases hb : second.start with
  | none =>
    -- nothing comes from further left than a slur that comes in
    cases ha : first.start <;> simp [ha, hb] at hentry
    omega
  | some b =>
    cases hc : first.stop with
    | none =>
      -- nothing goes further right than a slur that goes on
      cases hd : second.stop with
      | none => simp [hc, hd] at hexit
      | some d =>
        have := Ledger.rebase_lt (hsecond.stop_mem d hd)
        simp [hc, hd] at hexit
        omega
    | some c =>
      simp only [hb, hc, Option.map_some, Option.getD_some] at hentry hinside hexit
      refine ⟨b, c, hb, hc, ?_, ?_, ?_⟩
      · exact Ledger.lt_of_rebase_lt (hlength (hsecond.start_mem b hb)) (by simpa using hinside)
      · intro a ha
        simp only [ha, Option.map_some, Option.getD_some] at hentry
        exact Ledger.lt_of_rebase_lt (hlength (hfirst.start_mem a ha)) (by simpa using hentry)
      · intro d hd
        simp only [hd, Option.map_some, Option.getD_some] at hexit
        exact Ledger.lt_of_rebase_lt (hlength (hfirst.stop_mem c hc)) (by simpa using hexit)

/-- An end of a slur is moved to the index of a slot just if it is the head of that slot. -/
theorem map_rebase_eq_some_iff {place : Option Nat} {head index : Nat}
    (hplace : ∀ token, place = some token → token ∈ Ledger.headsFrom 0 false tokens)
    (hhead : (Ledger.headsFrom 0 false tokens)[index]? = some head) :
    place.map (Ledger.scan tokens).rebase = some index ↔ place = some head := by
  have hindex := Ledger.rebase_of_getElem? hhead
  constructor
  · intro h
    obtain ⟨token, htoken, heq⟩ := Option.map_eq_some_iff.1 h
    rw [htoken, Ledger.rebase_inj (hplace token htoken) (List.mem_of_getElem? hhead)
      (heq.trans hindex.symm)]
  · intro h
    rw [h, Option.map_some, hindex]

/-- At a slot of the line those slurs are listed that start or stop at its head. -/
theorem Building.exists_head_of_slot (readAll : Token.AllRead false tokens)
    (h : Building instrument (.start instrument prior frame) tokens draft [])
    (groupsWithin : ∀ group ∈ groups, group.range.Within draft.slots.length)
    {index : Nat} {slot : Slot}
    (hslot : (draft.slotLine instrument (Ledger.scan tokens) prior.level
      (groups.map TupletGroup.range)).slots[index]? = some slot) :
    ∃ head, (Ledger.headsFrom 0 false tokens)[index]? = some head ∧ ∀ id,
      slot.slursOpened.count id =
          (if SlurView.startOf? draft.slurView.links id = some head then 1 else 0) ∧
        slot.slursClosed.count id =
          if SlurView.stopOf? draft.slurView.links id = some head then 1 else 0 := by
  have hlisted := Draft.map_slots_slotLine
    (fun slot => (slot.slursOpened, slot.slursClosed)) (fun _ _ _ _ _ => rfl)
    (start_le_of_groupsWithin groupsWithin) draft instrument (Ledger.scan tokens) prior.level
  have hat := congrArg (·[index]?) hlisted
  simp only [List.getElem?_map, hslot, Option.map_some] at hat
  obtain ⟨raw, hraw, heq⟩ := Option.map_eq_some_iff.1 hat.symm
  obtain ⟨hopened, hclosed⟩ := Prod.mk.injEq .. ▸ heq
  refine ⟨raw.head, ?_, fun id => ?_⟩
  · rw [← (h.heads_eq_headsFrom readAll.alternate readAll.closed).2, Draft.heads,
      List.getElem?_map, hraw]
    rfl
  · rw [← hopened, ← hclosed]
    have hmem := List.mem_reverse.1 (List.mem_of_getElem? hraw)
    exact (h.consistent readAll.alternate).listed raw.slurSlot (List.mem_map_of_mem hmem) id

/-- The slurs of a line with slots are consistent. -/
theorem Building.slursConsistent (readAll : Token.AllRead false tokens)
    (h : Building instrument (.start instrument prior frame) tokens draft [])
    (groupsWithin : ∀ group ∈ groups, group.range.Within draft.slots.length) :
    (draft.slotLine instrument (Ledger.scan tokens) prior.level
      (groups.map TupletGroup.range)).SlursConsistent prior.openSlurs := by
  have consistent := h.consistent readAll.alternate
  have hheads := (h.heads_eq_headsFrom readAll.alternate readAll.closed).2
  have hcount := Draft.length_slots_slotLine (start_le_of_groupsWithin groupsWithin) draft
    instrument (Ledger.scan tokens) prior.level
  rw [hheads] at hcount
  have hwithin : ∀ raw ∈ draft.allSlurs, raw.Within (Ledger.headsFrom 0 false tokens) := by
    intro raw hmem
    rw [← hheads]
    exact h.within_allSlurs readAll.alternate hmem
  -- what is asked of a slur of the line is asked of the slur of the draft it came from
  have hslurs (id : Nat) (link : Link)
      (hlink : (draft.allSlurs.map (rebaseLink (Ledger.scan tokens)))[id]? = some link) :
      ∃ raw, draft.allSlurs[id]? = some raw ∧ rebaseLink (Ledger.scan tokens) raw = link := by
    rw [List.getElem?_map] at hlink
    exact Option.map_eq_some_iff.1 hlink
  refine ⟨?_, ?_, ?_, ?_, ?_, ?_, ?_⟩
  · intro link hmem
    obtain ⟨raw, hraw, rfl⟩ := List.mem_map.1 hmem
    rw [hcount]
    exact within_rebaseLink (hwithin raw hraw)
  · intro id link hlink index slot hslot
    obtain ⟨raw, hraw, rfl⟩ := hslurs id link hlink
    obtain ⟨head, hhead, hlisted⟩ := h.exists_head_of_slot readAll groupsWithin hslot
    have hends := hwithin raw (List.mem_of_getElem? hraw)
    rw [(hlisted id).1, ← (Draft.ends_of_allSlurs hraw).1]
    simp only [rebaseLink, map_rebase_eq_some_iff hends.start_mem hhead]
  · intro id link hlink index slot hslot
    obtain ⟨raw, hraw, rfl⟩ := hslurs id link hlink
    obtain ⟨head, hhead, hlisted⟩ := h.exists_head_of_slot readAll groupsWithin hslot
    have hends := hwithin raw (List.mem_of_getElem? hraw)
    rw [(hlisted id).2, ← (Draft.ends_of_allSlurs hraw).2]
    simp only [rebaseLink, map_rebase_eq_some_iff hends.stop_mem hhead]
  · intro slot hmem id hid
    obtain ⟨index, hslot⟩ := List.mem_iff_getElem?.1 hmem
    obtain ⟨head, hhead, hlisted⟩ := h.exists_head_of_slot readAll groupsWithin hslot
    have hknown : id < draft.slurs.toList.length := by
      rcases hid with hid | hid
      · have hpos := List.count_pos_iff.2 hid
        rw [(hlisted id).1] at hpos
        split at hpos
        case isTrue hstart => exact SlurView.lt_of_bind_eq_some hstart
        case isFalse => exact absurd hpos (Nat.lt_irrefl 0)
      · have hpos := List.count_pos_iff.2 hid
        rw [(hlisted id).2] at hpos
        split at hpos
        case isTrue hstop => exact SlurView.lt_of_bind_eq_some hstop
        case isFalse => exact absurd hpos (Nat.lt_irrefl 0)
    simp only [Draft.slotLine, Draft.allSlurs, List.length_map, List.length_append]
    omega
  · have := consistent.starts
    simpa [Draft.slotLine, Draft.allSlurs, rebaseLink, Function.comp_def, Draft.slurView,
      List.countP_map, List.countP_replicate] using this
  · have := consistent.stops
    simpa [Draft.slotLine, Draft.allSlurs, rebaseLink, Function.comp_def, Draft.slurView,
      List.countP_map, List.countP_replicate, Draft.closing] using this
  · rintro first hfirst second hsecond ⟨hentry, hinside, hexit⟩
    obtain ⟨raw, hraw, rfl⟩ := List.mem_map.1 hfirst
    obtain ⟨other, hother, rfl⟩ := List.mem_map.1 hsecond
    have hcross := crosses_of_rebaseLink (hwithin raw hraw) (hwithin other hother) hcount
      hentry hinside hexit
    obtain ⟨b, c, hb, hc, -⟩ := id hcross
    rcases List.mem_append.1 hraw with hraw | hraw
    · rcases List.mem_append.1 hother with hother | hother
      · exact consistent.uncrossed raw hraw other hother hcross
      · rw [List.eq_of_mem_replicate hother] at hb
        cases hb
    · rw [List.eq_of_mem_replicate hraw] at hc
      cases hc

/-- The signs of a line that is taken have all attached. -/
theorem Building.attached_all (readAll : Token.AllRead false tokens)
    (h : Building instrument (.start instrument prior frame) tokens draft []) :
    draft.closing.openSlurs + (writtenPost tokens).count .slurClose =
        prior.openSlurs + (writtenPost tokens).count .slurOpen ∧
      SlursMatch prior.openSlurs (writtenPost tokens) := by
  obtain ⟨attached, hwritten, hwaiting, hmatch⟩ := h.exists_attached readAll.alternate
  obtain ⟨hclosed, -⟩ := h.heads_eq_headsFrom readAll.alternate readAll.closed
  have heq : writtenPost tokens = attached := by simpa [Draft.chordPost, hclosed] using hwritten
  rw [heq]
  exact ⟨hwaiting, hmatch⟩

theorem buildLine_unmatchedSlurClose_iff {offset : Nat} :
    buildLine tokens instrument prior frame = .error ⟨.unmatchedSlurClose, offset⟩ ↔
      (∃ groups, TupletGroup.scan tokens (Ledger.scan tokens) = .ok groups) ∧
        (Draft.start instrument prior frame).acceptAll instrument 0 tokens =
          .error ⟨.unmatchedSlurClose, offset⟩ := by
  constructor
  · intro h
    cases stops_of_buildLine h with
    | groups fault => simp [TupletGroup.scanFaults] at fault
    | run scanned fault refused => exact ⟨⟨_, scanned⟩, refused⟩
    | finish scanned taken refused => cases refused
  · rintro ⟨⟨groups, hscan⟩, hrun⟩
    exact bind_error_iff.2 (.inr ⟨groups, hscan, bind_error_iff.2 (.inl hrun)⟩)

/-- What reading a line promises of its slurs. -/
structure ReadsSlurs (text : String) (instrument : Instrument) (prior : Carry)
    (frame : Frame) : Prop where
  /-- In a line with a slot the slurs are consistent, and those left open are those that came
  in and those that were opened, less those that were closed. -/
  consistent : ∀ tokens written, readTokens text = .ok tokens →
    (∃ token, token < tokens.length ∧ token ∉ (Ledger.scan tokens).removed) →
    readLine text instrument prior frame = .ok written →
      written.line.SlursConsistent prior.openSlurs ∧
        written.line.closing.openSlurs + (writtenPost tokens).count .slurClose =
          prior.openSlurs + (writtenPost tokens).count .slurOpen
  /-- In a line that is taken every sign that closes a slur found one to close. -/
  matched : ∀ tokens written, readTokens text = .ok tokens →
    readLine text instrument prior frame = .ok written →
      SlursMatch prior.openSlurs (writtenPost tokens)
  /-- A sign that is reached is refused exactly if as many slurs were closed before it as had
  come in or opened. -/
  sign : ∀ tokens read rest draft due before head, readTokens text = .ok tokens →
    tokens = read ++ rest →
    Building instrument (.start instrument prior frame) read draft (.slurClose :: due) →
    writtenPost read = before ++ .slurClose :: due →
      (draft.attachOne head .slurClose = .error .unmatchedSlurClose ↔
        before.count .slurClose = prior.openSlurs + before.count .slurOpen)
  /-- A line is refused for want of a slur exactly if its run comes to such a sign. -/
  refused : ∀ offset, readLine text instrument prior frame =
      .error (.build ⟨.unmatchedSlurClose, offset⟩) ↔
    ∃ tokens groups before, readTokens text = .ok tokens ∧
      TupletGroup.scan tokens (Ledger.scan tokens) = .ok groups ∧
      ComesToClose instrument (.start instrument prior frame) tokens before offset ∧
      before.count .slurClose = prior.openSlurs + before.count .slurOpen

/-- Whatever is typed, the slurs of a line are consistent, and a sign is refused just where no
slur is left to close. -/
theorem readsSlurs (text : String) (instrument : Instrument) (prior : Carry) (frame : Frame) :
    ReadsSlurs text instrument prior frame := by
  refine ⟨?_, ?_, ?_, ?_⟩
  · rintro tokens written htokens ⟨token, hlt, hkept⟩ h
    have readAll := allRead_of_readTokens htokens
    obtain ⟨groups, draft, hscan, built, finished⟩ := exists_finished_of_readLine htokens h
    have hbalance := (built.attached_all readAll).1
    cases finished with
    | rest closed empty =>
      -- a token that is kept heads a slot
      have hhead := Ledger.mem_headsFrom_iff.2 ⟨hlt, hkept⟩
      rw [← (built.heads_eq_headsFrom readAll.alternate readAll.closed).2] at hhead
      simp [Draft.heads, empty] at hhead
    | slots =>
      exact ⟨built.slursConsistent readAll (built.groupsWithin readAll hscan), hbalance⟩
  · intro tokens written htokens h
    obtain ⟨groups, draft, -, built, -⟩ := exists_finished_of_readLine htokens h
    exact (built.attached_all (allRead_of_readTokens htokens)).2
  · intro tokens read rest draft due before head htokens hsplit built hbefore
    have alternate := (allRead_of_readTokens htokens).alternate
    rw [hsplit] at alternate
    exact built.attachOne_slurClose_iff (chordsAlternate_append.1 alternate).1 hbefore
  · intro offset
    rw [readLine_eq_build]
    constructor
    · rintro ⟨tokens, htokens, hbuild⟩
      have readAll := allRead_of_readTokens htokens
      obtain ⟨⟨groups, hscan⟩, hrun⟩ := buildLine_unmatchedSlurClose_iff.1 hbuild
      obtain ⟨before, hcomes, hcount⟩ :=
        (Building.acceptAll_unmatchedSlurClose_iff readAll.alternate).1 hrun
      exact ⟨tokens, groups, before, htokens, hscan, hcomes, hcount⟩
    · rintro ⟨tokens, groups, before, htokens, hscan, hcomes, hcount⟩
      have readAll := allRead_of_readTokens htokens
      have hrun := (Building.acceptAll_unmatchedSlurClose_iff readAll.alternate).2
        ⟨before, hcomes, hcount⟩
      exact ⟨tokens, htokens, buildLine_unmatchedSlurClose_iff.2 ⟨⟨groups, hscan⟩, hrun⟩⟩

/-- A slur of the bar before closes after the one of this bar, and another is left open. With no
slur of the bar before the sign that closes it is refused. -/
theorem readsSlurs_carried :
    (∃ tokens written, readTokens "c4( d) e) f(" = .ok tokens ∧
        readLine "c4( d) e) f(" (.named "flute") { Carry.initial with openSlurs := 1 }
          ⟨.common, .moderate⟩ = .ok written ∧
        written.line.slurs = [⟨some 0, some 1⟩, ⟨none, some 2⟩, ⟨some 3, none⟩] ∧
        written.line.SlursConsistent 1 ∧
        written.line.closing.openSlurs + (writtenPost tokens).count .slurClose =
          1 + (writtenPost tokens).count .slurOpen ∧
        SlursMatch 1 (writtenPost tokens)) ∧
      readLine "c4( d) e) f(" (.named "flute") .initial ⟨.common, .moderate⟩ =
          .error (.build ⟨.unmatchedSlurClose, 7⟩) ∧
        ∃ tokens groups before, readTokens "c4( d) e) f(" = .ok tokens ∧
          TupletGroup.scan tokens (Ledger.scan tokens) = .ok groups ∧
          ComesToClose (.named "flute") (.start (.named "flute") .initial ⟨.common, .moderate⟩)
            tokens before 7 ∧
          before.count .slurClose = 0 + before.count .slurOpen := by
  have hparts : (readTokens "c4( d) e) f(").toOption.bind (fun tokens =>
      (readLine "c4( d) e) f(" (.named "flute") { Carry.initial with openSlurs := 1 }
        ⟨.common, .moderate⟩).toOption.map fun written =>
          (written.line.slurs, decide (0 < tokens.length ∧ 0 ∉ (Ledger.scan tokens).removed))) =
      some ([⟨some 0, some 1⟩, ⟨none, some 2⟩, ⟨some 3, none⟩], true) := by
    decide +kernel
  have hrefused : failure? (readLine "c4( d) e) f(" (.named "flute") .initial
      ⟨.common, .moderate⟩) = some (.build ⟨.unmatchedSlurClose, 7⟩) := by
    decide +kernel
  obtain ⟨tokens, htokens, hparts⟩ := Option.bind_eq_some_iff.1 hparts
  obtain ⟨written, hwritten, heq⟩ := Option.map_eq_some_iff.1 hparts
  obtain ⟨hslurs, hkept⟩ := by simpa only [Prod.mk.injEq, decide_eq_true_eq] using heq
  rw [toOption_eq_some_iff] at htokens hwritten
  rw [failure?_eq_some_iff] at hrefused
  have reads := readsSlurs "c4( d) e) f(" (.named "flute") { Carry.initial with openSlurs := 1 }
    ⟨.common, .moderate⟩
  obtain ⟨consistent, hbalance⟩ := reads.consistent tokens written htokens ⟨0, hkept⟩ hwritten
  exact ⟨⟨tokens, written, htokens, hwritten, hslurs, consistent, hbalance,
    reads.matched tokens written htokens hwritten⟩, hrefused,
    ((readsSlurs ..).refused 7).1 hrefused⟩

end Shorthand

end Stave
