import Stave.Proofs.Draft.RampChain
import Stave.Proofs.WrittenLine.Slurs

/-!
# The ramps of a line

A line lists its ramps from left to right, and says at each slot what part it plays in them.
The chain of a draft carries over to its line, since heads become slot indices one to one and
in order: a ramp that came in is the first, one that is left open is the last, and what a slot
says is what the list says of its index.
-/
namespace Stave

/-- The ramps of a line follow one another, given what the bar before left, and the slots play
the parts they have in them. -/
structure Line.RampsChained (line : Line) (prior : Carry) : Prop where
  /-- A ramp starts and stops at slots, and does not run backwards. -/
  within : ∀ ramp ∈ line.ramps, ramp.link.Within (List.range line.slots.length)
  /-- A ramp that came in is the first. -/
  comesIn : ∀ direction, prior.openRamp = some direction →
    ∃ ramp, line.ramps.head? = some ramp ∧ ramp.start = none ∧ ramp.direction = direction ∧
      ramp.fromLevel = prior.level
  /-- Only the first ramp may come in, and only if one was left open before. -/
  startless : ∀ (index : Nat) ramp, line.ramps[index]? = some ramp → ramp.start = none →
    index = 0 ∧ prior.openRamp ≠ none
  /-- A ramp that is left open is the last. -/
  goesOn : ∀ direction, line.closing.openRamp = some direction →
    ∃ ramp, line.ramps.getLast? = some ramp ∧ ramp.stop = none ∧ ramp.direction = direction
  /-- Only the last ramp may go on, and only if the line leaves one open. -/
  endless : ∀ (index : Nat) ramp, line.ramps[index]? = some ramp → ramp.stop = none →
    index + 1 = line.ramps.length ∧ line.closing.openRamp ≠ none
  /-- A ramp stops no later than those after it start. -/
  ordered : line.ramps.Pairwise Ramp.Before
  role : ∀ (index : Nat) slot, line.slots[index]? = some slot →
    slot.ramp = rampRoleAt line.ramps index

namespace Shorthand

/-- Whether a text writes a slot: not every token of it is one the ledger takes away. -/
def writesSlot (text : String) : Bool :=
  match readTokens text with
  | .ok tokens => (Ledger.scan tokens).removedCount < tokens.length
  | .error _ => false

variable {text : String} {instrument : Instrument} {prior : Carry} {frame : Frame}
  {tokens : List Token} {draft : Draft} {groups : List TupletGroup} {written : WrittenLine}

/-- Every token is a head or one that is taken away. -/
theorem Ledger.length_headsFrom_add (index : Nat) (chord : Bool) (tokens : List Token) :
    (headsFrom index chord tokens).length + (removedFrom index chord tokens).length =
      tokens.length := by
  induction tokens generalizing index chord with
  | nil => rfl
  | cons token rest ih =>
    have hrest := ih (index + 1) (token.kind.opensChord chord)
    simp only [headsFrom, removedFrom, List.length_cons]
    split <;> simp only [List.length_cons] <;> omega

theorem writesSlot_iff (htokens : readTokens text = .ok tokens) :
    writesSlot text ↔ Ledger.headsFrom 0 false tokens ≠ [] := by
  have hlength := Ledger.length_headsFrom_add 0 false tokens
  simp only [writesSlot, htokens, Ledger.removedCount, Ledger.scan, List.size_toArray,
    decide_eq_true_eq, ← List.length_pos_iff]
  omega

/-- The draft of a text has slots exactly if the text writes one. -/
theorem Building.slots_ne_nil_iff (htokens : readTokens text = .ok tokens)
    (h : Building instrument (.start instrument prior frame) tokens draft []) :
    draft.slots ≠ [] ↔ writesSlot text := by
  have readAll := allRead_of_readTokens htokens
  rw [writesSlot_iff htokens, ← (h.heads_eq_headsFrom readAll.alternate readAll.closed).2]
  simp [Draft.heads]

/-- A line that is read from a text with a slot finishes the slots of a draft. -/
theorem exists_slotLine_of_readLine (hslot : writesSlot text)
    (h : readLine text instrument prior frame = .ok written) :
    ∃ tokens groups draft, readTokens text = .ok tokens ∧
      TupletGroup.scan tokens (Ledger.scan tokens) = .ok groups ∧
      Building instrument (.start instrument prior frame) tokens draft [] ∧
      written.line = draft.slotLine instrument (Ledger.scan tokens) prior.level
        (groups.map TupletGroup.range) := by
  obtain ⟨tokens, htokens, hbuild⟩ := readLine_eq_ok.1 h
  obtain ⟨groups, draft, hscan, built, finished⟩ := exists_finished_of_buildLine hbuild
  refine ⟨tokens, groups, draft, htokens, hscan, built, ?_⟩
  cases finished with
  | rest closed empty => exact absurd empty ((built.slots_ne_nil_iff htokens).2 hslot)
  | slots => rfl

/-- The part of a head in the ramps of a draft is that of its slot in the ramps of the line. -/
theorem rampRoleAt_map_rebaseRamp {ramps : List Ramp} {index head : Nat}
    (hwithin : ∀ ramp ∈ ramps, ramp.link.Within (Ledger.headsFrom 0 false tokens))
    (hhead : (Ledger.headsFrom 0 false tokens)[index]? = some head) :
    rampRoleAt (ramps.map (rebaseRamp (Ledger.scan tokens))) index = rampRoleAt ramps head := by
  have hstart : ∀ ramp ∈ ramps,
      ((rebaseRamp (Ledger.scan tokens) ramp).start = some index ↔ ramp.start = some head) :=
    fun ramp hmem => map_rebase_eq_some_iff (hwithin ramp hmem).start_mem hhead
  have hstop : ∀ ramp ∈ ramps,
      ((rebaseRamp (Ledger.scan tokens) ramp).stop = some index ↔ ramp.stop = some head) :=
    fun ramp hmem => map_rebase_eq_some_iff (hwithin ramp hmem).stop_mem hhead
  simp only [rampRoleAt, List.any_map]
  congr 1
  · rw [Bool.eq_iff_iff, List.any_eq_true, List.any_eq_true]
    exact exists_congr fun ramp => and_congr_right fun hmem => by simp [hstart ramp hmem]
  · rw [Bool.eq_iff_iff, List.any_eq_true, List.any_eq_true]
    exact exists_congr fun ramp => and_congr_right fun hmem => by simp [hstop ramp hmem]

/-- The ramps of a chain that lack a start or a stop are the first or the last. -/
theorem RampView.Chained.ends {view : RampView} (h : view.Chained prior) :
    (∀ direction, prior.openRamp = some direction →
        ∃ ramp, view.chain.head? = some ramp ∧ ramp.start = none ∧ ramp.direction = direction ∧
          ramp.fromLevel = prior.level) ∧
      (∀ (index : Nat) ramp, view.chain[index]? = some ramp → ramp.start = none →
        index = 0 ∧ prior.openRamp ≠ none) ∧
      (∀ opened, view.opened = some opened →
        ∃ ramp, view.chain.getLast? = some ramp ∧ ramp.stop = none ∧
          ramp.direction = opened.direction) ∧
      ∀ (index : Nat) ramp, view.chain[index]? = some ramp → ramp.stop = none →
        index + 1 = view.chain.length ∧ view.opened ≠ none := by
  obtain ⟨started, hsources, hstarted⟩ := h.sources
  refine ⟨fun direction hopen => ?_, fun index ramp hramp hnone => ?_, fun opened hopen => ?_,
    fun index ramp hramp hnone => ?_⟩
  · have hhead := congrArg List.head? hsources
    simp only [Carry.rampSource, hopen, Option.map_some, Option.toList_some, List.head?_map,
      List.singleton_append, List.head?_cons] at hhead
    obtain ⟨ramp, hramp, hsource⟩ := Option.map_eq_some_iff.1 hhead
    simp only [Ramp.source, Prod.mk.injEq] at hsource
    exact ⟨ramp, hramp, hsource⟩
  · have hsource := congrArg (·[index]?) hsources
    simp only [List.getElem?_map, hramp, Option.map_some] at hsource
    have hnot : ramp.source ∉ started := fun hmem => hstarted _ hmem hnone
    cases hopen : prior.openRamp with
    | none =>
      simp only [Carry.rampSource, hopen, Option.map_none, Option.toList_none,
        List.nil_append] at hsource
      exact absurd (List.mem_of_getElem? hsource.symm) hnot
    | some direction =>
      refine ⟨?_, Option.some_ne_none _⟩
      simp only [Carry.rampSource, hopen, Option.map_some, Option.toList_some,
        List.singleton_append] at hsource
      cases index with
      | zero => rfl
      | succ index =>
        rw [List.getElem?_cons_succ] at hsource
        exact absurd (List.mem_of_getElem? hsource.symm) hnot
  · exact ⟨opened.close none opened.target, by simp [RampView.chain, hopen], rfl, rfl⟩
  · have hnot : ramp ∉ view.stopped := fun hmem => h.stops ramp hmem hnone
    have hmem := List.mem_of_getElem? hramp
    have hlt := (List.getElem?_eq_some_iff.1 hramp).1
    cases hopen : view.opened with
    | none => simp [RampView.chain, hopen, hnot] at hmem
    | some opened =>
      refine ⟨?_, Option.some_ne_none _⟩
      have hlength : view.chain.length = view.stopped.length + 1 := by
        simp [RampView.chain, hopen]
      rcases Nat.lt_or_ge index view.stopped.length with hinside | hend
      · rw [RampView.chain, List.getElem?_append_left hinside] at hramp
        exact absurd (List.mem_of_getElem? hramp) hnot
      · omega

theorem Ramp.Before.rebase {first second : Ramp} (h : first.Before second)
    (hsecond : second.link.Within (Ledger.headsFrom 0 false tokens)) :
    (rebaseRamp (Ledger.scan tokens) first).Before
      (rebaseRamp (Ledger.scan tokens) second) := by
  intro b a hb ha
  obtain ⟨stop, hstop, rfl⟩ := Option.map_eq_some_iff.1 hb
  obtain ⟨start, hstart, rfl⟩ := Option.map_eq_some_iff.1 ha
  have hlt := Ledger.lt_of_mem_headsFrom (hsecond.start_mem start hstart)
  exact Ledger.rebase_le_rebase (h stop start hstop hstart) (Nat.le_of_lt hlt)

/-- The ramps of the slots of a draft are a chain, and so are those of its line. -/
theorem Building.rampsChained (readAll : Token.AllRead false tokens)
    (h : Building instrument (.start instrument prior frame) tokens draft [])
    (groupsWithin : ∀ group ∈ groups, group.range.Within draft.slots.length) :
    (draft.slotLine instrument (Ledger.scan tokens) prior.level
      (groups.map TupletGroup.range)).RampsChained prior := by
  have hchained := h.chained readAll.alternate
  have hheads := (h.heads_eq_headsFrom readAll.alternate readAll.closed).2
  have hranges := start_le_of_groupsWithin groupsWithin
  have hcount := Draft.length_slots_slotLine hranges draft instrument (Ledger.scan tokens)
    prior.level
  rw [hheads] at hcount
  have hwithin : ∀ ramp ∈ draft.allRamps,
      ramp.link.Within (Ledger.headsFrom 0 false tokens) := by
    intro ramp hmem
    have hviewed := hchained.within ramp hmem
    rw [Draft.heads_rampView, hheads] at hviewed
    exact hviewed.mono fun _ => List.mem_reverse.1
  obtain ⟨hcomesIn, hstartless, hgoesOn, hendless⟩ := hchained.ends
  rw [Draft.chain_rampView] at hcomesIn hstartless hgoesOn hendless
  have hramp {index : Nat} {ramp : Ramp}
      (hindex : (draft.allRamps.map (rebaseRamp (Ledger.scan tokens)))[index]? = some ramp) :
      ∃ raw, draft.allRamps[index]? = some raw ∧ rebaseRamp (Ledger.scan tokens) raw = ramp := by
    rw [List.getElem?_map] at hindex
    exact Option.map_eq_some_iff.1 hindex
  refine ⟨?_, ?_, ?_, ?_, ?_, ?_, ?_⟩
  · intro ramp hmem
    obtain ⟨raw, hraw, rfl⟩ := List.mem_map.1 hmem
    rw [hcount]
    exact within_rebaseLink (hwithin raw hraw)
  · intro direction hopen
    obtain ⟨raw, hhead, hstart, hdirection, hlevel⟩ := hcomesIn direction hopen
    refine ⟨rebaseRamp (Ledger.scan tokens) raw, ?_, ?_, hdirection, hlevel⟩
    · simp [Draft.slotLine, hhead]
    · simp [rebaseRamp, hstart]
  · intro index ramp hindex hnone
    obtain ⟨raw, hraw, rfl⟩ := hramp hindex
    exact hstartless index raw hraw (Option.map_eq_none_iff.1 hnone)
  · intro direction hopen
    obtain ⟨opened, hopened, rfl⟩ := Option.map_eq_some_iff.1 hopen
    obtain ⟨raw, hlast, hstop, hdirection⟩ := hgoesOn opened hopened
    refine ⟨rebaseRamp (Ledger.scan tokens) raw, ?_, ?_, hdirection⟩
    · simp [Draft.slotLine, hlast]
    · simp [rebaseRamp, hstop]
  · intro index ramp hindex hnone
    obtain ⟨raw, hraw, rfl⟩ := hramp hindex
    obtain ⟨hlength, hopen⟩ := hendless index raw hraw (Option.map_eq_none_iff.1 hnone)
    refine ⟨?_, fun hclosed => hopen (Option.map_eq_none_iff.1 hclosed)⟩
    simpa [Draft.slotLine] using hlength
  · refine List.pairwise_map.2 (hchained.ordered.imp_of_mem fun _ hsecond hbefore => ?_)
    exact Ramp.Before.rebase hbefore (hwithin _ hsecond)
  · intro index slot hslot
    have hroles := Draft.map_slots_slotLine Slot.ramp (fun _ _ _ _ _ => rfl) hranges draft
      instrument (Ledger.scan tokens) prior.level
    have hat := congrArg (·[index]?) hroles
    simp only [List.getElem?_map, hslot, Option.map_some] at hat
    obtain ⟨raw, hraw, hrole⟩ := Option.map_eq_some_iff.1 hat.symm
    have hhead : (Ledger.headsFrom 0 false tokens)[index]? = some raw.head := by
      rw [← hheads, Draft.heads, List.getElem?_map, hraw]
      rfl
    have hmem : raw.rampSlot ∈ draft.rampView.slots :=
      List.mem_map_of_mem (List.mem_reverse.1 (List.mem_of_getElem? hraw))
    rw [← hrole]
    exact (hchained.role _ hmem).trans (rampRoleAt_map_rebaseRamp hwithin hhead).symm

/-- Whatever is typed, the ramps of a line with a slot are a chain from what the bar before
left open to what the line leaves open. -/
theorem rampsChained_of_readLine (hslot : writesSlot text)
    (h : readLine text instrument prior frame = .ok written) :
    written.line.RampsChained prior := by
  obtain ⟨tokens, groups, draft, htokens, hscan, built, heq⟩ := exists_slotLine_of_readLine hslot h
  have readAll := allRead_of_readTokens htokens
  rw [heq]
  exact built.rampsChained readAll (built.groupsWithin readAll hscan)

/-- A crescendo of the bar before stops where a diminuendo starts, which a dynamic stops, and a
crescendo is left open. -/
theorem rampsChained_hairpins :
    writesSlot "c4 d\\f\\> e\\p f\\<" ∧
      ∃ written,
        readLine "c4 d\\f\\> e\\p f\\<" (.named "flute")
            { Carry.initial with openRamp := some .crescendo } ⟨.common, .moderate⟩ = .ok written ∧
          written.line.ramps.map Ramp.link =
            [⟨none, some 1⟩, ⟨some 1, some 2⟩, ⟨some 3, none⟩] ∧
          written.line.slots.map Slot.ramp = [none, some .both, some .stop, some .start] ∧
          written.line.RampsChained { Carry.initial with openRamp := some .crescendo } := by
  have hslot : writesSlot "c4 d\\f\\> e\\p f\\<" := by decide +kernel
  refine ⟨hslot, ?_⟩
  have hparts : (readLine "c4 d\\f\\> e\\p f\\<" (.named "flute")
      { Carry.initial with openRamp := some .crescendo } ⟨.common, .moderate⟩).toOption.map
        (fun written => (written.line.ramps.map Ramp.link, written.line.slots.map Slot.ramp)) =
      some ([⟨none, some 1⟩, ⟨some 1, some 2⟩, ⟨some 3, none⟩],
        [none, some .both, some .stop, some .start]) := by
    decide +kernel
  obtain ⟨written, hread, heq⟩ := Option.map_eq_some_iff.1 hparts
  obtain ⟨hramps, hroles⟩ := Prod.mk.injEq .. ▸ heq
  have h := toOption_eq_some_iff.1 hread
  exact ⟨written, h, hramps, hroles, rampsChained_of_readLine hslot h⟩

end Shorthand

end Stave
