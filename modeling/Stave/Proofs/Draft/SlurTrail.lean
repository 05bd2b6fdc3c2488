import Stave.Proofs.Draft.Slotted

/-!
# The slurs that wait for their close

Slurs nest: a sign that closes a slur closes the one opened last of those that wait, and the
slurs of earlier bars were opened before all slurs of this one. A trail follows the signs of a
line by this rule alone, from sign to sign and without a list of slurs. The draft numbers its
slurs where they are first met, those of its own at their start and those of earlier bars at
their stop; still its links without a stop are the slurs of this bar that wait, in the order
they opened, and its links without a start those of earlier bars, in the order they closed.
-/
namespace Stave.Shorthand

/-- The slurs a line has open after some of its signs, and those of earlier bars that closed. -/
structure SlurTrail where
  /-- The slurs that wait for their close, the last one opened first: the slot a slur was
  opened at, none for a slur of an earlier bar. -/
  waiting : List (Option Nat)
  /-- The slots at which slurs of earlier bars closed, in order. -/
  closed : List Nat
deriving DecidableEq

namespace SlurTrail

/-- The trail before the first sign. -/
def start (incoming : Nat) : SlurTrail := ⟨List.replicate incoming none, []⟩

/-- Follow a post-event of a slot. A sign that closes a slur closes the one opened last. -/
def follow (trail : SlurTrail) (slot : Nat) : PostEvent → SlurTrail
  | .slurOpen => { trail with waiting := some slot :: trail.waiting }
  | .slurClose =>
    match trail.waiting with
    | [] => trail
    | some _ :: others => { trail with waiting := others }
    | none :: others => ⟨others, trail.closed ++ [slot]⟩
  | _ => trail

/-- Follow the post-events of several slots in order. -/
def followAll (trail : SlurTrail) (events : List (Nat × PostEvent)) : SlurTrail :=
  events.foldl (fun trail event => trail.follow event.1 event.2) trail

/-- The slots at which the slurs of this bar that wait were opened, in order. -/
def opened (trail : SlurTrail) : List Nat := (trail.waiting.filterMap id).reverse

/-- The number of slurs of earlier bars that wait. -/
def carried (trail : SlurTrail) : Nat := trail.waiting.count none

/-- The slurs of earlier bars lie below all others. -/
structure Stacked (trail : SlurTrail) (opened : List Nat) (carried : Nat) : Prop where
  waiting : trail.waiting = opened.reverse.map some ++ List.replicate carried none

variable {trail : SlurTrail} {begun : List Nat} {count slot : Nat} {event : PostEvent}

theorem Stacked.opened_eq (h : trail.Stacked begun count) : trail.opened = begun := by
  simp [opened, h.waiting, List.filterMap_append, List.filterMap_map]

theorem Stacked.carried_eq (h : trail.Stacked begun count) : trail.carried = count := by
  simp [carried, h.waiting, List.count_eq_zero_of_not_mem]

theorem stacked_start (incoming : Nat) : (start incoming).Stacked [] incoming := ⟨rfl⟩

theorem Stacked.slurOpen (h : trail.Stacked begun count) :
    (trail.follow slot .slurOpen).Stacked (begun ++ [slot]) count :=
  ⟨by simp [follow, h.waiting]⟩

theorem Stacked.slurClose {last : Nat} (h : trail.Stacked (begun ++ [last]) count)
    (slot : Nat) :
    (trail.follow slot .slurClose).Stacked begun count ∧
      (trail.follow slot .slurClose).closed = trail.closed := by
  have hwaiting : trail.waiting = some last :: (begun.reverse.map some ++
      List.replicate count none) := by simp [h.waiting]
  rw [follow, hwaiting]
  exact ⟨⟨rfl⟩, rfl⟩

theorem Stacked.slurClose_carried (h : trail.Stacked [] (count + 1)) (slot : Nat) :
    (trail.follow slot .slurClose).Stacked [] count ∧
      (trail.follow slot .slurClose).closed = trail.closed ++ [slot] := by
  have hwaiting : trail.waiting = none :: List.replicate count none := h.waiting
  rw [follow, hwaiting]
  exact ⟨⟨rfl⟩, rfl⟩

theorem follow_of_not_isSlur (h : event.isSlur = false) (trail : SlurTrail) (slot : Nat) :
    trail.follow slot event = trail := by
  cases event <;> first | rfl | cases h

end SlurTrail

/-- The trail of the signs of a whole line. -/
def SlurTrail.ofTokens (incoming : Nat) (tokens : List Token) : SlurTrail :=
  (start incoming).followAll (slottedPost false 0 tokens)

namespace SlurView

/-- The links of a draft with a missing end and the slurs of a trail are the same, in the same
order; a slot of the trail is headed by the token of the link. -/
structure Trailed (view : SlurView) (heads : List Nat) (trail : SlurTrail) (begun : List Nat) :
    Prop where
  stacked : trail.Stacked begun view.carried
  starts : (view.links.filter (·.stop.isNone)).map Link.start = begun.map (heads[·]?)
  stops : (view.links.filter (·.start.isNone)).map Link.stop = trail.closed.map (heads[·]?)
  begun_lt : ∀ slot ∈ begun, slot < heads.length
  closed_lt : ∀ slot ∈ trail.closed, slot < heads.length

variable {incoming : Nat} {view view' : SlurView} {heads : List Nat} {trail : SlurTrail}
  {begun : List Nat} {head : Nat} {links : List Link}

theorem trailed_start (incoming : Nat) :
    Trailed ⟨[], [], [], incoming⟩ [] (.start incoming) [] where
  stacked := SlurTrail.stacked_start incoming
  starts := rfl
  stops := rfl
  begun_lt := nofun
  closed_lt := nofun

theorem map_getElem?_append {slots : List Nat} (h : ∀ slot ∈ slots, slot < heads.length)
    (more : List Nat) : slots.map ((heads ++ more)[·]?) = slots.map (heads[·]?) :=
  List.map_congr_left fun slot hmem => List.getElem?_append_left (h slot hmem)

/-- A new slot leaves the slurs where they are. -/
theorem Trailed.push (h : view.Trailed heads trail begun) (head : Nat) :
    (view.push head).Trailed (heads ++ [head]) trail begun where
  stacked := h.stacked
  starts := by
    rw [map_getElem?_append h.begun_lt]
    exact h.starts
  stops := by
    rw [map_getElem?_append h.closed_lt]
    exact h.stops
  begun_lt slot hmem := by
    have := h.begun_lt slot hmem
    simp only [List.length_append]
    omega
  closed_lt slot hmem := by
    have := h.closed_lt slot hmem
    simp only [List.length_append]
    omega

/-- Once the last link without a stop gets one, the others stay in order. -/
theorem filter_stop_modify {id : Nat} {start : Option Nat} (stop : Nat)
    (hlink : links[id]? = some ⟨start, none⟩)
    (hlast : ∀ (j : Nat) link, links[j]? = some link → link.stop = none → j ≤ id) :
    (links.modify id fun link => { link with stop := some stop }).filter (·.stop.isNone) =
      (links.filter (·.stop.isNone)).dropLast := by
  induction links generalizing id with
  | nil => simp at hlink
  | cons first rest ih =>
    cases id with
    | zero =>
      have hrest : rest.filter (·.stop.isNone) = [] := by
        refine List.filter_eq_nil_iff.2 fun link hmem hstop => ?_
        obtain ⟨j, hj⟩ := List.mem_iff_getElem?.1 hmem
        have := hlast (j + 1) link (by simpa using hj) (by simpa using hstop)
        omega
      have hfirst : first = ⟨start, none⟩ := by simpa using hlink
      simp [hrest, hfirst]
    | succ id =>
      have hid : rest[id]? = some ⟨start, none⟩ := by simpa using hlink
      have hne : rest.filter (·.stop.isNone) ≠ [] :=
        List.ne_nil_of_mem (List.mem_filter.2 ⟨List.mem_of_getElem? hid, rfl⟩)
      have hmodified := ih hid fun j link hj hstop =>
        Nat.le_of_succ_le_succ (hlast (j + 1) link (by simpa using hj) hstop)
      simp only [List.modify_succ_cons, List.filter_cons, hmodified]
      split
      · rw [List.dropLast_cons_of_ne_nil hne]
      · rfl

/-- A stop changes nothing for the slurs without a start. -/
theorem filter_start_modify {id a : Nat} (stop : Nat) (hlink : links[id]? = some ⟨some a, none⟩) :
    (links.modify id fun link => { link with stop := some stop }).filter (·.start.isNone) =
      links.filter (·.start.isNone) := by
  induction links generalizing id with
  | nil => simp at hlink
  | cons first rest ih =>
    cases id with
    | zero =>
      have hfirst : first = ⟨some a, none⟩ := by simpa using hlink
      simp [hfirst]
    | succ id =>
      simp only [List.modify_succ_cons, List.filter_cons, ih (by simpa using hlink)]

/-- The slur on top of the stack is the last link without a stop. -/
theorem Consistent.le_top {last : SlurSlot} {before : List SlurSlot} {id carried : Nat}
    {opened : List Nat}
    (h : Consistent incoming ⟨last :: before, links, id :: opened, carried⟩) {j : Nat}
    {link : Link} (hj : links[j]? = some link) (hstop : link.stop = none) : j ≤ id := by
  have hstart : link.start ≠ none := fun hnone =>
    h.anchored link (List.mem_of_getElem? hj) hnone hstop
  obtain ⟨a, ha⟩ := Option.ne_none_iff_exists'.1 hstart
  have hlink : link = ⟨some a, none⟩ := by
    cases link
    simp_all
  have hmem : j ∈ id :: opened := (h.mem_opened j).2 ⟨a, hlink ▸ hj⟩
  rcases List.mem_cons.1 hmem with rfl | hmem
  · exact Nat.le_refl _
  · exact Nat.le_of_lt ((List.pairwise_cons.1 h.stack).1 j hmem)

variable {last : SlurSlot} {before : List SlurSlot} {opened : List Nat} {carried : Nat}

/-- The last of the heads of a view with a last slot. -/
theorem getElem?_heads_last (hheads : (last :: before).map SlurSlot.head = heads.reverse) :
    heads.length - 1 < heads.length ∧ heads[heads.length - 1]? = some last.head := by
  have heq : heads = (before.map SlurSlot.head).reverse ++ [last.head] := by
    rw [← List.reverse_reverse heads, ← hheads]
    simp
  rw [heq]
  simp

/-- A slur that opens waits on top. -/
theorem Trailed.opens (h : Trailed ⟨last :: before, links, opened, carried⟩ heads trail begun)
    (hheads : (last :: before).map SlurSlot.head = heads.reverse) (marked : SlurSlot) :
    Trailed ⟨marked :: before, links ++ [⟨some last.head, none⟩], links.length :: opened, carried⟩
      heads (trail.follow (heads.length - 1) .slurOpen) (begun ++ [heads.length - 1]) where
  stacked := h.stacked.slurOpen
  starts := by
    have hstarts := h.starts
    simp only [List.filter_append, List.map_append] at hstarts ⊢
    rw [hstarts]
    simp [(getElem?_heads_last hheads).2]
  stops := by
    have hstops := h.stops
    simpa [List.filter_append, SlurTrail.follow] using hstops
  begun_lt slot hmem := by
    rcases List.mem_append.1 hmem with hmem | hmem
    · exact h.begun_lt slot hmem
    · rw [List.mem_singleton.1 hmem]
      exact (getElem?_heads_last hheads).1
  closed_lt := h.closed_lt

/-- The slur that closes is the one that waits on top. -/
theorem Trailed.closes {id : Nat} (consistent :
      Consistent incoming ⟨last :: before, links, id :: opened, carried⟩)
    (h : Trailed ⟨last :: before, links, id :: opened, carried⟩ heads trail begun)
    (marked : SlurSlot) (slot : Nat) :
    ∃ others, Trailed ⟨marked :: before,
        links.modify id fun link => { link with stop := some last.head }, opened, carried⟩
      heads (trail.follow slot .slurClose) others := by
  obtain ⟨a, hlink⟩ := getElem?_of_top consistent
  have hstarts := h.starts
  rcases List.eq_nil_or_concat begun with rfl | ⟨others, top, rfl⟩
  · -- the slur on top is a link without a stop
    have hmem : (⟨some a, none⟩ : Link) ∈ links.filter (·.stop.isNone) :=
      List.mem_filter.2 ⟨List.mem_of_getElem? hlink, rfl⟩
    simp only [List.map_nil, List.map_eq_nil_iff] at hstarts
    rw [hstarts] at hmem
    cases hmem
  rw [List.concat_eq_append] at *
  obtain ⟨stacked, hclosed⟩ := h.stacked.slurClose slot
  refine ⟨others, stacked, ?_, ?_, fun slot hmem => ?_, ?_⟩
  · rw [filter_stop_modify last.head hlink fun j link => consistent.le_top, List.map_dropLast,
      hstarts, List.map_append]
    simp
  · rw [hclosed]
    simpa only [filter_start_modify last.head hlink] using h.stops
  · exact h.begun_lt slot (List.mem_append_left _ hmem)
  · rw [hclosed]
    exact h.closed_lt

/-- With no slur of this bar open, one of an earlier bar closes. -/
theorem Trailed.closesCarried
    (consistent : Consistent incoming ⟨last :: before, links, [], carried + 1⟩)
    (h : Trailed ⟨last :: before, links, [], carried + 1⟩ heads trail begun)
    (hheads : (last :: before).map SlurSlot.head = heads.reverse) (marked : SlurSlot) :
    Trailed ⟨marked :: before, links ++ [⟨none, some last.head⟩], [], carried⟩ heads
      (trail.follow (heads.length - 1) .slurClose) [] := by
  have hnone : links.filter (·.stop.isNone) = [] := by
    rw [← List.length_eq_zero_iff, ← List.countP_eq_length_filter]
    exact consistent.stops
  have hnothing : begun = [] := by simpa [hnone] using h.starts
  subst hnothing
  obtain ⟨stacked, hclosed⟩ := h.stacked.slurClose_carried (heads.length - 1)
  refine ⟨stacked, ?_, ?_, nofun, ?_⟩
  · simp [List.filter_append, hnone]
  · have hstops := h.stops
    simp only [List.filter_append, List.map_append] at hstops ⊢
    rw [hclosed, List.map_append, hstops]
    simp [(getElem?_heads_last hheads).2]
  · intro slot hmem
    rw [hclosed] at hmem
    rcases List.mem_append.1 hmem with hmem | hmem
    · exact h.closed_lt slot hmem
    · rw [List.mem_singleton.1 hmem]
      exact (getElem?_heads_last hheads).1

end SlurView

namespace Draft

variable {instrument : Instrument} {draft draft' : Draft} {index head incoming : Nat}
  {token : Token} {post : List PostEvent} {event : PostEvent} {trail : SlurTrail}
  {begun : List Nat}

/-- A post-event that attaches is followed by the trail. -/
theorem trailed_of_attachOne (consistent : draft.slurView.Consistent incoming)
    (h : draft.slurView.Trailed draft.heads trail begun)
    (hlast : draft.lastHead? = some head) (hattach : draft.attachOne head event = .ok draft') :
    ∃ others, draft'.slurView.Trailed draft'.heads
      (trail.follow (draft.heads.length - 1) event) others := by
  rw [heads_eq_of_unmarked (unmarked_of_attachOne hattach)]
  by_cases hslur : event.isSlur
  · have hheads := map_head_slurView draft
    have hwaiting := waiting_of_attachOne hlast hattach
    have hmove := move_of_attachOne hlast hslur hattach
    generalize draft.slurView = view at *
    generalize draft'.slurView = view' at *
    -- which way the slurs moved is told by the number that wait
    cases event with
    | slurOpen =>
      have hmore : view'.waiting = view.waiting + 1 := hwaiting
      cases hmove with
      | opens => exact ⟨_, h.opens hheads _⟩
      | closes =>
        simp only [SlurView.waiting, List.length_cons] at hmore
        omega
      | closesCarried =>
        simp only [SlurView.waiting] at hmore
        omega
    | slurClose =>
      have hless : view'.waiting + 1 = view.waiting := hwaiting
      cases hmove with
      | opens =>
        simp only [SlurView.waiting, List.length_cons] at hless
        omega
      | closes => exact h.closes consistent _ _
      | closesCarried => exact ⟨_, h.closesCarried consistent hheads _⟩
    | _ => cases hslur
  · have hother : event.isSlur = false := by simpa using hslur
    rw [slurView_of_attachOne hother hattach, SlurTrail.follow_of_not_isSlur hother]
    exact ⟨begun, h⟩

/-- Placing a token leaves the slurs alone. -/
theorem trailed_of_placed (h : draft.slurView.Trailed draft.heads trail begun)
    (placed : Placed instrument draft index token draft' post) :
    draft'.slurView.Trailed draft'.heads trail begun := by
  cases placed with
  | slot =>
    rw [slurView_push, heads_push]
    exact h.push index
  | @chordEnd suffix chord =>
    rw [slurView_push, heads_push]
    exact SlurView.Trailed.push h chord.head
  | control =>
    rw [slurView_follow, heads_follow]
    exact h
  | _ => exact h

end Draft

/-- The trail of the signs attached so far is the draft's. -/
theorem keptBySteps_trailed (instrument : Instrument) (prior : Carry) (frame : Frame) :
    KeptBySteps instrument prior frame fun draft attached =>
      ∃ begun, draft.slurView.Trailed draft.heads
        ((SlurTrail.start prior.openSlurs).followAll attached) begun where
  start := ⟨[], SlurView.trailed_start prior.openSlurs⟩
  place placed h := h.imp fun _ trailed => Draft.trailed_of_placed trailed placed
  attach built alternate last hattach h := by
    obtain ⟨begun, trailed⟩ := h
    simpa [SlurTrail.followAll] using
      Draft.trailed_of_attachOne (built.consistent alternate) trailed last hattach

/-- The trail of a line that is taken is the draft's. -/
theorem Building.trailed {instrument : Instrument} {prior : Carry} {frame : Frame}
    {tokens : List Token} {draft : Draft}
    (h : Building instrument (.start instrument prior frame) tokens draft [])
    (readAll : Token.AllRead false tokens) :
    draft.slurView.Trailed (Ledger.headsFrom 0 false tokens)
        (.ofTokens prior.openSlurs tokens)
        (SlurTrail.ofTokens prior.openSlurs tokens).opened := by
  obtain ⟨begun, trailed⟩ := h.keep_slottedPost (keptBySteps_trailed instrument prior frame) readAll
  have hheads := (h.heads_eq_headsFrom readAll.alternate readAll.closed).2
  rw [SlurTrail.ofTokens, ← hheads, trailed.stacked.opened_eq]
  exact trailed

end Stave.Shorthand
