import Stave.Shorthand.Draft

/-!
# Slurs that are opened and closed

What of a draft concerns slurs: its slots with the slurs listed at them, the links, the stack
of slurs still open, and the number of slurs that earlier bars left. `SlurView.Consistent`
says how these belong together, and every step keeps it: a new slot, a slur that opens at
the last slot, and one that closes there. That no two slurs cross comes from the stack: the
slur that closes is the one that started last of those open.
-/
namespace Stave

/-- A link joins members of a list, and does not run backwards. -/
structure Link.Within (link : Link) (heads : List Nat) : Prop where
  start_mem : ∀ a, link.start = some a → a ∈ heads
  stop_mem : ∀ b, link.stop = some b → b ∈ heads
  start_le : ∀ a b, link.start = some a → link.stop = some b → a ≤ b

/-- The second link starts strictly inside the first and stops strictly after it. A start
that is missing comes before all others, and a stop that is missing after all others. -/
def Link.Crosses (first second : Link) : Prop :=
  ∃ b c, second.start = some b ∧ first.stop = some c ∧ b < c ∧
    (∀ a, first.start = some a → a < b) ∧ ∀ d, second.stop = some d → c < d

namespace Shorthand

/-- A slot as slurs see it. -/
structure SlurSlot where
  head : Nat
  opened : List Nat
  closed : List Nat

/-- The slurs of a draft and the places they are listed at. -/
structure SlurView where
  /-- The slots, last one first. -/
  slots : List SlurSlot
  links : List Link
  /-- The slurs still open, the last one opened first. -/
  opened : List Nat
  /-- The slurs of earlier bars still open. -/
  carried : Nat

namespace SlurView

/-- A new slot, at which no slur is listed yet. -/
def push (view : SlurView) (head : Nat) : SlurView :=
  { view with slots := ⟨head, [], []⟩ :: view.slots }

/-- A slur opens or closes at the last slot. -/
inductive Move : SlurView → SlurView → Prop where
  | opens (last : SlurSlot) (before : List SlurSlot) (links : List Link) (opened : List Nat)
      (carried : Nat) :
      Move ⟨last :: before, links, opened, carried⟩
        ⟨{ last with opened := last.opened ++ [links.length] } :: before,
          links ++ [⟨some last.head, none⟩], links.length :: opened, carried⟩
  | closes (last : SlurSlot) (before : List SlurSlot) (links : List Link) (id : Nat)
      (opened : List Nat) (carried : Nat) :
      Move ⟨last :: before, links, id :: opened, carried⟩
        ⟨{ last with closed := last.closed ++ [id] } :: before,
          links.modify id fun link => { link with stop := some last.head }, opened, carried⟩
  | closesCarried (last : SlurSlot) (before : List SlurSlot) (links : List Link)
      (carried : Nat) :
      Move ⟨last :: before, links, [], carried + 1⟩
        ⟨{ last with closed := last.closed ++ [links.length] } :: before,
          links ++ [⟨none, some last.head⟩], [], carried⟩

/-- The head a slur starts at. -/
def startOf? (links : List Link) (id : Nat) : Option Nat := links[id]?.bind Link.start

/-- The head a slur stops at. -/
def stopOf? (links : List Link) (id : Nat) : Option Nat := links[id]?.bind Link.stop

/-- How slots, links and open slurs belong together, where `incoming` slurs came in. -/
structure Consistent (incoming : Nat) (view : SlurView) : Prop where
  descending : (view.slots.map SlurSlot.head).Pairwise (· > ·)
  within : ∀ link ∈ view.links, link.Within (view.slots.map SlurSlot.head)
  /-- A slur is listed once as opened where it starts and once as closed where it stops. -/
  listed : ∀ slot ∈ view.slots, ∀ id,
    slot.opened.count id = (if startOf? view.links id = some slot.head then 1 else 0) ∧
      slot.closed.count id = if stopOf? view.links id = some slot.head then 1 else 0
  /-- Slurs start in the order of their numbers. -/
  ordered : ∀ (i j : Nat) (a b : Nat), i < j → startOf? view.links i = some a →
    startOf? view.links j = some b → a ≤ b
  anchored : ∀ link ∈ view.links, link.start = none → link.stop ≠ none
  stack : view.opened.Pairwise (· > ·)
  mem_opened : ∀ id, id ∈ view.opened ↔ ∃ a, view.links[id]? = some ⟨some a, none⟩
  uncrossed : ∀ first ∈ view.links, ∀ second ∈ view.links, ¬first.Crosses second
  starts : view.links.countP (·.start.isNone) + view.carried = incoming
  stops : view.links.countP (·.stop.isNone) = view.opened.length

variable {incoming carried : Nat} {view view' : SlurView} {last : SlurSlot}
  {before : List SlurSlot} {links : List Link} {opened : List Nat} {link : Link}

theorem getElem?_bind_concat (f : Link → Option Nat) (links : List Link) (link : Link)
    (id : Nat) :
    (links ++ [link])[id]?.bind f =
      if id = links.length then f link else links[id]?.bind f := by
  rcases Nat.lt_trichotomy id links.length with hlt | rfl | hgt
  · rw [List.getElem?_append_left hlt, if_neg (Nat.ne_of_lt hlt)]
  · simp
  · rw [if_neg (Nat.ne_of_gt hgt), List.getElem?_eq_none (by simp; omega),
      List.getElem?_eq_none (by omega)]

/-- A link that lacks an end adds no end. -/
theorem getElem?_bind_concat_of_none {f : Link → Option Nat} (hnone : f link = none) (id : Nat) :
    (links ++ [link])[id]?.bind f = links[id]?.bind f := by
  rw [getElem?_bind_concat]
  split
  case isTrue hid => simp [hid, hnone]
  case isFalse => rfl

theorem lt_of_bind_eq_some {f : Link → Option Nat} {id a : Nat}
    (h : links[id]?.bind f = some a) : id < links.length := by
  obtain ⟨link, hlink, -⟩ := Option.bind_eq_some_iff.1 h
  exact (List.getElem?_eq_some_iff.1 hlink).1

theorem startOf?_length (links : List Link) : startOf? links links.length = none := by
  simp [startOf?]

theorem stopOf?_length (links : List Link) : stopOf? links links.length = none := by
  simp [stopOf?]

/-- Every head is at most the last one. -/
theorem le_last (h : Consistent incoming ⟨last :: before, links, opened, carried⟩) {head : Nat}
    (hmem : head ∈ (last :: before).map SlurSlot.head) : head ≤ last.head := by
  rw [List.map_cons] at hmem
  rcases List.mem_cons.1 hmem with rfl | hmem
  · exact Nat.le_refl _
  · exact Nat.le_of_lt ((List.pairwise_cons.1 h.descending).1 head hmem)

theorem head_ne_last (h : Consistent incoming ⟨last :: before, links, opened, carried⟩)
    {slot : SlurSlot} (hmem : slot ∈ before) : slot.head ≠ last.head :=
  Nat.ne_of_lt ((List.pairwise_cons.1 h.descending).1 _ (List.mem_map_of_mem hmem))

theorem startOf?_mem (h : Consistent incoming view) {id a : Nat}
    (hstart : startOf? view.links id = some a) : a ∈ view.slots.map SlurSlot.head := by
  obtain ⟨link, hlink, heq⟩ := Option.bind_eq_some_iff.1 hstart
  exact (h.within link (List.mem_of_getElem? hlink)).start_mem a heq

theorem stopOf?_mem (h : Consistent incoming view) {id b : Nat}
    (hstop : stopOf? view.links id = some b) : b ∈ view.slots.map SlurSlot.head := by
  obtain ⟨link, hlink, heq⟩ := Option.bind_eq_some_iff.1 hstop
  exact (h.within link (List.mem_of_getElem? hlink)).stop_mem b heq

/-- Nothing is read and `incoming` slurs came in. -/
theorem consistent_start (incoming : Nat) : Consistent incoming ⟨[], [], [], incoming⟩ where
  descending := List.Pairwise.nil
  within := nofun
  listed := nofun
  ordered i j a b _ hstart := by simp [startOf?] at hstart
  anchored := nofun
  stack := List.Pairwise.nil
  mem_opened := by simp
  uncrossed := nofun
  starts := by simp
  stops := rfl

/-- A new slot after all others keeps the slurs consistent. -/
theorem Consistent.push (h : Consistent incoming view) {head : Nat}
    (hlast : ∀ other ∈ view.slots.map SlurSlot.head, other < head) :
    Consistent incoming (view.push head) where
  descending := List.pairwise_cons.2 ⟨hlast, h.descending⟩
  within link hmem := by
    have hlink := h.within link hmem
    refine ⟨fun a ha => ?_, fun b hb => ?_, hlink.start_le⟩
    · exact List.mem_cons_of_mem _ (hlink.start_mem a ha)
    · exact List.mem_cons_of_mem _ (hlink.stop_mem b hb)
  listed slot hmem id := by
    rcases List.mem_cons.1 hmem with rfl | hmem
    · have hstart : startOf? view.links id ≠ some head := fun heq =>
        Nat.lt_irrefl _ (hlast head (startOf?_mem h heq))
      have hstop : stopOf? view.links id ≠ some head := fun heq =>
        Nat.lt_irrefl _ (hlast head (stopOf?_mem h heq))
      simp [SlurView.push, hstart, hstop]
    · exact h.listed slot hmem id
  ordered := h.ordered
  anchored := h.anchored
  stack := h.stack
  mem_opened := h.mem_opened
  uncrossed := h.uncrossed
  starts := h.starts
  stops := h.stops

/-- How the place a slur starts or stops at, and the number of times it is listed at the last
slot, change in a move: not at all, or the slot becomes that place and lists the slur. -/
def Listed (head : Nat) (old new : Option Nat) (before after : Nat) : Prop :=
  new = old ∧ after = before ∨ old = none ∧ new = some head ∧ after = before + 1

theorem Listed.same (head : Nat) (place : Option Nat) (count : Nat) :
    Listed head place place count count :=
  .inl ⟨rfl, rfl⟩

/-- A slur is added to the end of a list at the slot that becomes its place. -/
theorem listed_concat {head id other : Nat} {old new : Option Nat} (ids : List Nat)
    (hnew : new = if other = id then some head else old) (hold : other = id → old = none) :
    Listed head old new (ids.count other) ((ids ++ [id]).count other) := by
  rw [List.count_append, List.count_singleton]
  by_cases hid : other = id
  · right
    refine ⟨hold hid, ?_, ?_⟩
    · rw [hnew, if_pos hid]
    · simp [hid]
  · left
    refine ⟨?_, ?_⟩
    · rw [hnew, if_neg hid]
    · simp [Ne.symm hid]

/-- Slurs stay listed where they start and stop if the last slot lists what changes. -/
theorem listed_of_move (h : Consistent incoming ⟨last :: before, links, opened, carried⟩)
    {links' : List Link} {marked : SlurSlot} (hhead : marked.head = last.head)
    (hopened : ∀ id, Listed last.head (startOf? links id) (startOf? links' id)
      (last.opened.count id) (marked.opened.count id))
    (hclosed : ∀ id, Listed last.head (stopOf? links id) (stopOf? links' id)
      (last.closed.count id) (marked.closed.count id)) :
    ∀ slot ∈ marked :: before, ∀ id,
      slot.opened.count id = (if startOf? links' id = some slot.head then 1 else 0) ∧
        slot.closed.count id = if stopOf? links' id = some slot.head then 1 else 0 := by
  have hlast {old new : Option Nat} {count count' : Nat}
      (hlisted : Listed last.head old new count count')
      (hcount : count = if old = some last.head then 1 else 0) :
      count' = if new = some last.head then 1 else 0 := by
    rcases hlisted with ⟨rfl, rfl⟩ | ⟨rfl, rfl, rfl⟩
    · exact hcount
    · simpa using hcount
  have hother {old new : Option Nat} {count count' head listings : Nat}
      (hne : head ≠ last.head) (hlisted : Listed last.head old new count count')
      (hcount : listings = if old = some head then 1 else 0) :
      listings = if new = some head then 1 else 0 := by
    rcases hlisted with ⟨rfl, -⟩ | ⟨rfl, rfl, -⟩
    · exact hcount
    · simpa [Ne.symm hne] using hcount
  intro slot hmem id
  rcases List.mem_cons.1 hmem with rfl | hmem
  · obtain ⟨hstart, hstop⟩ := h.listed last List.mem_cons_self id
    rw [hhead]
    exact ⟨hlast (hopened id) hstart, hlast (hclosed id) hstop⟩
  · obtain ⟨hstart, hstop⟩ := h.listed slot (List.mem_cons_of_mem _ hmem) id
    have hne := head_ne_last h hmem
    exact ⟨hother hne (hopened id) hstart, hother hne (hclosed id) hstop⟩

/-- A new slur has its ends, as far as it has any, at the last slot. -/
theorem within_concat (h : Consistent incoming ⟨last :: before, links, opened, carried⟩)
    (link : Link) (hstart : ∀ a, link.start = some a → a = last.head)
    (hstop : ∀ b, link.stop = some b → b = last.head) :
    ∀ other ∈ links ++ [link], other.Within ((last :: before).map SlurSlot.head) := by
  intro other hmem
  rcases List.mem_append.1 hmem with hmem | hmem
  · exact h.within other hmem
  · rw [List.mem_singleton.1 hmem]
    refine ⟨fun a ha => ?_, fun b hb => ?_, fun a b ha hb => ?_⟩
    · rw [hstart a ha]
      exact List.mem_cons_self
    · rw [hstop b hb]
      exact List.mem_cons_self
    · exact Nat.le_of_eq ((hstart a ha).trans (hstop b hb).symm)

/-- A new slur starts last, if it starts in this bar. -/
theorem ordered_concat (h : Consistent incoming ⟨last :: before, links, opened, carried⟩)
    (hstart : ∀ a, link.start = some a → a = last.head) {i j a b : Nat} (hlt : i < j)
    (hi : startOf? (links ++ [link]) i = some a) (hj : startOf? (links ++ [link]) j = some b) :
    a ≤ b := by
  simp only [startOf?, getElem?_bind_concat] at hi hj
  by_cases hlast : j = links.length
  · rw [if_neg (by omega)] at hi
    rw [if_pos hlast] at hj
    rw [hstart b hj]
    exact le_last h (startOf?_mem h hi)
  · rw [if_neg hlast] at hj
    have hlength : j < links.length := lt_of_bind_eq_some hj
    rw [if_neg (by omega)] at hi
    exact h.ordered i j a b hlt hi hj

theorem consistent_opens (h : Consistent incoming ⟨last :: before, links, opened, carried⟩) :
    Consistent incoming
      ⟨{ last with opened := last.opened ++ [links.length] } :: before,
        links ++ [⟨some last.head, none⟩], links.length :: opened, carried⟩ where
  descending := h.descending
  within := by
    have hall := within_concat h ⟨some last.head, none⟩ (fun a ha => (Option.some.inj ha).symm)
      (by simp)
    exact hall
  listed := by
    refine listed_of_move h rfl (fun id => ?_) fun id => ?_
    · exact listed_concat last.opened (getElem?_bind_concat Link.start ..)
        fun hid => hid ▸ startOf?_length links
    · have hsame : stopOf? (links ++ [⟨some last.head, none⟩]) id = stopOf? links id :=
        getElem?_bind_concat_of_none rfl id
      rw [hsame]
      exact .same ..
  ordered _ _ _ _ := ordered_concat h fun a ha => (Option.some.inj ha).symm
  anchored link hmem := by
    rcases List.mem_append.1 hmem with hmem | hmem
    · exact h.anchored link hmem
    · rw [List.mem_singleton.1 hmem]
      simp
  stack := by
    refine List.pairwise_cons.2 ⟨fun id hmem => ?_, h.stack⟩
    obtain ⟨a, hlink⟩ := (h.mem_opened id).1 hmem
    exact (List.getElem?_eq_some_iff.1 hlink).1
  mem_opened id := by
    rcases Nat.lt_trichotomy id links.length with hlt | rfl | hgt
    · rw [List.getElem?_append_left hlt, ← h.mem_opened id]
      simp [Nat.ne_of_lt hlt]
    · simp
    · have hnot : id ∉ opened := by
        intro hmem
        obtain ⟨a, hlink⟩ := (h.mem_opened id).1 hmem
        have := (List.getElem?_eq_some_iff.1 hlink).1
        simp only at this
        omega
      rw [List.getElem?_eq_none (by simp; omega)]
      simp [hnot, Nat.ne_of_gt hgt]
  uncrossed first hfirst second hsecond := by
    rintro ⟨b, c, hb, hc, hlt, hbefore, hafter⟩
    rcases List.mem_append.1 hfirst with hfirst | hfirst
    · rcases List.mem_append.1 hsecond with hsecond | hsecond
      · exact h.uncrossed first hfirst second hsecond ⟨b, c, hb, hc, hlt, hbefore, hafter⟩
      -- the new slur starts at the last slot, where everything else has stopped
      · rw [List.mem_singleton.1 hsecond] at hb
        cases hb
        have := le_last h ((h.within first hfirst).stop_mem c hc)
        omega
    · rw [List.mem_singleton.1 hfirst] at hc
      cases hc
  starts := by simpa [List.countP_append] using h.starts
  stops := by simpa [List.countP_append] using h.stops

theorem consistent_closesCarried
    (h : Consistent incoming ⟨last :: before, links, [], carried + 1⟩) :
    Consistent incoming
      ⟨{ last with closed := last.closed ++ [links.length] } :: before,
        links ++ [⟨none, some last.head⟩], [], carried⟩ where
  descending := h.descending
  within := by
    have hall := within_concat h ⟨none, some last.head⟩ (by simp)
      fun b hb => (Option.some.inj hb).symm
    exact hall
  listed := by
    refine listed_of_move h rfl (fun id => ?_) fun id => ?_
    · have hsame : startOf? (links ++ [⟨none, some last.head⟩]) id = startOf? links id :=
        getElem?_bind_concat_of_none rfl id
      rw [hsame]
      exact .same ..
    · exact listed_concat last.closed (getElem?_bind_concat Link.stop ..)
        fun hid => hid ▸ stopOf?_length links
  ordered _ _ _ _ := ordered_concat h (by simp)
  anchored link hmem := by
    rcases List.mem_append.1 hmem with hmem | hmem
    · exact h.anchored link hmem
    · rw [List.mem_singleton.1 hmem]
      simp
  stack := h.stack
  mem_opened id := by
    rcases Nat.lt_trichotomy id links.length with hlt | rfl | hgt
    · rw [List.getElem?_append_left hlt]
      exact h.mem_opened id
    · simp
    · rw [List.getElem?_eq_none (by simp; omega)]
      simp
  uncrossed first hfirst second hsecond := by
    rintro ⟨b, c, hb, hc, hlt, hbefore, hafter⟩
    rcases List.mem_append.1 hsecond with hsecond | hsecond
    · rcases List.mem_append.1 hfirst with hfirst | hfirst
      · exact h.uncrossed first hfirst second hsecond ⟨b, c, hb, hc, hlt, hbefore, hafter⟩
      -- what the new slur crosses would still be open, but no slur of this bar is
      · rw [List.mem_singleton.1 hfirst] at hc
        cases hc
        cases hstop : second.stop with
        | some d =>
          have := hafter d hstop
          have := le_last h ((h.within second hsecond).stop_mem d hstop)
          omega
        | none =>
          obtain ⟨j, hj⟩ := List.mem_iff_getElem?.1 hsecond
          have hlink : second = ⟨some b, none⟩ := by
            cases second
            simp_all
          rw [hlink] at hj
          exact absurd ((h.mem_opened j).2 ⟨b, hj⟩) List.not_mem_nil
    · rw [List.mem_singleton.1 hsecond] at hb
      cases hb
  starts := by
    have := h.starts
    simp only [List.countP_append, List.countP_singleton] at this ⊢
    simp only [Option.isNone_none, if_true]
    omega
  stops := by simpa [List.countP_append] using h.stops

/-- The slur that closes is still open, and starts last of those open. -/
theorem getElem?_of_top {id : Nat}
    (h : Consistent incoming ⟨last :: before, links, id :: opened, carried⟩) :
    ∃ a, links[id]? = some ⟨some a, none⟩ :=
  (h.mem_opened id).1 List.mem_cons_self

theorem startOf?_modify (links : List Link) (id stop other : Nat) :
    startOf? (links.modify id fun link => { link with stop := some stop }) other =
      startOf? links other := by
  simp only [startOf?, List.getElem?_modify]
  cases links[other]? with
  | none => rfl
  | some link => by_cases hid : id = other <;> simp [hid]

theorem stopOf?_modify {id stop : Nat} (hlink : links[id]? = some link) (other : Nat) :
    stopOf? (links.modify id fun link => { link with stop := some stop }) other =
      if other = id then some stop else stopOf? links other := by
  simp only [stopOf?, List.getElem?_modify]
  by_cases hid : other = id
  · subst hid
    simp [hlink]
  · rw [if_neg hid]
    cases links[other]? with
    | none => rfl
    | some link => simp [Ne.symm hid]

/-- The links once a slur has closed: one of them is new, the others were there before. -/
theorem mem_modify {id a stop : Nat} (hlink : links[id]? = some ⟨some a, none⟩)
    (hmem : link ∈ links.modify id fun link => { link with stop := some stop }) :
    link = ⟨some a, some stop⟩ ∨ ∃ j, j ≠ id ∧ links[j]? = some link := by
  obtain ⟨j, hj⟩ := List.mem_iff_getElem?.1 hmem
  by_cases hid : id = j
  · subst hid
    left
    simpa [hlink, eq_comm] using hj
  · right
    refine ⟨j, Ne.symm hid, ?_⟩
    rwa [List.getElem?_modify_ne _ _ hid] at hj

theorem countP_modify {id a : Nat} (stop : Nat) (hlink : links[id]? = some ⟨some a, none⟩) :
    (links.modify id fun link => { link with stop := some stop }).countP (·.start.isNone) =
        links.countP (·.start.isNone) ∧
      (links.modify id fun link => { link with stop := some stop }).countP (·.stop.isNone) + 1 =
        links.countP (·.stop.isNone) := by
  induction links generalizing id with
  | nil => simp at hlink
  | cons first rest ih =>
    cases id with
    | zero =>
      rw [List.getElem?_cons_zero, Option.some.injEq] at hlink
      subst hlink
      simp
    | succ id =>
      obtain ⟨hstart, hstop⟩ := ih (by simpa using hlink)
      simp only [List.modify_succ_cons, List.countP_cons, hstart, true_and]
      omega

theorem consistent_closes {id : Nat}
    (h : Consistent incoming ⟨last :: before, links, id :: opened, carried⟩) :
    Consistent incoming
      ⟨{ last with closed := last.closed ++ [id] } :: before,
        links.modify id fun link => { link with stop := some last.head }, opened, carried⟩ := by
  obtain ⟨a, hlink⟩ := getElem?_of_top h
  have hnew : (⟨some a, none⟩ : Link) ∈ links := List.mem_of_getElem? hlink
  have ha : a ∈ (last :: before).map SlurSlot.head := (h.within _ hnew).start_mem a rfl
  have hstop : stopOf? links id = none := by simp [stopOf?, hlink]
  refine
    { descending := h.descending
      within := ?within
      listed := ?listed
      ordered := ?ordered
      anchored := ?anchored
      stack := (List.pairwise_cons.1 h.stack).2
      mem_opened := ?opened
      uncrossed := ?uncrossed
      starts := ?starts
      stops := ?stops }
  case within =>
    intro link hmem
    rcases mem_modify hlink hmem with rfl | ⟨j, -, hj⟩
    · refine ⟨fun _ heq => ?_, fun _ heq => ?_, fun _ _ hstart hstop => ?_⟩
      · cases heq
        exact ha
      · cases heq
        exact List.mem_cons_self
      · cases hstart
        cases hstop
        exact le_last h ha
    · exact h.within link (List.mem_of_getElem? hj)
  case listed =>
    refine listed_of_move h rfl (fun other => ?_) fun other => ?_
    · rw [startOf?_modify]
      exact .same ..
    · exact listed_concat last.closed (stopOf?_modify hlink other) fun hid => hid ▸ hstop
  case ordered =>
    intro i j b c hlt hi hj
    rw [startOf?_modify] at hi hj
    exact h.ordered i j b c hlt hi hj
  case anchored =>
    intro link hmem
    rcases mem_modify hlink hmem with rfl | ⟨j, -, hj⟩
    · nofun
    · exact h.anchored link (List.mem_of_getElem? hj)
  case opened =>
    intro other
    by_cases hid : other = id
    · subst hid
      have hnot : other ∉ opened := fun hmem =>
        Nat.lt_irrefl _ ((List.pairwise_cons.1 h.stack).1 other hmem)
      simp [hnot, hlink]
    · have hother := h.mem_opened other
      rw [List.getElem?_modify_ne _ _ (Ne.symm hid), ← hother]
      simp [hid]
  case uncrossed =>
    rintro first hfirst second hsecond ⟨b, c, hb, hc, hlt, hbefore, hafter⟩
    rcases mem_modify hlink hsecond with rfl | ⟨k, hk, hsecond⟩
    · cases hb
      rcases mem_modify hlink hfirst with rfl | ⟨j, -, hfirst⟩
      · exact Nat.lt_irrefl _ (hbefore a rfl)
      -- what crosses the slur now did so while it was open
      · exact h.uncrossed first (List.mem_of_getElem? hfirst) ⟨some a, none⟩ hnew
          ⟨a, c, rfl, hc, hlt, hbefore, nofun⟩
    · have hsecondMem := List.mem_of_getElem? hsecond
      rcases mem_modify hlink hfirst with rfl | ⟨j, -, hfirst⟩
      -- what it crosses would be open and start later, yet stand deeper in the stack
      · cases hc
        cases hstop : second.stop with
        | some d =>
          have := hafter d hstop
          have := le_last h ((h.within second hsecondMem).stop_mem d hstop)
          omega
        | none =>
          have heq : second = ⟨some b, none⟩ := by
            cases second
            simp_all
          rw [heq] at hsecond
          have hopen : k ∈ id :: opened := (h.mem_opened k).2 ⟨b, hsecond⟩
          have hdeeper : k < id :=
            (List.pairwise_cons.1 h.stack).1 k ((List.mem_cons.1 hopen).resolve_left hk)
          have hle : b ≤ a :=
            h.ordered k id b a hdeeper (by simp [startOf?, hsecond]) (by simp [startOf?, hlink])
          have := hbefore a rfl
          omega
      · exact h.uncrossed first (List.mem_of_getElem? hfirst) second hsecondMem
          ⟨b, c, hb, hc, hlt, hbefore, hafter⟩
  case starts =>
    rw [(countP_modify last.head hlink).1]
    exact h.starts
  case stops =>
    have := h.stops
    have := (countP_modify last.head hlink).2
    simp only [List.length_cons] at *
    omega

/-- A slur that opens or closes keeps the slurs consistent. -/
theorem Consistent.move (h : Consistent incoming view) (hmove : Move view view') :
    Consistent incoming view' := by
  cases hmove with
  | opens => exact consistent_opens h
  | closes => exact consistent_closes h
  | closesCarried => exact consistent_closesCarried h

end SlurView

end Shorthand

end Stave
