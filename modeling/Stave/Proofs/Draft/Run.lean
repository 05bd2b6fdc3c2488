import Stave.Proofs.Draft.Step

/-!
# The run of a line under construction

`Building` relates the tokens read so far to the draft built from them and the post-events
that are still due, and grows by one step of `Placed` or one attached post-event at a time.
Its induction is how an invariant is carried through a line, and the theorems below say
that it is the run: a list of tokens that is taken in goes through such steps only, one
that is refused stops at one of them, and what is yet to come does not matter for it.
-/
namespace Stave.Shorthand

/-- A line under construction: the tokens read, the draft, and the post-events still due. -/
inductive Building (instrument : Instrument) (start : Draft) :
    List Token → Draft → List PostEvent → Prop where
  | start : Building instrument start [] start []
  | place {read : List Token} {token : Token} {draft draft' : Draft} {post : List PostEvent}
      (built : Building instrument start read draft [])
      (placed : draft.place instrument read.length token = .ok (draft', post)) :
      Building instrument start (read ++ [token]) draft' post
  | attach {read : List Token} {draft draft' : Draft} {event : PostEvent} {due : List PostEvent}
      {head : Nat} (built : Building instrument start read draft (event :: due))
      (last : draft.lastHead? = some head) (attached : draft.attachOne head event = .ok draft') :
      Building instrument start read draft' due

namespace Draft

variable {instrument : Instrument} {start draft draft' : Draft} {event : PostEvent}
  {read rest tokens : List Token} {due : List PostEvent} {head : Nat}

theorem lastHead?_eq_of_unmarked (h : draft'.unmarked = draft.unmarked) :
    draft'.lastHead? = draft.lastHead? := by
  have hhead (d : Draft) : d.lastHead? = d.heads.getLast? := by
    simp [lastHead?, heads, List.getLast?_reverse]
  rw [hhead, hhead, heads_eq_of_unmarked h]

@[simp] theorem attach_nil (draft : Draft) : draft.attach [] = .ok draft := rfl

theorem attach_cons (hlast : draft.lastHead? = some head) :
    draft.attach (event :: due) =
      match draft.attachOne head event with
      | .error fault => .error fault
      | .ok next => next.attach due := by
  obtain ⟨last, hslot, rfl⟩ := Option.map_eq_some_iff.1 hlast
  obtain ⟨before, hslots⟩ := List.head?_eq_some_iff.1 hslot
  simp only [attach, hslots, List.foldlM_cons, bind, Except.bind]
  cases hone : draft.attachOne last.head event with
  | error fault => rfl
  | ok next =>
    have hnext := lastHead?_eq_of_unmarked (unmarked_of_attachOne hone)
    rw [hlast] at hnext
    obtain ⟨last', hslot', hhead⟩ := Option.map_eq_some_iff.1 hnext
    obtain ⟨before', hslots'⟩ := List.head?_eq_some_iff.1 hslot'
    cases due with
    | nil => rfl
    | cons event due => simp [hslots', hhead]

/-- Attaching post-events changes nothing but marks. -/
theorem unmarked_of_attach (h : draft.attach due = .ok draft') :
    draft'.unmarked = draft.unmarked := by
  induction due generalizing draft with
  | nil =>
    cases h
    rfl
  | cons event due ih =>
    cases hlast : draft.lastHead? with
    | none =>
      have hslots : draft.slots = [] := by simpa [lastHead?] using hlast
      simp [attach, hslots] at h
    | some head =>
      rw [attach_cons hlast] at h
      split at h
      · cases h
      case h_2 next attached => exact (ih h).trans (unmarked_of_attachOne attached)

/-- A token is taken in by placing it and attaching what is due then. -/
theorem accept_eq_ok {index : Nat} {token : Token} :
    draft.accept instrument index token = .ok draft' ↔
      ∃ placed post, draft.place instrument index token = .ok (placed, post) ∧
        placed.attach post = .ok draft' := by
  constructor
  · intro h
    simp only [accept] at h
    split at h
    · cases h
    case h_2 placed post hplace =>
      split at h
      · cases h
      case h_2 hattach =>
        cases h
        exact ⟨placed, post, hplace, hattach⟩
  · rintro ⟨placed, post, hplace, hattach⟩
    simp [accept, hplace, hattach]

/-- Go on from a draft: attach what is due, then take in the tokens that are left. -/
def resume (draft : Draft) (instrument : Instrument) (read : List Token)
    (due : List PostEvent) (rest : List Token) : Except BuildError Draft :=
  match draft.attach due with
  | .error fault => .error ⟨fault, (read.getLast?.map Token.origin).getD 0⟩
  | .ok draft => draft.acceptAll instrument read.length rest

end Draft

namespace Building

variable {instrument : Instrument} {start draft draft' : Draft} {event : PostEvent}
  {read rest tokens : List Token} {due : List PostEvent} {error : BuildError}

/-- Post-events are due only where there is a slot to take them. -/
theorem exists_lastHead (h : Building instrument start read draft (event :: due)) :
    ∃ head, draft.lastHead? = some head := by
  generalize hdue : event :: due = due' at h
  induction h generalizing event due with
  | start => cases hdue
  | place built placed ih =>
    cases Draft.placed_of_place placed with
    | slot => exact ⟨_, rfl⟩
    | chordStart => cases hdue
    | chordNote => cases hdue
    | chordPost => cases hdue
    | chordEnd => exact ⟨_, rfl⟩
    | free kind outside nonempty =>
      obtain ⟨slot, slots, hslots⟩ := List.exists_cons_of_ne_nil nonempty
      exact ⟨slot.head, by simp [Draft.lastHead?, hslots]⟩
    | control => cases hdue
  | attach built last attached ih =>
    exact ⟨_, (Draft.lastHead?_eq_of_unmarked (Draft.unmarked_of_attachOne attached)).trans last⟩

/-- A draft that has been reached decides, with what is still due, the result of the run. -/
theorem acceptAll_append (h : Building instrument start read draft due) (rest : List Token) :
    start.acceptAll instrument 0 (read ++ rest) = draft.resume instrument read due rest := by
  induction h generalizing rest with
  | start => rfl
  | @place read token draft draft' post built placed ih =>
    rw [List.append_assoc, ih]
    simp only [Draft.resume, Draft.attach_nil, List.singleton_append, Draft.acceptAll,
      Draft.accept, placed]
    cases draft'.attach post <;> simp
  | attach built last attached ih =>
    rw [ih, Draft.resume, Draft.attach_cons last, attached]
    rfl

theorem attachAll (h : Building instrument start read draft due)
    (hattach : draft.attach due = .ok draft') : Building instrument start read draft' [] := by
  induction due generalizing draft with
  | nil =>
    cases hattach
    exact h
  | cons event due ih =>
    obtain ⟨head, last⟩ := h.exists_lastHead
    rw [Draft.attach_cons last] at hattach
    split at hattach
    · cases hattach
    case h_2 next attached => exact ih (h.attach last attached) hattach

/-- Tokens that are taken in lead from one reached draft to another. -/
theorem append (h : Building instrument start read draft [])
    (haccept : draft.acceptAll instrument read.length tokens = .ok draft') :
    Building instrument start (read ++ tokens) draft' [] := by
  induction tokens generalizing read draft with
  | nil =>
    cases haccept
    simpa using h
  | cons token tokens ih =>
    simp only [Draft.acceptAll] at haccept
    split at haccept
    · cases haccept
    case h_2 next hnext =>
      obtain ⟨placed, post, hplace, hattach⟩ := Draft.accept_eq_ok.1 hnext
      have hread := (h.place hplace).attachAll hattach
      simpa using ih hread (by simpa using haccept)

/-- Where a run stops: a token that cannot be placed, or a post-event that cannot attach. -/
inductive Stops (instrument : Instrument) (start : Draft) (tokens : List Token)
    (error : BuildError) : Prop where
  | place {read rest : List Token} {token : Token} {draft : Draft}
      (split : tokens = read ++ token :: rest) (built : Building instrument start read draft [])
      (refused : draft.place instrument read.length token = .error error)
  | attach {read rest : List Token} {draft : Draft} {event : PostEvent} {due : List PostEvent}
      {head : Nat} {fault : BuildFault} (split : tokens = read ++ rest)
      (built : Building instrument start read draft (event :: due))
      (last : draft.lastHead? = some head)
      (refused : draft.attachOne head event = .error fault)
      (located : error = ⟨fault, (read.getLast?.map Token.origin).getD 0⟩)

theorem stops_of_attach {fault : BuildFault} (h : Building instrument start read draft due)
    (hattach : draft.attach due = .error fault) (rest : List Token) :
    Stops instrument start (read ++ rest) ⟨fault, (read.getLast?.map Token.origin).getD 0⟩ := by
  induction due generalizing draft with
  | nil => cases hattach
  | cons event due ih =>
    obtain ⟨head, last⟩ := h.exists_lastHead
    rw [Draft.attach_cons last] at hattach
    split at hattach
    case h_1 refused =>
      cases hattach
      exact .attach rfl h last refused rfl
    case h_2 next attached => exact ih (h.attach last attached) hattach

/-- Tokens that are refused stop at a step. -/
theorem stops (h : Building instrument start read draft [])
    (haccept : draft.acceptAll instrument read.length tokens = .error error) :
    Stops instrument start (read ++ tokens) error := by
  induction tokens generalizing read draft with
  | nil => cases haccept
  | cons token tokens ih =>
    simp only [Draft.acceptAll, Draft.accept] at haccept
    split at haccept
    case h_1 hnext =>
      cases haccept
      split at hnext
      case h_1 refused =>
        cases hnext
        exact .place rfl h refused
      case h_2 middle post placed =>
        split at hnext
        case h_1 attached =>
          cases hnext
          simpa using (h.place placed).stops_of_attach attached tokens
        case h_2 => cases hnext
    case h_2 next hnext =>
      obtain ⟨placed, post, hplace, hattach⟩ := Draft.accept_eq_ok.1 hnext
      have hread := (h.place hplace).attachAll hattach
      simpa using ih hread (by simpa using haccept)

/-- The faults a run is refused for. -/
def runFaults : List BuildFault := .unmatchedSlurClose :: .unmatchedRampStop :: Draft.placeFaults

theorem fault_of_acceptAll (h : start.acceptAll instrument 0 tokens = .error error) :
    error.fault ∈ runFaults := by
  have hstops := Building.start.stops h
  cases hstops with
  | place split built refused =>
    exact List.mem_cons_of_mem _ (List.mem_cons_of_mem _ (Draft.fault_of_place refused))
  | attach split built last refused located =>
    rw [located]
    rcases Draft.fault_of_attachOne refused with ⟨-, hfault⟩ | ⟨-, hfault⟩
    · simp [hfault, runFaults]
    · simp [hfault, runFaults]

end Building

end Stave.Shorthand
