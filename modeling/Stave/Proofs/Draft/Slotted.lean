import Stave.Proofs.Draft.Slurs

/-!
# The slots that post-events attach to

A post-event attaches to the slot headed last, and one inside a chord to the slot of the chord,
which the draft adds only when the chord ends. So the post-events of a line can be listed with
the slots they attach to by the tokens alone, in the order they are written, and a run attaches
them in this order: what its steps keep of a draft and of the events attached so far holds of
the whole list when the line ends.
-/
namespace Stave.Shorthand

/-- The post-events of a list of tokens with the slots they attach to, where `count` slots come
before. Inside a chord they attach to the slot of the chord. -/
def slottedPost (chord : Bool) (count : Nat) : List Token → List (Nat × PostEvent)
  | [] => []
  | token :: rest =>
    let count := if token.kind.isHead chord then count + 1 else count
    token.kind.post.map (Prod.mk (count - 1)) ++
      slottedPost (token.kind.opensChord chord) count rest

theorem slottedPost_append (chord : Bool) (count index : Nat) (first second : List Token) :
    slottedPost chord count (first ++ second) =
      slottedPost chord count first ++ slottedPost (chordOpenAfter chord first)
        (count + (Ledger.headsFrom index chord first).length) second := by
  induction first generalizing chord count index with
  | nil => simp [slottedPost, chordOpenAfter, Ledger.headsFrom]
  | cons token rest ih =>
    simp only [List.cons_append, slottedPost, ih _ _ (index + 1), Ledger.headsFrom,
      chordOpenAfter, List.foldl_cons, List.append_assoc]
    split <;> simp [Nat.add_assoc, Nat.add_comm 1]

/-- The post-events of a token attach to the slot headed last, its own included. -/
theorem slottedPost_concat (read : List Token) (token : Token) :
    slottedPost false 0 (read ++ [token]) =
      slottedPost false 0 read ++ token.kind.post.map
        (Prod.mk ((Ledger.headsFrom 0 false (read ++ [token])).length - 1)) := by
  rw [slottedPost_append false 0 0, Draft.headsFrom_concat]
  simp only [slottedPost, List.append_nil, Nat.zero_add, List.length_append]
  split <;> rfl

theorem le_of_mem_slottedPost {chord : Bool} {count : Nat} {tokens : List Token}
    {event : Nat × PostEvent} (h : event ∈ slottedPost chord count tokens) :
    count - 1 ≤ event.1 := by
  induction tokens generalizing chord count with
  | nil => cases h
  | cons token rest ih =>
    have hcount : count ≤ if token.kind.isHead chord then count + 1 else count := by
      split <;> omega
    rcases List.mem_append.1 h with hown | hrest
    · obtain ⟨post, -, rfl⟩ := List.mem_map.1 hown
      exact Nat.sub_le_sub_right hcount 1
    · exact Nat.le_trans (Nat.sub_le_sub_right hcount 1) (ih hrest)

/-- Post-events are written slot by slot. -/
theorem pairwise_slottedPost (chord : Bool) (count : Nat) (tokens : List Token) :
    (slottedPost chord count tokens).Pairwise fun first second => first.1 ≤ second.1 := by
  induction tokens generalizing chord count with
  | nil => exact .nil
  | cons token rest ih =>
    refine List.pairwise_append.2 ⟨?_, ih .., fun first hfirst second hsecond => ?_⟩
    · exact List.pairwise_map.2 (List.pairwise_of_forall fun _ _ => Nat.le_refl _)
    · obtain ⟨post, -, rfl⟩ := List.mem_map.1 hfirst
      exact le_of_mem_slottedPost hsecond

/-- What every step of a run keeps of the draft and the post-events attached so far. -/
structure KeptBySteps (instrument : Instrument) (prior : Carry) (frame : Frame)
    (kept : Draft → List (Nat × PostEvent) → Prop) : Prop where
  start : kept (.start instrument prior frame) []
  place {index : Nat} {draft draft' : Draft} {token : Token} {post : List PostEvent}
    {attached : List (Nat × PostEvent)} (placed : Placed instrument draft index token draft' post)
    (h : kept draft attached) : kept draft' attached
  attach {read : List Token} {draft draft' : Draft} {event : PostEvent} {due : List PostEvent}
    {head : Nat} {attached : List (Nat × PostEvent)}
    (built : Building instrument (.start instrument prior frame) read draft (event :: due))
    (alternate : ChordsAlternate false read) (last : draft.lastHead? = some head)
    (hattach : draft.attachOne head event = .ok draft') (h : kept draft attached) :
    kept draft' (attached ++ [(draft.heads.length - 1, event)])

namespace Building

variable {instrument : Instrument} {prior : Carry} {frame : Frame} {read tokens : List Token}
  {draft : Draft} {due : List PostEvent} {kept : Draft → List (Nat × PostEvent) → Prop}

/-- The post-events written so far have attached to their slots, or will attach to the slot
headed last; what the steps of a run keep holds of the draft and those that have attached. -/
theorem exists_slotted (steps : KeptBySteps instrument prior frame kept)
    (h : Building instrument (.start instrument prior frame) read draft due)
    (alternate : ChordsAlternate false read) :
    ∃ attached,
      slottedPost false 0 read =
          attached ++ (due ++ draft.chordPost).map (Prod.mk (draft.allHeads.length - 1)) ∧
        kept draft attached := by
  induction h with
  | start => exact ⟨[], rfl, steps.start⟩
  | @place read token draft draft' post built placed ih =>
    obtain ⟨hbefore, hopens, -, -⟩ := chordsAlternate_append.1 alternate
    obtain ⟨attached, hslotted, hkept⟩ := ih hbefore
    have agrees := built.agrees hbefore
    have hplaced := Draft.placed_of_place placed
    have hheads := ((built.place placed).agrees alternate).heads
    have houtside (kind : token.kind = .chordStart) : draft.chord = none := by
      have hchord := agrees.chord
      rw [hopens kind] at hchord
      simpa using hchord
    -- what waits at an open chord keeps its slot, since no slot is headed before the chord ends
    have hsame : draft.chordPost.map (Prod.mk (draft.allHeads.length - 1)) =
        draft.chordPost.map (Prod.mk (draft'.allHeads.length - 1)) := by
      cases hchord : draft.chord with
      | none => simp [Draft.chordPost, hchord]
      | some chord =>
        have hopen : chordOpenAfter false read = true := by rw [← agrees.chord, hchord]; rfl
        have hhead : token.kind.isHead true = false := by
          cases hkind : token.kind with
          | chordStart => simp [houtside hkind] at hchord
          | _ => rfl
        rw [hheads, Draft.headsFrom_concat, hopen, hhead, ← agrees.heads]
        simp
    refine ⟨attached, ?_, steps.place hplaced hkept⟩
    rw [Draft.due_append_chordPost houtside hplaced, slottedPost_concat, hslotted, ← hheads,
      List.nil_append, hsame, List.map_append, List.append_assoc]
  | @attach read draft draft' event due head built last attached' ih =>
    obtain ⟨attached, hslotted, hkept⟩ := ih alternate
    have hunmarked := Draft.unmarked_of_attachOne attached'
    have hchord := congrArg Draft.chord hunmarked
    simp only [Draft.unmarked] at hchord
    have hnone := built.chord_of_due (List.cons_ne_nil _ _)
    have hall : draft.allHeads = draft.heads := by simp [Draft.allHeads, hnone]
    have hall' : draft'.allHeads = draft.heads := by
      simp [Draft.allHeads, hchord, hnone, Draft.heads_eq_of_unmarked hunmarked]
    refine ⟨attached ++ [(draft.heads.length - 1, event)], ?_,
      steps.attach built alternate last attached' hkept⟩
    rw [hslotted, hall, hall']
    simp [Draft.chordPost, hchord]

/-- What the steps of a run keep holds of a draft that is taken and of all post-events. -/
theorem keep_slottedPost (steps : KeptBySteps instrument prior frame kept)
    (h : Building instrument (.start instrument prior frame) tokens draft [])
    (readAll : Token.AllRead false tokens) : kept draft (slottedPost false 0 tokens) := by
  obtain ⟨attached, hslotted, hkept⟩ := h.exists_slotted steps readAll.alternate
  have hclosed := (h.heads_eq_headsFrom readAll.alternate readAll.closed).1
  have hattached : slottedPost false 0 tokens = attached := by
    simpa [Draft.chordPost, hclosed] using hslotted
  exact hattached ▸ hkept

end Building

end Stave.Shorthand
