import Stave.Proofs.Draft.Heads
import Stave.Proofs.WrittenLine.Finish

/-!
# Where slots and faults come from

A builder is never asked for the place of a byte: it takes it from a token and hands it on. So
every slot has the place of the token that heads it, and that holds of an open chord
already, which keeps the place of its bracket until it closes. Every fault, of the tuplet groups,
of the run, and of the finish, is reported at the place of some token.
-/
namespace Stave.Shorthand

/-- The slots of a draft, and its open chord, have the place of the token that heads them. -/
structure Draft.Sourced (draft : Draft) (read : List Token) : Prop where
  slot : ∀ slot ∈ draft.slots, ∃ token, read[slot.head]? = some token ∧
    token.kind.isHead false ∧ token.origin = slot.slot.offset
  chord : ∀ chord, draft.chord = some chord → ∃ token, read[chord.head]? = some token ∧
    token.kind.isHead false ∧ token.origin = chord.offset

/-- A place is that of one of some tokens. -/
def OriginOf (tokens : List Token) (offset : Nat) : Prop :=
  ∃ token ∈ tokens, token.origin = offset

variable {instrument : Instrument} {prior : Carry} {frame : Frame} {tokens read : List Token}
  {draft draft' : Draft} {token : Token} {due post : List PostEvent} {ledger : Ledger}
  {index offset : Nat} {opened : Option OpenTuplet} {found groups : List TupletGroup}
  {error : BuildError}

theorem OriginOf.mono {tokens' : List Token} (h : OriginOf tokens offset)
    (hsub : ∀ token ∈ tokens, token ∈ tokens') : OriginOf tokens' offset := by
  obtain ⟨token, hmem, horigin⟩ := h
  exact ⟨token, hsub token hmem, horigin⟩

/-! ### Slots -/

namespace Draft

theorem Sourced.concat (h : draft.Sourced read) (token : Token) :
    draft.Sourced (read ++ [token]) := by
  have hkeep {head : Nat} {found : Token} (hfound : read[head]? = some found) :
      (read ++ [token])[head]? = some found := by
    rw [List.getElem?_append_left (List.getElem?_eq_some_iff.1 hfound).1, hfound]
  constructor
  · intro slot hmem
    obtain ⟨found, hfound, hrest⟩ := h.slot slot hmem
    exact ⟨found, hkeep hfound, hrest⟩
  · intro chord hchord
    obtain ⟨found, hfound, hrest⟩ := h.chord chord hchord
    exact ⟨found, hkeep hfound, hrest⟩

theorem Sourced.push {head : Nat} {content : SlotContent} {length : NoteLength}
    (h : draft.Sourced read) (hhead : read[head]? = some token)
    (hkind : token.kind.isHead false) (horigin : token.origin = offset) :
    (draft.push head content length offset).Sourced read := by
  refine ⟨fun slot hmem => ?_, h.chord⟩
  rcases List.mem_cons.1 hmem with rfl | hmem
  · exact ⟨token, hhead, hkind, horigin⟩
  · exact h.slot slot hmem

/-- Placing a token keeps the sources, and a slot or chord it heads has its place. -/
theorem Sourced.place (h : draft.Sourced read)
    (placed : Placed instrument draft read.length token draft' post) :
    draft'.Sourced (read ++ [token]) := by
  have hlast : (read ++ [token])[read.length]? = some token := by simp
  have hkept := h.concat token
  cases placed with
  | slot kind => exact hkept.push hlast (TokenKind.isHead_of_slot? kind) rfl
  | chordStart kind =>
    refine ⟨hkept.slot, fun chord hchord => ?_⟩
    cases hchord
    exact ⟨token, hlast, by rw [kind]; rfl, rfl⟩
  | @chordNote word chord kind inside bare =>
    refine ⟨hkept.slot, fun grown hgrown => ?_⟩
    cases hgrown
    exact hkept.chord chord inside
  | @chordPost post chord kind inside =>
    refine ⟨hkept.slot, fun grown hgrown => ?_⟩
    cases hgrown
    exact hkept.chord chord inside
  | chordEnd kind inside sounds timed =>
    obtain ⟨start, hhead, hkind, horigin⟩ := hkept.chord _ inside
    have hclosed : { draft with chord := none }.Sourced (read ++ [token]) := ⟨hkept.slot, nofun⟩
    exact hclosed.push hhead hkind horigin
  | free => exact hkept
  | control kind =>
    have hslots : (draft.follow token).slots = draft.slots := by
      unfold follow
      split <;> rfl
    refine ⟨?_, ?_⟩
    · rw [hslots]
      exact hkept.slot
    · rw [chord_follow]
      exact hkept.chord

theorem Sourced.of_unmarked (h : draft.Sourced read) (heq : draft'.unmarked = draft.unmarked) :
    draft'.Sourced read := by
  have hchord := congrArg Draft.chord heq
  have hslots := congrArg Draft.slots heq
  simp only [unmarked] at hchord hslots
  refine ⟨fun slot hmem => ?_, fun chord hopen => h.chord chord (hchord ▸ hopen)⟩
  obtain ⟨same, hsame, hunmarked⟩ :=
    List.mem_map.1 (hslots ▸ List.mem_map_of_mem (f := DraftSlot.unmarked) hmem)
  obtain ⟨token, hhead, hkind, horigin⟩ := h.slot same hsame
  have hheads := congrArg DraftSlot.head hunmarked
  have hoffsets := congrArg (fun slot => slot.slot.offset) hunmarked
  simp only [DraftSlot.unmarked, Slot.of] at hheads hoffsets
  exact ⟨token, hheads ▸ hhead, hkind, hoffsets ▸ horigin⟩

end Draft

theorem Building.sourced
    (h : Building instrument (.start instrument prior frame) read draft due) :
    draft.Sourced read := by
  induction h with
  | start => exact ⟨by simp [Draft.start], by simp [Draft.start]⟩
  | place built placed ih => exact ih.place (Draft.placed_of_place placed)
  | attach built last attached ih => exact ih.of_unmarked (Draft.unmarked_of_attachOne attached)

/-- A draft with a slot has read a token. -/
theorem Building.exists_getLast
    (h : Building instrument (.start instrument prior frame) read draft due)
    (hslots : draft.slots ≠ []) : ∃ token ∈ read, read.getLast? = some token := by
  obtain ⟨slot, hslot⟩ := List.exists_mem_of_ne_nil _ hslots
  obtain ⟨source, hsource, -⟩ := h.sourced.slot slot hslot
  have hread := List.ne_nil_of_mem (List.mem_of_getElem? hsource)
  exact ⟨read.getLast hread, List.getLast_mem hread, List.getLast?_eq_some_getLast hread⟩

/-! ### Faults -/

/-- A group keeps the place of its directive. -/
theorem OpenTuplet.origin_of_close {tuplet : OpenTuplet} {group : TupletGroup}
    (h : tuplet.close ledger index = .ok group) : group.origin = tuplet.origin := by
  unfold close at h
  dsimp only at h
  split at h
  · cases h
  · cases h
    rfl

theorem OpenTuplet.offset_of_close {tuplet : OpenTuplet}
    (h : tuplet.close ledger index = .error error) : error.offset = tuplet.origin := by
  unfold close at h
  dsimp only at h
  split at h
  · cases h
    rfl
  · cases h

namespace TupletGroup

/-- Groups have the places of tokens, those that are open and those found before included. -/
theorem originOf_of_collect (hread : ∀ token ∈ read, token ∈ tokens)
    (hopened : ∀ tuplet, opened = some tuplet → OriginOf tokens tuplet.origin)
    (hfound : ∀ group ∈ found, OriginOf tokens group.origin)
    (h : collect ledger index opened found read = .ok groups) :
    ∀ group ∈ groups, OriginOf tokens group.origin := by
  induction read generalizing index opened found with
  | nil =>
    unfold collect at h
    split at h
    · cases h
    · cases h
      exact fun group hmem => hfound group (List.mem_reverse.1 hmem)
  | cons token rest ih =>
    obtain ⟨htoken, hrest⟩ := List.forall_mem_cons.1 hread
    unfold collect at h
    split at h
    case h_1 =>
      split at h
      · cases h
      split at h
      · refine ih hrest (fun tuplet htuplet => ?_) hfound h
        cases htuplet
        exact ⟨token, htoken, rfl⟩
      · cases h
    case h_2 =>
      split at h
      · split at h
        · exact ih hrest hopened hfound h
        · cases h
      · cases h
    case h_3 =>
      split at h
      case h_1 tuplet =>
        split at h
        · cases h
        case h_2 group hclose =>
          refine ih hrest (by simp) (List.forall_mem_cons.2 ⟨?_, hfound⟩) h
          rw [OpenTuplet.origin_of_close hclose]
          exact hopened tuplet rfl
      · cases h
    case h_4 => exact ih hrest hopened hfound h

/-- A fault of the groups is reported at a token. -/
theorem originOf_error_of_collect (hread : ∀ token ∈ read, token ∈ tokens)
    (hopened : ∀ tuplet, opened = some tuplet → OriginOf tokens tuplet.origin)
    (h : collect ledger index opened found read = .error error) :
    OriginOf tokens error.offset := by
  induction read generalizing index opened found with
  | nil =>
    unfold collect at h
    split at h
    case h_1 tuplet =>
      cases h
      exact hopened tuplet rfl
    case h_2 => cases h
  | cons token rest ih =>
    obtain ⟨htoken, hrest⟩ := List.forall_mem_cons.1 hread
    have hhere : OriginOf tokens token.origin := ⟨token, htoken, rfl⟩
    unfold collect at h
    split at h
    case h_1 =>
      split at h
      · cases h
        exact hhere
      split at h
      · refine ih hrest (fun tuplet htuplet => ?_) h
        cases htuplet
        exact hhere
      · cases h
        exact hhere
    case h_2 =>
      split at h
      · split at h
        · exact ih hrest hopened h
        · cases h
          exact hhere
      · cases h
        exact hhere
    case h_3 =>
      split at h
      case h_1 tuplet =>
        split at h
        case h_1 hclose =>
          cases h
          rw [OpenTuplet.offset_of_close hclose]
          exact hopened tuplet rfl
        case h_2 => exact ih hrest (by simp) h
      · cases h
        exact hhere
    case h_4 => exact ih hrest hopened h

end TupletGroup

/-- A token is refused at its own place, or at that of the chord it closes. -/
theorem Draft.offset_of_place (h : draft.place instrument index token = .error error) :
    error.offset = token.origin ∨
      ∃ chord, draft.chord = some chord ∧ error.offset = chord.offset := by
  unfold place at h
  dsimp only at h
  split at h
  · split at h <;> exact .inl (located_eq_error.1 h).2.symm
  · split at h
    · cases h
      exact .inl rfl
    · exact .inl (located_eq_error.1 h).2.symm
  · split at h
    · cases h
      exact .inl rfl
    split at h
    · cases h
      exact .inl rfl
    · exact .inl (located_eq_error.1 h).2.symm
  · cases h
  · split at h
    · cases h
      exact .inl rfl
    case h_2 chord hchord =>
      split at h
      · cases h
        exact .inr ⟨chord, hchord, rfl⟩
      · exact .inl (located_eq_error.1 h).2.symm
  · split at h
    · cases h
    · split at h
      · cases h
        exact .inl rfl
      · cases h
  · cases h
    exact .inl rfl
  · cases h

/-- A fault of the run is reported at a token. -/
theorem Building.Stops.originOf
    (h : Building.Stops instrument (.start instrument prior frame) tokens error) :
    OriginOf tokens error.offset := by
  cases h with
  | @place read rest token draft split built refused =>
    rcases Draft.offset_of_place refused with hoffset | ⟨chord, hchord, hoffset⟩
    · exact ⟨token, by simp [split], hoffset.symm⟩
    · obtain ⟨start, hstart, -, horigin⟩ := built.sourced.chord chord hchord
      exact ⟨start, by simp [split, List.mem_of_getElem? hstart], horigin.trans hoffset.symm⟩
  | @attach read rest draft event due head fault split built last refused located =>
    have hslots : draft.slots ≠ [] := by
      rintro hempty
      simp [Draft.lastHead?, hempty] at last
    obtain ⟨final, hmem, hfinal⟩ := built.exists_getLast hslots
    refine ⟨final, by simp [split, hmem], ?_⟩
    rw [located, hfinal]
    rfl

/-- The last of the tokens that give a draft its slots is one of them. -/
theorem Building.originOf_lastOffset
    (built : Building instrument (.start instrument prior frame) tokens draft [])
    (nonempty : draft.slots ≠ []) : OriginOf tokens (Draft.lastOffset tokens) := by
  obtain ⟨final, hmem, hfinal⟩ := built.exists_getLast nonempty
  exact ⟨final, hmem, by rw [Draft.lastOffset, hfinal]; rfl⟩

/-- A fault of the finish is reported at a token. -/
theorem Refused.originOf (h : Refused draft instrument tokens groups error)
    (built : Building instrument (.start instrument prior frame) tokens draft [])
    (hgroups : ∀ group ∈ groups, OriginOf tokens group.origin) : OriginOf tokens error.offset := by
  cases h with
  | chord opened =>
    obtain ⟨start, hstart, -, horigin⟩ := built.sourced.chord _ opened
    exact ⟨start, List.mem_of_getElem? hstart, horigin⟩
  | tuplets closed nonempty mem => exact hgroups _ mem
  | times closed nonempty => exact built.originOf_lastOffset nonempty
  | length closed nonempty => exact built.originOf_lastOffset nonempty

/-- A line that cannot be built is reported at the place of one of its tokens. -/
theorem originOf_of_buildLine (h : buildLine tokens instrument prior frame = .error error) :
    OriginOf tokens error.offset := by
  cases stops_of_buildLine h with
  | groups fault refused =>
    exact TupletGroup.originOf_error_of_collect (fun _ hmem => hmem) (by simp) refused
  | run scanned fault refused => exact (Building.start.stops refused).originOf
  | finish scanned taken refused =>
    exact refused.originOf (Building.start.append taken)
      (TupletGroup.originOf_of_collect (fun _ hmem => hmem) (by simp) (by simp) scanned)

end Stave.Shorthand
