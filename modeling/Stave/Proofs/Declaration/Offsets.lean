import Mathlib.Data.List.Forall2
import Stave.Proofs.Declaration.InTurn
import Stave.Proofs.Draft.Sources
import Stave.Proofs.Token.Placed

/-!
# Places in the typed text

What reading a text says of places is said in bytes of the text as it was typed, through the
writing out of repeats, and in a declaration through the blanks put for its keyword. An error is
reported at a character that is no blank; a slot has the place of the character its token
begins with; and a warning about a link has the place of a slot.
-/
namespace Stave

namespace Line

variable {line : Line} {warning : LinkWarning} {previous next : Option Line}

/-- A warning has the place of a slot of the line. -/
def WarnsAtSlot (line : Line) (warning : LinkWarning) : Prop :=
  ∃ slot, line.slots[warning.slot]? = some slot ∧ warning.offset = slot.offset

theorem warnsAtSlot_warningAt (link : LinkKind) (incoming : Bool) {slot : Nat}
    (h : slot < line.slots.length) : line.WarnsAtSlot (line.warningAt link incoming slot) := by
  refine ⟨line.slots[slot], List.getElem?_eq_getElem h, ?_⟩
  simp [warningAt, List.getElem?_eq_getElem h]

/-- The warnings of a line with a slot have the place of one, if its links do not leave it. -/
theorem warnsAtSlot_of_mem_linkWarnings (hslots : 0 < line.slots.length)
    (hslurs : ∀ link ∈ line.slurs, link.Within (List.range line.slots.length))
    (hties : ∀ link ∈ line.ties, link.Within (List.range line.slots.length))
    (hramps : ∀ ramp ∈ line.ramps, ramp.link.Within (List.range line.slots.length))
    (h : warning ∈ linkWarnings previous line next) : line.WarnsAtSlot warning := by
  have hplace (kind : LinkKind) (incoming : Bool) (place : Option Nat) {other : Nat}
      (hother : other < line.slots.length)
      (hmem : ∀ slot, place = some slot → slot ∈ List.range line.slots.length) :
      line.WarnsAtSlot (line.warningAt kind incoming (place.getD other)) := by
    refine warnsAtSlot_warningAt kind incoming ?_
    cases hcase : place with
    | none => exact hother
    | some slot => exact List.mem_range.1 (hmem slot hcase)
  simp only [linkWarnings, List.mem_append, List.mem_flatMap] at h
  rcases h with ((h | h) | h) | ⟨ramp, hramp, h⟩
  · obtain ⟨slur, hslur, rfl⟩ := List.mem_map.1 h
    have hwithin := hslurs slur (List.mem_filter.1 (List.mem_of_mem_take hslur)).1
    exact hplace _ _ slur.start hslots hwithin.start_mem
  · obtain ⟨slur, hslur, rfl⟩ := List.mem_map.1 h
    have hwithin := hslurs slur (List.mem_filter.1 (List.mem_of_mem_drop hslur)).1
    exact hplace _ _ slur.stop (Nat.sub_lt hslots Nat.one_pos) hwithin.stop_mem
  · obtain ⟨start, hstart, hwarning⟩ := List.mem_filterMap.1 h
    obtain ⟨tie, htie, hfrom⟩ := List.mem_filterMap.1 hstart
    split at hwarning
    · cases hwarning
    · cases hwarning
      have hwithin := hties tie (List.mem_filter.1 htie).1
      exact warnsAtSlot_warningAt _ _ (List.mem_range.1 (hwithin.start_mem start hfrom))
  · have hwithin := hramps ramp hramp
    simp only [rampWarnings, List.mem_append] at h
    rcases h with h | h
    · split at h
      · rw [List.mem_singleton.1 h]
        exact hplace _ _ ramp.start hslots hwithin.start_mem
      · cases h
    · split at h
      · rw [List.mem_singleton.1 h]
        exact hplace _ _ ramp.stop hslots hwithin.stop_mem
      · cases h

end Line

namespace Shorthand

variable {text : String} {instrument : Instrument} {prior : Carry} {frame : Frame}
  {cs : List Char} {byte : Nat} {tokens : List Token} {token : Token} {expansion : Expansion}
  {written : WrittenLine} {cursor : Cursor} {error : LineError} {found : List WrittenLine}
  {bar : List Token} {bars : List (List Token)}

/-! ### Errors -/

@[simp] theorem byteSize_replicate_blank (count : Nat) :
    Text.byteSize (List.replicate count ' ') = count := by
  induction count with
  | zero => rfl
  | succ count ih =>
    rw [List.replicate_succ, Text.byteSize_cons, ih, Nat.add_comm]
    rfl

/-- Blanks in the place of the keyword leave every other character where it is. -/
theorem inkAt_of_blankKeyword (h : Text.InkAt (blankKeyword cs) byte) : Text.InkAt cs byte := by
  unfold blankKeyword at h
  dsimp only at h
  split at h
  case isFalse => exact h
  case isTrue hkeyword =>
    obtain ⟨c, hchar, hblank⟩ := h
    refine ⟨c, ?_, hblank⟩
    obtain ⟨rest, hrest⟩ := List.isPrefixOf_iff_prefix.1 hkeyword
    have hcs : cs = (cs.takeWhile Text.isBlank ++ barsKeyword) ++ rest := by
      rw [List.append_assoc, hrest, List.takeWhile_append_dropWhile]
    rw [← hrest, List.drop_left] at hchar
    generalize hsize : Text.byteSize (cs.takeWhile Text.isBlank) + barsKeyword.length = size
      at hchar
    have hbytes : Text.byteSize (cs.takeWhile Text.isBlank ++ barsKeyword) = size := by
      rw [Text.byteSize_append, ← hsize]
      rfl
    obtain ⟨before, after, hsplit, hbefore⟩ := Text.charAt?_eq_some_iff.1 hchar
    rcases List.append_eq_append_iff.1 hsplit with ⟨inside, rfl, hinside⟩ | ⟨inside, hinside, hafter⟩
    · rw [Text.byteSize_append, byteSize_replicate_blank] at hbefore
      rw [hcs, ← hbefore, ← hbytes, Text.charAt?_append, hinside]
      exact Text.charAt?_byteSize inside after c
    · -- a character of the part that was blanked is a blank
      cases inside with
      | nil =>
        rw [List.append_nil] at hinside
        rw [← hinside, byteSize_replicate_blank] at hbefore
        rw [hcs, ← hbefore, ← hbytes, ← Nat.add_zero (Text.byteSize _), Text.charAt?_append,
          ← List.nil_append rest, ← hafter]
        exact Text.charAt?_byteSize [] after c
      | cons first inside =>
        obtain ⟨rfl, -⟩ := List.cons_eq_cons.1 hafter
        have hmem : c ∈ List.replicate size ' ' := by simp [hinside]
        rw [List.eq_of_mem_replicate hmem] at hblank
        cases hblank

/-- A line that cannot be read is reported at a character that is no blank. -/
theorem inkAt_of_readLine (h : readLine text instrument prior frame = .error error) :
    Text.InkAt text.toList error.offset := by
  unfold readLine at h
  rcases bind_error_iff.1 h with htokens | ⟨tokens, htokens, hbuild⟩
  · exact inkAt_of_readTokens htokens
  · obtain ⟨fault, hfault, rfl⟩ := mapError_error_iff.1 hbuild
    obtain ⟨token, hmem, horigin⟩ := originOf_of_buildLine hfault
    rw [LineError.offset, ← horigin]
    exact inkAt_of_mem_readTokens htokens hmem

theorem mem_of_mem_splitBars (hbar : bar ∈ splitBars tokens) (hmem : token ∈ bar) :
    token ∈ tokens := by
  induction tokens generalizing bar with
  | nil =>
    rw [splitBars, List.mem_singleton] at hbar
    exact hbar ▸ hmem
  | cons first rest ih =>
    simp only [splitBars] at hbar
    split at hbar
    · rcases List.mem_cons.1 hbar with rfl | hbar
      · cases hmem
      · exact List.mem_cons_of_mem _ (ih hbar hmem)
    · split at hbar
      · rw [List.mem_singleton] at hbar
        rw [hbar] at hmem
        exact List.mem_singleton.1 hmem ▸ List.mem_cons_self
      case h_2 others hsplit =>
        rcases List.mem_cons.1 hbar with rfl | hbar
        · rcases List.mem_cons.1 hmem with rfl | hmem
          · exact List.mem_cons_self
          · exact List.mem_cons_of_mem _ (ih (hsplit ▸ List.mem_cons_self) hmem)
        · exact List.mem_cons_of_mem _ (ih (hsplit ▸ List.mem_cons_of_mem _ hbar) hmem)

theorem exists_originOf_of_buildBars (h : buildBars instrument cursor found bars = .error error) :
    ∃ bar ∈ bars, OriginOf bar error.offset := by
  induction bars generalizing cursor found with
  | nil => cases h
  | cons bar rest ih =>
    unfold buildBars at h
    split at h
    case h_1 fault hbuild =>
      cases h
      exact ⟨bar, List.mem_cons_self, originOf_of_buildLine hbuild⟩
    case h_2 =>
      obtain ⟨other, hmem, horigin⟩ := ih h
      exact ⟨other, List.mem_cons_of_mem _ hmem, horigin⟩

/-- A declaration that cannot be read is reported at a character that is no blank. -/
theorem inkAt_of_readBars (h : readBars text instrument cursor = .error error) :
    Text.InkAt text.toList error.offset := by
  apply inkAt_of_blankKeyword
  rw [← String.toList_ofList (l := blankKeyword text.toList)]
  unfold readBars at h
  rcases bind_error_iff.1 h with htokens | ⟨tokens, htokens, hbuild⟩
  · exact inkAt_of_readTokens htokens
  · obtain ⟨bar, hbar, token, hmem, horigin⟩ := exists_originOf_of_buildBars hbuild
    exact horigin ▸ inkAt_of_mem_readTokens htokens (mem_of_mem_splitBars hbar hmem)

/-! ### Slots -/

/-- The tokens that head the slots, in order. -/
def slotTokens (tokens : List Token) : List Token :=
  (Ledger.headsFrom 0 false tokens).filterMap (tokens[·]?)

/-- A slot has the place where the token that heads it was typed, and the character that begins
there is the one such a token begins with. -/
structure SlotPlaced (text : String) (expansion : Expansion) (slot : Slot) (token : Token) :
    Prop where
  offset_eq : slot.offset = token.origin
  typed : slot.offset = expansion.typedOffset token.position
  heads : token.kind.isHead false
  begins : ∃ c, Text.charAt? text.toList slot.offset = some c ∧ token.kind.beginsWith c

/-- Slots that agree with those of a draft in their place stand in the order of their tokens. -/
theorem forall₂_of_map_offset {slots : List Slot} {drafts : List DraftSlot}
    (hmap : slots.map Slot.offset = drafts.map fun slot => slot.slot.offset)
    (hsource : ∀ slot ∈ drafts, ∃ token, tokens[slot.head]? = some token ∧
      token.kind.isHead false ∧ token.origin = slot.slot.offset) :
    List.Forall₂ (fun slot token => token ∈ tokens ∧ token.kind.isHead false ∧
        slot.offset = token.origin) slots
      ((drafts.map DraftSlot.head).filterMap (tokens[·]?)) := by
  induction drafts generalizing slots with
  | nil =>
    rw [List.map_nil, List.map_eq_nil_iff] at hmap
    subst hmap
    exact .nil
  | cons draft drafts ih =>
    obtain ⟨slot, slots, rfl, hoffset, hrest⟩ := List.map_eq_cons_iff.1 hmap
    obtain ⟨⟨token, htoken, hkind, horigin⟩, hothers⟩ := List.forall_mem_cons.1 hsource
    rw [List.map_cons, List.filterMap_cons, htoken]
    exact .cons ⟨List.mem_of_getElem? htoken, hkind, hoffset.trans horigin.symm⟩
      (ih hrest hothers)

/-- The slots of a line stand where their tokens were typed. -/
theorem slotsPlaced_of_readLine (hslot : writesSlot text)
    (h : readLine text instrument prior frame = .ok written) :
    ∃ expansion tokens, expand text = .ok expansion ∧ tokenize expansion = .ok tokens ∧
      List.Forall₂ (SlotPlaced text expansion) written.line.slots (slotTokens tokens) := by
  obtain ⟨tokens, groups, draft, htokens, hscan, built, heq⟩ := exists_slotLine_of_readLine hslot h
  obtain ⟨expansion, hexpand, htokenize⟩ := exists_expansion_of_readTokens htokens
  refine ⟨expansion, tokens, hexpand, htokenize, ?_⟩
  have readAll := allRead_of_readTokens htokens
  have hranges := start_le_of_groupsWithin (built.groupsWithin readAll hscan)
  have hmap := Draft.map_slots_slotLine Slot.offset (fun _ _ _ _ _ => rfl) hranges draft
    instrument (Ledger.scan tokens) prior.level
  have hplaced := forall₂_of_map_offset hmap fun slot hmem =>
    built.sourced.slot slot (List.mem_reverse.1 hmem)
  rw [slotTokens, heq, ← (built.heads_eq_headsFrom readAll.alternate readAll.closed).2]
  refine hplaced.imp fun slot token ⟨hmem, hkind, hoffset⟩ => ?_
  obtain ⟨before, head, after, hstands⟩ := standsIn_of_tokenize htokenize token hmem
  have hhead : head ∈ expansion.symbols := by simp [hstands.split]
  refine ⟨hoffset, ?_, hkind, head.char, ?_, hstands.begins⟩
  · rw [hoffset, hstands.position_eq, Expansion.typedOffset_of_split hstands.split,
      hstands.origin_eq]
  · rw [hoffset, hstands.origin_eq]
    exact typed_of_expand hexpand head hhead hstands.isBlank_eq

/-! ### Warnings -/

/-- The ties of a line lie within its slots. -/
theorem within_of_mem_ties (hslot : writesSlot text)
    (h : readLine text instrument prior frame = .ok written) :
    ∀ link ∈ written.line.ties, link.Within (List.range written.line.slots.length) := by
  obtain ⟨tokens, groups, draft, -, -, -, heq⟩ := exists_slotLine_of_readLine hslot h
  intro link hmem
  rw [heq] at hmem ⊢
  exact Draft.within_of_mem_ties_slotLine hmem

theorem slots_ne_nil_of_readLine (hslot : writesSlot text)
    (h : readLine text instrument prior frame = .ok written) : 0 < written.line.slots.length := by
  obtain ⟨tokens, groups, draft, htokens, hscan, built, heq⟩ := exists_slotLine_of_readLine hslot h
  have readAll := allRead_of_readTokens htokens
  have hranges := start_le_of_groupsWithin (built.groupsWithin readAll hscan)
  have hne := (built.slots_ne_nil_iff htokens).2 hslot
  rw [heq, Draft.length_slots_slotLine hranges]
  simpa [Draft.heads, List.length_pos_iff] using hne

/-! ### Reading -/

/-- What reading a text says of places in it. -/
structure ReadsPlaced (text : String) (instrument : Instrument) : Prop where
  /-- An error of a line is reported at a character that is no blank. -/
  line_error : ∀ prior frame error, readLine text instrument prior frame = .error error →
    Text.InkAt text.toList error.offset
  /-- So is an error of a declaration. -/
  bars_error : ∀ cursor error, readBars text instrument cursor = .error error →
    Text.InkAt text.toList error.offset
  /-- The expansion copies what was typed, one repeat after the other, and slot after slot has
  the place where the token that heads it was typed. -/
  slots : ∀ prior frame written, writesSlot text →
    readLine text instrument prior frame = .ok written →
      ∃ expansion tokens, expand text = .ok expansion ∧ tokenize expansion = .ok tokens ∧
        Relation.ReflTransGen Repeat.Step (Symbol.ofChars 0 text.toList) expansion.symbols ∧
        List.Forall₂ (SlotPlaced text expansion) written.line.slots (slotTokens tokens)
  /-- A warning about a link has the place of a slot. -/
  warnings : ∀ prior frame written, writesSlot text →
    readLine text instrument prior frame = .ok written →
      ∀ previous next, ∀ warning ∈ Line.linkWarnings previous written.line next,
        written.line.WarnsAtSlot warning

/-- Whatever is typed, places are those of characters of the text as typed. -/
theorem readsPlaced (text : String) (instrument : Instrument) : ReadsPlaced text instrument where
  line_error _ _ _ h := inkAt_of_readLine h
  bars_error _ _ h := inkAt_of_readBars h
  slots prior frame written hslot h := by
    obtain ⟨expansion, tokens, hexpand, htokenize, hplaced⟩ := slotsPlaced_of_readLine hslot h
    exact ⟨expansion, tokens, hexpand, htokenize,
      steps_of_expandSymbols (exists_expandSymbols_of_expand hexpand), hplaced⟩
  warnings prior frame written hslot h previous next warning hmem := by
    obtain ⟨tokens, groups, draft, htokens, hscan, built, heq⟩ :=
      exists_slotLine_of_readLine hslot h
    have readAll := allRead_of_readTokens htokens
    have groupsWithin := built.groupsWithin readAll hscan
    have hslurs := (built.slursConsistent readAll groupsWithin).within
    have hramps := (built.rampsChained readAll groupsWithin).within
    rw [← heq] at hslurs hramps
    exact Line.warnsAtSlot_of_mem_linkWarnings (slots_ne_nil_of_readLine hslot h) hslurs
      (within_of_mem_ties hslot h) hramps hmem

/-- Repeated slots have the place of the one unit, and a chord that of its bracket; the quoted
letter takes two bytes. The slur that is left open is warned of at the chord. If the chord is too
short for the bar this is reported where it ends. -/
theorem readsPlaced_repeats :
    (∃ written expansion tokens,
        readLine "c4^\"é\"*2 <e g>2(" (.named "flute") .initial ⟨.common, .moderate⟩ =
          .ok written ∧
        expand "c4^\"é\"*2 <e g>2(" = .ok expansion ∧ tokenize expansion = .ok tokens ∧
        written.line.slots.map Slot.offset = [0, 0, 10] ∧
        List.Forall₂ (SlotPlaced "c4^\"é\"*2 <e g>2(" expansion) written.line.slots
          (slotTokens tokens) ∧
        (Line.linkWarnings none written.line none).map LinkWarning.offset = [10] ∧
        ∀ warning ∈ Line.linkWarnings none written.line none,
          written.line.WarnsAtSlot warning) ∧
      readLine "c4^\"é\"*2 <e g>4" (.named "flute") .initial ⟨.common, .moderate⟩ =
          .error (.build ⟨.barLength 256 192, 14⟩) ∧
        Text.InkAt "c4^\"é\"*2 <e g>4".toList 14 := by
  have hplaces : (readLine "c4^\"é\"*2 <e g>2(" (.named "flute") .initial
      ⟨.common, .moderate⟩).toOption.map (fun written => (written.line.slots.map Slot.offset,
        (Line.linkWarnings none written.line none).map LinkWarning.offset)) =
      some ([0, 0, 10], [10]) := by
    decide +kernel
  have hrefused : failure? (readLine "c4^\"é\"*2 <e g>4" (.named "flute") .initial
      ⟨.common, .moderate⟩) = some (.build ⟨.barLength 256 192, 14⟩) := by
    decide +kernel
  obtain ⟨written, hwritten, heq⟩ := Option.map_eq_some_iff.1 hplaces
  obtain ⟨hslots, hwarnings⟩ := by simpa only [Prod.mk.injEq] using heq
  rw [toOption_eq_some_iff] at hwritten
  rw [failure?_eq_some_iff] at hrefused
  have placed := readsPlaced "c4^\"é\"*2 <e g>2(" (.named "flute")
  have hslot : writesSlot "c4^\"é\"*2 <e g>2(" := by decide +kernel
  obtain ⟨expansion, tokens, hexpand, htokenize, -, hplaced⟩ :=
    placed.slots _ _ written hslot hwritten
  exact ⟨⟨written, expansion, tokens, hwritten, hexpand, htokenize, hslots, hplaced, hwarnings,
    placed.warnings _ _ written hslot hwritten none none⟩, hrefused,
    (readsPlaced ..).line_error _ _ _ hrefused⟩

end Shorthand

end Stave
