import Stave.Proofs.Declaration.Bars
import Stave.Proofs.Expansion.Again
import Stave.Proofs.WrittenLine.Built

/-!
# Full rests, written or not

A line without a slot is a full rest, and so is a rest that fills the bar. The two are finished
on different ways. They agree in time, in clef, in content and in all that they leave to the next
bar, and neither has a tie. But what comes in from the bar before is only listed where there is a
slot: the written rest has the slurs and the ramp that run through it, and its level is the one
the bar starts at, while the other has neither links nor a level of its own.
-/
namespace Stave.Shorthand

/-- Whether a token sets the octave shift, the clef, the meter or the tempo. -/
def TokenKind.isDirective : TokenKind → Bool
  | ottava _ => true
  | clef _ => true
  | time _ => true
  | tempo _ => true
  | _ => false

variable {instrument : Instrument} {prior : Carry} {frame : Frame} {draft : Draft} {index : Nat}
  {token : Token} {tokens directives : List Token} {ledger : Ledger}

/-! ### Directives -/

namespace Draft

/-- A directive is followed, whatever has been read before. -/
theorem accept_of_isDirective (h : token.kind.isDirective = true) :
    draft.accept instrument index token = .ok (draft.follow token) := by
  have hplace : draft.place instrument index token = .ok (draft.follow token, []) := by
    unfold place
    cases hkind : token.kind <;> simp_all [TokenKind.isDirective]
  rw [accept_eq_ok]
  exact ⟨_, _, hplace, rfl⟩

theorem acceptAll_of_isDirective (h : ∀ token ∈ directives, token.kind.isDirective = true)
    (draft : Draft) (instrument : Instrument) (index : Nat) (others : List Token) :
    draft.acceptAll instrument index (directives ++ others) =
      (directives.foldl follow draft).acceptAll instrument (index + directives.length) others := by
  induction directives generalizing draft index with
  | nil => rfl
  | cons token rest ih =>
    obtain ⟨htoken, hrest⟩ := List.forall_mem_cons.1 h
    rw [List.cons_append, acceptAll, accept_of_isDirective htoken]
    dsimp only
    rw [ih hrest, List.foldl_cons, List.length_cons, Nat.add_assoc, Nat.add_comm 1]

/-- Directives change nothing but the settings of a draft. -/
theorem exists_foldl_follow (directives : List Token) (draft : Draft) :
    ∃ ottava clef frame timeOffset tempoChanged, directives.foldl follow draft =
      { draft with ottava, clef, frame, timeOffset, tempoChanged } := by
  induction directives generalizing draft with
  | nil => exact ⟨_, _, _, _, _, rfl⟩
  | cons token rest ih =>
    obtain ⟨ottava, clef, frame, timeOffset, tempoChanged, heq⟩ := ih (draft.follow token)
    refine ⟨ottava, clef, frame, timeOffset, tempoChanged, ?_⟩
    rw [List.foldl_cons, heq]
    unfold follow
    split <;> rfl

/-- What a directive does depends on what it is and where it was typed. -/
theorem foldl_follow_congr {others : List Token}
    (h : directives.map Token.mark = others.map Token.mark) (draft : Draft) :
    directives.foldl follow draft = others.foldl follow draft := by
  induction directives generalizing others draft with
  | nil => rw [List.map_eq_nil_iff.1 h.symm]
  | cons token rest ih =>
    obtain ⟨other, others, rfl, hmark, hrest⟩ := List.map_eq_cons_iff.1 h.symm
    have hkind : other.kind = token.kind := congrArg Prod.fst hmark
    have horigin : other.origin = token.origin := congrArg Prod.snd hmark
    have hsame : draft.follow other = draft.follow token := by
      unfold follow
      rw [hkind, horigin]
    rw [List.foldl_cons, List.foldl_cons, hsame, ih hrest.symm]

end Draft

/-- Without tuplet tokens there are no groups. -/
theorem TupletGroup.collect_of_plain {found : List TupletGroup}
    (h : ∀ token ∈ tokens, token.kind.isDirective = true ∨ ∃ suffix, token.kind = .rest suffix) :
    collect ledger index none found tokens = .ok found.reverse := by
  induction tokens generalizing index with
  | nil => rfl
  | cons token rest ih =>
    obtain ⟨htoken, hrest⟩ := List.forall_mem_cons.1 h
    unfold collect
    rcases htoken with htoken | ⟨suffix, hsuffix⟩
    · cases hkind : token.kind <;> simp_all [TokenKind.isDirective]
    · rw [hsuffix]
      exact ih hrest

/-! ### The two lines -/

/-- What a full rest that is not written and one that is have in common, and what sets them
apart, in a bar that starts from what the bar before left. -/
structure RestsAgree (prior : Carry) (bare full : WrittenLine) : Prop where
  frame_eq : full.frame = bare.frame
  clef_eq : full.line.clef = bare.line.clef
  ties_eq : full.line.ties = bare.line.ties
  level_eq : full.line.closing.level = bare.line.closing.level
  openSlurs_eq : full.line.closing.openSlurs = bare.line.closing.openSlurs
  openRamp_eq : full.line.closing.openRamp = bare.line.closing.openRamp
  /-- Slurs that run through the bar are slurs of the written rest alone. -/
  slurs_eq : bare.line.slurs = [] ∧
    full.line.slurs = List.replicate prior.openSlurs ⟨none, none⟩
  /-- So is a ramp that runs through it. -/
  ramps_eq : bare.line.ramps = [] ∧ full.line.ramps.length = prior.openRamp.toList.length
  /-- Both have one slot, of the same content and length. They are the same in all that comes in
  just if nothing comes in but the level a piece starts at. -/
  slots : ∃ rest written, bare.line.slots = [rest] ∧ full.line.slots = [written] ∧
    written.content = rest.content ∧ written.duration = rest.duration ∧
    written.displayDuration = rest.displayDuration ∧
    (full.line.slurs = bare.line.slurs ∧ full.line.ramps = bare.line.ramps ∧
        written.level = rest.level ∧ written.loudness = rest.loudness ↔
      prior.openSlurs = 0 ∧ prior.openRamp = none ∧ prior.level = initialLevel)

variable {written : Option NoteLength} {length : NoteLength}

theorem checkTuplets_nil (draft : Draft) : draft.checkTuplets [] = .ok () := rfl

/-- Directives alone make a rest. -/
theorem buildLine_of_isDirective (h : ∀ token ∈ directives, token.kind.isDirective = true)
    (draft : Draft) (hdraft : directives.foldl Draft.follow (.start instrument prior frame) = draft)
    (hchord : draft.chord = none) (hslots : draft.slots = []) :
    buildLine directives instrument prior frame =
      .ok ⟨draft.restLine instrument, draft.frame, draft.timeOffset, draft.tempoChanged⟩ := by
  have haccept : (Draft.start instrument prior frame).acceptAll instrument 0 directives =
      .ok draft := by
    have hall := Draft.acceptAll_of_isDirective h (.start instrument prior frame) instrument 0 []
    rwa [List.append_nil, hdraft] at hall
  have hscan : TupletGroup.scan directives (Ledger.scan directives) = .ok [] :=
    TupletGroup.collect_of_plain fun token hmem => .inl (h token hmem)
  rw [buildLine, hscan, haccept]
  simp [Draft.finish, hchord, hslots, bind, Except.bind]

/-- The one slot of a rest is drawn as it is written. -/
theorem timedSlots_push_rest (hslots : draft.slots = []) (instrument : Instrument)
    (head offset : Nat) :
    (draft.push head .rest length offset).timedSlots instrument [] =
      [{ Slot.of .rest length offset with ottava := draft.ottava }] := by
  simp [Draft.timedSlots, Draft.resolvedSlots, Draft.push, hslots, scaleTuplets,
    resolveAccidentals, resolveSlots, Slot.of, SlotContent.withPitches]

/-- Directives and a rest that fills the bar make the line of that rest. -/
theorem buildLine_rest (h : ∀ token ∈ directives, token.kind.isDirective = true)
    (hdraft : directives.foldl Draft.follow (.start instrument prior frame) = draft)
    (hchord : draft.chord = none) (hslots : draft.slots = [])
    (hkind : token.kind = .rest ⟨written, []⟩)
    (timed : written.or draft.lastLength = some length)
    (fills : length.units = draft.frame.meter.barUnits) :
    buildLine (directives ++ [token]) instrument prior frame =
      .ok ⟨(draft.push directives.length .rest length token.origin).slotLine instrument
        (Ledger.scan (directives ++ [token])) prior.level [],
        draft.frame, draft.timeOffset, draft.tempoChanged⟩ := by
  have hunits : length.units < wordLimit := fills ▸ Meter.barUnits_lt _
  have haccept : (Draft.start instrument prior frame).acceptAll instrument 0
      (directives ++ [token]) = .ok (draft.push directives.length .rest length token.origin) := by
    rw [Draft.acceptAll_of_isDirective h, hdraft]
    have hadded : draft.addSlot directives.length .rest written token.origin =
        .ok (draft.push directives.length .rest length token.origin) :=
      Draft.addSlot_eq_ok.2 ⟨length, timed, hunits, rfl⟩
    simp [Draft.acceptAll, Draft.accept, Draft.place, hkind, hchord, hadded, Draft.located]
  have hscan : TupletGroup.scan (directives ++ [token]) (Ledger.scan (directives ++ [token])) =
      .ok [] := by
    refine TupletGroup.collect_of_plain fun other hmem => ?_
    rcases List.mem_append.1 hmem with hmem | hmem
    · exact .inl (h other hmem)
    · rw [List.mem_singleton.1 hmem]
      exact .inr ⟨_, hkind⟩
  have hsum : sumOf (((draft.push directives.length .rest length token.origin).timedSlots
      instrument []).map Slot.duration) = length.units := by
    rw [timedSlots_push_rest hslots]
    rfl
  have htimes (offset : Nat) : Draft.checkTimes offset []
      ((draft.push directives.length .rest length token.origin).resolvedSlots instrument) =
        .ok () :=
    Draft.checkTimes_eq_ok.2 ⟨by simp, hsum ▸ hunits⟩
  have hlength (offset : Nat) : Draft.checkLength draft.frame.meter offset
      ((draft.push directives.length .rest length token.origin).timedSlots instrument []) =
        .ok () :=
    Draft.checkLength_eq_ok.2 (hsum.trans fills)
  rw [buildLine, hscan, haccept]
  simp only [Draft.finish, Draft.push, hchord, List.map_nil, bind, Except.bind] at htimes hlength ⊢
  simp [checkTuplets_nil, htimes, hlength]

/-- Without ramps a slot without a dynamic keeps the level before it. -/
theorem setLoudness_singleton {slot : Slot} (h : slot.dynamic = none) (before : Level) :
    setLoudness [] before [slot] =
      [{ slot with level := before, loudness := loudnessOf before }] := by
  simp [setLoudness, setLevels, levelFrom, h, rampSlot]

/-- The slot of a rest is that of the draft but for its level and loudness. -/
theorem exists_slot_of_push_rest (hslots : draft.slots = []) (instrument : Instrument)
    (ledger : Ledger) (length : NoteLength) (head offset : Nat) (before : Level) :
    ∃ slot, ((draft.push head .rest length offset).slotLine instrument ledger before []).slots =
        [slot] ∧ slot.content = .rest ∧ slot.duration = length.units ∧
      slot.displayDuration = length.units ∧
      (draft.allRamps = [] → slot.level = before ∧ slot.loudness = loudnessOf before) := by
  have hline : ((draft.push head .rest length offset).slotLine instrument ledger before []).slots =
      setLoudness (draft.allRamps.map (rebaseRamp ledger)) before
        [{ Slot.of .rest length offset with ottava := draft.ottava }] := by
    rw [← timedSlots_push_rest hslots instrument head offset]
    rfl
  have hkept := map_setLoudness
    (fun slot => (slot.content, slot.duration, slot.displayDuration)) (fun _ _ _ => rfl)
    (draft.allRamps.map (rebaseRamp ledger)) before
    [{ Slot.of .rest length offset with ottava := draft.ottava }]
  rw [← hline] at hkept
  obtain ⟨slot, hslot, hparts⟩ := List.map_eq_singleton_iff.1 hkept
  obtain ⟨hcontent, hduration, hdisplay⟩ : slot.content = .rest ∧
      slot.duration = length.units ∧ slot.displayDuration = length.units := by
    simpa [Slot.of] using hparts
  refine ⟨slot, hslot, hcontent, hduration, hdisplay, fun hramps => ?_⟩
  rw [hline, hramps, List.map_nil, setLoudness_singleton rfl] at hslot
  obtain rfl := List.singleton_inj.1 hslot
  exact ⟨rfl, rfl⟩

/-- The line of a rest that fills the bar agrees with the full rest that is not written. -/
theorem restsAgree (hslots : draft.slots = []) (hslurs : draft.slurs = #[])
    (hcarried : draft.carriedSlurs = prior.openSlurs) (hramps : draft.ramps = [])
    (hopenRamp : draft.openRamp.map OpenRamp.direction = prior.openRamp)
    (fills : length.units = draft.frame.meter.barUnits) (head offset : Nat) :
    RestsAgree prior
      ⟨draft.restLine instrument, draft.frame, draft.timeOffset, draft.tempoChanged⟩
      ⟨(draft.push head .rest length offset).slotLine instrument ledger prior.level [],
        draft.frame, draft.timeOffset, draft.tempoChanged⟩ := by
  obtain ⟨slot, hslot, hcontent, hduration, hdisplay, hlevel⟩ :=
    exists_slot_of_push_rest hslots instrument ledger length head offset prior.level
  have hsame : (draft.push head .rest length offset).allRamps = draft.allRamps := rfl
  have hall : draft.allRamps.length = prior.openRamp.toList.length := by
    rw [Draft.allRamps, hramps, ← hopenRamp]
    cases draft.openRamp <;> rfl
  have hthrough : ((draft.push head .rest length offset).slotLine instrument ledger prior.level
      []).slurs = List.replicate prior.openSlurs ⟨none, none⟩ := by
    simp [Draft.slotLine, Draft.push, Draft.allSlurs, hslurs, hcarried, rebaseLink]
  refine ⟨rfl, rfl, ?_, rfl, rfl, rfl, ⟨rfl, hthrough⟩, ⟨rfl, ?_⟩, ?_⟩
  · simp [Draft.slotLine, timedSlots_push_rest hslots, tiesOf, Slot.of, Draft.restLine,
      Line.fullRest, Line.blank]
  · simpa [Draft.slotLine, hsame] using hall
  · refine ⟨.of .rest ⟨draft.frame.meter.barUnits, 0⟩ 0, slot, rfl, hslot, hcontent, ?_, ?_, ?_⟩
    · rw [hduration, fills]
      rfl
    · rw [hdisplay, fills]
      rfl
    have hnoRamps : draft.allRamps = [] ↔ prior.openRamp = none := by
      rw [← List.length_eq_zero_iff, hall]
      cases prior.openRamp <;> simp
    constructor
    · rintro ⟨hslursSame, hrampsSame, hlevelSame, -⟩
      have hramp : draft.allRamps = [] := by
        have hnil : draft.allRamps.map (rebaseRamp ledger) = [] := hrampsSame
        exact List.map_eq_nil_iff.1 hnil
      rw [(hlevel hramp).1] at hlevelSame
      exact ⟨List.replicate_eq_nil_iff _ |>.1 (hthrough.symm.trans hslursSame),
        hnoRamps.1 hramp, hlevelSame⟩
    · rintro ⟨hnone, hramp, hinitial⟩
      obtain ⟨hlevelEq, hloudness⟩ := hlevel (hnoRamps.2 hramp)
      refine ⟨?_, ?_, ?_, ?_⟩
      · rw [hthrough, hnone]
        rfl
      · rw [Draft.slotLine, hsame, hnoRamps.2 hramp]
        rfl
      · rw [hlevelEq, hinitial]
        rfl
      · rw [hloudness, hinitial]
        rfl

/-- The settings that directives leave to a bar, and the line they make alone or before a rest. -/
theorem exists_restsAgree (h : ∀ token ∈ directives, token.kind.isDirective = true)
    (instrument : Instrument) (prior : Carry) (frame : Frame) (written : Option NoteLength) :
    ∃ bare, buildLine directives instrument prior frame = .ok bare ∧
      ∀ length, written.or prior.lastLength = some length →
        length.units = bare.frame.meter.barUnits →
        ∀ others token, others.map Token.mark = directives.map Token.mark →
          token.kind = .rest ⟨written, []⟩ →
          ∃ full, buildLine (others ++ [token]) instrument prior frame = .ok full ∧
            RestsAgree prior bare full := by
  obtain ⟨ottava, clef, after, timeOffset, tempoChanged, hdraft⟩ :=
    Draft.exists_foldl_follow directives (.start instrument prior frame)
  refine ⟨_, buildLine_of_isDirective h _ hdraft rfl rfl, ?_⟩
  intro length timed fills others token hmarks hkind
  have hothers : ∀ token ∈ others, token.kind.isDirective = true := by
    intro other hmem
    have hmark := List.mem_map_of_mem (f := Token.mark) hmem
    rw [hmarks] at hmark
    obtain ⟨same, hsame, heq⟩ := List.mem_map.1 hmark
    have hkinds : same.kind = other.kind := congrArg Prod.fst heq
    exact hkinds ▸ h same hsame
  have hfold := (Draft.foldl_follow_congr hmarks (.start instrument prior frame)).trans hdraft
  refine ⟨_, buildLine_rest hothers hfold rfl rfl hkind timed fills, ?_⟩
  refine restsAgree rfl rfl rfl rfl ?_ fills others.length token.origin
  cases hramp : prior.openRamp <;> simp [Draft.start, hramp]

/-! ### The two texts -/

variable {text word : String}

/-- A text without signs of repeats does not get too long. -/
theorem expand_ne_error (h : ∀ c ∈ text.toList, c ∉ repeatSigns) (error : ExpansionError) :
    expand text ≠ .error error := by
  have hclear (c : Char) (hc : c ∈ repeatSigns) :
      c ∉ unquoted false (Symbol.chars (Symbol.ofChars 0 text.toList)) := by
    rw [Symbol.chars_ofChars]
    exact fun hmem => h c (mem_of_mem_unquoted hmem) hc
  rw [expand, expandSymbols_eq_self ⟨hclear '[' (by decide), hclear ']' (by decide)⟩
    (hclear '*' (by decide))]
  intro hfailed
  cases hfailed

/-- The symbols of two texts joined by a blank. -/
theorem ofChars_blank (first second : String) :
    Symbol.ofChars 0 (first ++ " " ++ second).toList =
      Symbol.ofChars 0 first.toList ++ ⟨' ', first.utf8ByteSize⟩ ::
        Symbol.ofChars (first.utf8ByteSize + 1) second.toList := by
  rw [String.append_assoc, String.toList_append, Symbol.ofChars_append, Text.byteSize_toList,
    Nat.zero_add, String.toList_append]
  rfl

/-- Directives alone are a full rest. Followed by a rest of the length of the bar they are read
too, unless a repeat makes the text too long, and the two lines agree but for what comes in. -/
theorem restsAgree_of_readTokens (htokens : readTokens text = .ok directives)
    (honly : ∀ token ∈ directives, token.kind.isDirective = true)
    (hword : readTokens word = .ok [token]) (hkind : token.kind = .rest ⟨written, []⟩) :
    ∃ bare, readLine text instrument prior frame = .ok bare ∧
      ∀ length, written.or prior.lastLength = some length →
        length.units = bare.frame.meter.barUnits →
        (∃ error, readLine (text ++ " " ++ word) instrument prior frame =
            .error (.expansion error) ∧ error.fault = .tooLong ∧
          ∃ sign ∈ repeatSigns, sign ∈ (text ++ " " ++ word).toList) ∨
        ∃ full, readLine (text ++ " " ++ word) instrument prior frame = .ok full ∧
          RestsAgree prior bare full := by
  obtain ⟨bare, hbare, hfull⟩ := exists_restsAgree honly instrument prior frame written
  refine ⟨bare, readLine_eq_ok.2 ⟨directives, htokens, hbare⟩, fun length timed fills => ?_⟩
  have hreads : Reads (Symbol.ofChars 0 (text ++ " " ++ word).toList)
      (directives.map (Token.movedMark (· + 0)) ++
        [token].map (Token.movedMark (· + (text.utf8ByteSize + 1)))) := by
    rw [ofChars_blank]
    exact (reads_of_readTokens 0 htokens).2 _ _ _ rfl
      (reads_of_readTokens (text.utf8ByteSize + 1) hword).1
  rcases readTokens_of_reads hreads with ⟨error, herror, hlong⟩ | ⟨tokens, hjoined, hmarks⟩
  · left
    refine ⟨error, by rw [readLine, herror]; rfl, hlong, ?_⟩
    by_contra hnone
    have hplain : ∀ c ∈ (text ++ " " ++ word).toList, c ∉ repeatSigns :=
      fun c hmem hsign => hnone ⟨c, hsign, hmem⟩
    unfold readTokens at herror
    rcases bind_error_iff.1 herror with herror | ⟨expansion, -, herror⟩
    · obtain ⟨fault, hfault, -⟩ := mapError_error_iff.1 herror
      exact expand_ne_error hplain fault hfault
    · obtain ⟨fault, -, heq⟩ := mapError_error_iff.1 herror
      cases heq
  · right
    obtain ⟨others, last, rfl, hothers, hlast⟩ := List.map_eq_append_iff.1 hmarks
    obtain ⟨rest, rfl, hrest⟩ := List.map_eq_singleton_iff.1 hlast
    have hsame : rest.kind = .rest ⟨written, []⟩ := (congrArg Prod.fst hrest).trans hkind
    obtain ⟨full, hbuild, agree⟩ := hfull length timed fills others rest hothers hsame
    exact ⟨full, readLine_eq_ok.2 ⟨_, hjoined, hbuild⟩, agree⟩

/-- A slur runs through a bar of rest: the rest that is written lists it, and the one that is not
leaves it to the next bar without listing it. -/
theorem not_same_slur_through :
    ∃ directives token bare full,
      readTokens "\\time 3/4" = .ok directives ∧ readTokens "r2." = .ok [token] ∧
        readLine "\\time 3/4" (.named "flute") { Carry.initial with openSlurs := 1, level := 6 }
            ⟨.common, .moderate⟩ = .ok bare ∧
          readLine ("\\time 3/4" ++ " " ++ "r2.") (.named "flute")
              { Carry.initial with openSlurs := 1, level := 6 } ⟨.common, .moderate⟩ = .ok full ∧
            (∀ token ∈ directives, token.kind.isDirective = true) ∧
            token.kind = .rest ⟨some ⟨128, 1⟩, []⟩ ∧
            RestsAgree { Carry.initial with openSlurs := 1, level := 6 } bare full ∧
            bare.line.slurs = [] ∧ full.line.slurs = [⟨none, none⟩] ∧
            full.line.closing.openSlurs = bare.line.closing.openSlurs := by
  have hdirectives : (readTokens "\\time 3/4").toOption.map (List.map Token.kind) =
      some [.time ⟨3, 4, by decide⟩] := by
    decide +kernel
  have hword : (readTokens "r2.").toOption.map (List.map Token.kind) =
      some [.rest ⟨some ⟨128, 1⟩, []⟩] := by
    decide +kernel
  obtain ⟨directives, hread, hkinds⟩ := Option.map_eq_some_iff.1 hdirectives
  obtain ⟨tokens, hreadWord, hkind⟩ := Option.map_eq_some_iff.1 hword
  rw [toOption_eq_some_iff] at hread hreadWord
  obtain ⟨token, rfl, htoken⟩ := List.map_eq_singleton_iff.1 hkind
  obtain ⟨time, rfl, htime⟩ := List.map_eq_singleton_iff.1 hkinds
  have honly : ∀ token ∈ [time], token.kind.isDirective = true := by
    simp [htime, TokenKind.isDirective]
  have hmeter : (readLine "\\time 3/4" (.named "flute")
      { Carry.initial with openSlurs := 1, level := 6 } ⟨.common, .moderate⟩).toOption.map
        (·.frame.meter.barUnits) = some 192 := by
    decide +kernel
  obtain ⟨bare, hbare, hfull⟩ := @restsAgree_of_readTokens (.named "flute")
    { Carry.initial with openSlurs := 1, level := 6 } ⟨.common, .moderate⟩ _ _ _ _ _
    hread honly hreadWord htoken
  have hunits : bare.frame.meter.barUnits = 192 := by
    rw [hbare] at hmeter
    exact Option.some.inj hmeter
  rcases hfull ⟨128, 1⟩ rfl (by rw [hunits]; decide) with ⟨-, -, -, sign, hsign, hmem⟩ |
    ⟨full, hjoined, agree⟩
  · have hplain : ("\\time 3/4" ++ " " ++ "r2.").toList.all (· ∉ repeatSigns) = true := by
      decide +kernel
    exact absurd hsign (of_decide_eq_true (List.all_eq_true.1 hplain sign hmem))
  · exact ⟨[time], token, bare, full, hread, hreadWord, hbare, hjoined, honly, htoken, agree,
      agree.slurs_eq.1, agree.slurs_eq.2, agree.openSlurs_eq⟩

end Stave.Shorthand
