import Stave.Proofs.Declaration.InTurn

/-!
# Both sides of a bar line

What leaves a bar is judged with the bar after it, and what comes into a bar with the bar before,
by rules that do not know of each other. They still agree at every bar line, whatever stands
further away and whatever the two bars were read from: as many slurs are met on one side as on
the other, a ramp is met on both sides or on neither, and the tie of the last slot is warned
about exactly if nothing is tied into the bar after. What makes them agree is that a line leaves
at most one ramp open on either side, and that its ties are those its slots ask for.
-/
namespace Stave

namespace LinkWarning

/-- The warnings for links that go on after the line. -/
def outgoing (warnings : List LinkWarning) : List LinkWarning := warnings.filter (!·.incoming)

/-- The warnings for links that come in from before the line. -/
def ingoing (warnings : List LinkWarning) : List LinkWarning := warnings.filter (·.incoming)

end LinkWarning

namespace Line

open LinkWarning (outgoing ingoing)

/-- The warnings on the two sides of the bar line between two lines agree, whatever their other
neighbours are. -/
structure SidesAgree (left right : Line) : Prop where
  /-- As many slurs of the first line are met as of the second. -/
  slurs : ∀ previous next,
    (left.outgoingSlurs.length : Int) -
        (outgoing (linkWarnings previous left (some right))).countP (·.link = .slur) =
      right.incomingSlurs.length -
        (ingoing (linkWarnings (some left) right next)).countP (·.link = .slur)
  /-- The ramp that leaves the first line is met exactly if one that comes into the second is. -/
  ramps : ∀ previous next,
    ((∃ ramp ∈ left.ramps, ramp.stop = none) ∧
        ∀ warning ∈ outgoing (linkWarnings previous left (some right)), warning.link ≠ .ramp) ↔
      ((∃ ramp ∈ right.ramps, ramp.start = none) ∧
        ∀ warning ∈ ingoing (linkWarnings (some left) right next), warning.link ≠ .ramp)
  /-- The tie of the last slot is warned about exactly if it is there and nothing is tied in. -/
  ties : ∀ previous,
    (∃ warning ∈ outgoing (linkWarnings previous left (some right)),
        warning.link = .tie ∧ warning.slot + 1 = left.slots.length) ↔
      (∃ last, left.slots.getLast? = some last ∧ last.tied = true) ∧
        tiedIn (some left) right = false
  outgoing_eq : ∀ previous other,
    outgoing (linkWarnings previous left (some right)) =
      outgoing (linkWarnings other left (some right))
  ingoing_eq : ∀ next other,
    ingoing (linkWarnings (some left) right next) = ingoing (linkWarnings (some left) right other)

variable {line left right : Line} {previous next : Option Line} {warning : LinkWarning}
  {ramp : Ramp}

/-! ### The warnings of one side -/

theorem outgoing_rampWarnings (line : Line) (previous next : Option Line) (ramp : Ramp) :
    outgoing (line.rampWarnings previous next ramp) =
      if ramp.stop.isNone && !(next.map (·.hasIncomingRamp ramp.direction)).getD false then
        [line.warningAt .ramp false (ramp.start.getD 0)] else [] := by
  unfold rampWarnings outgoing
  dsimp only
  rw [List.filter_append, apply_ite (List.filter _), apply_ite (List.filter _)]
  simp [warningAt]

theorem ingoing_rampWarnings (line : Line) (previous next : Option Line) (ramp : Ramp) :
    ingoing (line.rampWarnings previous next ramp) =
      if ramp.start.isNone && !(previous.map (·.hasOutgoingRamp ramp.direction)).getD false then
        [line.warningAt .ramp true (ramp.stop.getD 0)] else [] := by
  unfold rampWarnings ingoing
  dsimp only
  rw [List.filter_append, apply_ite (List.filter _), apply_ite (List.filter _)]
  simp [warningAt]

/-- What a line is warned about on its right does not depend on its left. -/
theorem outgoing_linkWarnings (previous next : Option Line) (line : Line) :
    outgoing (linkWarnings previous line next) =
      line.outgoingSlurWarnings next ++ line.tieWarnings next ++
        line.ramps.flatMap fun ramp => outgoing (line.rampWarnings none next ramp) := by
  have hout : outgoing (line.outgoingSlurWarnings next) = line.outgoingSlurWarnings next :=
    List.filter_eq_self.2 fun warning hmem => by
      simp [incoming_of_mem_outgoingSlurWarnings hmem]
  have hin : outgoing (line.incomingSlurWarnings previous) = [] :=
    List.filter_eq_nil_iff.2 fun warning hmem => by
      simp [incoming_of_mem_incomingSlurWarnings hmem]
  have hties : outgoing (line.tieWarnings next) = line.tieWarnings next :=
    List.filter_eq_self.2 fun warning hmem => by simp [(link_of_mem_tieWarnings hmem).2]
  have hramps : outgoing (line.ramps.flatMap (line.rampWarnings previous next)) =
      line.ramps.flatMap fun ramp => outgoing (line.rampWarnings none next ramp) := by
    rw [outgoing, List.filter_flatMap]
    refine congrArg (line.ramps.flatMap ·) (funext fun ramp => ?_)
    exact (outgoing_rampWarnings line previous next ramp).trans
      (outgoing_rampWarnings line none next ramp).symm
  unfold outgoing at *
  rw [linkWarnings, List.filter_append, List.filter_append, List.filter_append, hout, hin, hties,
    hramps, List.append_nil]

/-- What a line is warned about on its left does not depend on its right. -/
theorem ingoing_linkWarnings (previous next : Option Line) (line : Line) :
    ingoing (linkWarnings previous line next) =
      line.incomingSlurWarnings previous ++
        line.ramps.flatMap fun ramp => ingoing (line.rampWarnings previous none ramp) := by
  have hout : ingoing (line.outgoingSlurWarnings next) = [] :=
    List.filter_eq_nil_iff.2 fun warning hmem => by
      simp [incoming_of_mem_outgoingSlurWarnings hmem]
  have hin : ingoing (line.incomingSlurWarnings previous) = line.incomingSlurWarnings previous :=
    List.filter_eq_self.2 fun warning hmem => by
      simp [incoming_of_mem_incomingSlurWarnings hmem]
  have hties : ingoing (line.tieWarnings next) = [] :=
    List.filter_eq_nil_iff.2 fun warning hmem => by simp [(link_of_mem_tieWarnings hmem).2]
  have hramps : ingoing (line.ramps.flatMap (line.rampWarnings previous next)) =
      line.ramps.flatMap fun ramp => ingoing (line.rampWarnings previous none ramp) := by
    rw [ingoing, List.filter_flatMap]
    refine congrArg (line.ramps.flatMap ·) (funext fun ramp => ?_)
    exact (ingoing_rampWarnings line previous next ramp).trans
      (ingoing_rampWarnings line previous none ramp).symm
  unfold ingoing at *
  rw [linkWarnings, List.filter_append, List.filter_append, List.filter_append, hout, hin, hties,
    hramps, List.append_nil, List.nil_append]

/-! ### Slurs -/

theorem link_of_mem_outgoing_ramps
    (h : warning ∈ line.ramps.flatMap fun ramp => outgoing (line.rampWarnings none next ramp)) :
    warning.link = .ramp := by
  obtain ⟨ramp, -, hmem⟩ := List.mem_flatMap.1 h
  rw [outgoing_rampWarnings] at hmem
  split at hmem
  · rw [List.mem_singleton.1 hmem]
    rfl
  · cases hmem

theorem link_of_mem_ingoing_ramps
    (h : warning ∈ line.ramps.flatMap fun ramp => ingoing (line.rampWarnings previous none ramp)) :
    warning.link = .ramp := by
  obtain ⟨ramp, -, hmem⟩ := List.mem_flatMap.1 h
  rw [ingoing_rampWarnings] at hmem
  split at hmem
  · rw [List.mem_singleton.1 hmem]
    rfl
  · cases hmem

theorem link_of_mem_outgoingSlurWarnings (h : warning ∈ line.outgoingSlurWarnings next) :
    warning.link = .slur := by
  obtain ⟨slur, -, rfl⟩ := List.mem_map.1 h
  rfl

theorem link_of_mem_incomingSlurWarnings (h : warning ∈ line.incomingSlurWarnings previous) :
    warning.link = .slur := by
  obtain ⟨slur, -, rfl⟩ := List.mem_map.1 h
  rfl

/-- The slurs that leave a line are warned about as far as the next one takes fewer. -/
theorem countP_slur_outgoing :
    (outgoing (linkWarnings previous left (some right))).countP (·.link = .slur) =
      left.outgoingSlurs.length - right.incomingSlurs.length := by
  have hslurs : (left.outgoingSlurWarnings (some right)).countP (·.link = .slur) =
      (left.outgoingSlurWarnings (some right)).length :=
    List.countP_eq_length.2 fun warning hmem => by simp [link_of_mem_outgoingSlurWarnings hmem]
  have hties : (left.tieWarnings (some right)).countP (·.link = .slur) = 0 :=
    List.countP_eq_zero.2 fun warning hmem => by simp [(link_of_mem_tieWarnings hmem).1]
  rw [outgoing_linkWarnings, List.countP_append, List.countP_append, hslurs, hties,
    List.countP_eq_zero.2 fun warning hmem => by simp [link_of_mem_outgoing_ramps hmem]]
  simp [outgoingSlurWarnings]

/-- The slurs that come into a line are warned about as far as the one before leaves fewer. -/
theorem countP_slur_ingoing :
    (ingoing (linkWarnings (some left) right next)).countP (·.link = .slur) =
      right.incomingSlurs.length - left.outgoingSlurs.length := by
  have hslurs : (right.incomingSlurWarnings (some left)).countP (·.link = .slur) =
      (right.incomingSlurWarnings (some left)).length :=
    List.countP_eq_length.2 fun warning hmem => by simp [link_of_mem_incomingSlurWarnings hmem]
  rw [ingoing_linkWarnings, List.countP_append, hslurs,
    List.countP_eq_zero.2 fun warning hmem => by simp [link_of_mem_ingoing_ramps hmem]]
  simp [incomingSlurWarnings]

/-! ### Ramps -/

/-- No ramp that leaves a line is warned about exactly if the next one meets them all. -/
theorem outgoing_ne_ramp_iff :
    (∀ warning ∈ outgoing (linkWarnings previous left (some right)), warning.link ≠ .ramp) ↔
      ∀ ramp ∈ left.ramps, ramp.stop = none → right.hasIncomingRamp ramp.direction = true := by
  rw [outgoing_linkWarnings]
  constructor
  · intro h ramp hmem hstop
    refine (Bool.eq_false_or_eq_true _).resolve_right fun hunmet => ?_
    have hwarned : left.warningAt .ramp false (ramp.start.getD 0) ∈
        outgoing (left.rampWarnings none (some right) ramp) := by
      rw [outgoing_rampWarnings]
      simp [hstop, hunmet]
    exact h _ (List.mem_append_right _ (List.mem_flatMap.2 ⟨ramp, hmem, hwarned⟩)) rfl
  · intro h warning hmem hkind
    simp only [List.mem_append, List.mem_flatMap] at hmem
    rcases hmem with (hmem | hmem) | ⟨ramp, hramp, hmem⟩
    · cases (link_of_mem_outgoingSlurWarnings hmem).symm.trans hkind
    · cases (link_of_mem_tieWarnings hmem).1.symm.trans hkind
    · rw [outgoing_rampWarnings] at hmem
      split at hmem
      case isTrue hopen =>
        simp only [Bool.and_eq_true, Option.isNone_iff_eq_none] at hopen
        simp [h ramp hramp hopen.1] at hopen
      case isFalse => cases hmem

/-- No ramp that comes into a line is warned about exactly if the one before meets them all. -/
theorem ingoing_ne_ramp_iff :
    (∀ warning ∈ ingoing (linkWarnings (some left) right next), warning.link ≠ .ramp) ↔
      ∀ ramp ∈ right.ramps, ramp.start = none → left.hasOutgoingRamp ramp.direction = true := by
  rw [ingoing_linkWarnings]
  constructor
  · intro h ramp hmem hstart
    refine (Bool.eq_false_or_eq_true _).resolve_right fun hunmet => ?_
    have hwarned : right.warningAt .ramp true (ramp.stop.getD 0) ∈
        ingoing (right.rampWarnings (some left) none ramp) := by
      rw [ingoing_rampWarnings]
      simp [hstart, hunmet]
    exact h _ (List.mem_append_right _ (List.mem_flatMap.2 ⟨ramp, hmem, hwarned⟩)) rfl
  · intro h warning hmem hkind
    simp only [List.mem_append, List.mem_flatMap] at hmem
    rcases hmem with hmem | ⟨ramp, hramp, hmem⟩
    · cases (link_of_mem_incomingSlurWarnings hmem).symm.trans hkind
    · rw [ingoing_rampWarnings] at hmem
      split at hmem
      case isTrue hopen =>
        simp only [Bool.and_eq_true, Option.isNone_iff_eq_none] at hopen
        simp [h ramp hramp hopen.1] at hopen
      case isFalse => cases hmem

theorem hasIncomingRamp_iff {direction : RampDirection} :
    line.hasIncomingRamp direction = true ↔
      ∃ ramp ∈ line.ramps, ramp.start = none ∧ ramp.direction = direction := by
  simp [hasIncomingRamp]

theorem hasOutgoingRamp_iff {direction : RampDirection} :
    line.hasOutgoingRamp direction = true ↔
      ∃ ramp ∈ line.ramps, ramp.stop = none ∧ ramp.direction = direction := by
  simp [hasOutgoingRamp]

/-! ### Ties -/

theorem mem_tieWarnings_iff :
    warning ∈ line.tieWarnings next ↔
      ∃ link ∈ line.ties, link.stop = none ∧ ∃ start, link.start = some start ∧
        line.tieContinues next start = false ∧ warning = line.warningAt .tie false start := by
  simp only [tieWarnings, List.mem_filterMap, List.mem_filter, Option.isNone_iff_eq_none]
  constructor
  · rintro ⟨start, ⟨link, ⟨hlink, hstop⟩, hstart⟩, hwarned⟩
    split at hwarned
    · cases hwarned
    case isFalse hunmet =>
      cases hwarned
      exact ⟨link, hlink, hstop, start, hstart, by simpa using hunmet, rfl⟩
  · rintro ⟨link, hlink, hstop, start, hstart, hunmet, rfl⟩
    exact ⟨start, ⟨link, ⟨hlink, hstop⟩, hstart⟩, by simp [hunmet]⟩

theorem mem_tiesOf_iff {slots : List Slot} {link : Link} :
    link ∈ Shorthand.tiesOf slots ↔
      ∃ (index : Nat) (slot : Slot), slots[index]? = some slot ∧ slot.tied = true ∧
        link = ⟨some index, if index + 1 < slots.length then some (index + 1) else none⟩ := by
  simp only [Shorthand.tiesOf, List.mem_map, List.mem_filter, Prod.exists,
    List.mem_zipIdx_iff_getElem?]
  constructor
  · rintro ⟨slot, index, ⟨hslot, htied⟩, rfl⟩
    exact ⟨index, slot, hslot, htied, rfl⟩
  · rintro ⟨index, slot, hslot, htied, rfl⟩
    exact ⟨slot, index, ⟨hslot, htied⟩, rfl⟩

/-- A tie that leaves the bar is that of the last slot. -/
theorem mem_tiesOf_stop_none_iff {slots : List Slot} {link : Link} :
    (link ∈ Shorthand.tiesOf slots ∧ link.stop = none) ↔
      ∃ last, slots.getLast? = some last ∧ last.tied = true ∧
        link = ⟨some (slots.length - 1), none⟩ := by
  rw [mem_tiesOf_iff, List.getLast?_eq_getElem?]
  constructor
  · rintro ⟨⟨index, slot, hslot, htied, rfl⟩, hstop⟩
    have hlt := (List.getElem?_eq_some_iff.1 hslot).1
    have hend : ¬index + 1 < slots.length := fun hinside => by simp [hinside] at hstop
    have hindex : index = slots.length - 1 := by omega
    subst hindex
    exact ⟨slot, hslot, htied, by rw [if_neg hend]⟩
  · rintro ⟨last, hlast, htied, rfl⟩
    have hend : ¬slots.length - 1 + 1 < slots.length := by omega
    exact ⟨⟨slots.length - 1, last, hlast, htied, by rw [if_neg hend]⟩, rfl⟩

/-- With the ties its slots ask for, the first line ties in exactly where its last tie goes on. -/
theorem tiedIn_eq_tieContinues {last : Slot} (hties : left.ties = Shorthand.tiesOf left.slots)
    (hlast : left.slots.getLast? = some last) (htied : last.tied = true) :
    tiedIn (some left) right = left.tieContinues (some right) (left.slots.length - 1) := by
  have hopen : (left.ties.any fun tie => tie.stop.isNone) = true := by
    obtain ⟨hmem, -⟩ := mem_tiesOf_stop_none_iff.2 ⟨last, hlast, htied, rfl⟩
    rw [hties]
    exact List.any_eq_true.2 ⟨_, hmem, rfl⟩
  have hat : left.slots[left.slots.length - 1]? = some last := by
    rw [← List.getLast?_eq_getElem?, hlast]
  simp only [tiedIn, tieContinues, hlast, hat, hopen, Option.bind_some, Bool.true_and]

/-- The sides agree if each line leaves at most one ramp open and the ties are those of the
slots. -/
theorem sidesAgree (hties : left.ties = Shorthand.tiesOf left.slots)
    (hleft : ∀ ramp ∈ left.ramps, ramp.stop = none → left.ramps.getLast? = some ramp)
    (hright : ∀ ramp ∈ right.ramps, ramp.start = none → right.ramps.head? = some ramp) :
    left.SidesAgree right := by
  refine ⟨fun previous next => ?_, fun previous next => ?_, fun previous => ?_,
    fun previous other => ?_, fun next other => ?_⟩
  · rw [countP_slur_outgoing, countP_slur_ingoing]
    omega
  · rw [outgoing_ne_ramp_iff, ingoing_ne_ramp_iff]
    constructor
    · rintro ⟨⟨ramp, hramp, hstop⟩, hmet⟩
      obtain ⟨other, hother, hstart, hsame⟩ := hasIncomingRamp_iff.1 (hmet ramp hramp hstop)
      refine ⟨⟨other, hother, hstart⟩, fun third hthird hthirdStart => ?_⟩
      -- only one ramp comes in, so it is the one that was met
      cases (hright other hother hstart).symm.trans (hright third hthird hthirdStart)
      exact hasOutgoingRamp_iff.2 ⟨ramp, hramp, hstop, hsame.symm⟩
    · rintro ⟨⟨ramp, hramp, hstart⟩, hmet⟩
      obtain ⟨other, hother, hstop, hsame⟩ := hasOutgoingRamp_iff.1 (hmet ramp hramp hstart)
      refine ⟨⟨other, hother, hstop⟩, fun third hthird hthirdStop => ?_⟩
      cases (hleft other hother hstop).symm.trans (hleft third hthird hthirdStop)
      exact hasIncomingRamp_iff.2 ⟨ramp, hramp, hstart, hsame.symm⟩
  · rw [outgoing_linkWarnings]
    constructor
    · rintro ⟨warning, hmem, hkind, -⟩
      simp only [List.mem_append] at hmem
      rcases hmem with (hmem | hmem) | hmem
      · cases (link_of_mem_outgoingSlurWarnings hmem).symm.trans hkind
      · obtain ⟨link, hlink, hstop, start, hstart, hunmet, rfl⟩ := mem_tieWarnings_iff.1 hmem
        rw [hties] at hlink
        obtain ⟨last, hlast, htied, rfl⟩ := mem_tiesOf_stop_none_iff.1 ⟨hlink, hstop⟩
        cases hstart
        exact ⟨⟨last, hlast, htied⟩, (tiedIn_eq_tieContinues hties hlast htied).trans hunmet⟩
      · cases (link_of_mem_outgoing_ramps hmem).symm.trans hkind
    · rintro ⟨⟨last, hlast, htied⟩, hnone⟩
      obtain ⟨hmem, hstop⟩ := mem_tiesOf_stop_none_iff.2 ⟨last, hlast, htied, rfl⟩
      rw [tiedIn_eq_tieContinues hties hlast htied] at hnone
      have hwarned := mem_tieWarnings_iff.2
        ⟨_, hties ▸ hmem, hstop, left.slots.length - 1, rfl, hnone, rfl⟩
      refine ⟨_, List.mem_append_left _ (List.mem_append_right _ hwarned), rfl, ?_⟩
      have hne : left.slots ≠ [] := by
        rintro hnil
        simp [hnil] at hlast
      have hpos := List.length_pos_iff.2 hne
      exact Nat.sub_add_cancel hpos
  · rw [outgoing_linkWarnings, outgoing_linkWarnings]
  · rw [ingoing_linkWarnings, ingoing_linkWarnings]

end Line

namespace Shorthand

variable {text first second : String} {instrument other : Instrument} {prior earlier : Carry}
  {frame context : Frame} {written left right : WrittenLine}

/-- Ties look at nothing but whether slots are tied. -/
theorem tiesOf_congr {slots others : List Slot}
    (h : slots.map Slot.tied = others.map Slot.tied) : tiesOf slots = tiesOf others := by
  have hlength : slots.length = others.length := by simpa using congrArg List.length h
  have hties (slots : List Slot) : tiesOf slots =
      ((slots.map Slot.tied).zipIdx.filter (·.1)).map fun (_, index) =>
        ⟨some index, if index + 1 < slots.length then some (index + 1) else none⟩ := by
    rw [tiesOf, List.zipIdx_map, List.filter_map, List.map_map]
    rfl
  rw [hties, hties, h, hlength]

/-- The ties of a line that is read are those its slots ask for. -/
theorem ties_of_readLine (h : readLine text instrument prior frame = .ok written) :
    written.line.ties = tiesOf written.line.slots := by
  obtain ⟨tokens, -, hbuild⟩ := readLine_eq_ok.1 h
  obtain ⟨groups, draft, -, -, finished⟩ := exists_finished_of_buildLine hbuild
  cases finished with
  | rest => rfl
  | slots => exact tiesOf_congr (map_setLoudness Slot.tied (fun _ _ _ => rfl) _ _ _).symm

/-- Of the ramps of a line that is read only the first may come in and only the last go on. -/
theorem openRamps_of_readLine (h : readLine text instrument prior frame = .ok written) :
    (∀ ramp ∈ written.line.ramps, ramp.stop = none →
        written.line.ramps.getLast? = some ramp) ∧
      ∀ ramp ∈ written.line.ramps, ramp.start = none → written.line.ramps.head? = some ramp := by
  by_cases hslot : writesSlot text
  · have hchained := (linked_of_readLine hslot h).2
    constructor
    · intro ramp hmem hstop
      obtain ⟨index, hindex⟩ := List.mem_iff_getElem?.1 hmem
      obtain ⟨hlast, -⟩ := hchained.endless index ramp hindex hstop
      rw [List.getLast?_eq_getElem?, ← hlast, Nat.add_sub_cancel, hindex]
    · intro ramp hmem hstart
      obtain ⟨index, hindex⟩ := List.mem_iff_getElem?.1 hmem
      obtain ⟨rfl, -⟩ := hchained.startless index ramp hindex hstart
      rw [List.head?_eq_getElem?, hindex]
  · -- without a slot the line is a full rest
    obtain ⟨tokens, htokens, hbuild⟩ := readLine_eq_ok.1 h
    obtain ⟨groups, draft, -, built, finished⟩ := exists_finished_of_buildLine hbuild
    cases finished with
    | rest => exact ⟨nofun, nofun⟩
    | slots closed nonempty =>
      exact absurd ((built.slots_ne_nil_iff htokens).1 nonempty) hslot

/-- Whatever two lines were read from, the warnings on the two sides of a bar line between them
agree. -/
theorem sidesAgree_of_readLine (hleft : readLine first instrument prior frame = .ok left)
    (hright : readLine second other earlier context = .ok right) :
    left.line.SidesAgree right.line :=
  Line.sidesAgree (ties_of_readLine hleft) (openRamps_of_readLine hleft).1
    (openRamps_of_readLine hright).2

/-- Two slurs and a crescendo leave the first bar, and one slur and a diminuendo come into the
second: one slur and neither ramp are met. -/
theorem sidesAgree_crossed_ramps :
    ∃ left right,
      readLine "c2( d(~\\<" (.named "flute") .initial ⟨.common, .moderate⟩ = .ok left ∧
        readLine "d2) e\\!" (.named "oboe")
            { Carry.initial with openSlurs := 1, openRamp := some .diminuendo }
            ⟨.common, .moderate⟩ = .ok right ∧
          left.line.slurs = [⟨some 0, none⟩, ⟨some 1, none⟩] ∧
          right.line.slurs = [⟨none, some 0⟩] ∧
          (left.line.ramps.map Ramp.direction, right.line.ramps.map Ramp.direction) =
            ([.crescendo], [.diminuendo]) ∧
          left.line.SidesAgree right.line := by
  have hleft : (readLine "c2( d(~\\<" (.named "flute") .initial
      ⟨.common, .moderate⟩).toOption.map
        (fun written => (written.line.slurs, written.line.ramps.map Ramp.direction)) =
      some ([⟨some 0, none⟩, ⟨some 1, none⟩], [.crescendo]) := by
    decide +kernel
  have hright : (readLine "d2) e\\!" (.named "oboe")
      { Carry.initial with openSlurs := 1, openRamp := some .diminuendo }
      ⟨.common, .moderate⟩).toOption.map
        (fun written => (written.line.slurs, written.line.ramps.map Ramp.direction)) =
      some ([⟨none, some 0⟩], [.diminuendo]) := by
    decide +kernel
  obtain ⟨left, hread, heq⟩ := Option.map_eq_some_iff.1 hleft
  obtain ⟨right, hreadRight, heqRight⟩ := Option.map_eq_some_iff.1 hright
  rw [toOption_eq_some_iff] at hread hreadRight
  obtain ⟨hslurs, hramps⟩ := Prod.mk.injEq .. ▸ heq
  obtain ⟨hslursRight, hrampsRight⟩ := Prod.mk.injEq .. ▸ heqRight
  refine ⟨left, right, hread, hreadRight, hslurs, hslursRight, ?_,
    sidesAgree_of_readLine hread hreadRight⟩
  rw [hramps, hrampsRight]

end Shorthand

end Stave
