import Stave.Proofs.WrittenLine.Ramps
import Stave.Score.LinkWarning

/-!
# Lines read in turn

A part is read bar by bar, each from what the one before leaves. What is left open is then
kept twice: as a count of slurs and the direction of a ramp in what a bar leaves, and as links
without an end in its line. The two agree, so between two lines read in turn every slur and
every ramp that leaves the first is met in the second, and nothing else comes in there.
-/
namespace Stave

namespace Line

variable {line next previous : Line} {warning : LinkWarning}

theorem incoming_of_mem_outgoingSlurWarnings {next : Option Line}
    (h : warning ∈ line.outgoingSlurWarnings next) : warning.incoming = false := by
  obtain ⟨slur, -, rfl⟩ := List.mem_map.1 h
  rfl

theorem incoming_of_mem_incomingSlurWarnings {previous : Option Line}
    (h : warning ∈ line.incomingSlurWarnings previous) : warning.incoming = true := by
  obtain ⟨slur, -, rfl⟩ := List.mem_map.1 h
  rfl

theorem link_of_mem_tieWarnings {next : Option Line} (h : warning ∈ line.tieWarnings next) :
    warning.link = .tie ∧ warning.incoming = false := by
  obtain ⟨start, -, hstart⟩ := List.mem_filterMap.1 h
  split at hstart
  · cases hstart
  · cases hstart
    exact ⟨rfl, rfl⟩

/-- A slur that goes on is not warned about if the next bar takes as many. -/
theorem outgoingSlurWarnings_eq_nil
    (h : line.outgoingSlurs.length ≤ next.incomingSlurs.length) :
    line.outgoingSlurWarnings (some next) = [] := by
  simp [outgoingSlurWarnings, Nat.sub_eq_zero_of_le h]

/-- A slur that comes in is not warned about if the bar before leaves as many. -/
theorem incomingSlurWarnings_eq_nil
    (h : line.incomingSlurs.length ≤ previous.outgoingSlurs.length) :
    line.incomingSlurWarnings (some previous) = [] := by
  simp [incomingSlurWarnings, List.drop_eq_nil_of_le h]

/-- A ramp is warned about at the side where it is open and not met. -/
theorem mem_rampWarnings {previous next : Option Line} {ramp : Ramp}
    (h : warning ∈ line.rampWarnings previous next ramp) :
    (warning.incoming = false ∧ ramp.stop = none ∧
        (next.map (·.hasIncomingRamp ramp.direction)).getD false = false) ∨
      (warning.incoming = true ∧ ramp.start = none ∧
        (previous.map (·.hasOutgoingRamp ramp.direction)).getD false = false) := by
  simp only [rampWarnings, List.mem_append] at h
  rcases h with h | h
  · split at h
    case isTrue hopen =>
      rw [List.mem_singleton.1 h]
      exact .inl ⟨rfl, by simpa using hopen⟩
    case isFalse => cases h
  · split at h
    case isTrue hopen =>
      rw [List.mem_singleton.1 h]
      exact .inr ⟨rfl, by simpa using hopen⟩
    case isFalse => cases h

/-- Between two neighbouring lines every slur and every ramp is met: whatever stands on their
other sides, a warning of the first for a slur or ramp is for one that comes in from its
left, and a warning of the second for one that goes on to its right. -/
structure LinksMet (left right : Line) : Prop where
  outgoing : ∀ previous, ∀ warning ∈ linkWarnings previous left (some right),
    warning.link ≠ .tie → warning.incoming = true
  incoming : ∀ next, ∀ warning ∈ linkWarnings (some left) right next,
    warning.link ≠ .tie → warning.incoming = false

/-- Slurs and ramps are met if the second line starts from what the first one leaves. -/
theorem linksMet {left right : Line} {prior : Carry} {count : Nat}
    (hleft : left.SlursConsistent count) (hright : right.SlursConsistent left.closing.openSlurs)
    (hbefore : left.RampsChained prior) (hafter : right.RampsChained left.closing) :
    left.LinksMet right := by
  have hslurs : left.outgoingSlurs.length = right.incomingSlurs.length := by
    rw [outgoingSlurs, incomingSlurs, ← List.countP_eq_length_filter,
      ← List.countP_eq_length_filter, hleft.outgoing, hright.incoming]
  constructor
  · intro previous warning hmem hkind
    simp only [linkWarnings, outgoingSlurWarnings_eq_nil (Nat.le_of_eq hslurs), List.nil_append,
      List.mem_append, List.mem_flatMap] at hmem
    rcases hmem with (hmem | hmem) | ⟨ramp, hramp, hmem⟩
    · exact incoming_of_mem_incomingSlurWarnings hmem
    · exact absurd (link_of_mem_tieWarnings hmem).1 hkind
    · rcases mem_rampWarnings hmem with ⟨-, hstop, hunmet⟩ | ⟨hincoming, -⟩
      · -- the ramp that goes on is the one the bar leaves open, with which the next begins
        obtain ⟨index, hindex⟩ := List.mem_iff_getElem?.1 hramp
        obtain ⟨hlast, hopen⟩ := hbefore.endless index ramp hindex hstop
        obtain ⟨direction, hdirection⟩ := Option.ne_none_iff_exists'.1 hopen
        obtain ⟨other, hother, -, rfl⟩ := hbefore.goesOn direction hdirection
        rw [List.getLast?_eq_getElem?, ← hlast, Nat.add_sub_cancel, hindex] at hother
        cases hother
        obtain ⟨met, hmet, hstart, hsame, -⟩ := hafter.comesIn _ hdirection
        have hhas : right.hasIncomingRamp ramp.direction = true :=
          List.any_eq_true.2 ⟨met, List.mem_of_head? hmet, by simp [hstart, hsame]⟩
        simp [hhas] at hunmet
      · exact hincoming
  · intro next warning hmem hkind
    simp only [linkWarnings, incomingSlurWarnings_eq_nil (Nat.le_of_eq hslurs.symm),
      List.append_nil, List.mem_append, List.mem_flatMap] at hmem
    rcases hmem with (hmem | hmem) | ⟨ramp, hramp, hmem⟩
    · exact incoming_of_mem_outgoingSlurWarnings hmem
    · exact absurd (link_of_mem_tieWarnings hmem).1 hkind
    · rcases mem_rampWarnings hmem with ⟨hincoming, -⟩ | ⟨-, hstart, hunmet⟩
      · exact hincoming
      · -- the ramp that comes in is the one the bar before left open, with which it ends
        obtain ⟨index, hindex⟩ := List.mem_iff_getElem?.1 hramp
        obtain ⟨rfl, hopen⟩ := hafter.startless index ramp hindex hstart
        obtain ⟨direction, hdirection⟩ := Option.ne_none_iff_exists'.1 hopen
        obtain ⟨other, hother, -, rfl, -⟩ := hafter.comesIn direction hdirection
        rw [List.head?_eq_getElem?, hindex] at hother
        cases hother
        obtain ⟨met, hmet, hstop, hsame⟩ := hbefore.goesOn _ hdirection
        have hhas : left.hasOutgoingRamp ramp.direction = true :=
          List.any_eq_true.2 ⟨met, List.mem_of_getLast? hmet, by simp [hstop, hsame]⟩
        simp [hhas] at hunmet

end Line

namespace Shorthand

/-- Texts and the lines they are read to, one after the other, each from what the one before
leaves. -/
inductive ReadInTurn (instrument : Instrument) :
    Carry → Frame → List String → List WrittenLine → Prop where
  | nil {prior : Carry} {frame : Frame} : ReadInTurn instrument prior frame [] []
  | cons {prior : Carry} {frame : Frame} {text : String} {texts : List String}
      {written : WrittenLine} {lines : List WrittenLine}
      (first : readLine text instrument prior frame = .ok written)
      (others : ReadInTurn instrument written.line.closing written.frame texts lines) :
      ReadInTurn instrument prior frame (text :: texts) (written :: lines)

variable {text : String} {texts : List String} {instrument : Instrument} {prior : Carry}
  {frame : Frame} {lines before after : List WrittenLine} {left right written : WrittenLine}

/-- The second of two lines that follow one another is read from what the first one leaves. -/
theorem ReadInTurn.exists_pair (h : ReadInTurn instrument prior frame texts lines)
    (hpair : lines = before ++ left :: right :: after) :
    ∃ first ∈ texts, ∃ second ∈ texts, ∃ prior frame,
      readLine first instrument prior frame = .ok left ∧
        readLine second instrument left.line.closing left.frame = .ok right := by
  induction before generalizing prior frame texts lines with
  | nil =>
    subst hpair
    cases h with
    | @cons _ _ text texts _ _ first others =>
      cases others with
      | @cons _ _ second texts _ _ next others =>
        exact ⟨text, List.mem_cons_self, second, List.mem_cons_of_mem _ List.mem_cons_self,
          prior, frame, first, next⟩
  | cons written before ih =>
    subst hpair
    cases h with
    | cons first others =>
      obtain ⟨text, htext, second, hsecond, hpair⟩ := ih others rfl
      exact ⟨text, List.mem_cons_of_mem _ htext, second, List.mem_cons_of_mem _ hsecond, hpair⟩

/-- The slurs of a line with a slot are consistent, and its ramps follow one another. -/
theorem linked_of_readLine (hslot : writesSlot text)
    (h : readLine text instrument prior frame = .ok written) :
    written.line.SlursConsistent prior.openSlurs ∧ written.line.RampsChained prior := by
  obtain ⟨tokens, groups, draft, htokens, hscan, built, heq⟩ := exists_slotLine_of_readLine hslot h
  have readAll := allRead_of_readTokens htokens
  have groupsWithin := built.groupsWithin readAll hscan
  rw [heq]
  exact ⟨built.slursConsistent readAll groupsWithin, built.rampsChained readAll groupsWithin⟩

/-- Of lines read in turn any two neighbours meet each other's slurs and ramps. -/
theorem linksMet_of_readInTurn (hslots : ∀ text ∈ texts, writesSlot text)
    (h : ReadInTurn instrument prior frame texts lines)
    (hpair : lines = before ++ left :: right :: after) : left.line.LinksMet right.line := by
  obtain ⟨first, hfirst, second, hsecond, earlier, context, hleft, hright⟩ := h.exists_pair hpair
  obtain ⟨hslurs, hramps⟩ := linked_of_readLine (hslots first hfirst) hleft
  obtain ⟨hslursRight, hrampsRight⟩ := linked_of_readLine (hslots second hsecond) hright
  exact Line.linksMet hslurs hslursRight hramps hrampsRight

/-- A slur runs through the second of three bars, another is opened there, and a crescendo
goes on from it; between the second and the third bar all of them are met. -/
theorem linksMet_three_bars :
    (∀ text ∈ ["c2( d", "e2\\< f(", "g2)) a\\!"], writesSlot text) ∧
      ∃ first second third,
        ReadInTurn (.named "flute") .initial ⟨.common, .moderate⟩
            ["c2( d", "e2\\< f(", "g2)) a\\!"] [first, second, third] ∧
          second.line.slurs = [⟨some 1, none⟩, ⟨none, none⟩] ∧
          third.line.slurs = [⟨none, some 0⟩, ⟨none, some 0⟩] ∧
          second.line.closing.openRamp = some .crescendo ∧
          second.line.LinksMet third.line := by
  have hslots : ∀ text ∈ ["c2( d", "e2\\< f(", "g2)) a\\!"], writesSlot text := by
    decide +kernel
  have hparts :
      ((do
        let first ← readLine "c2( d" (.named "flute") .initial ⟨.common, .moderate⟩
        let second ← readLine "e2\\< f(" (.named "flute") first.line.closing first.frame
        let third ← readLine "g2)) a\\!" (.named "flute") second.line.closing second.frame
        .ok (first, second, third) :
          Except LineError (WrittenLine × WrittenLine × WrittenLine))).toOption.map
        (fun bars => (bars.2.1.line.slurs, bars.2.2.line.slurs, bars.2.1.line.closing.openRamp)) =
      some ([⟨some 1, none⟩, ⟨none, none⟩], [⟨none, some 0⟩, ⟨none, some 0⟩],
        some .crescendo) := by
    decide +kernel
  obtain ⟨bars, hbars, heq⟩ := Option.map_eq_some_iff.1 hparts
  obtain ⟨first, hfirst, hbars⟩ := bind_ok_iff.1 (toOption_eq_some_iff.1 hbars)
  obtain ⟨second, hsecond, hbars⟩ := bind_ok_iff.1 hbars
  obtain ⟨third, hthird, hbars⟩ := bind_ok_iff.1 hbars
  cases hbars
  simp only [Prod.mk.injEq] at heq
  have hturn : ReadInTurn (.named "flute") .initial ⟨.common, .moderate⟩
      ["c2( d", "e2\\< f(", "g2)) a\\!"] [first, second, third] :=
    .cons hfirst (.cons hsecond (.cons hthird .nil))
  refine ⟨hslots, first, second, third, hturn, heq.1, heq.2.1, heq.2.2, ?_⟩
  have hpair : [first, second, third] = [first] ++ second :: third :: [] := rfl
  exact linksMet_of_readInTurn hslots hturn hpair

end Shorthand

end Stave
