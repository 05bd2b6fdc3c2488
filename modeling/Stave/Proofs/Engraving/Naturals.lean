import Mathlib.Data.List.Induction
import Stave.Proofs.Engraving.Complete
import Stave.Proofs.WrittenLine.Drawn

/-!
# Naturals that the bar before makes necessary

A pitch that was written without an accidental shows nothing on its own account. If another pitch
of its staff position comes before it in the bar it sounds as that one does. If it is the first of
its position it is natural, and it is left to the layout to look at the bar drawn to the left: a
natural sign is drawn if, and only if, the last pitch of the position there was altered. The table
a bar hands on says just that, so the signs of a bar can be told from the pitches of the two bars.
-/
namespace Stave

/-- The pitch of a head of a line. -/
def Line.head? (line : Line) (slot head : Nat) : Option Pitch :=
  line.slots[slot]?.bind (·.pitches[head]?)

/-- The pitches before a head of a line, slots from left to right and heads as written. -/
def Line.pitchesBefore (line : Line) (slot head : Nat) : List Pitch :=
  (line.slots.take slot).flatMap Slot.pitches ++
    (line.slots[slot]?.toList.flatMap Slot.pitches).take head

/-- The last pitch of a line at a staff position. -/
def Line.lastAt? (line : Line) (key : StaffKey) : Option Pitch :=
  line.pitches.reverse.find? (·.key = key)

/-- A head has no other of its staff position before it, and the last pitch of the position in the
bar to the left is altered. -/
def Line.Cancels (line left : Line) (slot head : Nat) (pitch : Pitch) : Prop :=
  (∀ earlier ∈ line.pitchesBefore slot head, earlier.key ≠ pitch.key) ∧
    ∃ last ∈ left.lastAt? pitch.key, last.alteration ≠ 0

instance (line left : Line) (slot head : Nat) (pitch : Pitch) :
    Decidable (line.Cancels left slot head pitch) :=
  inferInstanceAs (Decidable (_ ∧ _))

namespace Engraving

/-- There is a sign in front of a head. -/
def Layout.HasSign (layout : Layout) (slot head : Nat) : Prop :=
  ∃ sign ∈ layout.accidentals, sign.slot = slot ∧ sign.head = head

/-- The signs of the heads of a line that were written without an accidental. -/
structure NaturalsFollow (line left : Line) (config : Config) (meter : Meter) (tiedIn : Bool) :
    Prop where
  /-- Next to another bar a head has one just if it cancels what that bar ends with. -/
  cancel : line.rhythm = false → ∀ slot head pitch, line.head? slot head = some pitch →
    pitch.mark = .bare →
      ((Layout.of config line meter ⟨some left.finalAlterations, tiedIn⟩).HasSign slot head ↔
        line.Cancels left slot head pitch)
  /-- It is a natural sign. -/
  natural : ∀ sign ∈ (Layout.of config line meter ⟨some left.finalAlterations, tiedIn⟩).accidentals,
    ∀ pitch, line.head? sign.slot sign.head = some pitch → pitch.mark = .bare →
      sign.glyph = .natural
  /-- With no bar to the left there is none. -/
  alone : ∀ slot head pitch, line.head? slot head = some pitch → pitch.mark = .bare →
    ¬ (Layout.of config line meter ⟨none, tiedIn⟩).HasSign slot head

end Engraving

variable {line left : Line} {slot head : Nat} {pitch : Pitch} {previous : Option Alterations}

/-! ## What a bar ends with -/

/-- The table a line hands on has the alteration of the last pitch of every staff position. -/
theorem Line.get?_finalAlterations (line : Line) (key : StaffKey) :
    line.finalAlterations.get? key = (line.lastAt? key).map Pitch.alteration := by
  unfold finalAlterations lastAt?
  induction line.pitches using List.reverseRecOn with
  | nil => rfl
  | append_singleton pitches pitch ih =>
    rw [List.map_append, List.map_singleton, Table.ofList_concat, Table.get?_insert, ih,
      List.reverse_append, List.reverse_singleton, List.singleton_append, List.find?_cons]
    by_cases hkey : pitch.key = key
    · simp [hkey]
    · simp [hkey, Ne.symm hkey]

/-! ## What a bare pitch shows -/

/-- A pitch that was written without an accidental is hidden after another one of its staff
position, and is natural and waits for the layout as the first of it. -/
def Pitch.ShowsAfter (before : List Pitch) (pitch : Pitch) : Prop :=
  (pitch.display = .hidden ∧ ∃ earlier ∈ before, earlier.key = pitch.key) ∨
    (pitch.display = .deferred ∧ pitch.alteration = 0 ∧
      ∀ earlier ∈ before, earlier.key ≠ pitch.key)

/-- The staff positions of a table are those of the pitches before it. -/
def TableSeen (before : List Pitch) (standing : Alterations) : Prop :=
  ∀ key, (standing.get? key).isSome ↔ ∃ earlier ∈ before, earlier.key = key

variable {standing : Alterations} {before pitches : List Pitch} {transposition : Int}

theorem TableSeen.concat (h : TableSeen before standing) (pitch : Pitch) (alteration : Int) :
    TableSeen (before ++ [pitch]) (standing.insert pitch.key alteration) := by
  intro key
  rw [Table.get?_insert]
  simp only [List.mem_append, List.mem_singleton, or_and_right, exists_or, exists_eq_left, ← h key]
  by_cases hkey : key = pitch.key
  · simp [hkey]
  · simp [hkey, Ne.symm hkey]

theorem Pitch.showsAfter_resolved (h : TableSeen before standing)
    (natural : pitch.mark = .bare → pitch.alteration = 0)
    (bare : (pitch.resolved transposition (standing.get? pitch.key)).mark = .bare) :
    (pitch.resolved transposition (standing.get? pitch.key)).ShowsAfter before := by
  have hmark : pitch.mark = .bare := by rwa [mark_resolved] at bare
  have hseen := h pitch.key
  unfold ShowsAfter
  rw [key_resolved]
  cases hstanding : standing.get? pitch.key with
  | none =>
    rw [hstanding] at hseen
    refine .inr ⟨by simp [resolved, hmark, transposed], ?_, fun earlier hmem heq => ?_⟩
    · simpa [resolved, hmark, transposed] using natural hmark
    · exact Bool.false_ne_true (hseen.2 ⟨earlier, hmem, heq⟩)
  | some alteration =>
    rw [hstanding] at hseen
    exact .inl ⟨by simp [resolved, hmark, transposed], hseen.1 rfl⟩

/-- Pitches that are resolved in order show what those before them leave to show. -/
theorem showsAfter_of_resolvePitches (h : TableSeen before standing)
    (natural : ∀ pitch ∈ pitches, pitch.mark = .bare → pitch.alteration = 0)
    {first rest : List Pitch}
    (hsplit : (resolvePitches transposition standing pitches).1 = first ++ pitch :: rest)
    (bare : pitch.mark = .bare) : pitch.ShowsAfter (before ++ first) := by
  induction pitches generalizing standing before first with
  | nil => simp [resolvePitches] at hsplit
  | cons written pitches ih =>
    obtain ⟨hwritten, hothers⟩ := List.forall_mem_cons.1 natural
    cases first with
    | nil =>
      obtain ⟨rfl, -⟩ := List.cons.inj hsplit
      rw [List.append_nil]
      exact Pitch.showsAfter_resolved h hwritten bare
    | cons settled first =>
      obtain ⟨rfl, hrest⟩ := List.cons.inj hsplit
      have hshows := ih (h.concat _ _) hothers hrest
      rwa [List.append_assoc before, List.singleton_append] at hshows

/-- The pitches of a line up to a head, the head and the pitches after it. -/
theorem Line.exists_pitches_eq (h : line.head? slot head = some pitch) :
    ∃ rest, line.pitches = line.pitchesBefore slot head ++ pitch :: rest := by
  obtain ⟨found, hslot, hpitch⟩ := Option.bind_eq_some_iff.1 h
  have hslots : line.slots = line.slots.take slot ++ found :: line.slots.drop (slot + 1) := by
    obtain ⟨hlt, rfl⟩ := List.getElem?_eq_some_iff.1 hslot
    rw [List.getElem_cons_drop, List.take_append_drop]
  have hpitches : found.pitches =
      found.pitches.take head ++ pitch :: found.pitches.drop (head + 1) := by
    obtain ⟨hlt, rfl⟩ := List.getElem?_eq_some_iff.1 hpitch
    rw [List.getElem_cons_drop, List.take_append_drop]
  refine ⟨found.pitches.drop (head + 1) ++ (line.slots.drop (slot + 1)).flatMap Slot.pitches, ?_⟩
  conv_lhs => rw [pitches, hslots, List.flatMap_append, List.flatMap_cons, hpitches]
  simp [pitchesBefore, hslot]

namespace Engraving

variable {config : Config} {meter : Meter} {context : Context}

/-! ## What is drawn -/

/-- The signs of a layout are the glyphs of the pitches of its line. -/
theorem exists_sign_iff (anchored : line.Anchored) {glyph : AccidentalGlyph} :
    (∃ sign ∈ (Layout.of config line meter context).accidentals,
      sign.place = (slot, head, glyph)) ↔
        ∃ pitch, line.head? slot head = some pitch ∧
          line.glyphOf? context.previousFinals pitch = some glyph := by
  have hperm := (complete_of_anchored anchored config meter context).signs
  rw [← List.mem_map, hperm.mem_iff, Line.mem_listed]
  simp only [Line.mem_glyphs, Line.head?, Option.bind_eq_some_iff]
  constructor
  · rintro ⟨found, hslot, pitch, hpitch, hglyph⟩
    exact ⟨pitch, ⟨found, hslot, hpitch⟩, hglyph⟩
  · rintro ⟨pitch, ⟨found, hslot, hpitch⟩, hglyph⟩
    exact ⟨found, hslot, pitch, hpitch, hglyph⟩

theorem hasSign_iff (anchored : line.Anchored) (hhead : line.head? slot head = some pitch) :
    (Layout.of config line meter context).HasSign slot head ↔
      ∃ glyph, line.glyphOf? context.previousFinals pitch = some glyph := by
  constructor
  · rintro ⟨sign, hmem, rfl, rfl⟩
    obtain ⟨other, hother, hglyph⟩ := (exists_sign_iff anchored).1 ⟨sign, hmem, rfl⟩
    cases hhead.symm.trans hother
    exact ⟨sign.glyph, hglyph⟩
  · rintro ⟨glyph, hglyph⟩
    obtain ⟨sign, hmem, hplace⟩ := (exists_sign_iff anchored).2 ⟨pitch, hhead, hglyph⟩
    obtain ⟨hslot, hrest⟩ := Prod.mk.injEq .. ▸ hplace
    exact ⟨sign, hmem, hslot, (Prod.mk.inj hrest).1⟩

/-- A bare pitch has a glyph if it is the first of its position and the last pitch of it in the
bar to the left is altered, and the glyph is a natural sign. -/
theorem glyphOf?_of_showsAfter (shows : pitch.ShowsAfter before) (glyph : AccidentalGlyph) :
    line.glyphOf? previous pitch = some glyph ↔
      line.rhythm = false ∧ glyph = .natural ∧ (∀ earlier ∈ before, earlier.key ≠ pitch.key) ∧
        ∃ alteration, previous.bind (·.get? pitch.key) = some alteration ∧ alteration ≠ 0 := by
  unfold Line.glyphOf? Pitch.settledDisplay
  rcases shows with ⟨hdisplay, earlier, hmem, hkey⟩ | ⟨hdisplay, hnatural, hfirst⟩
  · have hseen : ¬ ∀ earlier ∈ before, earlier.key ≠ pitch.key := fun h => h earlier hmem hkey
    simp [hdisplay, hseen]
  · rw [hdisplay, hnatural]
    cases line.rhythm with
    | true => simp
    | false =>
      cases previous.bind (·.get? pitch.key) with
      | none => simp
      | some alteration =>
        by_cases hzero : alteration = 0
        · simp [hzero]
        · simpa [hzero, AccidentalGlyph.ofAlteration, and_iff_left hfirst] using eq_comm

end Engraving

namespace Shorthand

open Engraving

variable {text : String} {instrument : Instrument} {prior : Carry} {frame : Frame}
  {tokens : List Token} {written : WrittenLine}

theorem showsAfter_of_readLine (h : readLine text instrument prior frame = .ok written)
    (hhead : written.line.head? slot head = some pitch) (bare : pitch.mark = .bare) :
    pitch.ShowsAfter (written.line.pitchesBefore slot head) := by
  obtain ⟨tokens, htokens, hbuild⟩ := readLine_eq_ok.1 h
  have readAll := allRead_of_readTokens htokens
  obtain ⟨rest, hpitches⟩ := Line.exists_pitches_eq hhead
  rw [pitches_of_buildLine readAll hbuild] at hpitches
  have hstart : TableSeen [] .empty := fun key => by simp
  exact showsAfter_of_resolvePitches hstart readAll.alteration_eq_zero hpitches bare

/-- **The naturals of a bar follow the bar before.** In every line that is read, a head without an
accidental of its own has a sign just if it is the first of its staff position and the last pitch
of the position in the bar to the left is altered, and then a natural sign. -/
theorem naturalsFollow_of_readLine (left : Line)
    (h : readLine text instrument prior frame = .ok written) (config : Config) (meter : Meter)
    (tiedIn : Bool) : NaturalsFollow written.line left config meter tiedIn := by
  have anchored := anchored_of_readLine h
  refine ⟨fun pitched slot head pitch hhead bare => ?_, fun sign hmem pitch hhead bare => ?_,
    fun slot head pitch hhead bare hsign => ?_⟩
  all_goals have hshows := showsAfter_of_readLine h hhead bare
  · rw [hasSign_iff anchored hhead]
    simp [glyphOf?_of_showsAfter hshows, Line.get?_finalAlterations, Line.Cancels, pitched]
  · obtain ⟨other, hother, hglyph⟩ := (exists_sign_iff anchored).1 ⟨sign, hmem, rfl⟩
    cases hhead.symm.trans hother
    exact ((glyphOf?_of_showsAfter hshows _).1 hglyph).2.1
  · obtain ⟨glyph, hglyph⟩ := (hasSign_iff anchored hhead).1 hsign
    obtain ⟨-, -, -, alteration, hstanding, -⟩ := (glyphOf?_of_showsAfter hshows _).1 hglyph
    cases hstanding

/-- A chord with one position that the bar before altered and one that it made natural again, and
another altered position that is written twice. -/
theorem naturalsFollow_chord :
    ∃ left written, ∃ layout : Layout,
      readLine "<fis gis'>4 bes' g'! fis" (.named "flute") .initial ⟨.common, .moderate⟩ =
          .ok left ∧
        readLine "<f g'>4 b'8 f b'4 fis" (.named "flute") .initial ⟨.common, .moderate⟩ =
          .ok written ∧
        Layout.of .default written.line .common ⟨some left.line.finalAlterations, false⟩ =
          layout ∧
        (layout.HasSign 0 0 ∧ ¬ layout.HasSign 0 1 ∧ layout.HasSign 1 0 ∧
          ¬ layout.HasSign 3 0) ∧
        NaturalsFollow written.line left.line .default .common false := by
  have hparts : ((readLine "<fis gis'>4 bes' g'! fis" (.named "flute") .initial
      ⟨.common, .moderate⟩).toOption.bind fun left =>
        (readLine "<f g'>4 b'8 f b'4 fis" (.named "flute") .initial
          ⟨.common, .moderate⟩).toOption.map fun written =>
            (written.line.rhythm, [(0, 0), (0, 1), (1, 0), (3, 0)].map fun place =>
              (written.line.head? place.1 place.2).map fun pitch =>
                (pitch.mark,
                  decide (written.line.Cancels left.line place.1 place.2 pitch)))) =
      some (false,
        [some (.bare, true), some (.bare, false), some (.bare, true), some (.bare, false)]) := by
    decide +kernel
  obtain ⟨left, hleft, hright⟩ := Option.bind_eq_some_iff.1 hparts
  obtain ⟨written, hread, heq⟩ := Option.map_eq_some_iff.1 hright
  obtain ⟨pitched, hheads⟩ := Prod.mk.injEq .. ▸ heq
  have h := toOption_eq_some_iff.1 hread
  have hfollow := naturalsFollow_of_readLine left.line h .default .common false
  have hsign {slot head : Nat} {cancels : Bool}
      (hhead : ((written.line.head? slot head).map fun pitch =>
        (pitch.mark, decide (written.line.Cancels left.line slot head pitch))) =
          some (.bare, cancels)) :
      (Layout.of .default written.line .common
        ⟨some left.line.finalAlterations, false⟩).HasSign slot head ↔ cancels = true := by
    obtain ⟨pitch, hpitch, heq⟩ := Option.map_eq_some_iff.1 hhead
    obtain ⟨bare, hcancels⟩ := Prod.mk.injEq .. ▸ heq
    rw [hfollow.cancel pitched slot head pitch hpitch bare, ← hcancels, decide_eq_true_iff]
  simp only [List.map_cons, List.map_nil, List.cons.injEq] at hheads
  obtain ⟨hfirst, hmade, hsecond, hagain, -⟩ := hheads
  exact ⟨left, written, _, toOption_eq_some_iff.1 hleft, h, rfl,
    ⟨(hsign hfirst).2 rfl, fun hnot => Bool.false_ne_true ((hsign hmade).1 hnot),
      (hsign hsecond).2 rfl, fun hnot => Bool.false_ne_true ((hsign hagain).1 hnot)⟩, hfollow⟩

end Shorthand

end Stave
