import Stave.Proofs.WrittenLine.Pitches

/-!
# What is drawn determines what sounds

A reader of the page knows nothing of marks and of what stands in the table of a bar. He takes for
every head the last sign in front of a head of its staff position in the bar, up to and including
its own, and plays no alteration where there is none. This is what the pitches of a line sound
like, whatever the bar before left: the table and the signs drawn so far agree at every step. A
pitch that shows nothing is one for which the table has its alteration already, or for which it
has none and nothing was written.
-/
namespace Stave

/-- The sign drawn in front of a head: its staff position and the alteration it gives. -/
def Pitch.drawnSign? (previous : Option Alterations) (pitch : Pitch) : Option (StaffKey × Int) :=
  match pitch.settledDisplay previous with
  | .shown alteration => some (pitch.key, alteration)
  | _ => none

/-- The alteration that the signs of a list of heads leave at a staff position: that of the last
one there, and none if there is no sign. -/
def drawnAlteration (previous : Option Alterations) (pitches : List Pitch) (key : StaffKey) : Int :=
  ((pitches.filterMap (Pitch.drawnSign? previous)).reverse.lookup key).getD 0

/-- Every pitch of a line is altered as what is drawn says, whatever the bar before left at the
staff positions. -/
def Line.SoundsAsDrawn (line : Line) : Prop :=
  ∀ (previous : Option Alterations) (before : List Pitch) (pitch : Pitch) (after : List Pitch),
    line.pitches = before ++ pitch :: after →
      pitch.alteration = drawnAlteration previous (before ++ [pitch]) pitch.key

variable {previous : Option Alterations} {standing : Alterations} {before pitches : List Pitch}
  {pitch : Pitch} {transposition : Int}

theorem drawnAlteration_concat (previous : Option Alterations) (before : List Pitch)
    (pitch : Pitch) (key : StaffKey) :
    drawnAlteration previous (before ++ [pitch]) key =
      match pitch.drawnSign? previous with
      | some (shown, alteration) =>
        if key = shown then alteration else drawnAlteration previous before key
      | none => drawnAlteration previous before key := by
  unfold drawnAlteration
  rw [List.filterMap_append, List.reverse_append]
  cases hsign : pitch.drawnSign? previous with
  | none => simp [hsign]
  | some sign =>
    obtain ⟨shown, alteration⟩ := sign
    by_cases hkey : key = shown
    · subst hkey
      simp [hsign]
    · have hne : (key == shown) = false := beq_eq_false_iff_ne.2 hkey
      simp [hsign, hkey, List.lookup_cons, hne]

theorem Pitch.settledDisplay_of_deferred (h : pitch.display = .deferred)
    (previous : Option Alterations) :
    pitch.settledDisplay previous = .shown pitch.alteration ∨
      pitch.settledDisplay previous = .hidden := by
  unfold settledDisplay
  rw [h]
  dsimp only
  split
  · split
    · exact .inr rfl
    · exact .inl rfl
  · exact .inr rfl

/-- A pitch that has been resolved shows its alteration, or shows nothing because its staff
position has that alteration already. -/
theorem Pitch.drawnSign?_resolved (bare : pitch.mark = .bare → pitch.alteration = 0)
    (previous : Option Alterations) (transposition : Int) (standing : Option Int) :
    (pitch.resolved transposition standing).drawnSign? previous =
        some (pitch.key, (pitch.resolved transposition standing).alteration) ∨
      (pitch.resolved transposition standing).drawnSign? previous = none ∧
        standing.getD 0 = (pitch.resolved transposition standing).alteration := by
  cases hmark : pitch.mark with
  | bare =>
    cases standing with
    | some alteration =>
      exact .inr (by simp [resolved, hmark, drawnSign?, settledDisplay, transposed])
    | none =>
      have hdeferred : (pitch.resolved transposition none).display = .deferred := by
        simp [resolved, hmark, transposed]
      have hnatural : (pitch.resolved transposition none).alteration = 0 := by
        simp [resolved, hmark, transposed, bare hmark]
      unfold drawnSign?
      rw [key_resolved]
      rcases settledDisplay_of_deferred hdeferred previous with hshown | hhidden
      · exact .inl (by rw [hshown])
      · exact .inr ⟨by rw [hhidden], hnatural.symm⟩
  | explicit =>
    by_cases hstanding : standing = some pitch.alteration
    · exact .inr (by simp [resolved, hmark, drawnSign?, settledDisplay, transposed, hstanding])
    · exact .inl (by simp [resolved, hmark, drawnSign?, settledDisplay, transposed, hstanding, key])
  | forced => exact .inl (by simp [resolved, hmark, drawnSign?, settledDisplay, transposed, key])

/-- The signs drawn so far say the same as the table of the bar. -/
def TableDrawn (previous : Option Alterations) (before : List Pitch) (standing : Alterations) :
    Prop :=
  ∀ key, drawnAlteration previous before key = (standing.get? key).getD 0

/-- They still do after a pitch has been resolved. -/
theorem TableDrawn.concat {settled : Pitch} (h : TableDrawn previous before standing)
    (bare : pitch.mark = .bare → pitch.alteration = 0)
    (hsettled : pitch.resolved transposition (standing.get? pitch.key) = settled) :
    TableDrawn previous (before ++ [settled])
      (standing.insert settled.key settled.alteration) := by
  intro key
  have hkey : settled.key = pitch.key := hsettled ▸ Pitch.key_resolved ..
  have hcases := Pitch.drawnSign?_resolved bare previous transposition (standing.get? pitch.key)
  rw [hsettled] at hcases
  rw [drawnAlteration_concat, Table.get?_insert, hkey]
  rcases hcases with hsign | ⟨hsign, hstanding⟩
  · rw [hsign]
    dsimp only
    split
    · rfl
    · exact h key
  · rw [hsign]
    dsimp only
    split
    case isTrue heq =>
      rw [heq, h]
      exact hstanding
    case isFalse => exact h key

/-- Pitches that are resolved in order are altered as what is drawn before and at them says. -/
theorem alteration_eq_drawn (h : TableDrawn previous before standing)
    (bare : ∀ pitch ∈ pitches, pitch.mark = .bare → pitch.alteration = 0)
    {first rest : List Pitch}
    (hsplit : (resolvePitches transposition standing pitches).1 = first ++ pitch :: rest) :
    pitch.alteration = drawnAlteration previous (before ++ first ++ [pitch]) pitch.key := by
  induction pitches generalizing standing before first with
  | nil => simp [resolvePitches] at hsplit
  | cons written pitches ih =>
    obtain ⟨hwritten, hothers⟩ := List.forall_mem_cons.1 bare
    cases first with
    | nil =>
      obtain ⟨hsettled, -⟩ := List.cons.inj hsplit
      have hdrawn := h.concat hwritten hsettled pitch.key
      rw [Table.get?_insert, if_pos rfl] at hdrawn
      rw [List.append_nil]
      exact hdrawn.symm
    | cons settled first =>
      obtain ⟨hsettled, hrest⟩ := List.cons.inj hsplit
      have hdrawn := ih (h.concat hwritten hsettled) hothers (hsettled ▸ hrest)
      rwa [List.append_assoc before, List.singleton_append] at hdrawn

namespace Shorthand

variable {text : String} {instrument : Instrument} {prior : Carry} {frame : Frame}
  {tokens : List Token} {written : WrittenLine}

/-- A note without an accidental is not altered. -/
theorem NoteWord.WrittenAs.alteration_eq_zero {word : NoteWord} {cs : List Char}
    (h : word.WrittenAs cs) (bare : word.mark = .bare) : word.alteration = 0 := by
  obtain @⟨letter, step, signs, accidentals, marks, ending, suffix, forced, lettered, few, signed,
    octaves, ended⟩ := h
  cases forced with
  | true => cases bare
  | false =>
    cases signs with
    | nil => rfl
    | cons sign signs => cases bare

theorem Token.AllRead.alteration_eq_zero (h : Token.AllRead false tokens) :
    ∀ pitch ∈ writtenPitches tokens, pitch.mark = .bare → pitch.alteration = 0 := by
  intro pitch hmem
  obtain ⟨token, htoken, hpitch⟩ := List.mem_filterMap.1 hmem
  have hread := h.isRead token htoken
  cases hkind : token.kind with
  | note word =>
    rw [hkind] at hread hpitch
    cases hread with
    | note written =>
      cases hpitch
      exact written.alteration_eq_zero
  | duration suffix =>
    rw [hkind] at hpitch
    cases hpitch
    exact fun _ => rfl
  | _ =>
    rw [hkind] at hpitch
    cases hpitch

/-- **What is drawn determines what sounds**, in every line that is read. -/
theorem soundsAsDrawn_of_readLine (h : readLine text instrument prior frame = .ok written) :
    written.line.SoundsAsDrawn := by
  obtain ⟨tokens, htokens, hbuild⟩ := readLine_eq_ok.1 h
  have readAll := allRead_of_readTokens htokens
  intro previous before pitch after hsplit
  rw [pitches_of_buildLine readAll hbuild] at hsplit
  have hstart : TableDrawn previous [] .empty := fun _ => rfl
  exact alteration_eq_drawn hstart readAll.alteration_eq_zero hsplit

/-- A sharp that holds in its chord, is cancelled, made a flat and written again; and a position
that only the bar before altered, whose first head has a natural sign. -/
theorem soundsAsDrawn_cancelled :
    ∃ written,
      readLine "<cis c>8 cises ces cis! b4 b" (.named "flute") .initial ⟨.common, .moderate⟩ =
          .ok written ∧
        written.line.pitches.map (Pitch.drawnSign? (some (.ofList [(⟨6, 0⟩, -2)]))) =
          [some (⟨0, 0⟩, 2), none, some (⟨0, 0⟩, 0), some (⟨0, 0⟩, -2), some (⟨0, 0⟩, 2),
            some (⟨6, 0⟩, 0), none] ∧
        written.line.pitches.map Pitch.alteration = [2, 2, 0, -2, 2, 0, 0] ∧
        written.line.SoundsAsDrawn := by
  have hparts : (readLine "<cis c>8 cises ces cis! b4 b" (.named "flute") .initial
      ⟨.common, .moderate⟩).toOption.map (fun written =>
        (written.line.pitches.map (Pitch.drawnSign? (some (.ofList [(⟨6, 0⟩, -2)]))),
          written.line.pitches.map Pitch.alteration)) =
      some ([some (⟨0, 0⟩, 2), none, some (⟨0, 0⟩, 0), some (⟨0, 0⟩, -2), some (⟨0, 0⟩, 2),
        some (⟨6, 0⟩, 0), none], [2, 2, 0, -2, 2, 0, 0]) := by
    decide +kernel
  obtain ⟨written, hread, heq⟩ := Option.map_eq_some_iff.1 hparts
  obtain ⟨hsigns, halterations⟩ := Prod.mk.injEq .. ▸ heq
  have h := toOption_eq_some_iff.1 hread
  exact ⟨written, h, hsigns, halterations, soundsAsDrawn_of_readLine h⟩

end Shorthand

end Stave
