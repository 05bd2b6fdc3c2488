import Stave.Proofs.Declaration.Bars
import Stave.Proofs.Score.LinesWritten

/-!
# Bars that are declared

A declaration checks all of its lines against the bars that are there before it writes the first
one, and then writes bar by bar, looking each bar up and adding those that are missing. Done in
place, a look-up that fails half way would leave the bars before it written. It never does: the
bar of a line is there or has just been put at the end, so that the places counted from the
cursor are the places the bars get, also from a cursor past the end. What is left are the errors
that are found before anything is written.
-/
namespace Stave

open Shorthand

/-! ### Lines written one by one -/

/-- Written lines of other instruments than the named one stand in the second bar as in the
first. -/
def Bar.KeepsWritten (bar next : Bar) (name : String) : Prop :=
  ∀ other line, other ≠ name → bar.line? other = some line → line.filler = false →
    next.line? other = some line

namespace Bar

variable {bar next third : Bar} {name : String}

theorem KeepsWritten.refl (bar : Bar) (name : String) : bar.KeepsWritten bar name :=
  fun _ _ _ hline _ => hline

theorem KeepsWritten.trans (h : bar.KeepsWritten next name) (hnext : next.KeepsWritten third name) :
    bar.KeepsWritten third name :=
  fun other line hother hline hfiller =>
    hnext other line hother (h other line hother hline hfiller) hfiller

/-- Writing a line renews the rests of other instruments, not what they have written. -/
theorem keepsWritten_write (bar : Bar) (roster : Roster) (name : String) (written : WrittenLine) :
    bar.KeepsWritten (bar.write roster name written) name := by
  intro other line hother hline hfiller
  have hsame : (bar.unfilled name written).line? other = some line := by
    rw [line?_unfilled, if_neg hother, hline]
  have hrest : (bar.unfilled name written).needsRest other = false := by
    simp [needsRest, hsame, hfiller]
  rw [write_eq_complete, line?_complete, hrest, hsame]
  cases roster.get? other <;> rfl

end Bar

/-- What has become of a score in which bars with given ids were written from a place on, in
order. -/
structure BarsPlaced (score next : Score) (name : String) (position : Nat) (ids : List BarId) :
    Prop where
  roster_eq : next.roster = score.roster
  order_prefix : score.shelf.order <+: next.shelf.order
  size_eq : next.shelf.size = max score.shelf.size (min position score.shelf.size + ids.length)
  /-- The bars follow each other from the place on, or from the end if that comes before. -/
  idAt? : ∀ (index : Nat) id, ids[index]? = some id →
    next.shelf.idAt? (min position score.shelf.size + index) = some id
  kept : ∀ id ∉ ids, next.shelf.get? id = score.shelf.get? id
  keepsWritten : ∀ id bar, score.shelf.get? id = some bar →
    ∃ new, next.shelf.get? id = some new ∧ bar.KeepsWritten new name

namespace BarsPlaced

variable {score middle next : Score} {name : String} {position : Nat} {id : BarId}
  {ids : List BarId}

theorem nil (score : Score) (name : String) (position : Nat) :
    BarsPlaced score score name position [] where
  roster_eq := rfl
  order_prefix := List.prefix_rfl
  size_eq := by simp
  idAt? := by simp
  kept _ _ := rfl
  keepsWritten _ bar hbar := ⟨bar, hbar, .refl bar name⟩

/-- A bar keeps its place when others are put behind it. -/
theorem idAt?_of_prefix (h : score.shelf.order <+: next.shelf.order)
    (hid : score.shelf.idAt? position = some id) : next.shelf.idAt? position = some id := by
  obtain ⟨fresh, heq⟩ := h
  have hlt := (List.getElem?_eq_some_iff.1 hid).1
  rw [BarShelf.idAt?, ← heq, List.getElem?_append_left hlt]
  exact hid

/-- One bar and then others. -/
theorem cons (hfirst : BarsPlaced score middle name position [id])
    (hrest : BarsPlaced middle next name (position + 1) ids) :
    BarsPlaced score next name position (id :: ids) := by
  have hsize := hfirst.size_eq
  have hplace : min (position + 1) middle.shelf.size = min position score.shelf.size + 1 := by
    rw [hsize, List.length_singleton]
    omega
  refine ⟨hrest.roster_eq.trans hfirst.roster_eq,
    hfirst.order_prefix.trans hrest.order_prefix, ?_, fun index other hother => ?_,
    fun other hother => ?_, fun other bar hbar => ?_⟩
  · rw [hrest.size_eq, hplace, hsize, List.length_singleton, List.length_cons]
    omega
  · cases index with
    | zero =>
      obtain rfl : id = other := by simpa using hother
      exact idAt?_of_prefix hrest.order_prefix (hfirst.idAt? 0 id rfl)
    | succ index =>
      have hat := hrest.idAt? index other (by simpa using hother)
      rwa [hplace, Nat.add_assoc, Nat.add_comm 1] at hat
  · rw [List.mem_cons, not_or] at hother
    rw [hrest.kept other hother.2, hfirst.kept other (by simpa using hother.1)]
  · obtain ⟨changed, hchanged, hkeeps⟩ := hfirst.keepsWritten other bar hbar
    obtain ⟨new, hnew, hlater⟩ := hrest.keepsWritten other changed hchanged
    exact ⟨new, hnew, hkeeps.trans hlater⟩

end BarsPlaced

namespace Score

variable {score next : Score} {name text : String} {position : Nat} {lines rest : List WrittenLine}
  {line : WrittenLine} {id : BarId} {ids : List BarId} {bar : Bar}

/-- A line is written in a bar that is there. -/
theorem barsPlaced_of_idAt? (hid : score.shelf.idAt? position = some id)
    (hbar : score.shelf.get? id = some bar) :
    BarsPlaced score
      { score with shelf := score.shelf.replace id (bar.write score.roster name line) }
      name position [id] := by
  have hlt : position < score.shelf.size := (List.getElem?_eq_some_iff.1 hid).1
  refine ⟨rfl, List.prefix_rfl, ?_, fun index other hother => ?_, fun other hother => ?_,
    fun other old hold => ?_⟩
  · rw [List.length_singleton, Nat.min_eq_left (by omega), Nat.max_eq_left (by omega)]
    rfl
  · obtain ⟨rfl, rfl⟩ : index = 0 ∧ id = other := by
      cases index with
      | zero => simpa using hother
      | succ index => simp at hother
    rw [Nat.min_eq_left (by omega)]
    exact hid
  · have hne : other ≠ id := by simpa using hother
    simp [hne]
  · by_cases hother : other = id
    · subst hother
      obtain rfl : bar = old := by simpa [hbar] using hold
      exact ⟨_, by simp [hbar], bar.keepsWritten_write score.roster name line⟩
    · exact ⟨old, by simp [hold, hother], .refl old name⟩

/-- A line is written in a bar put at the end for it. -/
theorem barsPlaced_of_none (hid : score.shelf.idAt? position = none) (meter : Meter)
    (tempo : Tempo) (new : Bar) :
    BarsPlaced score
      { score with
        shelf := (score.shelf.insert position meter tempo).1.replace score.shelf.nextId new }
      name position [score.shelf.nextId] := by
  have hle : score.shelf.size ≤ position := List.getElem?_eq_none_iff.1 hid
  have horder : (score.shelf.insert position meter tempo).1.order =
      score.shelf.order ++ [score.shelf.nextId] := by
    have hmin : min position score.shelf.order.length = score.shelf.order.length :=
      Nat.min_eq_right hle
    simp only [BarShelf.insert, BarShelf.insertOrder, hmin, List.insertIdx_length_self]
  refine ⟨rfl, ?_, ?_, fun index other hother => ?_, fun other hother => ?_,
    fun other old hold => ?_⟩
  · rw [BarShelf.order_replace, horder]
    exact List.prefix_append _ _
  · have hsize := BarShelf.size_insert score.shelf position meter tempo
    rw [List.length_singleton, Nat.min_eq_right hle, Nat.max_eq_right (by omega), ← hsize]
    rfl
  · obtain ⟨rfl, rfl⟩ : index = 0 ∧ score.shelf.nextId = other := by
      cases index with
      | zero => simpa using hother
      | succ index => simp at hother
    rw [Nat.min_eq_right hle, BarShelf.idAt?, BarShelf.order_replace, horder]
    simp [BarShelf.size]
  · have hne : other ≠ score.shelf.nextId := by simpa using hother
    simp [hne]
  · have hne : other ≠ score.shelf.nextId := by
      rintro rfl
      simp at hold
    exact ⟨old, by simp [hold, hne], .refl old name⟩

/-- The bar of a line can be looked up, and writing the line in it touches no other. -/
theorem exists_barFor (score : Score) (name : String) (position : Nat) (line : WrittenLine) :
    ∃ made id bar, score.barFor position line = (made, id) ∧ made.bar id = .ok bar ∧
      BarsPlaced score
        { made with shelf := made.shelf.replace id (bar.write made.roster name line) }
        name position [id] := by
  cases hid : score.shelf.idAt? position with
  | some id =>
    obtain ⟨bar, hbar⟩ := BarShelf.exists_bar_of_idAt? hid
    exact ⟨score, id, bar, by simp [barFor, hid], by simp [Score.bar, hbar],
      barsPlaced_of_idAt? hid hbar⟩
  | none =>
    have hmade : score.barFor position line =
        ({ score with
          shelf := (score.shelf.insert position line.frame.meter line.frame.tempo).1 },
          score.shelf.nextId) := by
      rw [barFor, hid]
      rfl
    exact ⟨_, _, .empty score.shelf.nextId line.frame.meter line.frame.tempo, hmade,
      by simp [Score.bar], barsPlaced_of_none hid line.frame.meter line.frame.tempo _⟩

/-! ### Declarations in place -/

/-- Write lines in place. Where a bar is not found the lines before it stay written. -/
def writeInPlace (score : Score) (name : String) (position : Nat) :
    List WrittenLine → Score × Except ScoreError (List BarId)
  | [] => (score, .ok [])
  | written :: rest =>
    let (score, id) := score.barFor position written
    match score.bar id with
    | .error error => (score, .error error)
    | .ok bar =>
      let shelf := score.shelf.replace id (bar.write score.roster name written)
      let (score, ids) :=
        Score.writeInPlace { score with shelf := shelf } name (position + 1) rest
      (score, ids.map (id :: ·))

/-- Declare bars in place: the score and the cursor as they are afterwards, whether or not all
went well. The text is read with a copy of the cursor. -/
def declareInPlace (score : Score) (name text : String) (cursor : Cursor) :
    Score × Cursor × Except ScoreError (List BarId) :=
  match score.instrument name with
  | .error error => (score, cursor, .error error)
  | .ok player =>
    match readBars text player cursor with
    | .error error => (score, cursor, .error (.line error))
    | .ok (lines, after) =>
      match score.declarationConflict? name cursor.position lines with
      | some error => (score, cursor, .error (.line error))
      | none =>
        match score.writeInPlace name cursor.position lines with
        | (score, .error error) => (score, cursor, .error error)
        | (score, .ok ids) => (score, after, .ok ids)

/-- Lines are written one bar each, in place or not. -/
theorem exists_barsPlaced (score : Score) (name : String) (position : Nat)
    (lines : List WrittenLine) :
    ∃ next ids, score.writeLines name position lines = .ok (next, ids) ∧
      score.writeInPlace name position lines = (next, .ok ids) ∧
      ids.length = lines.length ∧ BarsPlaced score next name position ids := by
  induction lines generalizing score position with
  | nil => exact ⟨score, [], rfl, rfl, rfl, .nil score name position⟩
  | cons line rest ih =>
    obtain ⟨made, id, bar, hmade, hbar, hfirst⟩ := score.exists_barFor name position line
    obtain ⟨next, ids, hwrite, hinPlace, hlength, hrest⟩ := ih
      { made with shelf := made.shelf.replace id (bar.write made.roster name line) }
      (position + 1)
    refine ⟨next, id :: ids, ?_, ?_, congrArg (· + 1) hlength, hfirst.cons hrest⟩
    · simp [writeLines, hmade, hbar, hwrite, bind, Except.bind]
    · simp [writeInPlace, hmade, hbar, hinPlace, Except.map]

end Score

namespace Shorthand

variable {player : Instrument} {cursor after : Cursor} {found lines : List WrittenLine}
  {bars : List (List Token)} {tokens : List Token} {text : String}

/-- There is one bar more than there are bar lines. -/
theorem length_splitBars (tokens : List Token) :
    (splitBars tokens).length = tokens.countP (·.kind = .barLine) + 1 := by
  induction tokens with
  | nil => rfl
  | cons token rest ih =>
    rw [splitBars]
    by_cases hbar : token.kind = .barLine
    · simp [hbar, ih]
    · cases hrest : splitBars rest with
      | nil => simp [hrest] at ih
      | cons bar others =>
        rw [hrest] at ih
        simpa [hbar] using ih

/-- The lines of a declaration are one for each bar, and the cursor has gone over them. -/
theorem foldl_advance_of_buildBars
    (h : buildBars player cursor found bars = .ok (lines, after)) :
    ∃ made, lines = found.reverse ++ made ∧ made.length = bars.length ∧
      made.foldl Cursor.advance cursor = after := by
  induction bars generalizing cursor found with
  | nil =>
    cases h
    exact ⟨[], by simp, rfl, rfl⟩
  | cons bar rest ih =>
    simp only [buildBars] at h
    split at h
    · cases h
    case h_2 written hwritten =>
      obtain ⟨made, rfl, hlength, hafter⟩ := ih h
      exact ⟨written :: made, by simp, congrArg (· + 1) hlength, hafter⟩

/-- A declaration that is read makes one line more than it has bar lines, and its cursor ends
with what the last one leaves. -/
theorem exists_last_of_readBars (h : readBars text player cursor = .ok (lines, after)) :
    ∃ tokens last, readTokens (String.ofList (blankKeyword text.toList)) = .ok tokens ∧
      lines.length = tokens.countP (·.kind = .barLine) + 1 ∧ lines.getLast? = some last ∧
      after = ⟨cursor.position + lines.length, last.line.closing, last.frame⟩ := by
  obtain ⟨tokens, htokens, hbuild⟩ := bind_ok_iff.1 h
  obtain ⟨made, hlines, hlength, hafter⟩ := foldl_advance_of_buildBars hbuild
  obtain rfl : lines = made := by simpa using hlines
  rw [length_splitBars] at hlength
  have hne : lines ≠ [] := List.ne_nil_of_length_eq_add_one hlength
  obtain ⟨last, hlast, hfold⟩ := foldl_advance cursor hne
  exact ⟨tokens, last, htokens, hlength, hlast, hafter.symm.trans hfold⟩

end Shorthand

namespace Score

variable {score next : Score} {name text : String} {player : Instrument} {cursor after : Cursor}

/-- What a declaration that is taken leaves: its bars in their places, one more than it has bar
lines, and the cursor behind them with what the last line read leaves. -/
structure BarsDeclared (score next : Score) (name text : String) (player : Instrument)
    (cursor after : Cursor) (ids : List BarId) : Prop where
  placed : BarsPlaced score next name cursor.position ids
  length_eq : ∃ tokens, readTokens (String.ofList (blankKeyword text.toList)) = .ok tokens ∧
    ids.length = tokens.countP (·.kind = .barLine) + 1
  after_eq : ∃ lines last, readBars text player cursor = .ok (lines, after) ∧
    lines.getLast? = some last ∧
    after = ⟨cursor.position + ids.length, last.line.closing, last.frame⟩

/-- A flute and a cello, and one bar, in which the cello has a written line. -/
def celloBar : Score :=
  (empty (.ofList [.named "flute", .named "cello"])).performAll
    [.insertBar 0, .setLine ⟨0⟩ "cello" "c2 d"]

end Score

end Stave
