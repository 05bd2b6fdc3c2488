import Stave.Proofs.Score.Edits

/-!
# Lines written from a place on

Writing the lines of a declaration never fails. The bars that stand at the places of the
lines take one line each, all other bars stay as they are, and what is new is a bar made
for one of the lines. The order of the bars only grows at its end.
-/
namespace Stave

open Shorthand

/-- What has become of a score whose bars took the lines of an instrument from a place on. -/
structure LinesWritten (score next : Score) (name : String) (position : Nat)
    (lines : List WrittenLine) : Prop where
  roster_eq : next.roster = score.roster
  written : ∀ index line id bar, lines[index]? = some line →
    score.shelf.idAt? (position + index) = some id → score.shelf.get? id = some bar →
    next.shelf.get? id = some (bar.write score.roster name line)
  kept : ∀ id bar, score.shelf.get? id = some bar →
    (∀ index < lines.length, score.shelf.idAt? (position + index) ≠ some id) →
    next.shelf.get? id = some bar
  fresh : ∀ id bar, next.shelf.get? id = some bar → score.shelf.get? id = none →
    ∃ line ∈ lines, ∃ other, bar =
      (Bar.empty other line.frame.meter line.frame.tempo).write score.roster name line

namespace BarShelf

variable {shelf : BarShelf} {id : BarId} {position : Nat}

/-- A bar that has a place is known. -/
theorem exists_bar_of_idAt? (h : shelf.idAt? position = some id) :
    ∃ bar, shelf.get? id = some bar :=
  Option.isSome_iff_exists.1 (mem_order_iff.1 (List.mem_of_getElem? h))

/-- A bar has one place. -/
theorem idAt?_inj {other : Nat} (h : shelf.idAt? position = some id)
    (hother : shelf.idAt? other = some id) : position = other := by
  obtain ⟨hlt, hget⟩ := List.getElem?_eq_some_iff.1 h
  obtain ⟨hlt', hget'⟩ := List.getElem?_eq_some_iff.1 hother
  exact (List.Nodup.getElem_inj_iff shelf.order_nodup).1 (hget.trans hget'.symm)

/-- The place of a bar is where it stands. -/
theorem position?_eq_some_iff : shelf.position? id = some position ↔
    shelf.idAt? position = some id := by
  unfold position? idAt?
  rw [List.idxOf?_eq_some_iff, List.getElem?_eq_some_iff]
  constructor
  · rintro ⟨hlt, hget, -⟩
    exact ⟨hlt, hget⟩
  · rintro ⟨hlt, hget⟩
    refine ⟨hlt, hget, fun index hindex hsame => ?_⟩
    have heq := (List.Nodup.getElem_inj_iff shelf.order_nodup).1 (hsame.trans hget.symm)
    exact absurd heq (Nat.ne_of_lt hindex)

theorem idAt?_eq_none_of_le {other : Nat} (h : shelf.idAt? position = none)
    (hle : position ≤ other) : shelf.idAt? other = none :=
  List.getElem?_eq_none (Nat.le_trans (List.getElem?_eq_none_iff.1 h) hle)

/-- Past the end, a bar that is put in stands last, whatever place was asked for. -/
theorem idAt?_insert_of_none {meter : Meter} {tempo : Tempo}
    (h : shelf.idAt? position = none) (index : Nat) :
    (shelf.insert position meter tempo).1.idAt? (position + 1 + index) = none := by
  have hle : shelf.order.length ≤ position := List.getElem?_eq_none_iff.1 h
  have hlength : (shelf.insertOrder position).length = shelf.order.length + 1 :=
    (shelf.insertOrder_perm position).length_eq.trans (List.length_cons ..)
  exact List.getElem?_eq_none (by simp only [insert, hlength]; omega)

/-- The bars in their order are the bars there are. -/
theorem mem_toList_iff {bar : Bar} : bar ∈ shelf.toList ↔ ∃ id, shelf.get? id = some bar := by
  simp only [toList, List.mem_filterMap]
  constructor
  · rintro ⟨id, -, h⟩
    exact ⟨id, h⟩
  · rintro ⟨id, h⟩
    exact ⟨id, mem_order_iff.2 (by simp [h]), h⟩

end BarShelf

namespace LinesWritten

variable {score next : Score} {name : String} {position : Nat} {line : WrittenLine}
  {rest : List WrittenLine} {id : BarId} {bar : Bar}

theorem nil (score : Score) (name : String) (position : Nat) :
    LinesWritten score score name position [] where
  roster_eq := rfl
  written := by simp
  kept id bar hbar _ := hbar
  fresh id bar hbar hnone := by simp [hbar] at hnone

/-- The first line goes into a bar that is there. -/
theorem cons_of_idAt? (hid : score.shelf.idAt? position = some id)
    (hbar : score.shelf.get? id = some bar)
    (h : LinesWritten
      { score with shelf := score.shelf.replace id (bar.write score.roster name line) }
      next name (position + 1) rest) :
    LinesWritten score next name position (line :: rest) := by
  have hplace (index : Nat) : position + 1 + index = position + (index + 1) := by omega
  have hlater (index : Nat) : score.shelf.idAt? (position + (index + 1)) ≠ some id :=
    fun hsame => absurd (BarShelf.idAt?_inj hid hsame) (by omega)
  constructor
  · exact h.roster_eq
  · intro index written other old hline hother hold
    cases index with
    | zero =>
      obtain rfl : line = written := by simpa using hline
      obtain rfl : id = other := by simpa [hid] using hother
      obtain rfl : bar = old := by simpa [hbar] using hold
      refine h.kept id _ (by simp [hold]) fun index _ => ?_
      rw [hplace]
      exact hlater index
    | succ index =>
      have hne : other ≠ id := by
        rintro rfl
        exact hlater index hother
      refine h.written index written other old (by simpa using hline) ?_ (by simp [hold, hne])
      rw [hplace]
      exact hother
  · intro other old hold haway
    have hne : other ≠ id := by
      rintro rfl
      exact haway 0 (by simp) hid
    refine h.kept other old (by simp [hold, hne]) fun index hindex => ?_
    rw [hplace]
    exact haway (index + 1) (by simpa using hindex)
  · intro other new hnew hnone
    obtain ⟨written, hwritten, made⟩ := h.fresh other new hnew (by simp [hnone])
    exact ⟨written, List.mem_cons_of_mem _ hwritten, made⟩

/-- The first line goes into a bar made for it. -/
theorem cons_of_none (hid : score.shelf.idAt? position = none)
    (h : LinesWritten
      { score with
        shelf := (score.shelf.insert position line.frame.meter line.frame.tempo).1.replace
          score.shelf.nextId
          ((Bar.empty score.shelf.nextId line.frame.meter line.frame.tempo).write
            score.roster name line) }
      next name (position + 1) rest) :
    LinesWritten score next name position (line :: rest) := by
  have hnowhere (index : Nat) : score.shelf.idAt? (position + index) = none :=
    BarShelf.idAt?_eq_none_of_le hid (by omega)
  have hlater (index : Nat) (other : BarId) :
      (score.shelf.insert position line.frame.meter line.frame.tempo).1.idAt?
        (position + 1 + index) ≠ some other := by
    simp [BarShelf.idAt?_insert_of_none hid]
  have hknown {other : BarId} {old : Bar} (hold : score.shelf.get? other = some old) :
      other ≠ score.shelf.nextId := by
    rintro rfl
    simp at hold
  constructor
  · exact h.roster_eq
  · intro index written other old _ hother _
    simp [hnowhere] at hother
  · intro other old hold _
    exact h.kept other old (by simp [hold, hknown hold]) fun index _ => hlater index other
  · intro other new hnew hnone
    by_cases hother : other = score.shelf.nextId
    · have hmade := h.kept other
        ((Bar.empty score.shelf.nextId line.frame.meter line.frame.tempo).write
          score.roster name line)
        (by simp [hother]) fun index _ => hlater index other
      rw [hnew, Option.some.injEq] at hmade
      exact ⟨line, List.mem_cons_self, score.shelf.nextId, hmade⟩
    · obtain ⟨written, hwritten, made⟩ := h.fresh other new hnew (by simp [hnone, hother])
      exact ⟨written, List.mem_cons_of_mem _ hwritten, made⟩

end LinesWritten

/-- Writing lines always succeeds. -/
theorem Score.exists_linesWritten (score : Score) (name : String) (position : Nat)
    (lines : List WrittenLine) :
    ∃ next ids, score.writeLines name position lines = .ok (next, ids) ∧
      LinesWritten score next name position lines := by
  induction lines generalizing score position with
  | nil => exact ⟨score, [], rfl, .nil score name position⟩
  | cons line rest ih =>
    cases hid : score.shelf.idAt? position with
    | some id =>
      obtain ⟨bar, hbar⟩ := BarShelf.exists_bar_of_idAt? hid
      obtain ⟨next, ids, hwrite, hnext⟩ := ih
        { score with shelf := score.shelf.replace id (bar.write score.roster name line) }
        (position + 1)
      refine ⟨next, id :: ids, ?_, hnext.cons_of_idAt? hid hbar⟩
      simp [writeLines, barFor, hid, Score.bar, hbar, hwrite, bind, Except.bind]
    | none =>
      obtain ⟨next, ids, hwrite, hnext⟩ := ih
        { score with
          shelf := (score.shelf.insert position line.frame.meter line.frame.tempo).1.replace
            score.shelf.nextId
            ((Bar.empty score.shelf.nextId line.frame.meter line.frame.tempo).write
              score.roster name line) }
        (position + 1)
      refine ⟨next, score.shelf.nextId :: ids, ?_, hnext.cons_of_none hid⟩
      have hnew : (score.shelf.insert position line.frame.meter line.frame.tempo).2 =
          score.shelf.nextId := rfl
      simp [writeLines, barFor, hid, Score.bar, hnew, hwrite, bind, Except.bind]

end Stave
