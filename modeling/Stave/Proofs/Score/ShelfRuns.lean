import Mathlib.Data.List.InsertIdx
import Stave.Proofs.Score.LinesWritten

/-!
# Runs of a shelf

A shelf keeps its bars by id, their order apart from them, and a count that the ids are taken
from. Whoever uses it may think of a plain list of bars: a bar is put in at a place, the bar of an
id is taken out, a bar is written over, and the others stay as and where they are. That a shelf
shows a list is kept by every move, and all its look-ups follow from it. Ids are counted up, so
none is handed out again, and the id of a bar that was taken out is never known again.
-/
namespace Stave

/-- A change of a shelf. -/
inductive ShelfMove where
  /-- Put a new bar at a place. -/
  | insert (position : Nat) (meter : Meter) (tempo : Tempo)
  | remove (id : BarId)
  /-- Put other contents under the id of a bar. -/
  | write (bar : Bar)

/-- Whether a move puts a new bar in. -/
def ShelfMove.isInsert : ShelfMove → Bool
  | insert _ _ _ => true
  | _ => false

/-- A plain list of bars, and the number of bars ever put in. -/
structure BarList where
  bars : List Bar
  made : Nat

namespace BarList

/-- The list without bars. -/
def empty : BarList := ⟨[], 0⟩

/-- The list after a move. -/
def step (list : BarList) : ShelfMove → BarList
  | .insert position meter tempo =>
    ⟨list.bars.insertIdx (min position list.bars.length) (.empty ⟨list.made⟩ meter tempo),
      list.made + 1⟩
  | .remove id => { list with bars := list.bars.eraseP (·.id = id) }
  | .write bar =>
    { list with bars := list.bars.map fun old => if old.id = bar.id then bar else old }

/-- The list after moves from left to right. -/
def run (list : BarList) (moves : List ShelfMove) : BarList := moves.foldl step list

/-- Where ids do not repeat, taking the bar of an id out leaves those of other ids. -/
theorem eraseP_eq_filter {bars : List Bar} (h : (bars.map Bar.id).Nodup) (id : BarId) :
    bars.eraseP (·.id = id) = bars.filter (·.id ≠ id) := by
  induction bars with
  | nil => rfl
  | cons bar rest ih =>
    obtain ⟨hbar, hrest⟩ := List.nodup_cons.1 h
    by_cases hid : bar.id = id
    · have hothers : rest.filter (·.id ≠ id) = rest := by
        refine List.filter_eq_self.2 fun other hother => ?_
        rw [decide_eq_true_eq]
        rintro rfl
        exact hbar (hid ▸ List.mem_map_of_mem hother)
      simp only [hid, decide_true, List.eraseP_cons_of_pos, ne_eq, not_true, decide_false,
        Bool.false_eq_true, not_false_eq_true, List.filter_cons_of_neg]
      exact hothers.symm
    · simp [hid, ih hrest]

end BarList

namespace BarShelf

/-- The shelf after a move; taking out an unknown bar changes nothing. -/
def step (shelf : BarShelf) : ShelfMove → BarShelf
  | .insert position meter tempo => (shelf.insert position meter tempo).1
  | .remove id =>
    match shelf.remove? id with
    | some (left, _) => left
    | none => shelf
  | .write bar => shelf.replace bar.id bar

/-- The shelf after moves from left to right. -/
def run (shelf : BarShelf) (moves : List ShelfMove) : BarShelf := moves.foldl step shelf

/-- The ids that moves hand out, in order. -/
def handed (shelf : BarShelf) : List ShelfMove → List BarId
  | [] => []
  | .insert position meter tempo :: rest =>
    let (next, id) := shelf.insert position meter tempo
    id :: next.handed rest
  | move :: rest => (shelf.step move).handed rest

theorem order_of_remove? {shelf left : BarShelf} {id : BarId} {bar : Bar}
    (h : shelf.remove? id = some (left, bar)) :
    left.order = shelf.order.filter (· != id) ∧ left.nextNumber = shelf.nextNumber := by
  obtain ⟨_, _, hleft⟩ := Option.map_eq_some_iff.1 h
  cases hleft
  exact ⟨rfl, rfl⟩

/-! ### A shelf and its list -/

/-- The shelf has the bars of a list in their order, each under its own id. -/
structure Shows (shelf : BarShelf) (list : BarList) : Prop where
  order_eq : shelf.order = list.bars.map Bar.id
  get?_id : ∀ bar ∈ list.bars, shelf.get? bar.id = some bar
  nextNumber_eq : shelf.nextNumber = list.made

variable {shelf : BarShelf} {list : BarList} {id : BarId}

namespace Shows

theorem empty : BarShelf.empty.Shows .empty := ⟨rfl, by simp [BarList.empty], rfl⟩

theorem ids_nodup (h : shelf.Shows list) : (list.bars.map Bar.id).Nodup :=
  h.order_eq ▸ shelf.order_nodup

theorem get?_eq_some_iff (h : shelf.Shows list) {bar : Bar} :
    shelf.get? id = some bar ↔ bar ∈ list.bars ∧ bar.id = id := by
  constructor
  · intro hbar
    have hmem : id ∈ list.bars.map Bar.id := by
      rw [← h.order_eq, mem_order_iff, hbar]
      rfl
    obtain ⟨found, hfound, rfl⟩ := List.mem_map.1 hmem
    obtain rfl := Option.some.inj ((h.get?_id found hfound).symm.trans hbar)
    exact ⟨hfound, rfl⟩
  · rintro ⟨hmem, rfl⟩
    exact h.get?_id bar hmem

theorem get?_eq (h : shelf.Shows list) (id : BarId) :
    shelf.get? id = list.bars.find? (·.id = id) := by
  cases hfind : list.bars.find? (·.id = id) with
  | some bar =>
    refine h.get?_eq_some_iff.2 ⟨List.mem_of_find?_eq_some hfind, ?_⟩
    simpa using List.find?_some hfind
  | none =>
    rw [List.find?_eq_none] at hfind
    by_contra hknown
    obtain ⟨bar, hbar⟩ := Option.ne_none_iff_exists'.1 hknown
    obtain ⟨hmem, hid⟩ := h.get?_eq_some_iff.1 hbar
    exact hfind bar hmem (by simpa using hid)

theorem insert (h : shelf.Shows list) (position : Nat) (meter : Meter) (tempo : Tempo) :
    (shelf.insert position meter tempo).1.Shows (list.step (.insert position meter tempo)) := by
  have hnew : shelf.nextId = ⟨list.made⟩ := congrArg BarId.mk h.nextNumber_eq
  have hlength : list.bars.length = shelf.order.length := by rw [h.order_eq, List.length_map]
  constructor
  · have horder : (shelf.insert position meter tempo).1.order =
        shelf.order.insertIdx (min position shelf.order.length) shelf.nextId := rfl
    rw [horder, BarList.step, List.map_insertIdx, hlength, h.order_eq, hnew]
    rfl
  · intro bar hbar
    rw [get?_insert]
    rcases (List.mem_insertIdx (Nat.min_le_right ..)).1 hbar with rfl | hold
    · simp [Bar.empty, hnew]
    · have hmem : bar.id ∈ shelf.order := h.order_eq ▸ List.mem_map_of_mem hold
      have hother : bar.id ≠ shelf.nextId := fun heq => shelf.nextId_notMem (heq ▸ hmem)
      rw [if_neg hother, h.get?_id bar hold]
  · exact congrArg Nat.succ h.nextNumber_eq

theorem remove (h : shelf.Shows list) (id : BarId) :
    (shelf.step (.remove id)).Shows (list.step (.remove id)) := by
  cases hbar : shelf.get? id with
  | none =>
    have hstep : shelf.step (.remove id) = shelf := by simp [step, remove?, hbar]
    have hsame : list.bars.eraseP (·.id = id) = list.bars := by
      refine List.eraseP_of_forall_not fun bar hmem hid => ?_
      rw [decide_eq_true_eq] at hid
      simp [← hid, h.get?_id bar hmem] at hbar
    rw [hstep, BarList.step, hsame]
    exact h
  | some old =>
    obtain ⟨left, hremove⟩ : ∃ left, shelf.remove? id = some (left, old) := by
      simp [remove?, hbar]
    have hget := get?_of_remove? hremove
    obtain ⟨horder, hcount⟩ := order_of_remove? hremove
    have hstep : shelf.step (.remove id) = left := by simp [step, hremove]
    rw [hstep, BarList.step, BarList.eraseP_eq_filter h.ids_nodup]
    constructor
    · rw [horder, h.order_eq, List.filter_map]
      simp only [ne_eq, decide_not]
      rfl
    · intro bar hmem
      obtain ⟨hmem, hother⟩ := List.mem_filter.1 hmem
      rw [hget, if_neg (by simpa using hother)]
      exact h.get?_id bar hmem
    · exact hcount.trans h.nextNumber_eq

theorem write (h : shelf.Shows list) (bar : Bar) :
    (shelf.step (.write bar)).Shows (list.step (.write bar)) := by
  have hid (old : Bar) : (if old.id = bar.id then bar else old).id = old.id := by
    split
    case isTrue hsame => exact hsame.symm
    case isFalse => rfl
  constructor
  · simp only [step, order_replace, BarList.step, List.map_map, h.order_eq]
    exact List.map_congr_left fun old _ => (hid old).symm
  · intro found hfound
    obtain ⟨old, hold, rfl⟩ := List.mem_map.1 hfound
    rw [hid, step, get?_replace, h.get?_id old hold]
    rfl
  · exact h.nextNumber_eq

/-- A move does to the shelf what it does to the list. -/
theorem step (h : shelf.Shows list) (move : ShelfMove) :
    (shelf.step move).Shows (list.step move) := by
  cases move with
  | insert position meter tempo => exact h.insert position meter tempo
  | remove id => exact h.remove id
  | write bar => exact h.write bar

theorem run (h : shelf.Shows list) (moves : List ShelfMove) :
    (shelf.run moves).Shows (list.run moves) := by
  induction moves generalizing shelf list with
  | nil => exact h
  | cons move rest ih => exact ih (h.step move)

/-! ### What is looked up -/

theorem toList_eq (h : shelf.Shows list) : shelf.toList = list.bars := by
  rw [toList, h.order_eq, List.filterMap_map]
  calc list.bars.filterMap (shelf.get? ∘ Bar.id)
      = list.bars.filterMap some := List.filterMap_congr fun bar hbar => h.get?_id bar hbar
    _ = list.bars := List.filterMap_some

theorem idAt?_eq (h : shelf.Shows list) (position : Nat) :
    shelf.idAt? position = list.bars[position]?.map Bar.id := by
  rw [idAt?, h.order_eq, List.getElem?_map]

/-- The bar just before another is the last one of those before it. -/
theorem previous?_eq (h : shelf.Shows list) {before after : List Bar} {bar : Bar}
    (hbars : list.bars = before ++ bar :: after) :
    shelf.previous? bar.id = before.getLast? := by
  have hat : shelf.position? bar.id = some before.length := by
    rw [position?_eq_some_iff, h.idAt?_eq, hbars]
    simp
  rcases List.eq_nil_or_concat' before with rfl | ⟨init, last, rfl⟩
  · rw [List.length_nil] at hat
    simp [previous?, hat]
  · rw [List.length_append, List.length_singleton] at hat
    have hlast : shelf.idAt? init.length = some last.id := by
      rw [h.idAt?_eq, hbars]
      simp
    have hmem : last ∈ list.bars := by
      simp [hbars]
    simp [previous?, hat, hlast, h.get?_id last hmem]

end Shows

/-- The shelf does not know an id, whatever it is asked about it. -/
structure Unknown (shelf : BarShelf) (id : BarId) : Prop where
  notMem : id ∉ shelf.order
  get?_eq : shelf.get? id = none
  position?_eq : shelf.position? id = none
  previous?_eq : shelf.previous? id = none
  remove?_eq : shelf.remove? id = none

theorem unknown_of_get? (h : shelf.get? id = none) : shelf.Unknown id := by
  have hmem : id ∉ shelf.order := by simp [mem_order_iff, h]
  have hposition : shelf.position? id = none := by
    rw [position?, List.idxOf?_eq_none_iff]
    exact hmem
  exact ⟨hmem, h, hposition, by simp [previous?, hposition], by simp [remove?, h]⟩

/-- Whatever the shelf is asked, it answers as the list does. -/
structure Answers (shelf : BarShelf) (list : BarList) : Prop where
  order_nodup : shelf.order.Nodup
  order_perm_keys : shelf.order.Perm shelf.bars.keys
  id_of_get? : ∀ id bar, shelf.get? id = some bar → bar.id = id
  toList_eq : shelf.toList = list.bars
  size_eq : shelf.size = list.bars.length
  get?_eq : ∀ id, shelf.get? id = list.bars.find? (·.id = id)
  remove?_eq : ∀ id, (shelf.remove? id).map Prod.snd = list.bars.find? (·.id = id)
  idAt?_eq : ∀ position, shelf.idAt? position = list.bars[position]?.map Bar.id
  position?_iff : ∀ position id,
    shelf.position? id = some position ↔ shelf.idAt? position = some id
  previous?_eq : ∀ before bar after, list.bars = before ++ bar :: after →
    shelf.previous? bar.id = before.getLast?
  unknown : ∀ id, id ∉ list.bars.map Bar.id → shelf.Unknown id

theorem Shows.answers (h : shelf.Shows list) : shelf.Answers list where
  order_nodup := shelf.order_nodup
  order_perm_keys := (List.perm_ext_iff_of_nodup shelf.order_nodup shelf.bars.keys_nodup).2
    fun id => by rw [Table.mem_keys, shelf.mem_order]
  id_of_get? _ _ hbar := (h.get?_eq_some_iff.1 hbar).2
  toList_eq := h.toList_eq
  size_eq := by rw [size, h.order_eq, List.length_map]
  get?_eq := h.get?_eq
  remove?_eq id := by
    rw [← h.get?_eq, remove?, Option.map_map]
    exact Option.map_id'
  idAt?_eq := h.idAt?_eq
  position?_iff _ _ := position?_eq_some_iff
  previous?_eq _ _ _ := h.previous?_eq
  unknown id hid := by
    rw [← h.order_eq, mem_order_iff, Bool.not_eq_true, Option.isSome_eq_false_iff,
      Option.isNone_iff_eq_none] at hid
    exact unknown_of_get? hid

/-! ### Ids -/

theorem nextNumber_step (shelf : BarShelf) (move : ShelfMove) :
    (shelf.step move).nextNumber = shelf.nextNumber + if move.isInsert then 1 else 0 := by
  cases move with
  | insert position meter tempo => rfl
  | remove id =>
    cases hremove : shelf.remove? id with
    | none => simp [step, hremove, ShelfMove.isInsert]
    | some found => simp [step, hremove, ShelfMove.isInsert, (order_of_remove? hremove).2]
  | write bar => rfl

theorem nextNumber_run (shelf : BarShelf) (moves : List ShelfMove) :
    (shelf.run moves).nextNumber = shelf.nextNumber + moves.countP ShelfMove.isInsert := by
  induction moves generalizing shelf with
  | nil => rfl
  | cons move rest ih =>
    have hstep : shelf.run (move :: rest) = (shelf.step move).run rest := rfl
    rw [hstep, ih, nextNumber_step, List.countP_cons]
    omega

/-- The ids handed out are counted up, one for each bar that is put in. -/
theorem handed_eq (shelf : BarShelf) (moves : List ShelfMove) :
    shelf.handed moves =
      (List.range' shelf.nextNumber (moves.countP ShelfMove.isInsert)).map BarId.mk := by
  induction moves generalizing shelf with
  | nil => rfl
  | cons move rest ih =>
    have hnext := shelf.nextNumber_step move
    cases move with
    | insert position meter tempo =>
      rw [handed, List.countP_cons_of_pos rfl, List.range'_succ, List.map_cons]
      exact congrArg (List.cons _) (ih _)
    | remove id =>
      rw [handed, List.countP_cons_of_neg (by simp [ShelfMove.isInsert]), ih, hnext]
      · rfl
      · simp
    | write bar =>
      rw [handed, List.countP_cons_of_neg (by simp [ShelfMove.isInsert]), ih, hnext]
      · rfl
      · simp

theorem get?_step_remove (shelf : BarShelf) (id : BarId) :
    (shelf.step (.remove id)).get? id = none := by
  cases hremove : shelf.remove? id with
  | none => simpa [step, hremove] using Option.map_eq_none_iff.1 hremove
  | some found => simp [step, hremove, get?_of_remove? hremove]

/-- An old id that is not known does not come back. -/
theorem get?_step_eq_none (hold : id.number < shelf.nextNumber) (h : shelf.get? id = none)
    (move : ShelfMove) : (shelf.step move).get? id = none := by
  cases move with
  | insert position meter tempo =>
    have hother : id ≠ shelf.nextId := by
      rintro rfl
      exact Nat.lt_irrefl _ hold
    rw [step, get?_insert, if_neg hother, h]
  | remove other =>
    cases hremove : shelf.remove? other with
    | none => simpa [step, hremove] using h
    | some found => simp [step, hremove, get?_of_remove? hremove, h]
  | write bar => simp [step, h]

theorem get?_run_eq_none (hold : id.number < shelf.nextNumber) (h : shelf.get? id = none)
    (moves : List ShelfMove) : (shelf.run moves).get? id = none := by
  induction moves generalizing shelf with
  | nil => exact h
  | cons move rest ih =>
    refine ih ?_ (get?_step_eq_none hold h move)
    rw [nextNumber_step]
    omega

/-- A shelf is a plain list of bars with ids that are never used again. After all moves it answers
whatever it is asked as the list does to which the same was done; the ids handed out are the
numbers in order, one for each bar put in, so that none comes twice and `2 ^ 32` of them fit in 32
bits; and an id whose bar was taken out stays unknown. -/
theorem run_asList (moves : List ShelfMove) :
    (empty.run moves).Answers (BarList.empty.run moves) ∧
      empty.handed moves =
        (List.range (moves.countP ShelfMove.isInsert)).map BarId.mk ∧
      (empty.handed moves).Nodup ∧
      ∀ before id after, moves = before ++ .remove id :: after → id ∈ empty.handed before →
        (empty.run moves).Unknown id := by
  have hhanded : empty.handed moves =
      (List.range (moves.countP ShelfMove.isInsert)).map BarId.mk := by
    rw [handed_eq, List.range_eq_range']
    rfl
  refine ⟨(Shows.empty.run moves).answers, hhanded, ?_, ?_⟩
  · rw [hhanded]
    exact List.nodup_range.map fun _ _ heq => congrArg BarId.number heq
  · rintro before id after rfl hid
    have hold : id.number < (empty.run before).nextNumber := by
      rw [handed_eq] at hid
      obtain ⟨number, hnumber, rfl⟩ := List.mem_map.1 hid
      rw [nextNumber_run]
      exact (List.mem_range'_1.1 hnumber).2
    have hrun : empty.run (before ++ .remove id :: after) =
        ((empty.run before).step (.remove id)).run after := by
      rw [run, List.foldl_append]
      rfl
    rw [hrun]
    refine unknown_of_get? (get?_run_eq_none ?_ (get?_step_remove ..) after)
    rw [nextNumber_step]
    omega

example : ((empty.run [.insert 0 .common .moderate, .insert 5 .common .moderate,
    .insert 1 .common .moderate, .remove ⟨0⟩, .insert 0 .common .moderate]).order) =
    [⟨3⟩, ⟨2⟩, ⟨1⟩] := by decide

end BarShelf

end Stave
