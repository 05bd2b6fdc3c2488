import Stave.Music.Bar

/-!
# Bar shelves

A shelf keeps bars by id and their order apart from it, so that an id stays good while
other bars come and go. Ids are counted up and never used again. Inserting splices
the order; no bar changes by the coming or going of another. That the two parts and the
count stay in step is part of the type.
-/
namespace Stave

/-- Bars by id, and the order they stand in. -/
structure BarShelf where
  bars : Table BarId Bar
  order : List BarId
  /-- The number the next bar gets: how many bars were ever put in. It is not bounded, and agrees
  with a counter of 32 bits as long as fewer than `2 ^ 32` bars are. -/
  nextNumber : Nat
  /-- Every bar stands at one place. -/
  order_nodup : order.Nodup
  mem_order : ∀ id, id ∈ order ↔ (bars.get? id).isSome
  number_lt : ∀ id ∈ order, id.number < nextNumber

namespace BarShelf

/-- A shelf without bars. -/
def empty : BarShelf where
  bars := .empty
  order := []
  nextNumber := 0
  order_nodup := .nil
  mem_order := by simp
  number_lt := by simp

instance : Inhabited BarShelf := ⟨empty⟩

/-- The bar of an id. -/
def get? (shelf : BarShelf) (id : BarId) : Option Bar := shelf.bars.get? id

/-- The number of bars in the order. -/
def size (shelf : BarShelf) : Nat := shelf.order.length

/-- Whether there are no bars in the order. -/
def isEmpty (shelf : BarShelf) : Bool := shelf.order.isEmpty

/-- The bars in their order. -/
def toList (shelf : BarShelf) : List Bar := shelf.order.filterMap shelf.get?

/-- The place of a bar. -/
def position? (shelf : BarShelf) (id : BarId) : Option Nat := shelf.order.idxOf? id

/-- The bar at a place. -/
def idAt? (shelf : BarShelf) (position : Nat) : Option BarId := shelf.order[position]?

/-- The bar just before another. -/
def previous? (shelf : BarShelf) (id : BarId) : Option Bar :=
  match shelf.position? id with
  | some (position + 1) => (shelf.idAt? position).bind shelf.get?
  | _ => none

/-- The id the next bar gets. -/
def nextId (shelf : BarShelf) : BarId := ⟨shelf.nextNumber⟩

theorem nextId_notMem (shelf : BarShelf) : shelf.nextId ∉ shelf.order :=
  fun h => Nat.lt_irrefl _ (shelf.number_lt _ h)

/-- The order after a new bar has been put at a place. -/
def insertOrder (shelf : BarShelf) (position : Nat) : List BarId :=
  shelf.order.insertIdx (min position shelf.order.length) shelf.nextId

theorem insertOrder_perm (shelf : BarShelf) (position : Nat) :
    (shelf.insertOrder position).Perm (shelf.nextId :: shelf.order) :=
  List.perm_insertIdx _ _ (Nat.min_le_right ..)

/-- Put a new bar at a place, after the last bar if there is no such place. -/
def insert (shelf : BarShelf) (position : Nat) (meter : Meter) (tempo : Tempo) :
    BarShelf × BarId :=
  ({ bars := shelf.bars.insert shelf.nextId (.empty shelf.nextId meter tempo)
     order := shelf.insertOrder position
     nextNumber := shelf.nextNumber + 1
     order_nodup := (shelf.insertOrder_perm position).nodup_iff.2
       (List.nodup_cons.2 ⟨shelf.nextId_notMem, shelf.order_nodup⟩)
     mem_order := by
       intro id
       rw [(shelf.insertOrder_perm position).mem_iff, List.mem_cons, shelf.mem_order]
       by_cases h : id = shelf.nextId <;> simp [h]
     number_lt := by
       intro id h
       rcases List.mem_cons.1 ((shelf.insertOrder_perm position).mem_iff.1 h) with rfl | h
       · exact Nat.lt_succ_self _
       · exact Nat.lt_succ_of_lt (shelf.number_lt id h) }, shelf.nextId)

/-- Take a bar away: the shelf without it, and the bar. -/
def remove? (shelf : BarShelf) (id : BarId) : Option (BarShelf × Bar) :=
  (shelf.get? id).map fun bar =>
    ({ shelf with
        bars := shelf.bars.filter fun other _ => other != id
        order := shelf.order.filter (· != id)
        order_nodup := shelf.order_nodup.filter _
        mem_order := by
          intro other
          rw [List.mem_filter, shelf.mem_order]
          cases h : shelf.bars.get? other <;> simp [h]
        number_lt := fun other h => shelf.number_lt other (List.mem_filter.1 h).1 }, bar)

/-- Put a changed bar in the place of the one of an id, if there is one. -/
def replace (shelf : BarShelf) (id : BarId) (bar : Bar) : BarShelf :=
  { shelf with
    bars := shelf.bars.modify id fun _ => bar
    mem_order := fun other => by simp [shelf.mem_order] }

/-- Change every bar. -/
def map (change : Bar → Bar) (shelf : BarShelf) : BarShelf :=
  { shelf with
    bars := shelf.bars.map change
    mem_order := fun other => by simp [shelf.mem_order] }

@[simp] theorem get?_empty (id : BarId) : empty.get? id = none := rfl

/-- The ids of the order are those that have a bar. -/
theorem mem_order_iff {shelf : BarShelf} {id : BarId} :
    id ∈ shelf.order ↔ (shelf.get? id).isSome := shelf.mem_order id

@[simp] theorem get?_nextId (shelf : BarShelf) : shelf.get? shelf.nextId = none := by
  simpa [mem_order_iff] using shelf.nextId_notMem

@[simp] theorem get?_insert (shelf : BarShelf) (position : Nat) (meter : Meter) (tempo : Tempo)
    (other : BarId) :
    (shelf.insert position meter tempo).1.get? other =
      if other = shelf.nextId then some (.empty shelf.nextId meter tempo)
      else shelf.get? other :=
  Table.get?_insert ..

@[simp] theorem size_insert (shelf : BarShelf) (position : Nat) (meter : Meter)
    (tempo : Tempo) : (shelf.insert position meter tempo).1.size = shelf.size + 1 :=
  List.length_insertIdx_of_le_length (Nat.min_le_right ..) _

/-- After a bar is taken away its id is unknown, and no other bar is lost. -/
theorem get?_of_remove? {shelf left : BarShelf} {id : BarId} {bar : Bar}
    (h : shelf.remove? id = some (left, bar)) (other : BarId) :
    left.get? other = if other = id then none else shelf.get? other := by
  obtain ⟨_, _, heq⟩ := Option.map_eq_some_iff.1 h
  cases heq
  refine (Table.get?_filter ..).trans ?_
  by_cases hid : other = id
  · simp [hid]
  · cases hbar : shelf.bars.get? other <;> simp [hid, get?, hbar]

@[simp] theorem get?_map (change : Bar → Bar) (shelf : BarShelf) (id : BarId) :
    (shelf.map change).get? id = (shelf.get? id).map change :=
  Table.get?_map ..

@[simp] theorem get?_replace (shelf : BarShelf) (id other : BarId) (bar : Bar) :
    (shelf.replace id bar).get? other =
      (shelf.get? other).map fun old => if other = id then bar else old :=
  Table.get?_modify ..

@[simp] theorem order_replace (shelf : BarShelf) (id : BarId) (bar : Bar) :
    (shelf.replace id bar).order = shelf.order := rfl

@[simp] theorem order_map (change : Bar → Bar) (shelf : BarShelf) :
    (shelf.map change).order = shelf.order := rfl

end BarShelf

end Stave
