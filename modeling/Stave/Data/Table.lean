/-!
# Tables in key order

A table is a list of entries whose keys strictly increase. The order is part of
the type, so two tables with the same look-ups are the same table, whatever the
order of the insertions that made them. Look-ups walk the list; no claim is made
about speed beyond that.
-/
namespace Stave

/-- Entries with strictly increasing keys. -/
structure Table (κ α : Type) [Ord κ] where
  entries : List (κ × α)
  increasing : entries.Pairwise fun a b => compare a.1 b.1 = .lt

namespace Table

variable {κ α β : Type} [Ord κ]

/-- Put an entry in its place, over any entry of the same key. -/
def place (key : κ) (value : α) : List (κ × α) → List (κ × α)
  | [] => [(key, value)]
  | (k, old) :: rest =>
    match compare key k with
    | .lt => (key, value) :: (k, old) :: rest
    | .eq => (key, value) :: rest
    | .gt => (k, old) :: place key value rest

theorem mem_place {key : κ} {value : α} {entry : κ × α} {entries : List (κ × α)}
    (h : entry ∈ place key value entries) : entry = (key, value) ∨ entry ∈ entries := by
  induction entries with
  | nil => simpa [place] using h
  | cons head rest ih =>
    obtain ⟨k, old⟩ := head
    unfold place at h
    split at h
    · simpa using h
    · rcases List.mem_cons.1 h with h | h
      · exact .inl h
      · exact .inr (List.mem_cons_of_mem _ h)
    · rcases List.mem_cons.1 h with h | h
      · exact .inr (h ▸ List.mem_cons_self)
      · exact (ih h).imp id (List.mem_cons_of_mem _)

theorem place_increasing [Std.TransOrd κ] [Std.LawfulEqOrd κ] (key : κ) (value : α)
    {entries : List (κ × α)} (h : entries.Pairwise fun a b => compare a.1 b.1 = .lt) :
    (place key value entries).Pairwise fun a b => compare a.1 b.1 = .lt := by
  induction entries with
  | nil => simp [place]
  | cons head rest ih =>
    obtain ⟨k, old⟩ := head
    obtain ⟨hk, hrest⟩ := List.pairwise_cons.1 h
    unfold place
    split
    case h_1 hlt =>
      refine List.pairwise_cons.2 ⟨fun e he => ?_, h⟩
      rcases List.mem_cons.1 he with he | he
      · exact he ▸ hlt
      · exact Std.TransCmp.lt_trans hlt (hk e he)
    case h_2 heq =>
      have : key = k := Std.LawfulEqCmp.eq_of_compare heq
      subst this
      exact List.pairwise_cons.2 ⟨hk, hrest⟩
    case h_3 hgt =>
      refine List.pairwise_cons.2 ⟨fun e he => ?_, ih hrest⟩
      rcases mem_place he with he | he
      · exact he ▸ Std.OrientedCmp.gt_iff_lt.1 hgt
      · exact hk e he

/-- The table without entries. -/
def empty : Table κ α := ⟨[], .nil⟩

instance : Inhabited (Table κ α) := ⟨empty⟩

/-- Give a key a value, over any value it had. -/
def insert [Std.TransOrd κ] [Std.LawfulEqOrd κ] (table : Table κ α) (key : κ) (value : α) :
    Table κ α :=
  ⟨place key value table.entries, place_increasing key value table.increasing⟩

/-- Keep the entries a test accepts. -/
def filter (keep : κ → α → Bool) (table : Table κ α) : Table κ α :=
  ⟨table.entries.filter fun entry => keep entry.1 entry.2, table.increasing.filter _⟩

/-- Change every value. -/
def map (f : α → β) (table : Table κ α) : Table κ β :=
  ⟨table.entries.map fun entry => (entry.1, f entry.2), by
    simpa [List.pairwise_map] using table.increasing⟩

/-- The keys in increasing order. -/
def keys (table : Table κ α) : List κ := table.entries.map (·.1)

/-- The values in the order of their keys. -/
def values (table : Table κ α) : List α := table.entries.map (·.2)

/-- The number of entries. -/
def size (table : Table κ α) : Nat := table.entries.length

/-- Whether there are no entries. -/
def isEmpty (table : Table κ α) : Bool := table.entries.isEmpty

/-- Insert a list of entries from left to right. -/
def ofList [Std.TransOrd κ] [Std.LawfulEqOrd κ] (entries : List (κ × α)) : Table κ α :=
  entries.foldl (fun table entry => table.insert entry.1 entry.2) empty

theorem ofList_concat [Std.TransOrd κ] [Std.LawfulEqOrd κ] (entries : List (κ × α)) (key : κ)
    (value : α) : ofList (entries ++ [(key, value)]) = (ofList entries).insert key value := by
  simp [ofList]

variable [DecidableEq κ]

/-- Look a key up in a list of entries. -/
def find (key : κ) : List (κ × α) → Option α
  | [] => none
  | (k, value) :: rest => if key = k then some value else find key rest

/-- The value of a key. -/
def get? (table : Table κ α) (key : κ) : Option α := find key table.entries

/-- Change the value of one key, if it has one. -/
def modify (key : κ) (change : α → α) (table : Table κ α) : Table κ α :=
  ⟨table.entries.map fun entry => (entry.1, if entry.1 = key then change entry.2 else entry.2), by
    simpa [List.pairwise_map] using table.increasing⟩

/-- Whether a key has a value. -/
def contains (table : Table κ α) (key : κ) : Bool := (table.get? key).isSome

@[simp] theorem get?_empty (key : κ) : (empty : Table κ α).get? key = none := rfl

theorem find_place [Std.TransOrd κ] [Std.LawfulEqOrd κ] (key other : κ) (value : α)
    (entries : List (κ × α)) :
    find other (place key value entries) =
      if other = key then some value else find other entries := by
  induction entries with
  | nil => simp [place, find]
  | cons head rest ih =>
    obtain ⟨k, old⟩ := head
    unfold place
    split
    · simp [find]
    case h_2 heq =>
      have : key = k := Std.LawfulEqCmp.eq_of_compare heq
      subst this
      by_cases h : other = key <;> simp [find, h]
    case h_3 hgt =>
      have hne : k ≠ key := by
        rintro rfl
        simp [Std.compare_self] at hgt
      by_cases h : other = k
      · subst h
        simp [find, hne]
      · simp [find, h, ih]

/-- A look-up after an insertion sees the new value under its key and nothing else changed. -/
@[simp] theorem get?_insert [Std.TransOrd κ] [Std.LawfulEqOrd κ] (table : Table κ α)
    (key other : κ) (value : α) :
    (table.insert key value).get? other = if other = key then some value else table.get? other :=
  find_place key other value table.entries

omit [Ord κ] in
theorem find_map (f : α → β) (key : κ) (entries : List (κ × α)) :
    find key (entries.map fun entry => (entry.1, f entry.2)) = (find key entries).map f := by
  induction entries with
  | nil => rfl
  | cons head rest ih =>
    by_cases h : key = head.1
    · simp [find, h]
    · simpa [find, h] using ih

/-- A look-up after a change of every value sees the changed value. -/
@[simp] theorem get?_map (f : α → β) (table : Table κ α) (key : κ) :
    (table.map f).get? key = (table.get? key).map f :=
  find_map f key table.entries

omit [Ord κ] in
theorem find_modify (change : α → α) (key other : κ) (entries : List (κ × α)) :
    find other (entries.map fun entry =>
        (entry.1, if entry.1 = key then change entry.2 else entry.2)) =
      (find other entries).map fun value => if other = key then change value else value := by
  induction entries with
  | nil => rfl
  | cons head rest ih =>
    by_cases h : other = head.1
    · subst h
      simp [find]
    · simpa [find, h] using ih

/-- A look-up after a change of one value sees the change under its key only. -/
@[simp] theorem get?_modify (change : α → α) (table : Table κ α) (key other : κ) :
    (table.modify key change).get? other =
      (table.get? other).map fun value => if other = key then change value else value :=
  find_modify change key other table.entries

omit [Ord κ] in
theorem isSome_find (key : κ) (entries : List (κ × α)) :
    (find key entries).isSome ↔ key ∈ entries.map (·.1) := by
  induction entries with
  | nil => simp [find]
  | cons head rest ih =>
    by_cases h : key = head.1
    · simp [find, h]
    · simpa [find, h] using ih

/-- The keys are those that have a value. -/
theorem mem_keys {table : Table κ α} {key : κ} : key ∈ table.keys ↔ (table.get? key).isSome :=
  (isSome_find key table.entries).symm

theorem find_eq_none_of_lt [Std.LawfulEqOrd κ] {key : κ} {entries : List (κ × α)}
    (h : ∀ entry ∈ entries, compare key entry.1 = .lt) : find key entries = none := by
  induction entries with
  | nil => rfl
  | cons head rest ih =>
    have hne : key ≠ head.1 := by
      intro heq
      have hlt := h head List.mem_cons_self
      simp [heq, Std.compare_self] at hlt
    simpa [find, hne] using ih fun entry he => h entry (List.mem_cons_of_mem _ he)

theorem find_filter [Std.LawfulEqOrd κ] (keep : κ → α → Bool) (key : κ)
    {entries : List (κ × α)} (h : entries.Pairwise fun a b => compare a.1 b.1 = .lt) :
    find key (entries.filter fun entry => keep entry.1 entry.2) =
      (find key entries).filter (keep key) := by
  induction entries with
  | nil => rfl
  | cons head rest ih =>
    obtain ⟨k, value⟩ := head
    obtain ⟨hk, hrest⟩ := List.pairwise_cons.1 h
    have ih := ih hrest
    by_cases heq : key = k
    · subst heq
      have hnone : find key (rest.filter fun entry => keep entry.1 entry.2) = none :=
        find_eq_none_of_lt fun entry he => hk entry (List.mem_filter.1 he).1
      by_cases hkeep : keep key value <;> simp [find, Option.filter, hkeep, hnone]
    · by_cases hkeep : keep k value <;> simp [find, hkeep, heq, ih]

/-- A look-up in what was kept of a table sees the values the test accepts. -/
@[simp] theorem get?_filter [Std.LawfulEqOrd κ] (keep : κ → α → Bool) (table : Table κ α)
    (key : κ) : (table.filter keep).get? key = (table.get? key).filter (keep key) :=
  find_filter keep key table.increasing

end Table

end Stave
