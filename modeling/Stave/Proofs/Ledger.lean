import Stave.Shorthand.Ledger

/-!
# What the ledger counts

The ledger lists in order the tokens that head no slot. Its binary searches therefore agree
with membership and with counting, and the index a head is moved to is the number of heads
before it. `headsFrom` is the other half of the tokens, found by the same walk.
-/
namespace Stave.Shorthand

/-- Whether a chord is open after a list of tokens, given whether one is before. -/
def chordOpenAfter (chord : Bool) (tokens : List Token) : Bool :=
  tokens.foldl (fun chord token => token.kind.opensChord chord) chord

namespace Ledger

/-- The indices of the tokens that head a slot, the first token having index `index`. -/
def headsFrom (index : Nat) (chord : Bool) : List Token → List Nat
  | [] => []
  | token :: rest =>
    let others := headsFrom (index + 1) (token.kind.opensChord chord) rest
    if token.kind.isHead chord then index :: others else others

variable {index : Nat} {chord : Bool} {tokens : List Token} {token : Nat}

theorem le_of_mem_removedFrom (h : token ∈ removedFrom index chord tokens) : index ≤ token := by
  induction tokens generalizing index chord with
  | nil => simp [removedFrom] at h
  | cons first rest ih =>
    simp only [removedFrom] at h
    split at h
    · have := ih h
      omega
    · rcases List.mem_cons.1 h with rfl | h
      · exact Nat.le_refl _
      · have := ih h
        omega

/-- The ledger is in increasing order. -/
theorem pairwise_removedFrom (index : Nat) (chord : Bool) (tokens : List Token) :
    (removedFrom index chord tokens).Pairwise (· < ·) := by
  induction tokens generalizing index chord with
  | nil => exact List.Pairwise.nil
  | cons first rest ih =>
    simp only [removedFrom]
    split
    · exact ih ..
    · refine List.pairwise_cons.2 ⟨fun other hmem => ?_, ih ..⟩
      have := le_of_mem_removedFrom hmem
      omega

/-- The heads are the tokens that are not listed. -/
theorem headsFrom_eq_filter (index : Nat) (chord : Bool) (tokens : List Token) :
    headsFrom index chord tokens =
      (List.range' index tokens.length).filter
        fun token => decide (token ∉ removedFrom index chord tokens) := by
  induction tokens generalizing index chord with
  | nil => rfl
  | cons first rest ih =>
    have hlater : index ∉ removedFrom (index + 1) (first.kind.opensChord chord) rest := by
      intro hmem
      have := le_of_mem_removedFrom hmem
      omega
    simp only [headsFrom, removedFrom, List.length_cons, List.range'_succ, ih]
    by_cases hhead : first.kind.isHead chord
    · simp [hhead, hlater]
    · simp only [hhead, Bool.false_eq_true, if_false, List.filter_cons, List.mem_cons,
        true_or, not_true_eq_false, decide_false]
      -- only the first index is `index`, so listing it changes nothing further on
      refine List.filter_congr fun token hmem => ?_
      have hne : token ≠ index := by
        have := (List.mem_range'_1.1 hmem).1
        omega
      simp [hne]

theorem pairwise_headsFrom (index : Nat) (chord : Bool) (tokens : List Token) :
    (headsFrom index chord tokens).Pairwise (· < ·) := by
  rw [headsFrom_eq_filter]
  exact (List.pairwise_lt_range' (s := index) (n := tokens.length)).filter _

theorem lt_of_mem_headsFrom (h : token ∈ headsFrom 0 chord tokens) : token < tokens.length := by
  rw [headsFrom_eq_filter] at h
  have := (List.mem_range'_1.1 (List.mem_filter.1 h).1).2
  omega

theorem mem_headsFrom_iff :
    token ∈ headsFrom 0 false tokens ↔ token < tokens.length ∧ token ∉ (scan tokens).removed := by
  rw [headsFrom_eq_filter, List.mem_filter, List.mem_range'_1]
  simp [scan]

theorem headsFrom_append (index : Nat) (chord : Bool) (first second : List Token) :
    headsFrom index chord (first ++ second) =
      headsFrom index chord first ++
        headsFrom (index + first.length) (chordOpenAfter chord first) second := by
  induction first generalizing index chord with
  | nil => simp [headsFrom, chordOpenAfter]
  | cons token rest ih =>
    simp only [List.cons_append, headsFrom, ih, chordOpenAfter, List.foldl_cons,
      List.length_cons, Nat.add_assoc, Nat.add_comm 1]
    split <;> rfl

/-- Before any token there are as many tokens as heads and listed ones together. -/
theorem countP_headsFrom_add (index : Nat) (chord : Bool) (tokens : List Token) (token : Nat) :
    (headsFrom index chord tokens).countP (· < token) +
        (removedFrom index chord tokens).countP (· < token) =
      min token (index + tokens.length) - index := by
  induction tokens generalizing index chord with
  | nil =>
    simp only [headsFrom, removedFrom, List.countP_nil, List.length_nil]
    omega
  | cons first rest ih =>
    have hrest := ih (index + 1) (first.kind.opensChord chord)
    simp only [headsFrom, removedFrom, List.length_cons]
    by_cases hhead : first.kind.isHead chord <;> by_cases hlt : index < token <;>
      simp only [hhead, hlt, if_true, if_false, Bool.false_eq_true, List.countP_cons,
        decide_true, decide_false] <;> omega

/-- A place that splits a list into what is below a bound and what is not counts what is
below. -/
theorem countP_eq_of_split {xs : List Nat} {place : Nat} (hplace : place ≤ xs.length)
    (hbelow : ∀ i (h : i < xs.length), i < place → xs[i] < token)
    (habove : ∀ i (h : i < xs.length), place ≤ i → token ≤ xs[i]) :
    xs.countP (· < token) = place := by
  have htake : (xs.take place).countP (· < token) = (xs.take place).length := by
    refine List.countP_eq_length.2 fun x hmem => ?_
    obtain ⟨i, hi, rfl⟩ := List.mem_take_iff_getElem.1 hmem
    simpa using hbelow i (by omega) (by omega)
  have hdrop : (xs.drop place).countP (· < token) = 0 := by
    refine List.countP_eq_zero.2 fun x hmem => ?_
    obtain ⟨i, hi, rfl⟩ := List.mem_drop_iff_getElem.1 hmem
    simpa using habove (place + i) (by omega) (by omega)
  rw [← List.take_append_drop place xs, List.countP_append, htake, hdrop, List.length_take]
  omega

/-- In a list that increases, the place of a member is the number of members before it. -/
theorem countP_lt_getElem {xs : List Nat} (hsorted : xs.Pairwise (· < ·)) {i : Nat}
    (hi : i < xs.length) : xs.countP (· < xs[i]) = i := by
  refine countP_eq_of_split (by omega) ?_ ?_
  · intro j hj hlt
    exact List.pairwise_iff_getElem.1 hsorted j i hj hi hlt
  · intro j hj hle
    rcases Nat.eq_or_lt_of_le hle with rfl | hlt
    · exact Nat.le_refl _
    · exact Nat.le_of_lt (List.pairwise_iff_getElem.1 hsorted i j hi hj hlt)

/-- What a search keeps: below its lower bound only smaller indices, from its upper bound on
none of them. -/
structure Bracket (removed : Array Nat) (token low high : Nat) : Prop where
  le : low ≤ high
  size : high ≤ removed.size
  below : ∀ i (h : i < removed.size), i < low → removed[i] < token
  above : ∀ i (h : i < removed.size), high ≤ i → token ≤ removed[i]

theorem bracket_search {removed : Array Nat} {low high : Nat}
    (hsorted : removed.toList.Pairwise (· < ·)) (h : Bracket removed token low high) :
    Bracket removed token (search removed token low high) (search removed token low high) := by
  have hmono (i j : Nat) (hi : i < removed.size) (hj : j < removed.size) (hij : i ≤ j) :
      removed[i] ≤ removed[j] := by
    rcases Nat.eq_or_lt_of_le hij with rfl | hlt
    · exact Nat.le_refl _
    · exact Nat.le_of_lt
        (List.pairwise_iff_getElem.1 hsorted i j (by simpa using hi) (by simpa using hj) hlt)
  fun_induction search removed token low high with
  | case1 low high hlt middle hmiddle ih =>
    have hsize : middle < removed.size := by have := h.size; omega
    rw [Array.getD_eq_getD_getElem?, Array.getElem?_eq_getElem hsize] at hmiddle
    refine ih ⟨by omega, h.size, fun i hi hle => ?_, h.above⟩
    exact Nat.lt_of_le_of_lt (hmono i middle hi hsize (by omega)) hmiddle
  | case2 low high hlt middle hmiddle ih =>
    have hsize : middle < removed.size := by have := h.size; omega
    rw [Array.getD_eq_getD_getElem?, Array.getElem?_eq_getElem hsize] at hmiddle
    refine ih ⟨by omega, by omega, h.below, fun i hi hle => ?_⟩
    exact Nat.le_trans (Nat.not_lt.1 hmiddle) (hmono middle i hsize hi hle)
  | case3 low high hge =>
    have heq : high = low := by have := h.le; omega
    subst heq
    exact h

theorem bracket_removedBefore (tokens : List Token) (token : Nat) :
    Bracket (scan tokens).removed token ((scan tokens).removedBefore token)
      ((scan tokens).removedBefore token) := by
  refine bracket_search (by simpa [scan] using pairwise_removedFrom 0 false tokens) ⟨?_, ?_, ?_, ?_⟩
  · exact Nat.zero_le _
  · exact Nat.le_refl _
  · intro i _ hlt
    exact absurd hlt (Nat.not_lt_zero i)
  · intro i hi hle
    exact absurd hi (Nat.not_lt.2 hle)

/-- The search counts the listed tokens before a token. -/
theorem removedBefore_eq_countP (tokens : List Token) (token : Nat) :
    (scan tokens).removedBefore token = (removedFrom 0 false tokens).countP (· < token) := by
  have h := bracket_removedBefore tokens token
  refine (countP_eq_of_split ?_ ?_ ?_).symm
  · simpa [scan] using h.size
  · intro i hi hlt
    simpa [scan] using h.below i (by simpa [scan] using hi) hlt
  · intro i hi hle
    simpa [scan] using h.above i (by simpa [scan] using hi) hle

/-- The search finds the tokens that are listed. -/
theorem isRemoved_iff_mem (tokens : List Token) (token : Nat) :
    (scan tokens).isRemoved token ↔ token ∈ removedFrom 0 false tokens := by
  rw [isRemoved, removedBefore_eq_countP]
  simp only [scan, beq_iff_eq, List.getElem?_toArray]
  constructor
  · intro h
    exact List.mem_of_getElem? h
  · intro h
    obtain ⟨i, hi, rfl⟩ := List.mem_iff_getElem.1 h
    rw [countP_lt_getElem (pairwise_removedFrom 0 false tokens) hi]
    exact List.getElem?_eq_getElem hi

/-- The heads are the tokens the ledger does not list. -/
theorem headsFrom_eq_filter_isRemoved (tokens : List Token) :
    headsFrom 0 false tokens =
      (List.range tokens.length).filter fun token => !(scan tokens).isRemoved token := by
  rw [headsFrom_eq_filter, List.range_eq_range']
  refine List.filter_congr fun token _ => ?_
  have := isRemoved_iff_mem tokens token
  by_cases hmem : token ∈ removedFrom 0 false tokens <;> simp_all

/-- A token is moved to the number of heads before it. -/
theorem rebase_eq_countP (h : token ≤ tokens.length) :
    (scan tokens).rebase token = (headsFrom 0 false tokens).countP (· < token) := by
  have hcount := countP_headsFrom_add 0 false tokens token
  rw [rebase, removedBefore_eq_countP]
  omega

/-- The `i`-th head is moved to `i`. -/
theorem rebase_of_getElem? {i : Nat} (h : (headsFrom 0 false tokens)[i]? = some token) :
    (scan tokens).rebase token = i := by
  obtain ⟨hi, rfl⟩ := List.getElem?_eq_some_iff.1 h
  rw [rebase_eq_countP (Nat.le_of_lt (lt_of_mem_headsFrom (List.getElem_mem hi)))]
  exact countP_lt_getElem (pairwise_headsFrom 0 false tokens) hi

/-- A head is moved to the index of one of the heads. -/
theorem rebase_lt (h : token ∈ headsFrom 0 false tokens) :
    (scan tokens).rebase token < (headsFrom 0 false tokens).length := by
  obtain ⟨i, hi⟩ := List.mem_iff_getElem?.1 h
  rw [rebase_of_getElem? hi]
  exact (List.getElem?_eq_some_iff.1 hi).1

/-- No two heads are moved to the same index. -/
theorem rebase_inj {other : Nat} (h : token ∈ headsFrom 0 false tokens)
    (hother : other ∈ headsFrom 0 false tokens)
    (heq : (scan tokens).rebase token = (scan tokens).rebase other) : token = other := by
  obtain ⟨i, hi⟩ := List.mem_iff_getElem?.1 h
  obtain ⟨j, hj⟩ := List.mem_iff_getElem?.1 hother
  rw [rebase_of_getElem? hi, rebase_of_getElem? hj] at heq
  rw [heq, hj] at hi
  exact (Option.some.inj hi).symm

/-- Heads keep their order when they are moved. -/
theorem rebase_le_rebase {other : Nat} (h : token ≤ other) (hother : other ≤ tokens.length) :
    (scan tokens).rebase token ≤ (scan tokens).rebase other := by
  rw [rebase_eq_countP hother, rebase_eq_countP (Nat.le_trans h hother)]
  refine List.countP_mono_left fun head _ hlt => ?_
  simp only [decide_eq_true_eq] at hlt ⊢
  omega

end Ledger

end Stave.Shorthand
