import Mathlib.Data.Nat.Nth
import Mathlib.Data.Set.Function
import Stave.Proofs.Ledger

/-!
# Heads are moved to their places among the heads

The ledger of any list of tokens, whether its chords close or not, says exactly which of them head
no slot, and its searches find and count what it lists. Going one token further, a search finds one
more listed token or a head is passed, so the index a token is moved to is the number of indices
before it that are not listed. Among the heads that number is their place.

## Main statements

* `Ledger.exact_scan`: searching, counting and moving are exact for every list of tokens.
-/
namespace Stave.Shorthand.Ledger

/-- The tokens a ledger keeps: of the first `count`, those it does not list. -/
def kept (ledger : Ledger) (count : Nat) : Set Nat :=
  {token | token < count ∧ token ∉ ledger.removed}

/-- What a ledger says of its tokens by searching and by moving them is exact. -/
structure Exact (tokens : List Token) (ledger : Ledger) : Prop where
  /-- The listed tokens are those that head no slot, given the chords before them. -/
  listed : ∀ token, token ∈ ledger.removed ↔ ∃ here, tokens[token]? = some here ∧
    here.kind.isHead (chordOpenAfter false (tokens.take token)) = false
  increasing : ledger.removed.toList.Pairwise (· < ·)
  isRemoved_iff : ∀ token, ledger.isRemoved token ↔ token ∈ ledger.removed
  removedBefore_eq : ∀ token, ledger.removedBefore token = ledger.removed.toList.countP (· < token)
  /-- What is taken away from an index is no more than the index. -/
  removedBefore_le : ∀ token, ledger.removedBefore token ≤ token
  /-- Up to the end of the list, every index before a token is one of a token. -/
  rebase_eq : ∀ token, ledger.rebase token = Nat.count (· ∉ ledger.removed) token
  /-- Every token is kept or listed. -/
  counted : Nat.count (· ∉ ledger.removed) tokens.length + ledger.removedCount = tokens.length
  strictMonoOn : StrictMonoOn ledger.rebase (ledger.kept tokens.length)
  bijOn : Set.BijOn ledger.rebase (ledger.kept tokens.length)
    (Set.Iio (Nat.count (· ∉ ledger.removed) tokens.length))

variable {token : Nat} {tokens : List Token}

/-! ### What is listed -/

theorem mem_removedFrom_iff (index : Nat) (chord : Bool) (tokens : List Token) (token : Nat) :
    index + token ∈ removedFrom index chord tokens ↔ ∃ here, tokens[token]? = some here ∧
      here.kind.isHead (chordOpenAfter chord (tokens.take token)) = false := by
  induction tokens generalizing index chord token with
  | nil => simp [removedFrom]
  | cons first rest ih =>
    cases token with
    | zero =>
      have hlater : index ∉ removedFrom (index + 1) (first.kind.opensChord chord) rest := by
        intro hmem
        have := le_of_mem_removedFrom hmem
        omega
      by_cases hhead : first.kind.isHead chord <;>
        simp [removedFrom, chordOpenAfter, hhead, hlater]
    | succ token =>
      have hrest := ih (index + 1) (first.kind.opensChord chord) token
      rw [show index + (token + 1) = index + 1 + token by omega]
      simp only [List.getElem?_cons_succ, List.take_succ_cons, chordOpenAfter, List.foldl_cons]
        at hrest ⊢
      rw [← hrest, removedFrom]
      split
      · rfl
      · have hne : index + 1 + token ≠ index := by omega
        simp [hne]

theorem mem_removed_iff : token ∈ (scan tokens).removed ↔
    ∃ here, tokens[token]? = some here ∧
      here.kind.isHead (chordOpenAfter false (tokens.take token)) = false := by
  rw [← mem_removedFrom_iff 0, Nat.zero_add]
  simp [scan]

theorem lt_of_mem_removed (h : token ∈ (scan tokens).removed) : token < tokens.length := by
  obtain ⟨here, hhere, -⟩ := mem_removed_iff.1 h
  exact (List.getElem?_eq_some_iff.1 hhere).1

/-! ### Counting -/

/-- One index further, one more entry may be below. -/
theorem countP_lt_succ (xs : List Nat) (token : Nat) :
    xs.countP (· < token + 1) = xs.countP (· < token) + xs.count token := by
  induction xs with
  | nil => rfl
  | cons x xs ih =>
    simp only [List.countP_cons, List.count_cons, ih, decide_eq_true_eq, beq_iff_eq]
    split <;> split <;> split <;> omega

/-- One token further, one more is listed if that token is. -/
theorem removedBefore_succ (tokens : List Token) (token : Nat) :
    (scan tokens).removedBefore (token + 1) =
      (scan tokens).removedBefore token + if token ∈ (scan tokens).removed then 1 else 0 := by
  have hnodup : (removedFrom 0 false tokens).Nodup :=
    (pairwise_removedFrom 0 false tokens).imp Nat.ne_of_lt
  have hmem : token ∈ (scan tokens).removed ↔ token ∈ removedFrom 0 false tokens := by simp [scan]
  rw [removedBefore_eq_countP, removedBefore_eq_countP, countP_lt_succ, hnodup.count]
  simp only [hmem]

theorem removedBefore_add_count (tokens : List Token) (token : Nat) :
    (scan tokens).removedBefore token + Nat.count (· ∉ (scan tokens).removed) token = token := by
  induction token with
  | zero => simp [removedBefore_eq_countP]
  | succ token ih =>
    rw [removedBefore_succ, Nat.count_succ]
    by_cases hmem : token ∈ (scan tokens).removed <;> simp only [hmem, not_true_eq_false,
      not_false_eq_true, if_true, if_false] <;> omega

/-- A token is moved to the number of indices before it that are not listed. -/
theorem rebase_eq_count (tokens : List Token) (token : Nat) :
    (scan tokens).rebase token = Nat.count (· ∉ (scan tokens).removed) token := by
  have := removedBefore_add_count tokens token
  rw [rebase]
  omega

theorem removedCount_eq_removedBefore (tokens : List Token) :
    (scan tokens).removedCount = (scan tokens).removedBefore tokens.length := by
  have hall : (removedFrom 0 false tokens).countP (· < tokens.length) =
      (removedFrom 0 false tokens).length := by
    refine List.countP_eq_length.2 fun token hmem => ?_
    have hlisted : token ∈ (scan tokens).removed := by simpa [scan] using hmem
    simpa using lt_of_mem_removed hlisted
  rw [removedBefore_eq_countP, hall]
  rfl

/-! ### Moving the heads -/

theorem strictMonoOn_rebase (tokens : List Token) :
    StrictMonoOn (scan tokens).rebase ((scan tokens).kept tokens.length) := by
  intro token hkept other _ hlt
  rw [rebase_eq_count, rebase_eq_count]
  exact Nat.count_strict_mono hkept.2 hlt

/-- The kept tokens are moved to the indices below their number. -/
theorem bijOn_rebase (tokens : List Token) :
    Set.BijOn (scan tokens).rebase ((scan tokens).kept tokens.length)
      (Set.Iio (Nat.count (· ∉ (scan tokens).removed) tokens.length)) := by
  refine ⟨fun token hkept => ?_, (strictMonoOn_rebase tokens).injOn, fun place hplace => ?_⟩
  · rw [rebase_eq_count]
    exact Nat.count_strict_mono hkept.2 hkept.1
  · have hcard (finite : (Set.ofPred (· ∉ (scan tokens).removed)).Finite) :
        place < finite.toFinset.card :=
      Nat.lt_of_lt_of_le hplace (Nat.count_le_card finite tokens.length)
    refine ⟨Nat.nth (· ∉ (scan tokens).removed) place, ⟨?_, Nat.nth_mem place hcard⟩, ?_⟩
    · exact Nat.nth_lt_of_lt_count hplace
    · rw [rebase_eq_count]
      exact Nat.count_nth hcard

/-- **The ledger of every list of tokens is exact.** -/
theorem exact_scan (tokens : List Token) : Exact tokens (scan tokens) where
  listed := fun _ => mem_removed_iff
  increasing := pairwise_removedFrom 0 false tokens
  isRemoved_iff := fun token => by
    rw [isRemoved_iff_mem]
    simp [scan]
  removedBefore_eq := removedBefore_eq_countP tokens
  removedBefore_le := fun token => by
    have := removedBefore_add_count tokens token
    omega
  rebase_eq := rebase_eq_count tokens
  counted := by
    have := removedBefore_add_count tokens tokens.length
    rw [removedCount_eq_removedBefore]
    omega
  strictMonoOn := strictMonoOn_rebase tokens
  bijOn := bijOn_rebase tokens

end Stave.Shorthand.Ledger
