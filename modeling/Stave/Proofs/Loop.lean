import Mathlib.Data.List.Chain

/-!
# Loops that may fail

A loop takes one turn after another. A turn comes to the next state, or it ends the loop, or it
fails. What every turn does holds between the states of a loop that follow each other, and what
every turn keeps holds where the loop ends; and a loop whose turns all make something smaller takes
no more turns than that is large.
-/
namespace Stave

variable {σ ε α : Type} {turn : σ → Except ε (Option σ)} {value : σ → α} {state : σ}
  {states : List σ} {result : Except ε α}

/-- A loop goes from a state through the states after its turns, and comes to the value of the last
one, or to the error of the turn that fails. -/
inductive Loop (turn : σ → Except ε (Option σ)) (value : σ → α) :
    σ → List σ → Except ε α → Prop where
  | ends {state : σ} (ended : turn state = .ok none) : Loop turn value state [] (.ok (value state))
  | fails {state : σ} {error : ε} (failed : turn state = .error error) :
      Loop turn value state [] (.error error)
  | turns {state next : σ} {states : List σ} {result : Except ε α}
      (turned : turn state = .ok (some next)) (rest : Loop turn value next states result) :
      Loop turn value state (next :: states) result

namespace Loop

theorem isChain {related : σ → σ → Prop} (h : Loop turn value state states result)
    (hturn : ∀ state next, turn state = .ok (some next) → related state next) :
    (state :: states).IsChain related := by
  induction h with
  | ends => exact .singleton _
  | fails => exact .singleton _
  | turns turned _ ih => exact .cons_cons (hturn _ _ turned) ih

/-- The states are those of a chain, each smaller than the one before. -/
theorem length_le (h : Loop turn value state states result) (size : σ → Nat)
    (hturn : ∀ state next, turn state = .ok (some next) → size next < size state) :
    states.length ≤ size state := by
  induction h with
  | ends => exact Nat.zero_le _
  | fails => exact Nat.zero_le _
  | turns turned _ ih =>
    have hsmaller := hturn _ _ turned
    rw [List.length_cons]
    omega

/-- What every turn keeps holds of all states. -/
theorem forall_mem (kept : σ → Prop) (h : Loop turn value state states result)
    (hturn : ∀ state next, kept state → turn state = .ok (some next) → kept next)
    (hstate : kept state) : ∀ reached ∈ states, kept reached := by
  induction h with
  | ends => exact List.forall_mem_nil _
  | fails => exact List.forall_mem_nil _
  | turns turned _ ih =>
    have hnext := hturn _ _ hstate turned
    exact List.forall_mem_cons.2 ⟨hnext, ih hnext⟩

/-- And of the one where the loop ends. -/
theorem exists_last {out : α} (kept : σ → Prop) (h : Loop turn value state states (.ok out))
    (hturn : ∀ state next, kept state → turn state = .ok (some next) → kept next)
    (hstate : kept state) : ∃ last, kept last ∧ turn last = .ok none ∧ out = value last := by
  generalize hresult : Except.ok out = result at h
  induction h with
  | ends ended =>
    cases hresult
    exact ⟨_, hstate, ended, rfl⟩
  | fails => cases hresult
  | turns turned _ ih => exact ih (hturn _ _ hstate turned) hresult

end Loop

end Stave
