/-!
# Sums

The sum of a list of whole numbers, with the laws that let it be taken piece by piece.
-/
namespace Stave

/-- The sum of a list of numbers. -/
def sumOf (numbers : List Nat) : Nat := numbers.foldr (· + ·) 0

@[simp] theorem sumOf_nil : sumOf [] = 0 := rfl

@[simp] theorem sumOf_cons (n : Nat) (rest : List Nat) : sumOf (n :: rest) = n + sumOf rest := rfl

@[simp] theorem sumOf_append (xs ys : List Nat) : sumOf (xs ++ ys) = sumOf xs + sumOf ys := by
  induction xs with
  | nil => simp
  | cons x xs ih => simp [ih, Nat.add_assoc]

end Stave
