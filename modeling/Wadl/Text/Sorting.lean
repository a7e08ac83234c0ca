/-!
# Sorting

`sorted` puts the elements of a list in order, one after the other; elements of which each may come
before the other stay in the order that they have.
-/

namespace Wadl

variable {α : Type}

/-- A list with an element before the first one that it may come before. -/
def insertSorted (le : α → α → Bool) (x : α) : List α → List α
  | [] => [x]
  | y :: ys => if le x y then x :: y :: ys else y :: insertSorted le x ys

/-- The elements of a list in order. -/
def sorted (le : α → α → Bool) : List α → List α
  | [] => []
  | x :: xs => insertSorted le x (sorted le xs)

end Wadl
