import Mathlib.Data.List.Nodup
import Mathlib.Data.List.Sort
import Wadl.Text.Sorting

/-!
# Tables and sorted lists

A table is a list of keys with their values; the first value of a key is the one that is found.

`sorted` is the insertion sort of the library for the relation that a comparison decides, so that
lists with the same elements are the same when they are in order, if the comparison is an order.
-/

namespace Wadl

/-! ## Tables -/

section Table

variable {κ β : Type} [BEq κ] [LawfulBEq κ] {table : List (κ × β)} {key : κ} {value : β}

theorem mem_of_lookup (h : table.lookup key = some value) : (key, value) ∈ table := by
  obtain ⟨front, back, rfl, -⟩ := List.lookup_eq_some_iff.1 h
  exact List.mem_append_right _ List.mem_cons_self

theorem mem_keys_of_lookup : key ∈ table.map (·.1) ↔ ∃ value, table.lookup key = some value := by
  induction table with
  | nil => simp
  | cons x table ih =>
    rw [List.map_cons, List.mem_cons, ih, List.lookup_cons]
    split
    · rename_i h
      simp [eq_of_beq h]
    · rename_i h
      have hne : key ≠ x.1 := by simpa using h
      simp [hne]

/-- With distinct keys, each pair of a table is found. -/
theorem lookup_of_mem (hnodup : (table.map (·.1)).Nodup) (h : (key, value) ∈ table) :
    table.lookup key = some value := by
  induction table with
  | nil => cases h
  | cons x table ih =>
    rw [List.map_cons, List.nodup_cons] at hnodup
    rw [List.lookup_cons]
    rcases List.mem_cons.1 h with rfl | h
    · simp
    · have hne : key ≠ x.1 := by
        rintro rfl
        exact hnodup.1 (List.mem_map.2 ⟨(x.1, value), h, rfl⟩)
      rw [beq_eq_false_iff_ne.2 hne]
      exact ih hnodup.2 h

end Table

/-! ## Sorted lists -/

section Sorted

variable {α : Type} {le : α → α → Bool}

theorem insertSorted_eq (x : α) (xs : List α) :
    insertSorted le x xs = xs.orderedInsert (fun a b => le a b = true) x := by
  induction xs with
  | nil => rfl
  | cons y ys ih => rw [insertSorted, List.orderedInsert_cons, ih]

theorem sorted_eq_insertionSort (xs : List α) :
    sorted le xs = xs.insertionSort fun a b => le a b = true := by
  induction xs with
  | nil => rfl
  | cons x xs ih => rw [sorted, List.insertionSort_cons, insertSorted_eq, ih]

theorem sorted_perm (xs : List α) : (sorted le xs).Perm xs := by
  rw [sorted_eq_insertionSort]
  exact List.perm_insertionSort _ xs

section Comparison

variable {cmp : α → α → Ordering} [Std.TransCmp cmp]

theorem pairwise_sorted (xs : List α) :
    (sorted (fun a b => (cmp a b).isLE) xs).Pairwise fun a b => (cmp a b).isLE = true := by
  let r : α → α → Prop := fun a b => (cmp a b).isLE = true
  have htotal : Std.Total r := ⟨fun a b => by
    rcases hc : cmp a b with _ | _ | _
    · exact Or.inl (by simp [r, hc])
    · exact Or.inl (by simp [r, hc])
    · have hswap : cmp b a = (cmp a b).swap := Std.OrientedCmp.eq_swap
      exact Or.inr (by simp [r, hswap, hc])⟩
  have htrans : IsTrans α r := ⟨fun a b c => Std.TransCmp.isLE_trans⟩
  rw [sorted_eq_insertionSort]
  exact List.pairwise_insertionSort r xs

/-- Lists with the same elements are the same in order. -/
theorem sorted_eq_sorted_iff [Std.LawfulEqCmp cmp] {xs ys : List α} :
    sorted (fun a b => (cmp a b).isLE) xs = sorted (fun a b => (cmp a b).isLE) ys ↔ xs.Perm ys := by
  constructor
  · intro h
    exact (sorted_perm xs).symm.trans (h ▸ sorted_perm ys)
  · intro h
    have hperm : (sorted (fun a b => (cmp a b).isLE) xs).Perm
        (sorted (fun a b => (cmp a b).isLE) ys) :=
      ((sorted_perm xs).trans h).trans (sorted_perm ys).symm
    refine hperm.eq_of_pairwise (fun a b _ _ hab hba => ?_) (pairwise_sorted xs)
      (pairwise_sorted ys)
    exact Std.LawfulEqCmp.eq_of_compare (Std.OrientedCmp.isLE_antisymm hab hba)

end Comparison

end Sorted

end Wadl
