import Mathlib.Data.List.Sort

/-!
# Ranks

The elements of a list from the largest down. The one at index `k` is the largest value that
more than `k` elements of the list reach.
-/

namespace Ranking

variable {α : Type*} [LinearOrder α]

/-- The elements from the largest down. -/
def descending (xs : List α) : List α := xs.insertionSort (· ≥ ·)

theorem length_descending (xs : List α) : (descending xs).length = xs.length :=
  List.length_insertionSort _ xs

/-- In a list from the largest down, the elements that reach `m` come first. -/
theorem le_iff_of_sorted {xs : List α} (hs : xs.Pairwise (· ≥ ·)) {k : Nat} {x m : α}
    (hx : xs[k]? = some x) : m ≤ x ↔ k < xs.countP fun y => m ≤ y := by
  induction xs generalizing k with
  | nil => cases hx
  | cons y ys ih =>
      obtain ⟨hy, hs⟩ := List.pairwise_cons.mp hs
      have hcount : (y :: ys).countP (fun z => m ≤ z) =
          ys.countP (fun z => m ≤ z) + if m ≤ y then 1 else 0 := by
        simp [List.countP_cons]
      rw [hcount]
      cases k with
      | zero =>
          obtain rfl := Option.some.inj hx
          by_cases hm : m ≤ y
          · simp [hm]
          · have hnone : ys.countP (fun z => m ≤ z) = 0 := by
              rw [List.countP_eq_zero]
              intro z hz hmz
              exact hm (le_trans (of_decide_eq_true hmz) (hy z hz))
            simp [hm, hnone]
      | succ k =>
          have hx : ys[k]? = some x := hx
          have hxy : x ≤ y := hy x (List.mem_of_getElem? hx)
          rw [ih hs hx]
          constructor
          · intro hk
            have hm : m ≤ y := le_trans ((ih hs hx).mpr hk) hxy
            simp only [hm, if_true]
            omega
          · intro hk
            split at hk <;> omega

/-- **The element of rank `k`** is the largest value that more than `k` elements reach. -/
theorem le_iff {xs : List α} {k : Nat} {x m : α} (hx : (descending xs)[k]? = some x) :
    m ≤ x ↔ k < xs.countP fun y => m ≤ y := by
  have hperm : (descending xs).Perm xs := List.perm_insertionSort _ xs
  rw [← hperm.countP_eq]
  exact le_iff_of_sorted (List.pairwise_insertionSort _ xs) hx

end Ranking
