import Mathlib.Algebra.BigOperators.Group.Finset.Piecewise
import Mathlib.Algebra.Order.BigOperators.Group.Finset
import Mathlib.Data.Fintype.Basic

/-!
Sums over finitely many parties of which one changes its share.
-/

namespace Xv6.Lib.Sum

open Function

variable {ι M : Type} [Fintype ι] [DecidableEq ι]

lemma sum_update [AddCommMonoid M] (f : ι → M) (i : ι) (v : M) :
    (∑ k, update f i v k) + f i = (∑ k, f k) + v := by
  rw [Finset.sum_update_of_mem (Finset.mem_univ i),
    Finset.sum_eq_add_sum_sdiff_singleton_of_mem (Finset.mem_univ i) f]
  ac_rfl

omit [DecidableEq ι] in
lemma le_sum (f : ι → ℕ) (i : ι) : f i ≤ ∑ k, f k :=
  Finset.single_le_sum (fun _ _ => Nat.zero_le _) (Finset.mem_univ i)

lemma add_le_sum (f : ι → ℕ) {i j : ι} (hij : i ≠ j) : f i + f j ≤ ∑ k, f k := by
  rw [← Finset.sum_pair hij]
  exact Finset.sum_le_sum_of_subset (Finset.subset_univ _)

end Xv6.Lib.Sum
