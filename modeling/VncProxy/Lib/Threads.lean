import Mathlib.Algebra.BigOperators.Fin

/-!
# What the threads of a pool hold together

`∑ i, f (g i)` for the states `g i` of the threads.  One thread is split off, so that a step of it
changes one summand.
-/

namespace VncProxy

variable {n : Nat} {σ M : Type} [AddCommMonoid M]

theorem sum_threads (f : σ → M) (g : Fin n → σ) (i : Fin n) :
    ∑ j, f (g j) = f (g i) + ∑ j ∈ Finset.univ.erase i, f (g j) :=
  (Finset.add_sum_erase Finset.univ (fun j => f (g j)) (Finset.mem_univ i)).symm

theorem sum_threads_update (f : σ → M) (g : Fin n → σ) (i : Fin n) (v : σ) :
    ∑ j, f (Function.update g i v j) = f v + ∑ j ∈ Finset.univ.erase i, f (g j) := by
  rw [sum_threads f (Function.update g i v) i, Function.update_self]
  congr 1
  apply Finset.sum_congr rfl
  intro j hj
  rw [Function.update_of_ne (Finset.ne_of_mem_erase hj)]

end VncProxy
