import Mathlib.Logic.Function.Basic

/-!
# Threads and one mutex

`inside` says whether a thread that stands at `pc` is between `lock` and `unlock`.

* `Guarded`   the holder of the mutex is the thread that is inside, and no other thread is;
* `Guarded.stay`, `Guarded.enter`, `Guarded.leave`  the three ways a thread moves.
-/

namespace VncProxy

variable {ι σ : Type} [DecidableEq ι] {inside : σ → Bool} {g : ι → σ} {holder : Option ι}

def Guarded (inside : σ → Bool) (g : ι → σ) (holder : Option ι) : Prop :=
  ∀ i, inside (g i) = true ↔ holder = some i

omit [DecidableEq ι] in
/-- **No two threads are inside.** -/
theorem Guarded.unique (h : Guarded inside g holder) {i j : ι} (hi : inside (g i) = true)
    (hj : inside (g j) = true) : i = j :=
  Option.some.inj (((h i).mp hi).symm.trans ((h j).mp hj))

omit [DecidableEq ι] in
theorem Guarded.other (h : Guarded inside g holder) {i j : ι} (hi : inside (g i) = true)
    (hj : j ≠ i) : inside (g j) = false :=
  Bool.eq_false_iff.mpr fun hin => hj (h.unique hin hi)

theorem Guarded.stay (h : Guarded inside g holder) {i : ι} {v : σ} (hv : inside v = inside (g i)) :
    Guarded inside (Function.update g i v) holder := by
  intro j
  by_cases hj : j = i
  · subst hj
    rw [Function.update_self, hv]
    exact h j
  · rw [Function.update_of_ne hj]
    exact h j

theorem Guarded.enter (h : Guarded inside g none) {i : ι} {v : σ} (hv : inside v = true) :
    Guarded inside (Function.update g i v) (some i) := by
  intro j
  by_cases hj : j = i
  · subst hj
    rw [Function.update_self]
    exact ⟨fun _ => rfl, fun _ => hv⟩
  · rw [Function.update_of_ne hj]
    refine ⟨fun hin => ?_, fun he => absurd (Option.some.inj he).symm hj⟩
    cases (h j).mp hin

theorem Guarded.leave (h : Guarded inside g holder) {i : ι} {v : σ} (hi : inside (g i) = true)
    (hv : inside v = false) : Guarded inside (Function.update g i v) none := by
  intro j
  refine ⟨fun hin => ?_, nofun⟩
  by_cases hj : j = i
  · subst hj
    rw [Function.update_self, hv] at hin
    cases hin
  · rw [Function.update_of_ne hj, h.other hi hj] at hin
    cases hin

end VncProxy
