import Mathlib.Data.List.Perm.Subperm
import Mathlib.Logic.Function.Basic

/-!
# Items that go through lanes

Items are begun and done; each goes through its lane, and a lane has one item at a time.

* `InLanes`           in every lane the items are done in the order in which they were begun;
* `InLanes.subperm`   nothing is done that was not begun, and nothing twice;
* `InLanes.perm`      with no lane in use, everything is done;
* `InLanes.isPrefix`  the items of one lane are done in order.
-/

namespace VncProxy

variable {ι α : Type} [DecidableEq ι] {lane : α → ι} {begun done : List α} {pending : ι → Option α}

/-- what is done in a lane and what is in it are what was begun in it -/
def InLanes (lane : α → ι) (begun done : List α) (pending : ι → Option α) : Prop :=
  ∀ i, done.filter (lane · = i) ++ (pending i).toList = begun.filter (lane · = i)

theorem InLanes.nil (lane : α → ι) : InLanes lane [] [] fun _ => none := fun _ => rfl

theorem InLanes.mem_begun (hi : InLanes lane begun done pending) {x : α}
    (hx : x ∈ done ∨ ∃ i, pending i = some x) : x ∈ begun := by
  rcases hx with hx | ⟨i, hx⟩
  · have hmem : x ∈ done.filter (lane · = lane x) ++ (pending (lane x)).toList :=
      List.mem_append_left _ (List.mem_filter.mpr ⟨hx, by simp⟩)
    rw [hi] at hmem
    exact (List.mem_filter.mp hmem).1
  · have hmem : x ∈ done.filter (lane · = i) ++ (pending i).toList := by
      rw [hx]
      simp
    rw [hi] at hmem
    exact (List.mem_filter.mp hmem).1

theorem InLanes.lane_eq (hi : InLanes lane begun done pending) {x : α} {i : ι}
    (hx : pending i = some x) : lane x = i := by
  have hmem : x ∈ done.filter (lane · = i) ++ (pending i).toList := by
    rw [hx]
    simp
  rw [hi] at hmem
  exact of_decide_eq_true (List.mem_filter.mp hmem).2

theorem InLanes.begin (hi : InLanes lane begun done pending) {x : α}
    (hfree : pending (lane x) = none) :
    InLanes lane (begun ++ [x]) done (Function.update pending (lane x) (some x)) := by
  intro i
  by_cases h : lane x = i
  · subst h
    have hlane := hi (lane x)
    rw [hfree] at hlane
    rw [Function.update_self, List.filter_append, ← hlane]
    simp
  · rw [Function.update_of_ne (Ne.symm h), List.filter_append, hi i]
    simp [h]

theorem InLanes.finish (hi : InLanes lane begun done pending) {x : α} {i : ι}
    (hx : pending i = some x) :
    InLanes lane begun (done ++ [x]) (Function.update pending i none) := by
  have hlane := hi.lane_eq hx
  intro j
  by_cases h : j = i
  · subst h
    have hj := hi j
    rw [hx] at hj
    rw [Function.update_self, List.filter_append, ← hj]
    simp [hlane]
  · rw [Function.update_of_ne h, List.filter_append, ← hi j]
    simp [hlane, Ne.symm h]

/-- **Nothing is done that was not begun, and nothing twice.** -/
theorem InLanes.subperm [DecidableEq α] (hi : InLanes lane begun done pending) : done.Subperm begun := by
  rw [List.subperm_ext_iff]
  intro x _
  have hlane := congrArg (List.count x) (hi (lane x))
  rw [List.count_append, List.count_filter (by simp), List.count_filter (by simp)] at hlane
  omega

/-- **With no lane in use, everything is done.** -/
theorem InLanes.perm [DecidableEq α] (hi : InLanes lane begun done pending)
    (hfree : ∀ i, pending i = none) : done.Perm begun := by
  rw [List.perm_iff_count]
  intro x
  have hlane := congrArg (List.count x) (hi (lane x))
  rw [hfree, Option.toList_none, List.append_nil, List.count_filter (by simp),
    List.count_filter (by simp)] at hlane
  exact hlane

/-- **The items of one lane are done in order**, with the one that is in it behind them. -/
theorem InLanes.ordered (hi : InLanes lane begun done pending) {i : ι} {p : α → Bool}
    (hp : ∀ x ∈ begun, p x = true → lane x = i) :
    done.filter p ++ (pending i).toList.filter p = begun.filter p := by
  have hlane := congrArg (List.filter p) (hi i)
  rw [List.filter_append, List.filter_filter, List.filter_filter] at hlane
  have hall : ∀ l : List α, (∀ x ∈ l, x ∈ begun) →
      l.filter (fun x => p x && decide (lane x = i)) = l.filter p := by
    intro l hl
    refine List.filter_congr fun x hx => ?_
    cases hpx : p x with
    | false => rfl
    | true => simp [hp x (hl x hx) hpx]
  rw [hall done fun x hx => hi.mem_begun (.inl hx), hall begun fun x hx => hx] at hlane
  exact hlane

theorem InLanes.isPrefix (hi : InLanes lane begun done pending) {i : ι} {p : α → Bool}
    (hp : ∀ x ∈ begun, p x = true → lane x = i) : done.filter p <+: begun.filter p :=
  ⟨_, hi.ordered hp⟩

end VncProxy
