import Mathlib.Data.List.Basic
import Mathlib.Data.List.Infix
import Mathlib.Data.List.TakeDrop
import Mathlib.Logic.Function.Basic

/-!
# Workers on one queue

A stream of entries goes through a queue from which `n` workers take, and every worker puts out its
entry when it likes.  An entry is known by its place in the input.

* `Workers.Step`        an entry is put in or lost, taken, put out or thrown away;
* `Workers.InTurn`      the worker's entry is the first of those taken, and none was lost;
* `Workers.Ok.output`   the output is a prefix of the input as long as entries are put out in turn.
-/

namespace VncProxy

structure Workers (α : Type) (n : Nat) where
  input : List α
  lost : Bool
  waiting : List Nat
  held : Fin n → Option Nat
  output : List α

namespace Workers

variable {α : Type} {n : Nat}

def new : Workers α n := ⟨[], false, [], fun _ => none, []⟩

/-- worker `i` may put out entry `k` -/
def InTurn (w : Workers α n) (i : Fin n) (k : Nat) : Prop :=
  w.lost = false ∧ ∀ j, j ≠ i → ∀ k' ∈ w.held j, k < k'

inductive Step : Workers α n → Workers α n → Prop
  | put (w : Workers α n) (a : α) :
      Step w { w with input := w.input ++ [a], waiting := w.waiting ++ [w.input.length] }
  | lose (w : Workers α n) (a : α) : Step w { w with input := w.input ++ [a], lost := true }
  | take (w : Workers α n) (i : Fin n) (k : Nat) (l : List Nat) (hi : w.held i = none)
      (hl : w.waiting = k :: l) :
      Step w { w with waiting := l, held := Function.update w.held i (some k) }
  | drop (w : Workers α n) (i : Fin n) :
      Step w { w with held := Function.update w.held i none, lost := true }
  | give (w : Workers α n) (i : Fin n) (k : Nat) (a : α) (hi : w.held i = some k)
      (ha : w.input[k]? = some a) (hturn : w.InTurn i k) :
      Step w { w with held := Function.update w.held i none, output := w.output ++ [a] }

/-- the entries not yet put out are known, in the order of the input, and behind the output -/
structure Ok (w : Workers α n) : Prop where
  sorted : w.waiting.Pairwise (· < ·)
  waiting : ∀ k ∈ w.waiting, w.output.length ≤ k ∧ k < w.input.length
  held : ∀ i, ∀ k ∈ w.held i, w.output.length ≤ k ∧ k < w.input.length
  before : ∀ i, ∀ k ∈ w.held i, ∀ k' ∈ w.waiting, k < k'
  distinct : ∀ i j, ∀ k ∈ w.held i, k ∈ w.held j → i = j
  output : w.output = w.input.take w.output.length
  all : w.lost = false → ∀ k, w.output.length ≤ k → k < w.input.length →
    k ∈ w.waiting ∨ ∃ i, k ∈ w.held i

theorem Ok.isPrefix {w : Workers α n} (h : w.Ok) : w.output <+: w.input := by
  rw [h.output]
  exact List.take_prefix _ _

theorem Ok.length_le {w : Workers α n} (h : w.Ok) : w.output.length ≤ w.input.length :=
  h.isPrefix.length_le

theorem Ok.inTurn {w : Workers α n} (h : w.Ok) {i : Fin n} {k : Nat} (hi : k ∈ w.held i)
    (hturn : w.InTurn i k) : k = w.output.length := by
  obtain ⟨hle, hlt⟩ := h.held i k hi
  by_contra hne
  have hq : w.output.length < k := by omega
  rcases h.all hturn.1 w.output.length (Nat.le_refl _) (Nat.lt_trans hq hlt) with hw | ⟨j, hj⟩
  · exact absurd (h.before i k hi _ hw) (by omega)
  · by_cases hji : j = i
    · subst hji
      have : w.output.length = k := Option.some.inj (hj.symm.trans hi)
      omega
    · exact absurd (hturn.2 j hji _ hj) (by omega)

theorem mem_update {held : Fin n → Option Nat} {i j : Fin n} {o : Option Nat} {k : Nat}
    (h : k ∈ Function.update held i o j) : (j = i ∧ k ∈ o) ∨ (j ≠ i ∧ k ∈ held j) := by
  by_cases hji : j = i
  · subst hji
    rw [Function.update_self (β := fun _ => Option Nat)] at h
    exact Or.inl ⟨rfl, h⟩
  · rw [Function.update_of_ne (β := fun _ => Option Nat) hji] at h
    exact Or.inr ⟨hji, h⟩

theorem Ok.put {w : Workers α n} (h : w.Ok) (a : α) :
    Ok { w with input := w.input ++ [a], waiting := w.waiting ++ [w.input.length] } := by
  have hlen : (w.input ++ [a]).length = w.input.length + 1 := List.length_append
  refine ⟨?_, fun k hk => ?_, fun i k hk => ?_, fun i k hk k' hk' => ?_, h.distinct, ?_,
    fun hl k h1 h2 => ?_⟩
  · refine List.pairwise_append.mpr ⟨h.sorted, List.pairwise_singleton _ _, fun k hk k' hk' => ?_⟩
    rw [List.mem_singleton.mp hk']
    exact (h.waiting k hk).2
  · show w.output.length ≤ k ∧ k < (w.input ++ [a]).length
    rw [hlen]
    rcases List.mem_append.mp hk with hk | hk
    · exact ⟨(h.waiting k hk).1, Nat.lt_succ_of_lt (h.waiting k hk).2⟩
    · rw [List.mem_singleton.mp hk]
      exact ⟨h.length_le, Nat.lt_succ_self _⟩
  · show w.output.length ≤ k ∧ k < (w.input ++ [a]).length
    rw [hlen]
    exact ⟨(h.held i k hk).1, Nat.lt_succ_of_lt (h.held i k hk).2⟩
  · rcases List.mem_append.mp hk' with hk' | hk'
    · exact h.before i k hk k' hk'
    · rw [List.mem_singleton.mp hk']
      exact (h.held i k hk).2
  · show w.output = (w.input ++ [a]).take w.output.length
    rw [List.take_append_of_le_length h.length_le]
    exact h.output
  · have h2' : k < w.input.length + 1 := hlen ▸ h2
    by_cases hk : k < w.input.length
    · rcases h.all hl k h1 hk with hw | hj
      · exact Or.inl (List.mem_append_left _ hw)
      · exact Or.inr hj
    · left
      rw [show k = w.input.length by omega]
      exact List.mem_append_right _ (List.mem_singleton_self _)

theorem Ok.lose {w : Workers α n} (h : w.Ok) (a : α) :
    Ok { w with input := w.input ++ [a], lost := true } := by
  have hlen : (w.input ++ [a]).length = w.input.length + 1 := List.length_append
  refine ⟨h.sorted, fun k hk => ?_, fun i k hk => ?_, h.before, h.distinct, ?_,
    fun hl => absurd hl (by simp)⟩
  · exact ⟨(h.waiting k hk).1, by
      show k < (w.input ++ [a]).length
      rw [hlen]
      exact Nat.lt_succ_of_lt (h.waiting k hk).2⟩
  · exact ⟨(h.held i k hk).1, by
      show k < (w.input ++ [a]).length
      rw [hlen]
      exact Nat.lt_succ_of_lt (h.held i k hk).2⟩
  · show w.output = (w.input ++ [a]).take w.output.length
    rw [List.take_append_of_le_length h.length_le]
    exact h.output

theorem Ok.take {w : Workers α n} (h : w.Ok) {i : Fin n} {k : Nat} {l : List Nat}
    (hi : w.held i = none) (hl : w.waiting = k :: l) :
    Ok { w with waiting := l, held := Function.update w.held i (some k) } := by
  have hk : k ∈ w.waiting := hl ▸ List.mem_cons_self
  have hmem : ∀ k' ∈ l, k' ∈ w.waiting := fun k' h' => hl ▸ List.mem_cons_of_mem _ h'
  have hsorted := h.sorted
  rw [hl, List.pairwise_cons] at hsorted
  refine ⟨hsorted.2, fun k' h' => h.waiting k' (hmem k' h'), fun j k' h' => ?_,
    fun j k' h' k'' h'' => ?_, fun j j' k' h' h'' => ?_, h.output, fun hlost k' h1 h2 => ?_⟩
  · rcases mem_update h' with ⟨_, h'⟩ | ⟨_, h'⟩
    · exact Option.some.inj h' ▸ h.waiting k hk
    · exact h.held j k' h'
  · rcases mem_update h' with ⟨_, h'⟩ | ⟨_, h'⟩
    · exact Option.some.inj h' ▸ hsorted.1 k'' h''
    · exact h.before j k' h' k'' (hmem k'' h'')
  · rcases mem_update h' with ⟨rfl, h1⟩ | ⟨_, h1⟩
    · rcases mem_update h'' with ⟨rfl, _⟩ | ⟨_, h2⟩
      · rfl
      · have hlt := h.before j' k' h2 k hk
        rw [Option.some.inj h1] at hlt
        exact absurd hlt (Nat.lt_irrefl _)
    · rcases mem_update h'' with ⟨rfl, h2⟩ | ⟨_, h2⟩
      · have hlt := h.before j k' h1 k hk
        rw [Option.some.inj h2] at hlt
        exact absurd hlt (Nat.lt_irrefl _)
      · exact h.distinct j j' k' h1 h2
  · rcases h.all hlost k' h1 h2 with hw | ⟨j, hj⟩
    · rw [hl] at hw
      rcases List.mem_cons.mp hw with rfl | hw
      · exact Or.inr ⟨i, Function.update_self (β := fun _ => Option Nat) i (some k') w.held⟩
      · exact Or.inl hw
    · have hji : j ≠ i := by
        rintro rfl
        rw [hi] at hj
        exact absurd hj (by simp)
      refine Or.inr ⟨j, ?_⟩
      show k' ∈ Function.update w.held i (some k) j
      rw [Function.update_of_ne (β := fun _ => Option Nat) hji]
      exact hj

theorem Ok.drop {w : Workers α n} (h : w.Ok) (i : Fin n) :
    Ok { w with held := Function.update w.held i none, lost := true } := by
  have hkeep : ∀ j k, k ∈ Function.update w.held i none j → k ∈ w.held j := by
    intro j k hk
    rcases mem_update hk with ⟨_, hk⟩ | ⟨_, hk⟩
    · exact absurd hk (by simp)
    · exact hk
  exact ⟨h.sorted, h.waiting, fun j k hk => h.held j k (hkeep j k hk),
    fun j k hk => h.before j k (hkeep j k hk),
    fun j j' k hk hk' => h.distinct j j' k (hkeep j k hk) (hkeep j' k hk'), h.output,
    fun hl => absurd hl (by simp)⟩

theorem Ok.give {w : Workers α n} (h : w.Ok) {i : Fin n} {k : Nat} {a : α}
    (hi : w.held i = some k) (ha : w.input[k]? = some a) (hturn : w.InTurn i k) :
    Ok { w with held := Function.update w.held i none, output := w.output ++ [a] } := by
  have hk : k = w.output.length := h.inTurn hi hturn
  have hlen : (w.output ++ [a]).length = k + 1 := by rw [hk]; exact List.length_append
  refine ⟨h.sorted, fun k' h' => ?_, fun j k' h' => ?_, fun j k' h' => ?_,
    fun j j' k' h' h'' => ?_, ?_, fun hl k' h1 h2 => ?_⟩
  · refine ⟨?_, (h.waiting k' h').2⟩
    show (w.output ++ [a]).length ≤ k'
    rw [hlen]
    exact h.before i k hi k' h'
  · rcases mem_update h' with ⟨_, h'⟩ | ⟨hj, h'⟩
    · exact absurd h' (by simp)
    · refine ⟨?_, (h.held j k' h').2⟩
      show (w.output ++ [a]).length ≤ k'
      rw [hlen]
      exact hturn.2 j hj k' h'
  · rcases mem_update h' with ⟨_, h'⟩ | ⟨_, h'⟩
    · exact absurd h' (by simp)
    · exact h.before j k' h'
  · rcases mem_update h' with ⟨_, h1⟩ | ⟨_, h1⟩
    · exact absurd h1 (by simp)
    · rcases mem_update h'' with ⟨_, h2⟩ | ⟨_, h2⟩
      · exact absurd h2 (by simp)
      · exact h.distinct j j' k' h1 h2
  · show w.output ++ [a] = w.input.take (w.output ++ [a]).length
    rw [hlen, List.take_add_one, ha, hk, ← h.output]
    rfl
  · have h1' : k + 1 ≤ k' := hlen ▸ h1
    rcases h.all hl k' (by omega) h2 with hw | ⟨j, hj⟩
    · exact Or.inl hw
    · have hji : j ≠ i := by
        rintro rfl
        have : k' = k := Option.some.inj (hj.symm.trans hi)
        omega
      refine Or.inr ⟨j, ?_⟩
      show k' ∈ Function.update w.held i none j
      rw [Function.update_of_ne (β := fun _ => Option Nat) hji]
      exact hj

/-- **A step keeps the output a prefix of the input.** -/
theorem Ok.step {w w' : Workers α n} (h : w.Ok) (hstep : Step w w') : w'.Ok := by
  cases hstep with
  | put a => exact h.put a
  | lose a => exact h.lose a
  | take i k l hi hl => exact h.take hi hl
  | drop i => exact h.drop i
  | give i k a hi ha hturn => exact h.give hi ha hturn

theorem Ok.new : Ok (Workers.new : Workers α n) := by
  have hheld : ∀ i k, k ∉ (Workers.new : Workers α n).held i := fun i k h =>
    absurd (show (none : Option Nat) = some k from h) (by simp)
  exact ⟨List.Pairwise.nil, fun _ h => absurd h List.not_mem_nil, fun i k h => absurd h (hheld i k),
    fun i k h => absurd h (hheld i k), fun i _ k h => absurd h (hheld i k), rfl,
    fun _ _ _ h => absurd h (Nat.not_lt_zero _)⟩

end Workers

end VncProxy
