import Mathlib.Data.List.Pairwise
import Mathlib.Logic.Function.Basic
import Mathlib.Order.WellFounded
import VncProxy.Lib.Run

/-!
# Locks taken in order

Threads run programs of which only the locking is kept; every branch may be taken and every loop may
be left at any time.  The mutexes are not recursive: a thread that locks one it holds waits for ever.

* `Prog μ`, `Conf.step`     the programs over the mutexes `μ` and one step of a thread;
* `Deadlock c`              some threads all wait for mutexes held among themselves;
* `Ordered rank h p h'`     `p` takes only mutexes above all it holds, and releases the last one taken
                            first; it is entered holding `h` and left holding `h'`;
* `Conf.Inv.step`           every thread keeps to the order;
* `Conf.Inv.not_deadlocked`  so no threads deadlock, whatever their number.
-/

namespace VncProxy.Locks

inductive Prog (μ : Type) where
  | skip
  | lock (m : μ)
  | unlock (m : μ)
  | seq (p q : Prog μ)
  /-- one of two branches -/
  | alt (p q : Prog μ)
  /-- the same for any object -/
  | pick (f : Nat → Prog μ)
  /-- any number of rounds -/
  | rep (p : Prog μ)

/-- `p` under the mutex `m` -/
def Prog.under {μ : Type} (m : μ) (p : Prog μ) : Prog μ := .seq (.lock m) (.seq p (.unlock m))

/-! ## the order -/

section
variable {μ ρ : Type} [Preorder ρ] {rank : μ → ρ}

/-- entered holding `h`, the last mutex taken first, and left holding `h'` -/
inductive Ordered (rank : μ → ρ) : List μ → Prog μ → List μ → Prop
  | skip (h : List μ) : Ordered rank h .skip h
  | lock {h : List μ} {m : μ} (hm : ∀ x ∈ h, rank x < rank m) : Ordered rank h (.lock m) (m :: h)
  | unlock (m : μ) (h : List μ) : Ordered rank (m :: h) (.unlock m) h
  | seq {h h' h'' : List μ} {p q : Prog μ} (hp : Ordered rank h p h') (hq : Ordered rank h' q h'') :
      Ordered rank h (.seq p q) h''
  | alt {h h' : List μ} {p q : Prog μ} (hp : Ordered rank h p h') (hq : Ordered rank h q h') :
      Ordered rank h (.alt p q) h'
  | pick {h h' : List μ} {f : Nat → Prog μ} (hf : ∀ n, Ordered rank h (f n) h') :
      Ordered rank h (.pick f) h'
  | rep {h : List μ} {p : Prog μ} (hp : Ordered rank h p h) : Ordered rank h (.rep p) h

theorem Ordered.under {h : List μ} {m : μ} {p : Prog μ} (hm : ∀ x ∈ h, rank x < rank m)
    (hp : Ordered rank (m :: h) p (m :: h)) : Ordered rank h (.under m p) h :=
  .seq (.lock hm) (.seq hp (.unlock m h))

/-- the rest of a thread's program releases all it holds -/
inductive Nested (rank : μ → ρ) : List μ → List (Prog μ) → Prop
  | done : Nested rank [] []
  | cons {h h' : List μ} {p : Prog μ} {k : List (Prog μ)} (hp : Ordered rank h p h')
      (hk : Nested rank h' k) : Nested rank h (p :: k)

/-- programs that hold nothing at their start and at their end -/
theorem Nested.start {l : List (Prog μ)} (h : ∀ p ∈ l, Ordered rank [] p []) : Nested rank [] l := by
  induction l with
  | nil => exact .done
  | cons p l ih =>
    obtain ⟨hp, hl⟩ := List.forall_mem_cons.mp h
    exact .cons hp (ih hl)

theorem Nested.head {h : List μ} {p : Prog μ} {k : List (Prog μ)} (hn : Nested rank h (p :: k)) :
    ∃ h', Ordered rank h p h' ∧ Nested rank h' k := by
  cases hn with | cons hp hk => exact ⟨_, hp, hk⟩

theorem Nested.lock {h : List μ} {m : μ} {k : List (Prog μ)} (hn : Nested rank h (.lock m :: k)) :
    (∀ x ∈ h, rank x < rank m) ∧ Nested rank (m :: h) k := by
  obtain ⟨h', hp, hk⟩ := hn.head
  cases hp with | lock hm => exact ⟨hm, hk⟩

theorem Nested.unlock {h : List μ} {m : μ} {k : List (Prog μ)}
    (hn : Nested rank h (.unlock m :: k)) : ∃ h', h = m :: h' ∧ Nested rank h' k := by
  obtain ⟨h', hp, hk⟩ := hn.head
  cases hp with | unlock => exact ⟨h', rfl, hk⟩

theorem Nested.branch {h : List μ} {p : Prog μ} {k : List (Prog μ)} (hn : Nested rank h (p :: k))
    (n : Nat) : match p with
      | .skip => Nested rank h k
      | .seq p q => Nested rank h (p :: q :: k)
      | .alt p q => Nested rank h ((if n = 0 then p else q) :: k)
      | .pick f => Nested rank h (f n :: k)
      | .rep p => Nested rank h (if n = 0 then k else p :: .rep p :: k)
      | _ => True := by
  obtain ⟨h', hp, hk⟩ := hn.head
  cases hp with
  | skip => exact hk
  | lock hm => exact trivial
  | unlock => exact trivial
  | seq hp hq => exact .cons hp (.cons hq hk)
  | alt hp hq =>
    dsimp only
    split
    · exact .cons hp hk
    · exact .cons hq hk
  | pick hf => exact .cons (hf n) hk
  | rep hp =>
    dsimp only
    split
    · exact hk
    · exact .cons hp (.cons (.rep hp) hk)

end

/-! ## the threads -/

section
variable {ι μ ρ : Type} [Preorder ρ] {rank : μ → ρ}

/-- `control i` is what the thread `i` has still to do -/
structure Conf (ι μ : Type) where
  owner : μ → Option ι
  control : ι → List (Prog μ)

def Conf.start (control : ι → List (Prog μ)) : Conf ι μ := ⟨fun _ => none, control⟩

/-- the thread is before `lock m` -/
def Conf.WaitsFor (c : Conf ι μ) (i : ι) (m : μ) : Prop := ∃ k, c.control i = .lock m :: k

/-- a set of threads each of which waits for a mutex that one of them holds -/
def Deadlock (c : Conf ι μ) : Prop :=
  ∃ S : Set ι, S.Nonempty ∧ ∀ i ∈ S, ∃ m, c.WaitsFor i m ∧ ∃ j ∈ S, c.owner m = some j

/-- `held i` are the mutexes that `i` holds, the last one taken first -/
structure Conf.Holds (c : Conf ι μ) (rank : μ → ρ) (held : ι → List μ) : Prop where
  nested : ∀ i, Nested rank (held i) (c.control i)
  sorted : ∀ i, (held i).Pairwise fun a b => rank b < rank a
  owner : ∀ i m, m ∈ held i ↔ c.owner m = some i

/-- every thread keeps to the order -/
def Conf.Inv (c : Conf ι μ) (rank : μ → ρ) : Prop := ∃ held, c.Holds rank held

theorem Conf.Inv.start {control : ι → List (Prog μ)}
    (h : ∀ i, ∀ p ∈ control i, Ordered rank [] p []) : (Conf.start control).Inv rank :=
  ⟨fun _ => [], fun i => .start (h i), fun _ => .nil, fun i m =>
    ⟨fun hm => absurd hm List.not_mem_nil, fun ho => absurd ho (by simp [Conf.start])⟩⟩

/-- **Threads that keep to the order never deadlock**: of the mutexes that are waited for, take one
of the highest rank; its holder would wait for a higher one. -/
theorem Conf.Inv.not_deadlocked [WellFoundedGT ρ] {c : Conf ι μ} (hc : c.Inv rank) :
    ¬ Deadlock c := by
  obtain ⟨held, hc⟩ := hc
  rintro ⟨S, ⟨i, hi⟩, hS⟩
  obtain ⟨m, hm, _⟩ := hS i hi
  let waited : Set ρ := {r | ∃ i ∈ S, ∃ m, c.WaitsFor i m ∧ rank m = r}
  obtain ⟨_, ⟨i, hi, m, hm, rfl⟩, hmax⟩ :=
    wellFounded_gt.has_min waited ⟨rank m, i, hi, m, hm, rfl⟩
  obtain ⟨m', hm', j, hj, howner⟩ := hS i hi
  obtain rfl : m = m' := by
    obtain ⟨k, hk⟩ := hm
    obtain ⟨k', hk'⟩ := hm'
    rw [hk] at hk'
    injection hk' with hk' _
    injection hk'
  obtain ⟨m', ⟨k, hk⟩, _⟩ := hS j hj
  refine hmax (rank m') ⟨j, hj, m', ⟨k, hk⟩, rfl⟩ ?_
  have hn := hc.nested j
  rw [hk] at hn
  exact hn.lock.1 m ((hc.owner j m).mpr howner)

/-! ## a step -/

variable [DecidableEq ι]

def Conf.goto (c : Conf ι μ) (i : ι) (k : List (Prog μ)) : Conf ι μ :=
  { c with control := Function.update c.control i k }

theorem forall_update {α : Type} {f : ι → α} {P : ι → α → Prop} (h : ∀ j, P j (f j)) {i : ι} {x : α}
    (hi : P i x) : ∀ j, P j (Function.update f i x j) :=
  (Function.forall_update_iff f P).mpr ⟨hi, fun j _ => h j⟩

theorem forall_update_update {α β : Type} {f : ι → α} {g : ι → β} {P : ι → α → β → Prop}
    (h : ∀ j, P j (f j) (g j)) {i : ι} {x : α} {y : β} (hi : P i x y) :
    ∀ j, P j (Function.update f i x j) (Function.update g i y j) := by
  intro j
  by_cases hj : j = i
  · subst hj
    rw [Function.update_self, Function.update_self]
    exact hi
  · rw [Function.update_of_ne hj, Function.update_of_ne hj]
    exact h j

theorem Conf.Holds.goto {c : Conf ι μ} {held : ι → List μ} (hc : c.Holds rank held) {i : ι}
    {k : List (Prog μ)} (hk : Nested rank (held i) k) : (c.goto i k).Holds rank held :=
  ⟨forall_update (P := fun j k => Nested rank (held j) k) hc.nested hk, hc.sorted, hc.owner⟩

variable [DecidableEq μ]

def Conf.setOwner (c : Conf ι μ) (m : μ) (o : Option ι) : Conf ι μ :=
  { c with owner := Function.update c.owner m o }

/-- a step of the thread `a.1`; `a.2` says which branch it takes -/
def Conf.step (c : Conf ι μ) (a : ι × Nat) : Option (Conf ι μ) :=
  match c.control a.1 with
  | [] => none
  | .skip :: k => some (c.goto a.1 k)
  | .lock m :: k => if c.owner m = none then some ((c.setOwner m (some a.1)).goto a.1 k) else none
  | .unlock m :: k => if c.owner m = some a.1 then some ((c.setOwner m none).goto a.1 k) else none
  | .seq p q :: k => some (c.goto a.1 (p :: q :: k))
  | .alt p q :: k => some (c.goto a.1 ((if a.2 = 0 then p else q) :: k))
  | .pick f :: k => some (c.goto a.1 (f a.2 :: k))
  | .rep p :: k => some (c.goto a.1 (if a.2 = 0 then k else p :: .rep p :: k))

theorem Conf.Holds.lock {c : Conf ι μ} {held : ι → List μ} (hc : c.Holds rank held) {i : ι} {m : μ}
    {k : List (Prog μ)} (hfree : c.owner m = none) (hm : ∀ x ∈ held i, rank x < rank m)
    (hk : Nested rank (m :: held i) k) :
    ((c.setOwner m (some i)).goto i k).Holds rank (Function.update held i (m :: held i)) := by
  refine ⟨fun j => ?_, fun j => ?_, fun j x => ?_⟩
  · exact forall_update_update (P := fun _ l k => Nested rank l k) hc.nested hk j
  · exact forall_update (P := fun _ (l : List μ) => l.Pairwise fun a b => rank b < rank a) hc.sorted
      (List.pairwise_cons.mpr ⟨hm, hc.sorted i⟩) j
  · show x ∈ Function.update held i (m :: held i) j ↔ Function.update c.owner m (some i) x = some j
    by_cases hx : x = m
    · subst hx
      rw [Function.update_self, Option.some.injEq]
      by_cases hj : j = i
      · subst hj
        rw [Function.update_self]
        exact iff_of_true (List.mem_cons_self ..) rfl
      · rw [Function.update_of_ne hj, hc.owner j x, hfree]
        exact iff_of_false (by simp) fun h => hj h.symm
    · rw [Function.update_of_ne hx, ← hc.owner j x]
      by_cases hj : j = i
      · subst hj
        rw [Function.update_self, List.mem_cons]
        exact or_iff_right hx
      · rw [Function.update_of_ne hj]

theorem Conf.Holds.unlock {c : Conf ι μ} {held : ι → List μ} (hc : c.Holds rank held) {i : ι}
    {m : μ} {h : List μ} {k : List (Prog μ)} (hheld : held i = m :: h) (hk : Nested rank h k) :
    ((c.setOwner m none).goto i k).Holds rank (Function.update held i h) := by
  have hsorted := hc.sorted i
  rw [hheld, List.pairwise_cons] at hsorted
  have hmem : ∀ x, x ∈ held i ↔ x = m ∨ x ∈ h := fun x => by rw [hheld, List.mem_cons]
  have howner : c.owner m = some i := (hc.owner i m).mp ((hmem m).mpr (Or.inl rfl))
  refine ⟨fun j => ?_, fun j => ?_, fun j x => ?_⟩
  · exact forall_update_update (P := fun _ l k => Nested rank l k) hc.nested hk j
  · exact forall_update (P := fun _ (l : List μ) => l.Pairwise fun a b => rank b < rank a) hc.sorted
      hsorted.2 j
  · show x ∈ Function.update held i h j ↔ Function.update c.owner m none x = some j
    by_cases hx : x = m
    · subst hx
      rw [Function.update_self]
      refine iff_of_false ?_ (by simp)
      by_cases hj : j = i
      · subst hj
        rw [Function.update_self]
        exact fun hin => absurd (hsorted.1 x hin) (lt_irrefl _)
      · rw [Function.update_of_ne hj, hc.owner j x, howner, Option.some.injEq]
        exact fun h => hj h.symm
    · rw [Function.update_of_ne hx, ← hc.owner j x]
      by_cases hj : j = i
      · subst hj
        rw [Function.update_self, hmem]
        exact (or_iff_right hx).symm
      · rw [Function.update_of_ne hj]

/-- **A step of a thread keeps every thread in order.** -/
theorem Conf.Inv.step {c c' : Conf ι μ} {a : ι × Nat} (hc : c.Inv rank) (h : c.step a = some c') :
    c'.Inv rank := by
  obtain ⟨held, hc⟩ := hc
  obtain ⟨i, n⟩ := a
  have hn := hc.nested i
  cases hctl : c.control i with
  | nil => simp [Conf.step, hctl] at h
  | cons p k =>
    rw [hctl] at hn
    cases p with
    | lock m =>
      simp only [Conf.step, hctl] at h
      split at h
      · rename_i hfree
        obtain rfl := Option.some.inj h
        exact ⟨_, hc.lock hfree hn.lock.1 hn.lock.2⟩
      · exact absurd h (by simp)
    | unlock m =>
      simp only [Conf.step, hctl] at h
      split at h
      · obtain rfl := Option.some.inj h
        obtain ⟨h', hheld, hk⟩ := hn.unlock
        exact ⟨_, hc.unlock hheld hk⟩
      · exact absurd h (by simp)
    | skip | seq | alt | pick | rep =>
      simp only [Conf.step, hctl] at h
      obtain rfl := Option.some.inj h
      exact ⟨held, hc.goto (hn.branch n)⟩

end

end VncProxy.Locks
