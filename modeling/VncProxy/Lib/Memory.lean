import Mathlib.Data.List.GetD
import Mathlib.Data.List.Range
import VncProxy.Lib.Bytes

/-!
# Memory and the words in it

A memory is a function from addresses to bytes; words are little-endian.

* `load m a n`, `store m a n w`   the word of `n` bytes at `a`;
* `copy`, `bytes`                 a list copied to the start of a memory and taken from it;
* `modify n f m a`                `f` on the two words of `n` bytes at `a`;
* `modify_modify`, `modify_comm`  on the same words one after the other, on other words in any order;
* `foldl_undo`                    a pass of operations is undone by a pass in the same order when those
                                  at different places commute.
-/

namespace VncProxy

abbrev Mem := Nat → Byte

def load (m : Mem) (a : Nat) : (n : Nat) → BitVec (8 * n)
  | 0 => 0#0
  | n + 1 => (m (a + n) ++ load m a n : BitVec (8 + 8 * n)).cast (Nat.add_comm 8 (8 * n))

def store (m : Mem) (a n : Nat) (w : BitVec (8 * n)) : Mem := fun x =>
  if a ≤ x ∧ x < a + n then w.extractLsb' (8 * (x - a)) 8 else m x

/-- `memcpy` to the start of a memory -/
def copy (m : Mem) (l : List Byte) : Mem := fun x => l.getD x (m x)

def bytes (m : Mem) (n : Nat) : List Byte := (List.range n).map m

/-! ## lists in memory -/

theorem bytes_length (m : Mem) (n : Nat) : (bytes m n).length = n := by
  rw [bytes, List.length_map, List.length_range]

theorem bytes_copy (m : Mem) (l : List Byte) : bytes (copy m l) l.length = l := by
  refine List.ext_getElem (bytes_length _ _) fun i _ hi => ?_
  simp [bytes, copy, hi]

theorem copy_bytes {m m' : Mem} {n : Nat} (h : ∀ x, n ≤ x → m' x = m x) : copy m' (bytes m n) = m := by
  funext x
  unfold copy
  by_cases hx : x < n
  · simp [bytes, hx]
  · have hlen : (bytes m n).length ≤ x := by
      rw [bytes_length]
      omega
    rw [List.getD_eq_default _ _ hlen, h x (by omega)]

theorem bytes_eq {m m' : Mem} {n : Nat} : bytes m n = bytes m' n ↔ ∀ x < n, m x = m' x := by
  unfold bytes
  simp only [List.map_inj_left, List.mem_range]

/-! ## one word -/

theorem load_getLsbD (m : Mem) (a n : Nat) {k : Nat} (hk : k < 8 * n) :
    (load m a n).getLsbD k = (m (a + k / 8)).getLsbD (k % 8) := by
  induction n with
  | zero => omega
  | succ n ih =>
    rw [load, BitVec.getLsbD_cast, BitVec.getLsbD_append]
    split
    · next hlow => exact ih hlow
    · next hhigh =>
      have hbyte : k / 8 = n := by omega
      have hbit : k - 8 * n = k % 8 := by omega
      rw [hbyte, hbit]

theorem load_congr {m m' : Mem} {a n : Nat} (h : ∀ x, a ≤ x → x < a + n → m x = m' x) :
    load m a n = load m' a n := by
  apply BitVec.eq_of_getLsbD_eq
  intro k hk
  rw [load_getLsbD m a n hk, load_getLsbD m' a n hk, h _ (by omega) (by omega)]

theorem load_store (m : Mem) (a n : Nat) (w : BitVec (8 * n)) : load (store m a n w) a n = w := by
  apply BitVec.eq_of_getLsbD_eq
  intro k hk
  have hin : a ≤ a + k / 8 ∧ a + k / 8 < a + n := by omega
  have hk8 : k % 8 < 8 := Nat.mod_lt k (by decide)
  have hbit : 8 * (a + k / 8 - a) + k % 8 = k := by omega
  rw [load_getLsbD _ a n hk, store, if_pos hin, BitVec.getLsbD_extractLsb', hbit]
  simp [hk8]

theorem load_store_of_disjoint {m : Mem} {a b n : Nat} (w : BitVec (8 * n))
    (h : a + n ≤ b ∨ b + n ≤ a) : load (store m b n w) a n = load m a n := by
  refine load_congr fun x hlo hhi => ?_
  rw [store, if_neg (by omega)]

theorem store_load (m : Mem) (a n : Nat) : store m a n (load m a n) = m := by
  funext x
  unfold store
  split
  · next hx =>
    apply BitVec.eq_of_getLsbD_eq
    intro k hk
    have hin : 8 * (x - a) + k < 8 * n := by omega
    have hbyte : a + (8 * (x - a) + k) / 8 = x := by omega
    have hbit : (8 * (x - a) + k) % 8 = k := by omega
    rw [BitVec.getLsbD_extractLsb', load_getLsbD m a n hin, hbyte, hbit]
    simp [hk]
  · rfl

theorem store_store (m : Mem) (a n : Nat) (v w : BitVec (8 * n)) :
    store (store m a n v) a n w = store m a n w := by
  funext x
  unfold store
  split
  · rfl
  · rfl

theorem store_comm {m : Mem} {a b n : Nat} (v w : BitVec (8 * n)) (h : a + n ≤ b ∨ b + n ≤ a) :
    store (store m a n v) b n w = store (store m b n w) a n v := by
  funext x
  unfold store
  by_cases ha : a ≤ x ∧ x < a + n
  · rw [if_neg (by omega), if_pos ha, if_pos ha]
  · rw [if_neg ha, if_neg ha]

/-! ## two words -/

section

variable {n : Nat} {f g : BitVec (8 * n) × BitVec (8 * n) → BitVec (8 * n) × BitVec (8 * n)}

/-- `f` on the two words at `a` -/
def modify (n : Nat) (f : BitVec (8 * n) × BitVec (8 * n) → BitVec (8 * n) × BitVec (8 * n))
    (m : Mem) (a : Nat) : Mem :=
  let v := f (load m a n, load m (a + n) n)
  store (store m a n v.1) (a + n) n v.2

theorem load_modify (m : Mem) (a : Nat) :
    (load (modify n f m a) a n, load (modify n f m a) (a + n) n) =
      f (load m a n, load m (a + n) n) := by
  unfold modify
  dsimp only
  rw [load_store, load_store_of_disjoint _ (.inl (Nat.le_refl _)), load_store]

theorem load_modify_of_disjoint {m : Mem} {a b : Nat} (h : a + n ≤ b ∨ b + 2 * n ≤ a) :
    load (modify n f m b) a n = load m a n := by
  unfold modify
  dsimp only
  rw [load_store_of_disjoint _ (by omega), load_store_of_disjoint _ (by omega)]

theorem modify_modify (m : Mem) (a : Nat) :
    modify n g (modify n f m a) a = modify n (fun v => g (f v)) m a := by
  have hload := load_modify (f := f) m a
  unfold modify at hload ⊢
  rw [hload]
  dsimp only
  rw [store_comm _ _ (.inr (Nat.le_refl _)), store_store, store_store]

theorem modify_self (hf : ∀ v, f v = v) (m : Mem) (a : Nat) : modify n f m a = m := by
  rw [modify, hf]
  dsimp only
  rw [store_load, store_load]

theorem modify_comm {m : Mem} {a b : Nat} (h : a + 2 * n ≤ b ∨ b + 2 * n ≤ a) :
    modify n g (modify n f m a) b = modify n f (modify n g m b) a := by
  have hg : load (modify n f m a) b n = load m b n ∧
      load (modify n f m a) (b + n) n = load m (b + n) n :=
    ⟨load_modify_of_disjoint (by omega), load_modify_of_disjoint (by omega)⟩
  have hf : load (modify n g m b) a n = load m a n ∧
      load (modify n g m b) (a + n) n = load m (a + n) n :=
    ⟨load_modify_of_disjoint (by omega), load_modify_of_disjoint (by omega)⟩
  unfold modify at hg hf ⊢
  rw [hg.1, hg.2, hf.1, hf.2]
  dsimp only
  rw [store_comm (a := a + n) (b := b) _ _ (by omega),
    store_comm (a := a + n) (b := b + n) _ _ (by omega), 
    store_comm (a := a) (b := b) _ _ (by omega), store_comm (a := a) (b := b + n) _ _ (by omega)]

end

/-- **A pass is undone** by a pass in the same order. -/
theorem foldl_undo {σ : Type} {e d : σ → Nat → σ} (hundo : ∀ s i, d (e s i) i = s)
    (hcomm : ∀ s i j, i ≠ j → d (e s i) j = e (d s j) i) (k : Nat) (s : σ) :
    (List.range k).foldl d ((List.range k).foldl e s) = s := by
  have hpast : ∀ {l : List Nat} {i : Nat}, i ∉ l → ∀ s, l.foldl d (e s i) = e (l.foldl d s) i := by
    intro l i hi
    induction l with
    | nil => exact fun s => rfl
    | cons j l ih =>
      rw [List.mem_cons, not_or] at hi
      intro s
      rw [List.foldl_cons, List.foldl_cons, hcomm s i j hi.1, ih hi.2]
  induction k with
  | zero => rfl
  | succ k ih =>
    rw [List.range_succ, List.foldl_append, List.foldl_append, List.foldl_cons, List.foldl_nil,
      List.foldl_cons, List.foldl_nil, hpast List.not_mem_range_self, ih, hundo]

end VncProxy
