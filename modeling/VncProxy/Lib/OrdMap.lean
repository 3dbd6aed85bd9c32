import Mathlib.Data.List.Pairwise
import Mathlib.Order.RelClasses

/-!
# Ordered maps

A map is the list of its entries, in the order of their keys, as `std::map` keeps it.

* `OrdMap r ν`        a map to `ν` with its keys in the order `r`;
* `find?_eq_some`     a key is found with the value in the list, and with no other;
* `put`, `insert`     an entry is added; the one with this key is replaced, or stays;
* `filter`, `erase`   entries are taken away;
* `find?_put`, `find?_insert`, `find?_filter`, `find?_erase`  what is found then;
* `find?_foldl_insert`  what is found after a list of entries has been inserted.
-/

namespace VncProxy

/-- the entries, sorted by their keys -/
structure OrdMap {κ : Type} (r : κ → κ → Prop) (ν : Type) where
  entries : List (κ × ν)
  sorted : entries.Pairwise fun e e' => r e.1 e'.1

namespace OrdMap

section
variable {κ ν : Type} {r : κ → κ → Prop}

def empty : OrdMap r ν := ⟨[], List.Pairwise.nil⟩

def filter (p : κ → Bool) (m : OrdMap r ν) : OrdMap r ν :=
  ⟨m.entries.filter fun e => p e.1, m.sorted.sublist List.filter_sublist⟩

theorem unique [Std.Irrefl r] (m : OrdMap r ν) {k : κ} {v v' : ν} (h : (k, v) ∈ m.entries)
    (h' : (k, v') ∈ m.entries) : v = v' := by
  obtain ⟨l, hl⟩ := m
  change (k, v) ∈ l at h
  change (k, v') ∈ l at h'
  induction hl with
  | nil => cases h
  | cons hlt _ ih =>
    rcases List.mem_cons.mp h with rfl | h1
    · rcases List.mem_cons.mp h' with heq | h2
      · exact (Prod.mk.inj heq).2.symm
      · exact absurd (hlt _ h2) (Std.Irrefl.irrefl k)
    · rcases List.mem_cons.mp h' with rfl | h2
      · exact absurd (hlt _ h1) (Std.Irrefl.irrefl k)
      · exact ih h1 h2

variable [DecidableEq κ]

/-! ## finding an entry -/

def find? (m : OrdMap r ν) (k : κ) : Option ν := (m.entries.find? fun e => e.1 = k).map (·.2)

theorem find?_empty (k : κ) : (empty : OrdMap r ν).find? k = none := rfl

/-- **A key is found with the value in its entry.** -/
theorem find?_eq_some [Std.Irrefl r] (m : OrdMap r ν) {k : κ} {v : ν} :
    m.find? k = some v ↔ (k, v) ∈ m.entries := by
  unfold find?
  rw [Option.map_eq_some_iff]
  constructor
  · rintro ⟨⟨k', v'⟩, hfind, rfl⟩
    have hk : k' = k := by simpa using List.find?_some hfind
    exact hk ▸ List.mem_of_find?_eq_some hfind
  · intro h
    cases hfind : m.entries.find? fun e => e.1 = k with
    | none =>
      have := List.find?_eq_none.mp hfind _ h
      simp at this
    | some e =>
      obtain ⟨k', v'⟩ := e
      have hk : k' = k := by simpa using List.find?_some hfind
      subst hk
      exact ⟨_, rfl, m.unique (List.mem_of_find?_eq_some hfind) h⟩

theorem find?_eq_none [Std.Irrefl r] (m : OrdMap r ν) {k : κ} :
    m.find? k = none ↔ ∀ v, (k, v) ∉ m.entries := by
  rw [Option.eq_none_iff_forall_ne_some]
  exact forall_congr' fun v => not_congr m.find?_eq_some

theorem find?_congr [Std.Irrefl r] {m m' : OrdMap r ν} {k k' : κ}
    (h : ∀ v, (k, v) ∈ m.entries ↔ (k', v) ∈ m'.entries) : m.find? k = m'.find? k' := by
  refine Option.ext fun v => ?_
  rw [find?_eq_some, find?_eq_some, h]

/-! ## taking entries away -/

theorem find?_filter [Std.Irrefl r] (p : κ → Bool) (m : OrdMap r ν) (k : κ) :
    (m.filter p).find? k = if p k then m.find? k else none := by
  split
  · next hp =>
    refine find?_congr fun v => ?_
    show (k, v) ∈ m.entries.filter _ ↔ _
    rw [List.mem_filter, and_iff_left hp]
  · next hp =>
    rw [find?_eq_none]
    intro v hv
    exact hp (List.mem_filter.mp hv).2

def erase (m : OrdMap r ν) (k : κ) : OrdMap r ν := m.filter fun k' => k' ≠ k

theorem find?_erase [Std.Irrefl r] (m : OrdMap r ν) (k k' : κ) :
    (m.erase k).find? k' = if k' = k then none else m.find? k' := by
  unfold erase
  rw [find?_filter]
  by_cases h : k' = k
  · rw [if_pos h, if_neg (by simpa using h)]
  · rw [if_neg h, if_pos (by simpa using h)]

/-! ## adding an entry -/

variable [DecidableRel r]

/-- an entry in its place among the others, instead of the one with its key -/
def place (k : κ) (v : ν) : List (κ × ν) → List (κ × ν)
  | [] => [(k, v)]
  | e :: l => if r k e.1 then (k, v) :: e :: l else if k = e.1 then (k, v) :: l
    else e :: place k v l

theorem mem_place {k : κ} {v : ν} {l : List (κ × ν)} {e : κ × ν} (h : e ∈ place (r := r) k v l) :
    e = (k, v) ∨ e ∈ l := by
  induction l with
  | nil => exact .inl (List.mem_singleton.mp h)
  | cons e' l ih =>
    unfold place at h
    split at h
    · exact List.mem_cons.mp h
    · split at h
      · rcases List.mem_cons.mp h with h | h
        · exact .inl h
        · exact .inr (List.mem_cons_of_mem _ h)
      · rcases List.mem_cons.mp h with rfl | h
        · exact .inr (List.mem_cons_self ..)
        · exact (ih h).imp_right (List.mem_cons_of_mem _)

theorem mem_place_self (k : κ) (v : ν) (l : List (κ × ν)) : (k, v) ∈ place (r := r) k v l := by
  induction l with
  | nil => exact List.mem_singleton_self _
  | cons e l ih =>
    unfold place
    split
    · exact List.mem_cons_self ..
    · split
      · exact List.mem_cons_self ..
      · exact List.mem_cons_of_mem _ ih

theorem mem_place_of_ne {k k' : κ} (hne : k' ≠ k) (v v' : ν) (l : List (κ × ν)) :
    (k', v') ∈ place (r := r) k v l ↔ (k', v') ∈ l := by
  have hnot : (k', v') ≠ (k, v) := fun h => hne (Prod.mk.inj h).1
  constructor
  · exact fun h => (mem_place h).resolve_left hnot
  · intro h
    induction l with
    | nil => cases h
    | cons e l ih =>
      unfold place
      split
      · exact List.mem_cons_of_mem _ h
      · split
        · next heq =>
          refine List.mem_cons_of_mem _ ((List.mem_cons.mp h).resolve_left ?_)
          rintro rfl
          exact hne heq.symm
        · rcases List.mem_cons.mp h with rfl | h
          · exact List.mem_cons_self ..
          · exact List.mem_cons_of_mem _ (ih h)

theorem sorted_place [IsStrictTotalOrder κ r] (k : κ) (v : ν) {l : List (κ × ν)}
    (hl : l.Pairwise fun e e' => r e.1 e'.1) :
    (place (r := r) k v l).Pairwise fun e e' => r e.1 e'.1 := by
  induction hl with
  | nil => exact List.pairwise_singleton _ _
  | @cons e l hlt hl ih =>
    unfold place
    split
    · next hk =>
      refine List.Pairwise.cons ?_ (.cons hlt hl)
      intro e' he'
      rcases List.mem_cons.mp he' with rfl | he'
      · exact hk
      · exact IsTrans.trans _ _ _ hk (hlt e' he')
    · next hk =>
      split
      · next heq => exact .cons (fun e' he' => show r k e'.1 from heq ▸ hlt e' he') hl
      · next hne =>
        have hek : r e.1 k := by
          by_contra hek
          exact hne (Std.Trichotomous.trichotomous k e.1 hk hek)
        refine .cons (fun e' he' => ?_) ih
        rcases mem_place he' with rfl | he'
        · exact hek
        · exact hlt e' he'

variable [IsStrictTotalOrder κ r]

/-- the entry with this key is replaced -/
def put (m : OrdMap r ν) (k : κ) (v : ν) : OrdMap r ν :=
  ⟨place (r := r) k v m.entries, sorted_place k v m.sorted⟩

/-- `insert(k, v)`: nothing is done when the key is there -/
def insert (m : OrdMap r ν) (k : κ) (v : ν) : OrdMap r ν :=
  if (m.find? k).isSome then m else m.put k v

/-- **What is found after `put`.** -/
theorem find?_put (m : OrdMap r ν) (k : κ) (v : ν) (k' : κ) :
    (m.put k v).find? k' = if k' = k then some v else m.find? k' := by
  split
  · next h =>
    subst h
    exact (find?_eq_some _).mpr (mem_place_self k' v m.entries)
  · next h => exact find?_congr fun v' => mem_place_of_ne h v v' m.entries

/-- **What is found after `insert`.** -/
theorem find?_insert (m : OrdMap r ν) (k : κ) (v : ν) (k' : κ) :
    (m.insert k v).find? k' = if k' = k then some ((m.find? k).getD v) else m.find? k' := by
  unfold insert
  cases hfind : m.find? k with
  | none =>
    rw [Option.isSome_none, if_neg Bool.false_ne_true, find?_put]
    rfl
  | some v' =>
    rw [Option.isSome_some, if_pos rfl]
    split
    · next h => exact h ▸ hfind
    · rfl

/-- **Inserting the entries of a list**: those of the map stay, and the first of the list comes in. -/
theorem find?_foldl_insert {ν' : Type} (f : ν' → ν) (l : List (κ × ν')) (m : OrdMap r ν) (k : κ) :
    (l.foldl (fun m e => m.insert e.1 (f e.2)) m).find? k =
      (m.find? k).or ((l.find? fun e => e.1 = k).map fun e => f e.2) := by
  induction l generalizing m with
  | nil => exact Option.or_none.symm
  | cons e l ih =>
    rw [List.foldl_cons, ih, find?_insert, List.find?_cons]
    by_cases h : k = e.1
    · subst h
      rw [if_pos rfl, decide_eq_true rfl]
      cases m.find? e.1 <;> rfl
    · rw [if_neg h, decide_eq_false (Ne.symm h)]

end

end OrdMap

end VncProxy
