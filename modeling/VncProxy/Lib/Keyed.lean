import Mathlib.Data.List.Basic

/-!
# Objects kept under a key

A queue of events uses the object that is kept under a key, for some owner, or drops it.  An object
is made by the first use after a drop.

* `KeyEvent.next`, `ownerAfter`   the owner of the object under a key after an event, after a queue;
* `Unmixed`                       no object is used for two owners;
* `unmixed_concat`                what a new event at the end of the queue has to satisfy;
* `ownerAfter_of_no_drop`         where nothing drops the object its owner stays.
-/

namespace VncProxy

variable {κ ω : Type}

inductive KeyEvent (κ ω : Type) where
  | use (k : κ) (o : ω)
  | drop (k : κ)

variable [DecidableEq κ]

def KeyEvent.next (k : κ) (cur : Option ω) : KeyEvent κ ω → Option ω
  | .use k' o => if k' = k then some o else cur
  | .drop k' => if k' = k then none else cur

def ownerAfter (k : κ) (cur : Option ω) (l : List (KeyEvent κ ω)) : Option ω :=
  l.foldl (KeyEvent.next k) cur

/-- the object under `k`, which is `cur`'s, and those after it are each used for one owner -/
def Unmixed (k : κ) : Option ω → List (KeyEvent κ ω) → Prop
  | _, [] => True
  | cur, e :: l => (∀ o, e = .use k o → ∀ o' ∈ cur, o' = o) ∧ Unmixed k (e.next k cur) l

theorem ownerAfter_concat (k : κ) (cur : Option ω) (l : List (KeyEvent κ ω)) (e : KeyEvent κ ω) :
    ownerAfter k cur (l ++ [e]) = e.next k (ownerAfter k cur l) :=
  List.foldl_concat ..

theorem unmixed_concat {k : κ} {cur : Option ω} {l : List (KeyEvent κ ω)} {e : KeyEvent κ ω} :
    Unmixed k cur (l ++ [e]) ↔
      Unmixed k cur l ∧ ∀ o, e = .use k o → ∀ o' ∈ ownerAfter k cur l, o' = o := by
  induction l generalizing cur with
  | nil => exact ⟨fun h => ⟨trivial, h.1⟩, fun h => ⟨h.2, trivial⟩⟩
  | cons a l ih =>
    constructor
    · rintro ⟨h1, h2⟩
      exact ⟨⟨h1, (ih.mp h2).1⟩, (ih.mp h2).2⟩
    · rintro ⟨⟨h1, h2⟩, h3⟩
      exact ⟨h1, ih.mpr ⟨h2, h3⟩⟩

theorem ownerAfter_of_no_drop {k : κ} {o : ω} {l : List (KeyEvent κ ω)}
    (hdrop : ∀ e ∈ l, e ≠ .drop k) (h : Unmixed k (some o) l) : ownerAfter k (some o) l = some o := by
  induction l with
  | nil => rfl
  | cons e l ih =>
    have hnext : e.next k (some o) = some o := by
      cases e with
      | use k' o' =>
        by_cases hk : k' = k
        · subst hk
          rw [h.1 o' rfl o rfl]
          exact if_pos rfl
        · exact if_neg hk
      | drop k' =>
        refine if_neg fun hk => hdrop _ List.mem_cons_self ?_
        rw [hk]
    show ownerAfter k (e.next k (some o)) l = some o
    have hl := h.2
    rw [hnext] at hl ⊢
    exact ih (fun e he => hdrop e (List.mem_cons_of_mem _ he)) hl

end VncProxy
