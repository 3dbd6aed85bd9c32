import Mathlib.Logic.Basic

/-!
# `while` loops with fuel

`loop cond body n s` runs `while (cond) body` from `s` for at most `n` rounds and gives `none`
when they do not suffice, so a loop that never ends gives `none` for every `n`.

* `loop_mono`      more fuel does not change a result;
* `loop_unique`    the result does not depend on the fuel;
* `loop_inv`       an invariant of the body holds at the exit, where `cond` is false;
* `loop_exits`     a measure that every round makes smaller is enough fuel;
* `Rounds cond body s t`  the loop from `s` comes to a round that starts in `t`;
* `loop_stuck`     a round that changes nothing is the first of infinitely many;
* `loop_endless`   so is one from which on `cond` holds of all states.
-/

namespace VncProxy

section
variable {σ : Type} {cond : σ → Bool} {body : σ → σ}

/-- at most `n` rounds of `while (cond) body` -/
def loop (cond : σ → Bool) (body : σ → σ) : Nat → σ → Option σ
  | 0, s => if cond s then none else some s
  | n + 1, s => if cond s then loop cond body n (body s) else some s

theorem loop_done (n : Nat) {s : σ} (h : cond s = false) : loop cond body n s = some s := by
  cases n <;> simp [loop, h]

theorem loop_round (n : Nat) {s : σ} (h : cond s = true) :
    loop cond body (n + 1) s = loop cond body n (body s) := by
  simp [loop, h]

theorem loop_mono {n k : Nat} {s t : σ} (hnk : n ≤ k) (h : loop cond body n s = some t) :
    loop cond body k s = some t := by
  induction n generalizing k s with
  | zero =>
    cases hc : cond s with
    | true => simp [loop, hc] at h
    | false =>
      rw [loop_done 0 hc] at h
      rw [loop_done k hc, h]
  | succ n ih =>
    obtain ⟨k, rfl⟩ : ∃ m, k = m + 1 := ⟨k - 1, by omega⟩
    cases hc : cond s with
    | true =>
      rw [loop_round n hc] at h
      rw [loop_round k hc]
      exact ih (by omega) h
    | false =>
      rw [loop_done _ hc] at h
      rw [loop_done _ hc, h]

theorem loop_unique {n k : Nat} {s t u : σ} (h : loop cond body n s = some t)
    (h' : loop cond body k s = some u) : t = u := by
  have h1 := loop_mono (Nat.le_max_left n k) h
  rw [loop_mono (Nat.le_max_right n k) h'] at h1
  exact (Option.some.inj h1).symm

/-- **An invariant of the body holds at the exit, where the condition is false.** -/
theorem loop_inv {I : σ → Prop} (hbody : ∀ s, I s → cond s = true → I (body s)) {n : Nat}
    {s t : σ} (hs : I s) (h : loop cond body n s = some t) : I t ∧ cond t = false := by
  induction n generalizing s with
  | zero =>
    cases hc : cond s with
    | true => simp [loop, hc] at h
    | false =>
      rw [loop_done 0 hc] at h
      cases h
      exact ⟨hs, hc⟩
  | succ n ih =>
    cases hc : cond s with
    | true =>
      rw [loop_round n hc] at h
      exact ih (hbody s hs hc) h
    | false =>
      rw [loop_done _ hc] at h
      cases h
      exact ⟨hs, hc⟩

/-- **A measure that every round makes smaller is enough fuel.** -/
theorem loop_exits {I : σ → Prop} (m : σ → Nat) (hbody : ∀ s, I s → cond s = true → I (body s))
    (hm : ∀ s, I s → cond s = true → m (body s) < m s) {n : Nat} {s : σ} (hs : I s)
    (hn : m s ≤ n) : ∃ t, loop cond body n s = some t := by
  induction n generalizing s with
  | zero =>
    cases hc : cond s with
    | true =>
      have := hm s hs hc
      omega
    | false => exact ⟨s, loop_done 0 hc⟩
  | succ n ih =>
    cases hc : cond s with
    | true =>
      rw [loop_round n hc]
      have := hm s hs hc
      exact ih (hbody s hs hc) (by omega)
    | false => exact ⟨s, loop_done _ hc⟩

/-- the states in which a round of `while (cond) body` starts -/
inductive Rounds (cond : σ → Bool) (body : σ → σ) : σ → σ → Prop
  | first {s : σ} (h : cond s = true) : Rounds cond body s s
  | later {s t : σ} (h : cond s = true) (ht : Rounds cond body (body s) t) : Rounds cond body s t

theorem rounds_cases {s t : σ} (h : Rounds cond body s t) :
    cond s = true ∧ (t = s ∨ Rounds cond body (body s) t) := by
  cases h with
  | first h => exact ⟨h, Or.inl rfl⟩
  | later h ht => exact ⟨h, Or.inr ht⟩

theorem rounds_done {s t : σ} (h : cond s = false) : ¬ Rounds cond body s t := by
  intro ht
  rw [(rounds_cases ht).1] at h
  exact absurd h (by simp)

/-- what holds of the rounds of a loop holds of its first round and of the rounds behind it -/
theorem rounds_forall {P : σ → Prop} {s : σ} (h : cond s = true) :
    (∀ t, Rounds cond body s t → P t) ↔ P s ∧ ∀ t, Rounds cond body (body s) t → P t := by
  constructor
  · exact fun hP => ⟨hP s (.first h), fun t ht => hP t (.later h ht)⟩
  · rintro ⟨hs, hP⟩ t ht
    rcases (rounds_cases ht).2 with rfl | ht
    · exact hs
    · exact hP t ht

/-- **A round that changes nothing is the first of infinitely many.** -/
theorem loop_stuck {s : σ} (hc : cond s = true) (hb : body s = s) (n : Nat) :
    loop cond body n s = none := by
  induction n with
  | zero => simp [loop, hc]
  | succ n ih => rw [loop_round n hc, hb, ih]

/-- **A loop whose condition an invariant keeps true does not end.** -/
theorem loop_endless {I : σ → Prop} (hbody : ∀ s, I s → I (body s)) (hcond : ∀ s, I s → cond s = true)
    {s : σ} (hs : I s) (n : Nat) : loop cond body n s = none := by
  cases h : loop cond body n s with
  | none => rfl
  | some t =>
    obtain ⟨ht, hfalse⟩ := loop_inv (I := I) (fun s hs _ => hbody s hs) hs h
    rw [hcond t ht] at hfalse
    exact absurd hfalse (by decide)

theorem rounds_stuck {s t : σ} (hb : body s = s) (h : Rounds cond body s t) : t = s := by
  induction h with
  | first h => rfl
  | later h ht ih =>
    rw [hb] at ih ht
    exact ih hb

end

end VncProxy
