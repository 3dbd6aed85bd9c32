import Mathlib.Data.List.Basic
import Mathlib.Logic.Basic

/-!
# Runs of a step function

A step system is a function `step : σ → α → Option σ`: the label `a` says which party moves and
what its environment answers, `none` that the move is not possible in that state.

* `run step s l`          the state after the labels of `l`, head first;
* `RunOk step ok s l`     every move of `l` is made in a state and with a label that satisfy `ok`;
* `decidableExistsRun`, `decidableRunOk`  both are decided by running the list;
* `inv_run`               an invariant of one step is an invariant of every run;
* `inv_runOk`             the same when the step only has to preserve it under `ok`;
* `runOk_congr`           two conditions that agree under an invariant hold of the same runs;
* `Simulates`             every step of a system is some steps of another one, `Simulates.run` every run.
-/

namespace VncProxy

section
variable {σ α : Type}

/-- the state after the labels of a list, head first -/
def run (step : σ → α → Option σ) : σ → List α → Option σ
  | s, [] => some s
  | s, a :: l => (step s a).bind fun s' => run step s' l

/-- every move of the list is made where `ok` holds -/
def RunOk (step : σ → α → Option σ) (ok : σ → α → Prop) : σ → List α → Prop
  | _, [] => True
  | s, a :: l => ok s a ∧ ∀ s', step s a = some s' → RunOk step ok s' l

theorem run_cons {step : σ → α → Option σ} {s t : σ} {a : α} {l : List α} :
    run step s (a :: l) = some t ↔ ∃ s', step s a = some s' ∧ run step s' l = some t := by
  show ((step s a).bind fun s' => run step s' l) = some t ↔ _
  rw [Option.bind_eq_some_iff]

theorem run_one {step : σ → α → Option σ} {s s' : σ} {a : α} (hstep : step s a = some s') :
    run step s [a] = some s' := run_cons.mpr ⟨s', hstep, rfl⟩

theorem runOk_one {step : σ → α → Option σ} {ok : σ → α → Prop} {s : σ} {a : α} (hok : ok s a) :
    RunOk step ok s [a] := ⟨hok, fun _ _ => trivial⟩

/-- **An invariant that a step preserves under `ok` holds after every run that keeps to `ok`.** -/
theorem inv_runOk {step : σ → α → Option σ} {ok : σ → α → Prop} {I : σ → Prop}
    (hstep : ∀ s a s', I s → ok s a → step s a = some s' → I s') {s t : σ} {l : List α}
    (hs : I s) (hok : RunOk step ok s l) (h : run step s l = some t) : I t := by
  induction l generalizing s with
  | nil => exact Option.some.inj h ▸ hs
  | cons a l ih =>
    obtain ⟨s', h1, h2⟩ := run_cons.mp h
    exact ih (hstep s a s' hs hok.1 h1) (hok.2 s' h1) h2

theorem runOk_true (step : σ → α → Option σ) (s : σ) (l : List α) :
    RunOk step (fun _ _ => True) s l := by
  induction l generalizing s with
  | nil => exact trivial
  | cons a l ih => exact ⟨trivial, fun s' _ => ih s'⟩

/-- **An invariant of one step is an invariant of every run.** -/
theorem inv_run {step : σ → α → Option σ} {I : σ → Prop}
    (hstep : ∀ s a s', I s → step s a = some s' → I s') {s t : σ} {l : List α}
    (hs : I s) (h : run step s l = some t) : I t :=
  inv_runOk (fun s a s' hi _ => hstep s a s' hi) hs
    (runOk_true step s l) h

/-- **What every step keeps under `ok` and loses for ever otherwise** holds at the end of a run just when
it holds at its start and the run keeps to `ok`. -/
theorem runOk_iff {step : σ → α → Option σ} {ok : σ → α → Prop} {I P : σ → Prop}
    (hinv : ∀ s a s', I s → step s a = some s' → I s')
    (hstep : ∀ s a s', I s → step s a = some s' → (P s' ↔ P s ∧ ok s a)) {s t : σ} {l : List α}
    (hs : I s) (h : run step s l = some t) : P t ↔ P s ∧ RunOk step ok s l := by
  induction l generalizing s with
  | nil =>
    obtain rfl := Option.some.inj h
    exact (and_iff_left trivial).symm
  | cons a l ih =>
    obtain ⟨s', h1, h2⟩ := run_cons.mp h
    rw [ih (hinv s a s' hs h1) h2, hstep s a s' hs h1, and_assoc]
    refine and_congr_right fun _ => and_congr_right fun _ => ⟨fun hl s'' h3 => ?_, fun hl => hl s' h1⟩
    exact Option.some.inj (h1.symm.trans h3) ▸ hl

/-- **Two conditions that agree wherever an invariant holds** hold of the same runs; the step only has to
preserve the invariant under the second. -/
theorem runOk_congr {step : σ → α → Option σ} {ok ok' : σ → α → Prop} {I : σ → Prop}
    (hstep : ∀ s a s', I s → ok' s a → step s a = some s' → I s')
    (hiff : ∀ s a, I s → (ok s a ↔ ok' s a)) {s : σ} (hs : I s) (l : List α) :
    RunOk step ok s l ↔ RunOk step ok' s l := by
  induction l generalizing s with
  | nil => exact Iff.rfl
  | cons a l ih =>
    show ok s a ∧ _ ↔ ok' s a ∧ _
    rw [hiff s a hs]
    exact and_congr_right fun hok => forall₂_congr fun s' h => ih (hstep s a s' hs hok h)

/-- what a given list leads to is decided by running it -/
instance decidableExistsRun (step : σ → α → Option σ) (s : σ) (l : List α) (p : σ → Prop)
    [DecidablePred p] : Decidable (∃ t, run step s l = some t ∧ p t) :=
  match h : run step s l with
  | none => .isFalse fun ⟨t, ht, _⟩ => by simp at ht
  | some t => decidable_of_iff (p t) ⟨fun hp => ⟨t, rfl, hp⟩, fun ⟨t', ht', hp⟩ =>
      Option.some.inj ht' ▸ hp⟩

/-- whether a run keeps to a decidable condition is decided by running it -/
instance decidableRunOk (step : σ → α → Option σ) (ok : σ → α → Prop)
    [∀ s a, Decidable (ok s a)] : ∀ s l, Decidable (RunOk step ok s l)
  | _, [] => .isTrue trivial
  | s, a :: l =>
    match h : step s a with
    | none => decidable_of_iff (ok s a) ⟨fun h1 => ⟨h1, fun s' h2 => by simp [h] at h2⟩, And.left⟩
    | some s' =>
      have : Decidable (RunOk step ok s' l) := decidableRunOk step ok s' l
      decidable_of_iff (ok s a ∧ RunOk step ok s' l)
        ⟨fun h1 => ⟨h1.1, fun t ht => by
          rw [h] at ht
          exact Option.some.inj ht ▸ h1.2⟩, fun h1 => ⟨h1.1, h1.2 s' h⟩⟩

theorem run_append {step : σ → α → Option σ} {s t : σ} {l l' : List α} (hrun : run step s l = some t) :
    run step s (l ++ l') = run step t l' := by
  induction l generalizing s with
  | nil => exact congrArg (run step · l') (Option.some.inj hrun)
  | cons a l ih =>
    obtain ⟨s', hstep, hrest⟩ := run_cons.mp hrun
    show (step s a).bind _ = _
    rw [hstep]
    exact ih hrest

theorem runOk_append {step : σ → α → Option σ} {ok : σ → α → Prop} {s t : σ} {l l' : List α}
    (hok : RunOk step ok s l) (hrun : run step s l = some t) (hok' : RunOk step ok t l') :
    RunOk step ok s (l ++ l') := by
  induction l generalizing s with
  | nil =>
    obtain rfl := Option.some.inj hrun
    exact hok'
  | cons a l ih =>
    obtain ⟨s', hstep, hrest⟩ := run_cons.mp hrun
    refine ⟨hok.1, fun s'' hstep' => ?_⟩
    obtain rfl : s' = s'' := Option.some.inj (hstep.symm.trans hstep')
    exact ih (hok.2 s' hstep) hrest

end

section
variable {σ α τ β : Type} {step : σ → α → Option σ} {ok : σ → α → Prop} {step' : τ → β → Option τ}
  {ok' : τ → β → Prop} {f : σ → τ}

/-- every step of a system that is `ok` is some steps of another one, each of them `ok'`, when its states
are seen through `f` -/
def Simulates (step : σ → α → Option σ) (ok : σ → α → Prop) (step' : τ → β → Option τ)
    (ok' : τ → β → Prop) (f : σ → τ) : Prop :=
  ∀ s a s', ok s a → step s a = some s' →
    ∃ l, run step' (f s) l = some (f s') ∧ RunOk step' ok' (f s) l

/-- **Every run is a run of the other system.** -/
theorem Simulates.run (hsim : Simulates step ok step' ok' f) {s t : σ} {l : List α}
    (hok : RunOk step ok s l) (hrun : run step s l = some t) :
    ∃ l', VncProxy.run step' (f s) l' = some (f t) ∧ RunOk step' ok' (f s) l' := by
  induction l generalizing s with
  | nil =>
    obtain rfl := Option.some.inj hrun
    exact ⟨[], rfl, trivial⟩
  | cons a l ih =>
    obtain ⟨s', hstep, hrest⟩ := run_cons.mp hrun
    obtain ⟨l₁, hrun₁, hok₁⟩ := hsim s a s' hok.1 hstep
    obtain ⟨l₂, hrun₂, hok₂⟩ := ih (hok.2 s' hstep) hrest
    exact ⟨l₁ ++ l₂, (run_append hrun₁).trans hrun₂, runOk_append hok₁ hrun₁ hok₂⟩

end

end VncProxy
