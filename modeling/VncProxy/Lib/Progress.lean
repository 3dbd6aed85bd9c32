import Mathlib.Order.WellFounded
import VncProxy.Lib.Run

/-!
# Step systems that come to rest

Some moves of a step system are its own, the others bring it something to do.  `work` is what is left
to do, in a well-founded order: an own move makes it smaller or changes nothing, as a thread that finds
its queue empty and looks again.

* `Progress`             such a system; `party` says whose move a label is;
* `Progress.Lowers`      an own move that does something;
* `Progress.AtRest`      a state in which there is none;
* `Progress.length_le`   no more than `work` moves do something;
* `Progress.drains`      moves that do something lead to a state at rest;
* `Progress.FairTo`      a party that always has something to do is not passed over for ever;
* `Progress.fair_rests`  every endless execution of own moves that is fair to all comes to rest;
* `Progress.follow`      there are such executions.
-/

namespace VncProxy

structure Progress (σ α ι ω : Type) [Preorder ω] where
  step : σ → α → Option σ
  own : α → Prop
  party : α → ι
  work : σ → ω
  same_or_lt : ∀ {s : σ} {a : α} {s' : σ}, own a → step s a = some s' → s' = s ∨ work s' < work s

namespace Progress

variable {σ α ι ω : Type} [Preorder ω] (P : Progress σ α ι ω)

structure Lowers (s : σ) (a : α) (s' : σ) : Prop where
  own : P.own a
  step : P.step s a = some s'
  work : P.work s' < P.work s

def AtRest (s : σ) : Prop := ∀ a s', ¬ P.Lowers s a s'

/-- the move of the list, from this state, does something -/
def Busy (s : σ) (a : α) : Prop := ∃ s', P.Lowers s a s'

variable {P}

theorem Busy.lowers {s s' : σ} {a : α} (hbusy : P.Busy s a) (hstep : P.step s a = some s') :
    P.Lowers s a s' := by
  obtain ⟨t, ht⟩ := hbusy
  have hs : s' = t := Option.some.inj (hstep.symm.trans ht.step)
  exact hs ▸ ht

/-- **A run in which every move does something is no longer than the work there is.** -/
theorem length_le {P : Progress σ α ι Nat} {s t : σ} {l : List α} (hbusy : RunOk P.step P.Busy s l)
    (hrun : run P.step s l = some t) : l.length + P.work t ≤ P.work s := by
  induction l generalizing s with
  | nil =>
    obtain rfl := Option.some.inj hrun
    exact (Nat.zero_add _).le
  | cons a l ih =>
    obtain ⟨s', hstep, hrest⟩ := run_cons.mp hrun
    have hlower := (hbusy.1.lowers hstep).work
    have hle := ih (hbusy.2 s' hstep) hrest
    rw [List.length_cons]
    omega

/-- **From every state such moves lead to one at rest.** -/
theorem drains [WellFoundedLT ω] (s : σ) :
    ∃ l t, run P.step s l = some t ∧ RunOk P.step P.Busy s l ∧ P.AtRest t := by
  induction hn : P.work s using WellFoundedLT.induction generalizing s with
  | _ n ih =>
    by_cases hrest : P.AtRest s
    · exact ⟨[], s, rfl, trivial, hrest⟩
    · unfold AtRest at hrest
      push Not at hrest
      obtain ⟨a, s', hlower⟩ := hrest
      obtain ⟨l, t, hrun, hbusy, ht⟩ := ih _ (hn ▸ hlower.work) s' rfl
      refine ⟨a :: l, t, run_cons.mpr ⟨s', hlower.step, hrun⟩, ⟨⟨s', hlower⟩, fun s'' hs'' => ?_⟩, ht⟩
      have hs : s'' = s' := Option.some.inj (hs''.symm.trans hlower.step)
      exact hs ▸ hbusy

variable (P)

/-- an endless execution of own moves -/
structure Execution (state : Nat → σ) (label : Nat → α) : Prop where
  own : ∀ n, P.own (label n)
  step : ∀ n, P.step (state n) (label n) = some (state (n + 1))

/-- a party that has something to do in every state from some point on does something after it -/
def FairTo (i : ι) (state : Nat → σ) (label : Nat → α) : Prop :=
  ∀ n, (∀ m ≥ n, ∃ a, P.party a = i ∧ P.Busy (state m) a) →
    ∃ m ≥ n, P.party (label m) = i ∧ P.Lowers (state m) (label m) (state (m + 1))

def Fair (state : Nat → σ) (label : Nat → α) : Prop := ∀ i, P.FairTo i state label

variable {P}

/-- an invariant of the moves that satisfy `p` holds in every state of an execution that keeps to it -/
theorem Execution.inv {state : Nat → σ} {label : Nat → α} (he : P.Execution state label)
    {p : σ → α → Prop} {I : σ → Prop} (hstep : ∀ s a s', I s → p s a → P.step s a = some s' → I s')
    (hstart : I (state 0)) (hok : ∀ n, p (state n) (label n)) (n : Nat) : I (state n) := by
  induction n with
  | zero => exact hstart
  | succ n ih => exact hstep _ _ _ ih (hok n) (he.step n)

/-- every state of an execution that goes on from a run is the end of a run -/
theorem Execution.reached {state : Nat → σ} {label : Nat → α} (he : P.Execution state label)
    {p : σ → α → Prop} (hok : ∀ n, p (state n) (label n)) {s : σ} {l : List α}
    (hl : RunOk P.step p s l) (hrun : run P.step s l = some (state 0)) (n : Nat) :
    ∃ l, RunOk P.step p s l ∧ run P.step s l = some (state n) := by
  induction n with
  | zero => exact ⟨l, hl, hrun⟩
  | succ n ih =>
    obtain ⟨l', hl', hrun'⟩ := ih
    exact ⟨l' ++ [label n], runOk_append hl' hrun' (runOk_one (hok n)),
      (run_append hrun').trans (run_one (he.step n))⟩

/-- only finitely many moves of an execution change anything -/
theorem Execution.constant [WellFoundedLT ω] {state : Nat → σ} {label : Nat → α}
    (he : P.Execution state label) : ∃ n, ∀ m ≥ n, state m = state n := by
  obtain ⟨n, hn⟩ : ∃ n, ∀ m, ¬ P.work (state m) < P.work (state n) := by
    obtain ⟨-, ⟨n, rfl⟩, hmin⟩ := WellFounded.has_min (wellFounded_lt (α := ω))
      (Set.range fun n => P.work (state n)) ⟨_, 0, rfl⟩
    exact ⟨n, fun m => hmin _ ⟨m, rfl⟩⟩
  refine ⟨n, fun m hm => ?_⟩
  induction m, hm using Nat.le_induction with
  | base => rfl
  | succ m hm ih =>
    refine ((P.same_or_lt (he.own m) (he.step m)).resolve_right fun hlt => ?_).trans ih
    exact hn (m + 1) (ih ▸ hlt)

/-- **A fair execution comes to rest**, and stays so. -/
theorem fair_rests [WellFoundedLT ω] {state : Nat → σ} {label : Nat → α} (he : P.Execution state label)
    (hfair : P.Fair state label) : ∃ n, P.AtRest (state n) ∧ ∀ m ≥ n, state m = state n := by
  obtain ⟨n, hn⟩ := he.constant
  refine ⟨n, fun a s' hlower => ?_, hn⟩
  -- the party of `a` could do something for ever
  obtain ⟨m, hm, -, hlower⟩ := hfair (P.party a) n fun m hm => ⟨a, rfl, s', hn m hm ▸ hlower⟩
  have hlt := hlower.work
  rw [hn m hm, hn (m + 1) (Nat.le_succ_of_le hm)] at hlt
  exact lt_irrefl _ hlt

/-! ## fair executions there are -/

theorem fair_constant {s : σ} {a : α} (hrest : P.AtRest s) : P.Fair (fun _ => s) fun _ => a := by
  intro i n hable
  obtain ⟨b, -, s', hlower⟩ := hable n (Nat.le_refl n)
  exact absurd hlower (hrest b s')

theorem fair_cons {state : Nat → σ} {label : Nat → α} (hfair : P.Fair state label) (s : σ) (a : α) :
    P.Fair (fun n => n.casesOn s state) fun n => n.casesOn a label := by
  intro i n hable
  obtain ⟨m, hm, hlower⟩ := hfair i n fun m hm => hable (m + 1) (Nat.le_succ_of_le hm)
  exact ⟨m + 1, Nat.le_succ_of_le hm, hlower⟩

/-- **A run of own moves to a state at rest goes on as a fair execution** when a party can look again
there and find nothing. -/
theorem follow {p : σ → α → Prop} {s t : σ} {l : List α} {a : α} (hrun : run P.step s l = some t)
    (hown : ∀ b ∈ l, P.own b) (hok : RunOk P.step p s l) (hrest : P.AtRest t) (ha : P.own a)
    (hsame : P.step t a = some t) (hoka : p t a) :
    ∃ state label, state 0 = s ∧ P.Execution state label ∧ P.Fair state label ∧
      ∀ n, p (state n) (label n) := by
  induction l generalizing s with
  | nil =>
    obtain rfl := Option.some.inj hrun
    exact ⟨fun _ => s, fun _ => a, rfl, ⟨fun _ => ha, fun _ => hsame⟩, fair_constant hrest,
      fun _ => hoka⟩
  | cons b l ih =>
    obtain ⟨s', hstep, htail⟩ := run_cons.mp hrun
    obtain ⟨state, label, rfl, he, hfair, hall⟩ :=
      ih htail (fun b hb => hown b (List.mem_cons_of_mem _ hb)) (hok.2 s' hstep)
    refine ⟨fun n => n.casesOn s state, fun n => n.casesOn b label, rfl, ⟨?_, ?_⟩,
      fair_cons hfair s b, ?_⟩
    · rintro (_ | n)
      · exact hown b List.mem_cons_self
      · exact he.own n
    · rintro (_ | n)
      · exact hstep
      · exact he.step n
    · rintro (_ | n)
      · exact hok.1
      · exact hall n

end Progress

end VncProxy
