import VncProxy.Tcp.Drain

/-!
# The system calls of `TcpServer`

The sockets are blocking: `recv` and `send` return when the peer has sent or taken something or the
connection has ended.  No thread can do anything about it, so it is a hypothesis of its own.

* `State.InCall`     a thread is in a system call;
* `Returns`          every call returns;
* `Drives`           a step system that takes the steps of a server among others;
* `Drives.fairTo`, `Drives.returns`  there the calls return just when the parties that are calls are not
                     passed over for ever.
-/

namespace VncProxy.Tcp

variable {h k : Nat} {s s' : State h k} {c : Call}

/-- the main thread is in `recv`, the send thread in `send` -/
def State.InCall (s : State h k) : Call → Prop
  | .recv => ∃ fd m, s.main = .recv fd m false
  | .send => ∃ m index, s.sender = .send m index

/-- every `recv` that is called returns, and every `send` in the end with bytes or an error; `action` are
the steps that the server takes -/
def Returns (state : Nat → State h k) (action : Nat → Option (Action h k)) : Prop :=
  ∀ n c, (state n).InCall c → ∃ m ≥ n, ∃ a ∈ action m, a.party = .call c

/-! ## a call -/

theorem inCall_of_party {a : Action h k} (ha : a.party = .call c) (hstep : s.stepAny a = some s') :
    s.InCall c := by
  cases a with
  | recv ret =>
    cases ha
    change s.recv ret = _ at hstep
    unfold State.recv at hstep
    split at hstep
    · next fd m hp => exact ⟨fd, m, hp⟩
    · cases hstep
  | send ret =>
    change s.send ret = _ at hstep
    unfold State.send at hstep
    split at hstep
    · next m index hp =>
      cases ret with
      | again => cases ha
      | sent | closed | error =>
        cases ha
        exact ⟨m, index, hp⟩
    · cases hstep
  | accept | event | OnAccept | main | handler | sender | call | caller => cases ha

/-- a call can return, whatever is at its other end -/
theorem State.InCall.able (hs : s.InCall c) : ∃ (a : Action h k) (t : State h k),
    a.Own ∧ a.party = .call c ∧ s.stepAny a = some t := by
  cases c with
  | recv =>
    obtain ⟨fd, m, hp⟩ := hs
    refine ⟨.recv .closed, s.setMain (.StopEvio fd m), trivial, rfl, ?_⟩
    show s.recv .closed = _
    unfold State.recv
    rw [hp]
  | send =>
    obtain ⟨m, index, hp⟩ := hs
    refine ⟨.send .closed, s.setSender (.Disconnect m), trivial, rfl, ?_⟩
    show s.send .closed = _
    unfold State.send
    rw [hp]

theorem call_work {a : Action h k} (hown : a.Own) (ha : a.party = .call c)
    (hstep : s.stepAny a = some s') : s'.work < s.work := by
  refine (step_work hown hstep).resolve_left fun hwaits => ?_
  cases hwaits.2 with
  | main | handler | sender | send => cases ha

theorem State.InCall.kept {a : Action h k} (hs : s.InCall c) (ha : a.party ≠ .call c)
    (hstep : s.stepAny a = some s') : s'.InCall c := by
  cases c with
  | recv =>
    obtain ⟨fd, m, hp⟩ := hs
    refine ⟨fd, m, ?_⟩
    cases a with
    | recv => exact absurd rfl ha
    | accept fd' =>
      change s.accept fd' = _ at hstep
      unfold State.accept at hstep
      rw [hp, if_neg fun hloop => by cases hloop.1] at hstep
      cases hstep
    | event fd' error =>
      change s.event fd' error = _ at hstep
      unfold State.event at hstep
      rw [hp, if_neg fun hloop => by cases hloop.1] at hstep
      cases hstep
    | OnAccept ret =>
      change s.onAccept ret = _ at hstep
      unfold State.onAccept at hstep
      rw [hp] at hstep
      cases hstep
    | main =>
      change s.stepMain = _ at hstep
      unfold State.stepMain at hstep
      rw [hp] at hstep
      cases hstep
    | handler i => exact (frame_stepHandler hstep).main.trans hp
    | send ret => exact (frame_send hstep).main.trans hp
    | sender => exact (frame_stepSender hstep).main.trans hp
    | call j fd' len => exact (frame_callAny hstep).main.trans hp
    | caller j => exact (frame_stepCaller hstep).main.trans hp
  | send =>
    obtain ⟨m, index, hp⟩ := hs
    refine ⟨m, index, ?_⟩
    have hmain : a.OfMain → s'.sender = .send m index :=
      fun hmain => (frame_main hmain hstep).sender.trans hp
    cases a with
    | send ret =>
      cases ret with
      | again =>
        change s.send .again = _ at hstep
        unfold State.send at hstep
        rw [hp] at hstep
        exact Option.some.inj hstep ▸ hp
      | sent | closed | error => exact absurd rfl ha
    | sender =>
      change s.stepSender = _ at hstep
      unfold State.stepSender at hstep
      rw [hp] at hstep
      cases hstep
    | accept | event | OnAccept | recv | main => exact hmain trivial
    | handler i => exact (frame_stepHandler hstep).sender.trans hp
    | call j fd' len => exact (frame_callAny hstep).sender.trans hp
    | caller j => exact (frame_stepCaller hstep).sender.trans hp

/-! ## a step system with a server in it -/

/-- `P` takes the steps of a server among others -/
structure Drives {σ α ι ω : Type} [Preorder ω] (P : Progress σ α ι ω) (server : σ → State h k)
    (action : α → Option (Action h k)) (party : Call → ι) : Prop where
  own : ∀ {a b}, P.own a → b ∈ action a → b.Own
  step : ∀ {s a s' b}, P.step s a = some s' → b ∈ action a → (server s).stepAny b = some (server s')
  /-- a step of another does not end a call -/
  other : ∀ {s a s' c}, P.step s a = some s' → action a = none → (server s).InCall c →
    (server s').InCall c
  party : ∀ {a c}, P.party a = party c ↔ ∃ b ∈ action a, b.party = .call c
  able : ∀ {s b c t}, b.Own → b.party = .call c → (server s).stepAny b = some t →
    ∃ a s', b ∈ action a ∧ P.own a ∧ P.step s a = some s'

namespace Drives

variable {σ α ι ω : Type} [Preorder ω] {P : Progress σ α ι ω} {server : σ → State h k}
  {action : α → Option (Action h k)} {party : Call → ι} {state : Nat → σ} {label : Nat → α}

theorem lowers (hd : Drives P server action party) {s s' : σ} {a : α} (hown : P.own a)
    (ha : P.party a = party c) (hstep : P.step s a = some s') : P.Lowers s a s' := by
  refine ⟨hown, hstep, (P.same_or_lt hown hstep).resolve_left ?_⟩
  rintro rfl
  obtain ⟨b, hb, hparty⟩ := hd.party.mp ha
  exact absurd (call_work (hd.own hown hb) hparty (hd.step hstep hb)) (lt_irrefl _)

/-- **Calls that return are not passed over.** -/
theorem fairTo (hd : Drives P server action party) (he : P.Execution state label)
    (hreturns : Returns (fun n => server (state n)) fun n => action (label n)) (c : Call) :
    P.FairTo (party c) state label := by
  intro n hable
  obtain ⟨a, ha, s', hlower⟩ := hable n (Nat.le_refl n)
  obtain ⟨b, hb, hparty⟩ := hd.party.mp ha
  obtain ⟨m, hm, hreturn⟩ := hreturns n c (inCall_of_party hparty (hd.step hlower.step hb))
  exact ⟨m, hm, hd.party.mpr hreturn, hd.lowers (he.own m) (hd.party.mpr hreturn) (he.step m)⟩

/-- **Calls that are not passed over return.** -/
theorem returns (hd : Drives P server action party) (he : P.Execution state label)
    (hfair : ∀ c, P.FairTo (party c) state label) :
    Returns (fun n => server (state n)) fun n => action (label n) := by
  intro n c hs
  by_contra hnone
  push Not at hnone
  -- the thread would be in its call for ever
  have hin : ∀ m ≥ n, (server (state m)).InCall c := by
    intro m hm
    induction m, hm using Nat.le_induction with
    | base => exact hs
    | succ m hm ih =>
      cases ha : action (label m) with
      | none => exact hd.other (he.step m) ha ih
      | some b => exact ih.kept (hnone m hm b ha) (hd.step (he.step m) ha)
  obtain ⟨m, hm, hparty, -⟩ := hfair c n fun m hm => by
    obtain ⟨b, t, hown, hparty, hstep⟩ := (hin m hm).able
    obtain ⟨a, s', hb, howna, hmove⟩ := hd.able hown hparty hstep
    have ha := hd.party.mpr ⟨b, hb, hparty⟩
    exact ⟨a, ha, s', hd.lowers howna ha hmove⟩
  obtain ⟨b, hb, hcall⟩ := hd.party.mp hparty
  exact hnone m hm b hb hcall

/-- the threads and the calls are all there is -/
theorem fair {P : Progress σ α (Party h k) ω} (hd : Drives P server action .call)
    (he : P.Execution state label) (hfair : ∀ t, P.FairTo (.thread t) state label)
    (hreturns : Returns (fun n => server (state n)) fun n => action (label n)) : P.Fair state label
  | .thread t => hfair t
  | .call c => hd.fairTo he hreturns c

end Drives

end VncProxy.Tcp
