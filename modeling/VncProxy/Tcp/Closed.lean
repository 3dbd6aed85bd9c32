import VncProxy.Tcp.Close
import VncProxy.Tcp.Rest

/-!
# No descriptor of `TcpServer` is lost

* `State.Tidy`   an open connection is watched, or disconnected, or in the hands of the main thread, and
                 one that is disconnected and no longer open has been closed once;
* `Tidy.step`    every step that is `Calm` keeps it;
* `closes_all`   when nothing more comes, the calls return and no thread is passed over for ever, every
                 connection is in the end watched, or has had one `OnClose` and one `close`.
-/

namespace VncProxy.Tcp

variable {h k : Nat} {s s' : State h k}

/-! ## the invariant -/

/-- the main thread is going to watch or to disconnect it -/
def MainPc.opening : MainPc → Option Nat
  | .resetCount fd | .resetSeqRecv fd | .resetSeqSend fd | .OnAccept fd | .watch fd | .refuse fd
  | .OnDisconnect fd _ | .closeIfNeed fd _ => some fd
  | .loop | .popIdle .. | .recv .. | .handleSize .. | .OnTimeoutMessage .. | .timeoutIdle ..
  | .count .. | .seq .. | .push .. | .againIdle .. | .StopEvio .. | .OnClose .. | .close .. | .idle _ =>
    none

def Slot.Closed (sl : Slot) : Prop :=
  sl.isOpen = false → sl.disconnected = true → sl.decided = true ∧ sl.closes = 1

/-- `Accept_Callback` returns at once for descriptor 0 -/
structure State.Tidy (s : State h k) : Prop where
  kept : ∀ fd, fd ≠ 0 → (s.slot fd).isOpen = true →
    (s.slot fd).watched = true ∨ (s.slot fd).disconnected = true ∨ s.main.opening = some fd
  closed : ∀ fd, (s.slot fd).Closed

theorem State.Tidy.goto (ht : s.Tidy) (hslot : s'.slot = s.slot)
    (hmain : ∀ fd, s.main.opening = some fd → s'.main.opening = some fd) : s'.Tidy := by
  refine ⟨fun fd hfd ho => ?_, fun fd => hslot ▸ ht.closed fd⟩
  rw [hslot] at ho ⊢
  exact (ht.kept fd hfd ho).imp_right (Or.imp_right (hmain fd))

theorem State.Tidy.gotoSlot (ht : s.Tidy) {fd : Nat} {sl : Slot}
    (hslot : s'.slot = Function.update s.slot fd sl)
    (hmain : ∀ fd', fd' ≠ fd → s.main.opening = some fd' → s'.main.opening = some fd')
    (hkept : fd ≠ 0 → sl.isOpen = true →
      sl.watched = true ∨ sl.disconnected = true ∨ s'.main.opening = some fd)
    (hclosed : sl.Closed) : s'.Tidy := by
  constructor
  · intro fd' hfd' ho
    rw [hslot] at ho ⊢
    by_cases hne : fd' = fd
    · subst hne
      rw [Function.update_self] at ho ⊢
      exact hkept hfd' ho
    · rw [Function.update_of_ne hne] at ho ⊢
      exact (ht.kept fd' hfd' ho).imp_right (Or.imp_right (hmain fd' hne))
  · intro fd'
    rw [hslot]
    by_cases hne : fd' = fd
    · subst hne
      rw [Function.update_self]
      exact hclosed
    · rw [Function.update_of_ne hne]
      exact ht.closed fd'

/-! ## the other threads -/

/-- what another thread does to a slot -/
structure Slot.Beside (sl sl' : Slot) : Prop where
  watched : sl'.watched = sl.watched
  disconnected : sl'.disconnected = sl.disconnected
  isOpen : sl'.isOpen = true → sl.isOpen = true
  closed : sl.Closed → sl'.Closed

theorem Slot.Beside.refl (sl : Slot) : sl.Beside sl := ⟨rfl, rfl, id, id⟩

theorem beside_update {f : Nat → Slot} {fd : Nat} {sl : Slot} (hsl : (f fd).Beside sl) (fd' : Nat) :
    (f fd').Beside (Function.update f fd sl fd') := by
  by_cases hfd : fd' = fd
  · subst hfd
    rw [Function.update_self]
    exact hsl
  · rw [Function.update_of_ne hfd]
    exact .refl _

theorem State.Tidy.other (ht : s.Tidy) (hmain : s'.main = s.main)
    (hslot : ∀ fd, (s.slot fd).Beside (s'.slot fd)) : s'.Tidy := by
  refine ⟨fun fd hfd ho => ?_, fun fd => (hslot fd).closed (ht.closed fd)⟩
  rw [(hslot fd).watched, (hslot fd).disconnected, hmain]
  exact ht.kept fd hfd ((hslot fd).isOpen ho)

theorem Slot.beside_closeIfNeed (sl : Slot) : sl.Beside sl.CloseSocketIfNeedByHandleThread.2 := by
  unfold Slot.CloseSocketIfNeedByHandleThread
  dsimp only
  split
  · split
    · exact ⟨rfl, rfl, id, fun hc ho hd => ⟨rfl, (hc ho hd).2⟩⟩
    · exact ⟨rfl, rfl, id, id⟩
  · exact ⟨rfl, rfl, id, id⟩

theorem State.Inv.closing (hi : s.Inv) {fd : Nat} (hc : s.Closing fd) :
    (s.slot fd).isOpen = true ∧ (s.slot fd).decided = true ∧ (s.slot fd).closes = 0 := by
  have hentry := hi.table.entry fd
  have hpos : 0 < (Tcp.table s.slot s.load).finalizing.count fd +
      (Tcp.table s.slot s.load).freeing.count fd := by
    rcases hc.mem with hm | hm
    · exact Nat.add_pos_left (Multiset.count_pos.mpr hm) _
    · exact Nat.add_pos_right _ (Multiset.count_pos.mpr hm)
  obtain ⟨hlive, hdecided, -⟩ := hentry.closing hpos
  exact ⟨hlive, hdecided, hentry.frees.2 hlive⟩

theorem State.Inv.closed_close (hi : s.Inv) {fd : Nat} (hc : s.Closing fd) :
    (s.slot fd).close.Closed := by
  obtain ⟨-, hdecided, hcloses⟩ := hi.closing hc
  exact fun _ _ => ⟨hdecided, congrArg (· + 1) hcloses⟩

theorem State.Inv.beside_close (hi : s.Inv) {fd : Nat} (hc : s.Closing fd) :
    (s.slot fd).Beside (s.slot fd).close :=
  ⟨rfl, rfl, fun _ => (hi.closing hc).1, fun _ => hi.closed_close hc⟩

theorem State.Tidy.stepHandler (ht : s.Tidy) (hi : s.Inv) {i : Fin h}
    (hstep : s.stepHandler i = some s') : s'.Tidy := by
  have hmain := (frame_stepHandler hstep).main
  unfold State.stepHandler at hstep
  cases hp : s.handler i with
  | popFront =>
    rw [hp] at hstep
    dsimp only at hstep
    split at hstep <;> obtain rfl := Option.some.inj hstep <;>
      exact ht.other hmain fun _ => .refl _
  | handle m | idle m =>
    rw [hp] at hstep
    obtain rfl := Option.some.inj hstep
    exact ht.other hmain fun _ => .refl _
  | closeIfNeed m =>
    rw [hp] at hstep
    obtain rfl := Option.some.inj hstep
    exact ht.other hmain (beside_update (Slot.beside_closeIfNeed _))
  | OnClose fd m =>
    rw [hp] at hstep
    obtain rfl := Option.some.inj hstep
    exact ht.other hmain (beside_update ⟨rfl, rfl, id, id⟩)
  | close fd m =>
    rw [hp] at hstep
    obtain rfl := Option.some.inj hstep
    exact ht.other hmain (beside_update (hi.beside_close (.inr (.inl ⟨i, m, .inr hp⟩))))

theorem State.Tidy.send (ht : s.Tidy) {ret : SendRet} (hstep : s.send ret = some s') : s'.Tidy := by
  have hmain := (frame_send hstep).main
  unfold State.send at hstep
  split at hstep
  · cases ret with
    | sent n =>
      dsimp only at hstep
      split at hstep
      · obtain rfl := Option.some.inj hstep
        exact ht.other hmain fun _ => .refl _
      · cases hstep
    | closed | again | error =>
      obtain rfl := Option.some.inj hstep
      exact ht.other hmain fun _ => .refl _
  · cases hstep

theorem State.Tidy.stepSender (ht : s.Tidy) (hi : s.Inv) (hstep : s.stepSender = some s') :
    s'.Tidy := by
  have hmain := (frame_stepSender hstep).main
  unfold State.stepSender at hstep
  cases hp : s.sender with
  | popFront =>
    rw [hp] at hstep
    dsimp only at hstep
    split at hstep <;> obtain rfl := Option.some.inj hstep <;>
      exact ht.other hmain fun _ => .refl _
  | send m index =>
    rw [hp] at hstep
    cases hstep
  | OnSendMessage m | Disconnect m | idle m | readFd m =>
    rw [hp] at hstep
    obtain rfl := Option.some.inj hstep
    exact ht.other hmain fun _ => .refl _
  | closeIfNeed m fd =>
    rw [hp] at hstep
    obtain rfl := Option.some.inj hstep
    exact ht.other hmain (beside_update (Slot.beside_closeIfNeed _))
  | OnClose fd =>
    rw [hp] at hstep
    obtain rfl := Option.some.inj hstep
    exact ht.other hmain (beside_update ⟨rfl, rfl, id, id⟩)
  | close fd =>
    rw [hp] at hstep
    obtain rfl := Option.some.inj hstep
    exact ht.other hmain (beside_update (hi.beside_close (.inr (.inr (.inr hp)))))

theorem State.Tidy.call (ht : s.Tidy) {j : Fin k} {fd len : Nat} (hstep : s.call j fd len = some s') :
    s'.Tidy := by
  unfold State.call at hstep
  split at hstep
  · split at hstep <;> obtain rfl := Option.some.inj hstep <;>
      exact ht.other rfl fun _ => .refl _
  · cases hstep

theorem State.Tidy.stepCaller (ht : s.Tidy) {j : Fin k} (hstep : s.stepCaller j = some s') :
    s'.Tidy := by
  have hmain := (frame_stepCaller hstep).main
  unfold State.stepCaller at hstep
  cases hp : s.caller j with
  | free =>
    rw [hp] at hstep
    cases hstep
  | count m | seq m =>
    rw [hp] at hstep
    obtain rfl := Option.some.inj hstep
    exact ht.other hmain (beside_update ⟨rfl, rfl, id, id⟩)
  | push m =>
    rw [hp] at hstep
    obtain rfl := Option.some.inj hstep
    exact ht.other hmain fun _ => .refl _

/-! ## the main thread -/

theorem State.Tidy.accept (ht : s.Tidy) {fd : Nat} (hstep : s.accept fd = some s') : s'.Tidy := by
  unfold State.accept at hstep
  split at hstep
  · next hloop =>
    obtain rfl := Option.some.inj hstep
    have hnone : ∀ fd', s.main.opening ≠ some fd' := fun fd' he => by
      rw [hloop.1] at he
      cases he
    split
    · next h0 =>
      exact ht.gotoSlot rfl (fun fd' _ he => absurd he (hnone fd')) (fun hfd => absurd h0 hfd)
        fun ho => by cases ho
    · exact ht.gotoSlot rfl (fun fd' _ he => absurd he (hnone fd')) (fun _ _ => .inr (.inr rfl))
        fun ho => by cases ho
  · cases hstep

theorem State.Tidy.stepMain (ht : s.Tidy) (hi : s.Inv) (hstep : s.stepMain = some s') : s'.Tidy := by
  have hok := hi.main
  unfold State.stepMain at hstep
  cases hp : s.main with
  | loop | OnAccept fd =>
    rw [hp] at hstep
    cases hstep
  | resetCount fd | resetSeqRecv fd | resetSeqSend fd =>
    rw [hp] at hstep
    obtain rfl := Option.some.inj hstep
    refine ht.gotoSlot rfl (fun fd' hne he => ?_) (fun _ _ => .inr (.inr rfl)) (ht.closed fd)
    rw [hp] at he
    exact absurd (Option.some.inj he).symm hne
  | watch fd =>
    rw [hp] at hstep
    dsimp only at hstep
    split at hstep
    · obtain rfl := Option.some.inj hstep
      refine ht.gotoSlot rfl (fun fd' hne he => ?_) (fun _ _ => .inl rfl) (ht.closed fd)
      rw [hp] at he
      exact absurd (Option.some.inj he).symm hne
    · obtain rfl := Option.some.inj hstep
      exact ht.goto rfl fun fd' he => by rwa [hp] at he
  | refuse fd | OnDisconnect fd m =>
    rw [hp] at hstep
    obtain rfl := Option.some.inj hstep
    exact ht.goto rfl fun fd' he => by rwa [hp] at he
  | popIdle fd error =>
    rw [hp] at hstep
    dsimp only at hstep
    split at hstep <;> obtain rfl := Option.some.inj hstep
    · exact ht
    · exact ht.goto rfl fun fd' he => by
        rw [hp] at he
        cases he
  | recv fd m error =>
    rw [hp] at hstep
    cases error with
    | false => cases hstep
    | true =>
      obtain rfl := Option.some.inj hstep
      exact ht.goto rfl fun fd' he => by
        rw [hp] at he
        cases he
  | handleSize fd m =>
    rw [hp] at hstep
    dsimp only at hstep
    split at hstep <;> obtain rfl := Option.some.inj hstep <;>
      exact ht.goto rfl fun fd' he => by
        rw [hp] at he
        cases he
  | OnTimeoutMessage fd m | timeoutIdle fd m | push fd m | againIdle fd m =>
    rw [hp] at hstep
    obtain rfl := Option.some.inj hstep
    exact ht.goto rfl fun fd' he => by
      rw [hp] at he
      cases he
  | count fd m | seq fd m =>
    rw [hp] at hstep hok
    obtain rfl := Option.some.inj hstep
    refine ht.gotoSlot rfl (fun fd' hne he => ?_) (fun _ _ => .inl hok.2.1) (ht.closed fd)
    rw [hp] at he
    cases he
  | StopEvio fd m =>
    rw [hp] at hstep
    obtain rfl := Option.some.inj hstep
    refine ht.gotoSlot rfl (fun fd' hne he => ?_) (fun _ _ => .inr (.inr rfl)) (ht.closed fd)
    rw [hp] at he
    cases he
  | closeIfNeed fd m =>
    rw [hp] at hstep hok
    obtain rfl := Option.some.inj hstep
    have hdisconnected : (s.slot fd).OnDisconnect.2.disconnected = true := by
      unfold Slot.OnDisconnect
      dsimp only
      split <;> rfl
    have hopen : (s.slot fd).OnDisconnect.2.isOpen = true := by
      unfold Slot.OnDisconnect
      dsimp only
      split <;> exact hok.1.isOpen
    refine ht.gotoSlot rfl (fun fd' hne he => ?_) (fun _ _ => .inr (.inl hdisconnected)) fun ho => ?_
    · rw [hp] at he
      exact absurd (Option.some.inj he).symm hne
    · rw [hopen] at ho
      cases ho
  | OnClose fd m =>
    rw [hp] at hstep
    obtain rfl := Option.some.inj hstep
    refine ht.gotoSlot rfl (fun fd' hne he => ?_) (fun h0 ho => ?_) (ht.closed fd)
    · rw [hp] at he
      cases he
    · refine (ht.kept fd h0 ho).imp_right (Or.imp_right fun he => ?_)
      rw [hp] at he
      cases he
  | close fd m =>
    rw [hp] at hstep
    obtain rfl := Option.some.inj hstep
    refine ht.gotoSlot rfl (fun fd' hne he => ?_) (fun _ ho => by cases ho)
      (hi.closed_close (.inl ⟨m, .inr hp⟩))
    rw [hp] at he
    cases he
  | idle m =>
    rw [hp] at hstep
    cases m with
    | none | some m =>
      obtain rfl := Option.some.inj hstep
      exact ht.goto rfl fun fd' he => by
        rw [hp] at he
        cases he

theorem State.Tidy.event (ht : s.Tidy) {fd : Nat} {error : Bool} (hstep : s.event fd error = some s') :
    s'.Tidy := by
  unfold State.event at hstep
  split at hstep
  · next hloop =>
    obtain rfl := Option.some.inj hstep
    exact ht.goto rfl fun fd' he => by
      rw [hloop.1] at he
      cases he
  · cases hstep

theorem State.Tidy.onAccept (ht : s.Tidy) {ret : Bool} (hstep : s.onAccept ret = some s') :
    s'.Tidy := by
  unfold State.onAccept at hstep
  split at hstep
  · next fd hp =>
    obtain rfl := Option.some.inj hstep
    refine ht.goto rfl fun fd' he => ?_
    rw [hp] at he
    cases ret <;> exact he
  · cases hstep

theorem State.Tidy.recv (ht : s.Tidy) {ret : RecvRet} (hstep : s.recv ret = some s') : s'.Tidy := by
  unfold State.recv at hstep
  split at hstep
  · next fd m hp =>
    have hnone : ∀ fd', s.main.opening ≠ some fd' := fun fd' he => by
      rw [hp] at he
      cases he
    cases ret with
    | data n =>
      dsimp only at hstep
      split at hstep
      · obtain rfl := Option.some.inj hstep
        exact ht.goto rfl fun fd' he => absurd he (hnone fd')
      · cases hstep
    | closed | again | error =>
      obtain rfl := Option.some.inj hstep
      exact ht.goto rfl fun fd' he => absurd he (hnone fd')
  · cases hstep

/-- **A step keeps it.** -/
theorem State.Tidy.step (ht : s.Tidy) (hi : s.Inv) {a : Action h k} (hstep : s.step a = some s') :
    s'.Tidy := by
  cases a with
  | accept fd => exact ht.accept hstep
  | event fd error => exact ht.event hstep
  | OnAccept ret => exact ht.onAccept hstep
  | recv ret => exact ht.recv hstep
  | main => exact ht.stepMain hi hstep
  | handler i => exact ht.stepHandler hi hstep
  | send ret => exact ht.send hstep
  | sender => exact ht.stepSender hi hstep
  | call j fd len => exact ht.call hstep
  | caller j => exact ht.stepCaller hstep

theorem State.Tidy.init (h k pool watchers handleSize : Nat) (junk : Nat → Int × Bool × Nat × Nat) :
    (State.init h k pool watchers handleSize junk).Tidy where
  kept := fun _ _ ho => by cases ho
  closed := fun _ _ hd => by cases hd

/-! ## every fair execution -/

/-- what a connection can be when nothing is left to be done -/
structure State.Released (s : State h k) : Prop where
  /-- an open one is watched, and no Message of it is counted -/
  watched : ∀ fd, fd ≠ 0 → (s.slot fd).isOpen = true →
    (s.slot fd).watched = true ∧ (s.slot fd).mpHandlingMessageCount = 0
  /-- one that `OnDisconnect` was called for is closed -/
  disconnected : ∀ fd, (s.slot fd).disconnected = true →
    (s.slot fd).isOpen = false ∧ (s.slot fd).onCloses = 1 ∧ (s.slot fd).closes = 1

theorem State.Resting.load (hs : s.Resting) : s.load = 0 := by
  unfold State.load State.threadLoad
  rw [hs.handleList, hs.sendList, hs.main, hs.sender]
  simp only [hs.handler, hs.caller]
  simp [MainPc.load, SenderPc.load, HandlerPc.load, CallerPc.load, listLoad]

theorem State.Inv.released (hi : s.Inv) (ht : s.Tidy) (hs : s.Resting) : s.Released := by
  have hentry : ∀ fd, (s.slot fd).handle.Ok 0 0 0 := fun fd => by
    have hok := hi.table.entry fd
    rw [hs.load] at hok
    exact hok
  have hclosed : ∀ fd, (s.slot fd).disconnected = true → (s.slot fd).isOpen = false := by
    intro fd hd
    by_contra ho
    have ho : (s.slot fd).isOpen = true := by simpa using ho
    have hdecided : (s.slot fd).decided = true := by
      by_contra hne
      have hne : (s.slot fd).decided = false := by simpa using hne
      exact absurd ((hentry fd).waiting ho hd hne) (Nat.lt_irrefl 0)
    have hclosers := (hentry fd).closers
    rw [if_pos ⟨ho, hdecided⟩] at hclosers
    cases hclosers
  constructor
  · intro fd hfd ho
    rcases ht.kept fd hfd ho with hw | hd | he
    · have hserving := hi.watched fd hw
      exact ⟨hw, (hentry fd).refs ho hserving.counted⟩
    · rw [hclosed fd hd] at ho
      cases ho
    · rw [hs.main] at he
      cases he
  · intro fd hd
    obtain ⟨hdecided, hcloses⟩ := ht.closed fd (hclosed fd hd) hd
    have hfinals : (s.slot fd).onCloses + 0 = if (s.slot fd).decided = true then 1 else 0 :=
      (hentry fd).finals
    rw [if_pos hdecided] at hfinals
    exact ⟨hclosed fd hd, hfinals, hcloses⟩

theorem Action.Own.step {a : Action h k} (hown : a.Own) (s : State h k) : s.stepAny a = s.step a := by
  cases a with
  | call => exact hown.elim
  | accept | event | OnAccept | recv | main | handler | send | sender | caller => rfl

/-- a reply for a connection that other threads know is one for any descriptor -/
theorem stepAny_of_step {a : Action h k} (hstep : s.step a = some s') : s.stepAny a = some s' := by
  cases a with
  | call j fd len =>
    change s.call j fd len = _ at hstep
    show s.callAny j fd len = _
    unfold State.call at hstep
    split at hstep
    · next hknown =>
      unfold State.callAny
      rw [if_pos hknown.1]
      exact hstep
    · cases hstep
  | accept | event | OnAccept | recv | main | handler | send | sender | caller => exact hstep

section
variable {pool watchers handleSize : Nat} {junk : Nat → Int × Bool × Nat × Nat}
  {l : List (Action h k)} {state : Nat → State h k} {label : Nat → Action h k}

/-- what holds in every run of steps that are `Calm` -/
structure State.Kept (pool : Nat) (s : State h k) : Prop where
  objects : s.objects = Multiset.range pool
  inv : s.Inv
  tidy : s.Tidy

theorem State.Kept.step {s s' : State h k} {a : Action h k} (hi : s.Kept pool) (hcalm : s.Calm a)
    (hstep : s.step a = some s') : s'.Kept pool :=
  ⟨(objects_step (stepAny_of_step hstep)).trans hi.objects, hi.inv.step hcalm hstep,
    hi.tidy.step hi.inv hstep⟩

/-- **Every connection is closed in the end**: after any run of steps that are `Calm`, when nothing more
comes, every `recv` and every `send` returns and no thread that has something to do is passed over for
ever, there is a moment from which on every connection `OnDisconnect` was called for has had one `OnClose`
and one `close`, and every other one is watched. -/
theorem closes_all (hh : 0 < h) (hpool : 0 < pool)
    (hcalm : RunOk State.step State.Calm (State.init h k pool watchers handleSize junk) l)
    (hrun : run State.step (State.init h k pool watchers handleSize junk) l = some (state 0))
    (he : (State.progress h k).Execution state label)
    (hfair : ∀ t, (State.progress h k).FairTo (.thread t) state label)
    (hreturns : Returns state fun n => some (label n)) (hcalms : ∀ n, (state n).Calm (label n)) :
    ∃ n, ∀ m ≥ n, (state m).Released := by
  have hi : (state 0).Kept pool :=
    inv_runOk (fun _ _ _ hi hok hstep => hi.step hok hstep)
      ⟨objects_init .., .init .., .init ..⟩ hcalm hrun
  have hall : ∀ n, (state n).Kept pool := by
    refine he.inv (p := fun s a => a.Own ∧ s.Calm a) (fun s a s' hi hok hstep => ?_) hi
      fun n => ⟨he.own n, hcalms n⟩
    exact hi.step hok.2 ((hok.1.step s).symm.trans hstep)
  obtain ⟨n, hrest, hsame⟩ := Progress.fair_rests he ((State.drives h k).fair he hfair hreturns)
  refine ⟨n, fun m hm => ?_⟩
  rw [hsame m hm]
  obtain ⟨hobjects, hinv, htidy⟩ := hall n
  exact hinv.released htidy (resting_of_atRest hh hpool hobjects hrest)

end

/-- the connection is closed by the client while a chunk of it is in the handle list -/
theorem closes_all_pending :
    ∃ state label, run State.step start (connect5 ++ [.event 5 false, .main, .recv (.data 1), .main, .main,
        .main, .main] ++ fin5) = some (state 0) ∧
      (State.progress 1 1).Execution state label ∧
      (∀ t, (State.progress 1 1).FairTo (.thread t) state label) ∧
      (Returns state fun n => some (label n)) ∧
      ∃ n, ∀ m ≥ n, (state m).Released := by
  obtain ⟨s, hs, hcalm, t, ht, hcalms, hresting⟩ : ∃ s, run State.step start (connect5 ++ [.event 5 false,
        .main, .recv (.data 1), .main, .main, .main, .main] ++ fin5) = some s ∧
      RunOk State.step State.Calm start (connect5 ++ [.event 5 false,
        .main, .recv (.data 1), .main, .main, .main, .main] ++ fin5) ∧
      ∃ t, run State.stepAny s [.main, .handler 0, .handler 0, .handler 0, .handler 0, .handler 0,
          .handler 0] = some t ∧
        RunOk State.stepAny State.Calm s [.main, .handler 0, .handler 0, .handler 0, .handler 0, .handler 0,
          .handler 0] ∧ t.Resting := by
    decide
  obtain ⟨state, label, rfl, he, hfair, hall⟩ := Progress.follow (P := State.progress 1 1) ht
    (by simp [State.progress, Action.Own]) hcalms hresting.atRest
    (show (State.progress 1 1).own (.handler 0) from trivial) (hresting.look 0) trivial
  have hreturns := (State.drives 1 1).returns he fun c => hfair (.call c)
  exact ⟨state, label, hs, he, fun t => hfair (.thread t), hreturns,
    closes_all Nat.one_pos (by decide) hcalm hs he (fun t => hfair (.thread t)) hreturns hall⟩

end VncProxy.Tcp
