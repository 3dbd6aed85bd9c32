import VncProxy.Tcp.Stream

/-!
# What a thread of `TcpServer` leaves alone

* `Slot.Later`      what has become of a connection some steps later;
* `Line`            what only the main thread writes of a slot;
* `MainFrame`, `HandlerFrame`, `SenderFrame`, `CallerFrame`  what a step of one thread leaves alone;
* `frame_main` and its like show it for each of the steps.
-/

namespace VncProxy.Tcp

variable {h k : Nat}

def Slot.Later (sl sl' : Slot) : Prop :=
  sl.gen < sl'.gen ∨ sl'.gen = sl.gen ∧ (sl'.isOpen = true → sl.isOpen = true)

theorem Slot.Later.refl (sl : Slot) : sl.Later sl := .inr ⟨rfl, id⟩

theorem later_update {f : Nat → Slot} {fd : Nat} {sl : Slot} (h : (f fd).Later sl) (fd' : Nat) :
    (f fd').Later (Function.update f fd sl fd') := by
  by_cases hfd : fd' = fd
  · subst hfd
    rw [Function.update_self]
    exact h
  · rw [Function.update_of_ne hfd]
    exact .refl _

theorem Slot.later_closeIfNeed (sl : Slot) : sl.Later sl.CloseSocketIfNeedByHandleThread.2 := by
  unfold Slot.CloseSocketIfNeedByHandleThread
  dsimp only
  split
  · split <;> exact .inr ⟨rfl, id⟩
  · exact .inr ⟨rfl, id⟩

theorem Slot.later_OnDisconnect (sl : Slot) : sl.Later sl.OnDisconnect.2 := by
  unfold Slot.OnDisconnect
  dsimp only
  split <;> exact .inr ⟨rfl, id⟩

theorem Slot.later_accept (sl : Slot) : sl.Later sl.accept := .inl (Nat.lt_succ_self _)

theorem Slot.later_close (sl : Slot) : sl.Later sl.close := .inr ⟨rfl, fun h => by cases h⟩

theorem Slot.Later.gen {sl sl' : Slot} (h : sl.Later sl') : sl.gen ≤ sl'.gen := by
  rcases h with h | h
  · exact Nat.le_of_lt h
  · exact Nat.le_of_eq h.1.symm

/-! ### what only the main thread writes -/

structure Line where
  gen : Nat
  seq : Nat
  watched : Bool

def Slot.line (sl : Slot) : Line := ⟨sl.gen, sl.mpPacketSeqRecv, sl.watched⟩

def State.line (s : State h k) (fd : Nat) : Line := (s.slot fd).line

theorem line_update {s s' : State h k} {fd : Nat} {sl : Slot}
    (hslot : s'.slot = Function.update s.slot fd sl) :
    s'.line = Function.update s.line fd sl.line := by
  funext fd'
  unfold State.line
  rw [hslot]
  exact Function.apply_update (fun _ => Slot.line) s.slot fd sl fd'

theorem line_same {s s' : State h k} {fd : Nat} {sl : Slot}
    (hslot : s'.slot = Function.update s.slot fd sl) (hsl : sl.line = s.line fd) :
    s'.line = s.line := by
  rw [line_update hslot, hsl]
  exact Function.update_eq_self fd _

theorem Slot.line_closeIfNeed (sl : Slot) : sl.CloseSocketIfNeedByHandleThread.2.line = sl.line := by
  unfold Slot.CloseSocketIfNeedByHandleThread
  dsimp only
  split
  · split <;> rfl
  · rfl

theorem Slot.line_OnDisconnect (sl : Slot) : sl.OnDisconnect.2.line = sl.line := by
  unfold Slot.OnDisconnect
  dsimp only
  split <;> rfl

/-! ## one thread -/

structure MainFrame (s : State h k) (a : Action h k) (s' : State h k) : Prop where
  handler : s'.handler = s.handler
  sender : s'.sender = s.sender
  caller : s'.caller = s.caller
  handleList : s'.mHandleMessageList = s.mHandleMessageList ++ s.pushes a
  sendList : s'.mSendImmediatelyMessageList = s.mSendImmediatelyMessageList
  later : ∀ fd, (s.slot fd).Later (s'.slot fd)

structure HandlerFrame (s : State h k) (i : Fin h) (s' : State h k) : Prop where
  main : s'.main = s.main
  others : ∀ i', i' ≠ i → s'.handler i' = s.handler i'
  sender : s'.sender = s.sender
  caller : s'.caller = s.caller
  sendList : s'.mSendImmediatelyMessageList = s.mSendImmediatelyMessageList
  line : s'.line = s.line
  later : ∀ fd, (s.slot fd).Later (s'.slot fd)

structure SenderFrame (s s' : State h k) : Prop where
  main : s'.main = s.main
  handler : s'.handler = s.handler
  caller : s'.caller = s.caller
  handleList : s'.mHandleMessageList = s.mHandleMessageList
  line : s'.line = s.line
  later : ∀ fd, (s.slot fd).Later (s'.slot fd)

structure CallerFrame (s : State h k) (j : Fin k) (s' : State h k) : Prop where
  main : s'.main = s.main
  handler : s'.handler = s.handler
  sender : s'.sender = s.sender
  others : ∀ j', j' ≠ j → s'.caller j' = s.caller j'
  handleList : s'.mHandleMessageList = s.mHandleMessageList
  line : s'.line = s.line
  later : ∀ fd, (s.slot fd).Later (s'.slot fd)

variable {s s' : State h k}

theorem frame_stepMain (hstep : s.stepMain = some s') : MainFrame s .main s' := by
  unfold State.stepMain at hstep
  have hpushes : ∀ {pc}, s.main = pc → (∀ fd m, pc ≠ .push fd m) →
      s.mHandleMessageList = s.mHandleMessageList ++ s.pushes .main := by
    intro pc hp hpc
    unfold State.pushes
    rw [hp]
    cases pc with
    | push fd m => exact absurd rfl (hpc fd m)
    | _ => exact (List.append_nil _).symm
  cases hp : s.main with
  | loop | OnAccept fd =>
    rw [hp] at hstep
    cases hstep
  | push fd m =>
    rw [hp] at hstep
    obtain rfl := Option.some.inj hstep
    refine ⟨rfl, rfl, rfl, ?_, rfl, fun _ => .refl _⟩
    unfold State.pushes
    rw [hp]
    rfl
  | refuse fd | OnTimeoutMessage fd m | timeoutIdle fd m | againIdle fd m | OnDisconnect fd m =>
    rw [hp] at hstep
    obtain rfl := Option.some.inj hstep
    exact ⟨rfl, rfl, rfl, hpushes hp nofun, rfl, fun _ => .refl _⟩
  | resetCount fd | resetSeqRecv fd | resetSeqSend fd | count fd m | seq fd m | StopEvio fd m
  | OnClose fd m =>
    rw [hp] at hstep
    obtain rfl := Option.some.inj hstep
    exact ⟨rfl, rfl, rfl, hpushes hp nofun, rfl, later_update (.inr ⟨rfl, id⟩)⟩
  | close fd m =>
    rw [hp] at hstep
    obtain rfl := Option.some.inj hstep
    exact ⟨rfl, rfl, rfl, hpushes hp nofun, rfl, later_update (Slot.later_close _)⟩
  | closeIfNeed fd m =>
    rw [hp] at hstep
    obtain rfl := Option.some.inj hstep
    exact ⟨rfl, rfl, rfl, hpushes hp nofun, rfl, later_update (Slot.later_OnDisconnect _)⟩
  | watch fd =>
    rw [hp] at hstep
    dsimp only at hstep
    split at hstep
    · obtain rfl := Option.some.inj hstep
      exact ⟨rfl, rfl, rfl, hpushes hp nofun, rfl, later_update (.inr ⟨rfl, id⟩)⟩
    · obtain rfl := Option.some.inj hstep
      exact ⟨rfl, rfl, rfl, hpushes hp nofun, rfl, fun _ => .refl _⟩
  | popIdle fd error | handleSize fd m =>
    rw [hp] at hstep
    dsimp only at hstep
    split at hstep <;> obtain rfl := Option.some.inj hstep <;>
      exact ⟨rfl, rfl, rfl, hpushes hp nofun, rfl, fun _ => .refl _⟩
  | recv fd m error =>
    rw [hp] at hstep
    cases error with
    | false => cases hstep
    | true =>
      obtain rfl := Option.some.inj hstep
      exact ⟨rfl, rfl, rfl, hpushes hp nofun, rfl, fun _ => .refl _⟩
  | idle m =>
    rw [hp] at hstep
    cases m with
    | none | some m =>
      obtain rfl := Option.some.inj hstep
      exact ⟨rfl, rfl, rfl, hpushes hp nofun, rfl, fun _ => .refl _⟩

theorem frame_accept {fd : Nat} (hstep : s.accept fd = some s') : MainFrame s (.accept fd) s' := by
  unfold State.accept at hstep
  split at hstep
  · dsimp only at hstep
    by_cases hfd : fd = 0
    · rw [if_pos hfd] at hstep
      obtain rfl := Option.some.inj hstep
      exact ⟨rfl, rfl, rfl, (List.append_nil _).symm, rfl, later_update (Slot.later_accept _)⟩
    · rw [if_neg hfd] at hstep
      obtain rfl := Option.some.inj hstep
      exact ⟨rfl, rfl, rfl, (List.append_nil _).symm, rfl, later_update (Slot.later_accept _)⟩
  · cases hstep

theorem frame_event {fd : Nat} {error : Bool} (hstep : s.event fd error = some s') :
    MainFrame s (.event fd error) s' := by
  unfold State.event at hstep
  split at hstep
  · obtain rfl := Option.some.inj hstep
    exact ⟨rfl, rfl, rfl, (List.append_nil _).symm, rfl, fun _ => .refl _⟩
  · cases hstep

theorem frame_onAccept {ret : Bool} (hstep : s.onAccept ret = some s') :
    MainFrame s (.OnAccept ret) s' := by
  unfold State.onAccept at hstep
  split at hstep
  · obtain rfl := Option.some.inj hstep
    exact ⟨rfl, rfl, rfl, (List.append_nil _).symm, rfl, fun _ => .refl _⟩
  · cases hstep

theorem frame_recv {ret : RecvRet} (hstep : s.recv ret = some s') : MainFrame s (.recv ret) s' := by
  unfold State.recv at hstep
  split at hstep
  · cases ret with
    | data n =>
      dsimp only at hstep
      split at hstep
      · obtain rfl := Option.some.inj hstep
        exact ⟨rfl, rfl, rfl, (List.append_nil _).symm, rfl, fun _ => .refl _⟩
      · cases hstep
    | closed | again | error =>
      obtain rfl := Option.some.inj hstep
      exact ⟨rfl, rfl, rfl, (List.append_nil _).symm, rfl, fun _ => .refl _⟩
  · cases hstep

theorem frame_stepHandler {i : Fin h} (hstep : s.stepHandler i = some s') : HandlerFrame s i s' := by
  unfold State.stepHandler at hstep
  cases hp : s.handler i with
  | popFront =>
    rw [hp] at hstep
    dsimp only at hstep
    split at hstep
    · obtain rfl := Option.some.inj hstep
      exact ⟨rfl, fun _ _ => rfl, rfl, rfl, rfl, rfl, fun _ => .refl _⟩
    · obtain rfl := Option.some.inj hstep
      exact ⟨rfl, fun _ hi => Function.update_of_ne hi _ _, rfl, rfl, rfl, rfl, fun _ => .refl _⟩
  | handle m | idle m =>
    rw [hp] at hstep
    obtain rfl := Option.some.inj hstep
    exact ⟨rfl, fun _ hi => Function.update_of_ne hi _ _, rfl, rfl, rfl, rfl, fun _ => .refl _⟩
  | closeIfNeed m =>
    rw [hp] at hstep
    obtain rfl := Option.some.inj hstep
    exact ⟨rfl, fun _ hi => Function.update_of_ne hi _ _, rfl, rfl, rfl,
      line_same rfl (Slot.line_closeIfNeed _), later_update (Slot.later_closeIfNeed _)⟩
  | OnClose fd m =>
    rw [hp] at hstep
    obtain rfl := Option.some.inj hstep
    exact ⟨rfl, fun _ hi => Function.update_of_ne hi _ _, rfl, rfl, rfl, line_same rfl rfl,
      later_update (.inr ⟨rfl, id⟩)⟩
  | close fd m =>
    rw [hp] at hstep
    obtain rfl := Option.some.inj hstep
    exact ⟨rfl, fun _ hi => Function.update_of_ne hi _ _, rfl, rfl, rfl, line_same rfl rfl,
      later_update (Slot.later_close _)⟩

theorem frame_send {ret : SendRet} (hstep : s.send ret = some s') : SenderFrame s s' := by
  unfold State.send at hstep
  split at hstep
  · cases ret with
    | sent n =>
      dsimp only at hstep
      split at hstep
      · obtain rfl := Option.some.inj hstep
        exact ⟨rfl, rfl, rfl, rfl, rfl, fun _ => .refl _⟩
      · cases hstep
    | closed | again | error =>
      obtain rfl := Option.some.inj hstep
      exact ⟨rfl, rfl, rfl, rfl, rfl, fun _ => .refl _⟩
  · cases hstep

theorem frame_stepSender (hstep : s.stepSender = some s') : SenderFrame s s' := by
  unfold State.stepSender at hstep
  cases hp : s.sender with
  | popFront =>
    rw [hp] at hstep
    dsimp only at hstep
    split at hstep <;> obtain rfl := Option.some.inj hstep <;>
      exact ⟨rfl, rfl, rfl, rfl, rfl, fun _ => .refl _⟩
  | send m index =>
    rw [hp] at hstep
    cases hstep
  | OnSendMessage m | Disconnect m | idle m | readFd m =>
    rw [hp] at hstep
    obtain rfl := Option.some.inj hstep
    exact ⟨rfl, rfl, rfl, rfl, rfl, fun _ => .refl _⟩
  | closeIfNeed m fd =>
    rw [hp] at hstep
    obtain rfl := Option.some.inj hstep
    exact ⟨rfl, rfl, rfl, rfl, line_same rfl (Slot.line_closeIfNeed _),
      later_update (Slot.later_closeIfNeed _)⟩
  | OnClose fd =>
    rw [hp] at hstep
    obtain rfl := Option.some.inj hstep
    exact ⟨rfl, rfl, rfl, rfl, line_same rfl rfl, later_update (.inr ⟨rfl, id⟩)⟩
  | close fd =>
    rw [hp] at hstep
    obtain rfl := Option.some.inj hstep
    exact ⟨rfl, rfl, rfl, rfl, line_same rfl rfl, later_update (Slot.later_close _)⟩

theorem frame_callAny {j : Fin k} {fd len : Nat} (hstep : s.callAny j fd len = some s') :
    CallerFrame s j s' := by
  unfold State.callAny at hstep
  split at hstep
  · split at hstep
    · obtain rfl := Option.some.inj hstep
      exact ⟨rfl, rfl, rfl, fun _ _ => rfl, rfl, rfl, fun _ => .refl _⟩
    · obtain rfl := Option.some.inj hstep
      exact ⟨rfl, rfl, rfl, fun _ hj => Function.update_of_ne hj _ _, rfl, rfl, fun _ => .refl _⟩
  · cases hstep

theorem frame_stepCaller {j : Fin k} (hstep : s.stepCaller j = some s') : CallerFrame s j s' := by
  unfold State.stepCaller at hstep
  cases hp : s.caller j with
  | free =>
    rw [hp] at hstep
    cases hstep
  | count m | seq m =>
    rw [hp] at hstep
    obtain rfl := Option.some.inj hstep
    exact ⟨rfl, rfl, rfl, fun _ hj => Function.update_of_ne hj _ _, rfl,
      line_same rfl rfl, later_update (.inr ⟨rfl, id⟩)⟩
  | push m =>
    rw [hp] at hstep
    obtain rfl := Option.some.inj hstep
    exact ⟨rfl, rfl, rfl, fun _ hj => Function.update_of_ne hj _ _, rfl, rfl, fun _ => .refl _⟩

def Action.OfMain : Action h k → Prop
  | .accept _ | .event .. | .OnAccept _ | .recv _ | .main => True
  | .handler _ | .send _ | .sender | .call .. | .caller _ => False

theorem frame_main {a : Action h k} (ha : a.OfMain) (hstep : s.stepAny a = some s') :
    MainFrame s a s' := by
  cases a with
  | accept fd => exact frame_accept hstep
  | event fd error => exact frame_event hstep
  | OnAccept ret => exact frame_onAccept hstep
  | recv ret => exact frame_recv hstep
  | main => exact frame_stepMain hstep
  | handler | send | sender | call | caller => exact ha.elim

/-- **No step opens a connection again.** -/
theorem later_step {a : Action h k} (hstep : s.stepAny a = some s') (fd : Nat) :
    (s.slot fd).Later (s'.slot fd) := by
  cases a with
  | accept fd' => exact (frame_accept hstep).later fd
  | event fd' error => exact (frame_event hstep).later fd
  | OnAccept ret => exact (frame_onAccept hstep).later fd
  | recv ret => exact (frame_recv hstep).later fd
  | main => exact (frame_stepMain hstep).later fd
  | handler i => exact (frame_stepHandler hstep).later fd
  | send ret => exact (frame_send hstep).later fd
  | sender => exact (frame_stepSender hstep).later fd
  | call j fd' len => exact (frame_callAny hstep).later fd
  | caller j => exact (frame_stepCaller hstep).later fd

/-! ## a step of another thread -/

def Action.OfSender : Action h k → Prop
  | .send _ | .sender => True
  | .accept _ | .event .. | .OnAccept _ | .recv _ | .main | .handler _ | .call .. | .caller _ => False

def Action.OfCaller (j : Fin k) : Action h k → Prop
  | .call j' _ _ | .caller j' => j' = j
  | .accept _ | .event .. | .OnAccept _ | .recv _ | .main | .handler _ | .send _ | .sender => False

theorem main_others {a : Action h k} (ha : ¬ a.OfMain) (hstep : s.stepAny a = some s') :
    s'.main = s.main := by
  cases a with
  | accept | event | OnAccept | recv | main => exact absurd trivial ha
  | handler i => exact (frame_stepHandler hstep).main
  | send ret => exact (frame_send hstep).main
  | sender => exact (frame_stepSender hstep).main
  | call j fd len => exact (frame_callAny hstep).main
  | caller j => exact (frame_stepCaller hstep).main

theorem handler_others {a : Action h k} {i : Fin h} (ha : a ≠ .handler i)
    (hstep : s.stepAny a = some s') : s'.handler i = s.handler i := by
  have hmain : a.OfMain → s'.handler i = s.handler i := fun h => congrFun (frame_main h hstep).handler i
  cases a with
  | accept | event | OnAccept | recv | main => exact hmain trivial
  | handler i' => exact (frame_stepHandler hstep).others i fun he => ha (congrArg Action.handler he.symm)
  | send ret => exact congrFun (frame_send hstep).handler i
  | sender => exact congrFun (frame_stepSender hstep).handler i
  | call j fd len => exact congrFun (frame_callAny hstep).handler i
  | caller j => exact congrFun (frame_stepCaller hstep).handler i

theorem sender_others {a : Action h k} (ha : ¬ a.OfSender) (hstep : s.stepAny a = some s') :
    s'.sender = s.sender := by
  have hmain : a.OfMain → s'.sender = s.sender := fun h => (frame_main h hstep).sender
  cases a with
  | accept | event | OnAccept | recv | main => exact hmain trivial
  | handler i => exact (frame_stepHandler hstep).sender
  | send | sender => exact absurd trivial ha
  | call j fd len => exact (frame_callAny hstep).sender
  | caller j => exact (frame_stepCaller hstep).sender

theorem caller_others {a : Action h k} {j : Fin k} (ha : ¬ a.OfCaller j)
    (hstep : s.stepAny a = some s') : s'.caller j = s.caller j := by
  have hmain : a.OfMain → s'.caller j = s.caller j := fun h => congrFun (frame_main h hstep).caller j
  cases a with
  | accept | event | OnAccept | recv | main => exact hmain trivial
  | handler i => exact congrFun (frame_stepHandler hstep).caller j
  | send ret => exact congrFun (frame_send hstep).caller j
  | sender => exact congrFun (frame_stepSender hstep).caller j
  | call j' fd len => exact (frame_callAny hstep).others j fun he => ha he.symm
  | caller j' => exact (frame_stepCaller hstep).others j fun he => ha he.symm

end VncProxy.Tcp
