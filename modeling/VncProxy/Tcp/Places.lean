import Mathlib.Data.Multiset.Range
import VncProxy.Tcp.Stream

/-!
# Where the Messages of `TcpServer` are

* `State.objects`  the addresses of the Messages in the lists and with the threads; no step changes
                   them (`objects_step`), whichever thread takes it;
* `State.places`   the same as a list of Messages;
* `objects_apart`  a Message that one thread holds is in no list and with no other thread.
-/

namespace VncProxy.Tcp

variable {h k : Nat}

/-! ## the places -/

/-- the Message the send thread holds; from `readFd` on it has given it back -/
def SenderPc.holds : SenderPc → List Msg
  | .send m _ | .OnSendMessage m | .Disconnect m | .idle m => [m]
  | .popFront | .readFd _ | .closeIfNeed .. | .OnClose _ | .close _ => []

/-- the idle list, the handle list, the send list and what each thread holds -/
def State.places (s : State h k) : List Msg := s.messages ++ s.sender.holds

def addrs (l : List Msg) : Multiset Nat := (l.map Msg.addr : List Nat)

theorem addrs_append (l l' : List Msg) : addrs (l ++ l') = addrs l + addrs l' := by
  simp [addrs]

theorem mem_addrs {l : List Msg} {m : Msg} (hm : m ∈ l) : m.addr ∈ addrs l :=
  Multiset.mem_coe.mpr (List.mem_map_of_mem hm)

theorem addrs_cons (m : Msg) (l : List Msg) : addrs (m :: l) = addrs [m] + addrs l :=
  addrs_append [m] l

def State.listed (s : State h k) : Multiset Nat :=
  addrs s.mIdleMessageList + addrs s.mHandleMessageList + addrs s.mSendImmediatelyMessageList

def State.threads (s : State h k) : Multiset Nat :=
  addrs s.main.holds + addrs s.sender.holds + ∑ i, addrs (s.handler i).holds +
    ∑ j, addrs (s.caller j).holds

def State.objects (s : State h k) : Multiset Nat := s.listed + s.threads

theorem addrs_flatMap_ofFn {n : Nat} {σ : Type} (g : Fin n → σ) (f : σ → List Msg) :
    addrs ((List.ofFn g).flatMap f) = ∑ i, addrs (f (g i)) := by
  induction n with
  | zero => rfl
  | succ n ih =>
    rw [List.ofFn_succ, List.flatMap_cons, addrs_append, ih, Fin.sum_univ_succ]

theorem State.places_objects (s : State h k) : addrs s.places = s.objects := by
  unfold State.places State.messages State.objects State.listed State.threads
  simp only [addrs_append, addrs_flatMap_ofFn]
  abel

/-! ## the lists -/

theorem listed_pushIdle (s : State h k) (m : Msg) : (s.pushIdle m).listed = s.listed + addrs [m] := by
  unfold State.listed State.pushIdle
  rw [addrs_append]
  abel

theorem listed_popIdle {s : State h k} {m : Msg} {l : List Msg} (hl : s.mIdleMessageList = m :: l) :
    State.listed { s with mIdleMessageList := l } + addrs [m] = s.listed := by
  unfold State.listed
  rw [hl, addrs_cons m l]
  abel

theorem listed_pushHandle (s : State h k) (m : Msg) :
    State.listed { s with mHandleMessageList := s.mHandleMessageList ++ [m] }
      = s.listed + addrs [m] := by
  unfold State.listed
  rw [addrs_append]
  abel

theorem listed_popHandle {s : State h k} {m : Msg} {l : List Msg}
    (hl : s.mHandleMessageList = m :: l) :
    State.listed { s with mHandleMessageList := l } + addrs [m] = s.listed := by
  unfold State.listed
  rw [hl, addrs_cons m l]
  abel

theorem listed_pushSend (s : State h k) (m : Msg) :
    State.listed { s with mSendImmediatelyMessageList := s.mSendImmediatelyMessageList ++ [m] }
      = s.listed + addrs [m] := by
  unfold State.listed
  rw [addrs_append]
  abel

theorem listed_popSend {s : State h k} {m : Msg} {l : List Msg}
    (hl : s.mSendImmediatelyMessageList = m :: l) :
    State.listed { s with mSendImmediatelyMessageList := l } + addrs [m] = s.listed := by
  unfold State.listed
  rw [hl, addrs_cons m l]
  abel

/-! ## a step of one thread -/

variable {s s' : State h k}

theorem objects_main (hothers : (s'.handler, s'.sender, s'.caller) = (s.handler, s.sender, s.caller))
    (hmove : s'.listed + addrs s'.main.holds = s.listed + addrs s.main.holds) :
    s'.objects = s.objects := by
  obtain ⟨hhandler, hrest⟩ := Prod.mk.inj hothers
  obtain ⟨hsender, hcaller⟩ := Prod.mk.inj hrest
  unfold State.objects State.threads
  rw [hhandler, hsender, hcaller, add_assoc (addrs s'.main.holds), add_assoc (addrs s'.main.holds),
    ← add_assoc s'.listed, hmove]
  abel

theorem objects_sender (hothers : (s'.main, s'.handler, s'.caller) = (s.main, s.handler, s.caller))
    (hmove : s'.listed + addrs s'.sender.holds = s.listed + addrs s.sender.holds) :
    s'.objects = s.objects := by
  obtain ⟨hmain, hrest⟩ := Prod.mk.inj hothers
  obtain ⟨hhandler, hcaller⟩ := Prod.mk.inj hrest
  unfold State.objects State.threads
  rw [hmain, hhandler, hcaller, add_comm (addrs s.main.holds) (addrs s'.sender.holds),
    add_assoc (addrs s'.sender.holds), add_assoc (addrs s'.sender.holds), ← add_assoc s'.listed, hmove]
  abel

theorem objects_handler {i : Fin h} {pc : HandlerPc}
    (hhandler : s'.handler = Function.update s.handler i pc)
    (hothers : (s'.main, s'.sender, s'.caller) = (s.main, s.sender, s.caller))
    (hmove : s'.listed + addrs pc.holds = s.listed + addrs (s.handler i).holds) :
    s'.objects = s.objects := by
  obtain ⟨hmain, hrest⟩ := Prod.mk.inj hothers
  obtain ⟨hsender, hcaller⟩ := Prod.mk.inj hrest
  unfold State.objects State.threads
  rw [hmain, hsender, hcaller, hhandler,
    sum_threads_update (fun pc => addrs (HandlerPc.holds pc)) s.handler i pc,
    sum_threads (fun pc => addrs (HandlerPc.holds pc)) s.handler i]
  calc _ = (s'.listed + addrs pc.holds) + (addrs s.main.holds + addrs s.sender.holds +
        ∑ i' ∈ Finset.univ.erase i, addrs (s.handler i').holds + ∑ j, addrs (s.caller j).holds) := by
        abel
    _ = _ := by
        rw [hmove]
        abel

theorem objects_caller {j : Fin k} {pc : CallerPc}
    (hcaller : s'.caller = Function.update s.caller j pc)
    (hothers : (s'.main, s'.handler, s'.sender) = (s.main, s.handler, s.sender))
    (hmove : s'.listed + addrs pc.holds = s.listed + addrs (s.caller j).holds) :
    s'.objects = s.objects := by
  obtain ⟨hmain, hrest⟩ := Prod.mk.inj hothers
  obtain ⟨hhandler, hsender⟩ := Prod.mk.inj hrest
  unfold State.objects State.threads
  rw [hmain, hsender, hhandler, hcaller,
    sum_threads_update (fun pc => addrs (CallerPc.holds pc)) s.caller j pc,
    sum_threads (fun pc => addrs (CallerPc.holds pc)) s.caller j]
  calc _ = (s'.listed + addrs pc.holds) + (addrs s.main.holds + addrs s.sender.holds +
        ∑ i, addrs (s.handler i).holds + ∑ j' ∈ Finset.univ.erase j, addrs (s.caller j').holds) := by
        abel
    _ = _ := by
        rw [hmove]
        abel

/-! ## every step -/

theorem holds_next (fd : Nat) (m : Msg) : (MainPc.next fd m).holds = [] := by
  unfold MainPc.next
  split <;> rfl

theorem objects_stepMain (hstep : s.stepMain = some s') : s'.objects = s.objects := by
  unfold State.stepMain at hstep
  cases hp : s.main with
  | loop | OnAccept fd =>
    rw [hp] at hstep
    cases hstep
  | resetCount fd | resetSeqRecv fd | resetSeqSend fd | refuse fd | OnTimeoutMessage fd m | count fd m
  | StopEvio fd m | OnDisconnect fd m | OnClose fd m | close fd m =>
    rw [hp] at hstep
    obtain rfl := Option.some.inj hstep
    refine objects_main rfl ?_
    rw [hp]
    rfl
  | watch fd =>
    rw [hp] at hstep
    dsimp only at hstep
    split at hstep
    · obtain rfl := Option.some.inj hstep
      refine objects_main rfl ?_
      rw [hp]
      rfl
    · obtain rfl := Option.some.inj hstep
      refine objects_main rfl ?_
      rw [hp]
      rfl
  | popIdle fd error =>
    rw [hp] at hstep
    dsimp only at hstep
    split at hstep
    · obtain rfl := Option.some.inj hstep
      rfl
    · next m l hl =>
      obtain rfl := Option.some.inj hstep
      refine objects_main rfl ?_
      rw [hp]
      exact (listed_popIdle hl).trans (add_zero _).symm
  | recv fd m error =>
    rw [hp] at hstep
    cases error with
    | false => cases hstep
    | true =>
      obtain rfl := Option.some.inj hstep
      refine objects_main rfl ?_
      rw [hp]
      rfl
  | handleSize fd m =>
    rw [hp] at hstep
    dsimp only at hstep
    split at hstep
    · obtain rfl := Option.some.inj hstep
      refine objects_main rfl ?_
      rw [hp]
      rfl
    · obtain rfl := Option.some.inj hstep
      refine objects_main rfl ?_
      rw [hp]
      rfl
  | timeoutIdle fd m =>
    rw [hp] at hstep
    obtain rfl := Option.some.inj hstep
    refine objects_main rfl ?_
    show (s.pushIdle m).listed + addrs (MainPc.next fd m).holds = _
    rw [holds_next, listed_pushIdle, hp]
    exact add_zero _
  | seq fd m =>
    rw [hp] at hstep
    obtain rfl := Option.some.inj hstep
    refine objects_main rfl ?_
    rw [hp]
    rfl
  | push fd m =>
    rw [hp] at hstep
    obtain rfl := Option.some.inj hstep
    refine objects_main rfl ?_
    show State.listed { s with mHandleMessageList := s.mHandleMessageList ++ [m] } +
      addrs (MainPc.next fd m).holds = _
    rw [holds_next, listed_pushHandle, hp]
    exact add_zero _
  | againIdle fd m =>
    rw [hp] at hstep
    obtain rfl := Option.some.inj hstep
    refine objects_main rfl ?_
    show (s.pushIdle m).listed + 0 = _
    rw [listed_pushIdle, hp]
    exact add_zero _
  | closeIfNeed fd m =>
    rw [hp] at hstep
    obtain rfl := Option.some.inj hstep
    refine objects_main rfl ?_
    rw [hp]
    dsimp only [State.setMain]
    split <;> rfl
  | idle m =>
    rw [hp] at hstep
    cases m with
    | none =>
      obtain rfl := Option.some.inj hstep
      refine objects_main rfl ?_
      rw [hp]
      rfl
    | some m =>
      obtain rfl := Option.some.inj hstep
      refine objects_main rfl ?_
      show (s.pushIdle m).listed + 0 = _
      rw [listed_pushIdle, hp]
      exact add_zero _

theorem objects_stepHandler {i : Fin h} (hstep : s.stepHandler i = some s') :
    s'.objects = s.objects := by
  unfold State.stepHandler at hstep
  cases hp : s.handler i with
  | popFront =>
    rw [hp] at hstep
    dsimp only at hstep
    split at hstep
    · obtain rfl := Option.some.inj hstep
      rfl
    · next m l hl =>
      obtain rfl := Option.some.inj hstep
      refine objects_handler rfl rfl ?_
      rw [hp]
      exact (listed_popHandle hl).trans (add_zero _).symm
  | handle m =>
    rw [hp] at hstep
    obtain rfl := Option.some.inj hstep
    refine objects_handler rfl rfl ?_
    rw [hp]
    split <;> rfl
  | closeIfNeed m =>
    rw [hp] at hstep
    obtain rfl := Option.some.inj hstep
    refine objects_handler rfl rfl ?_
    rw [hp]
    split <;> rfl
  | OnClose fd m | close fd m =>
    rw [hp] at hstep
    obtain rfl := Option.some.inj hstep
    refine objects_handler rfl rfl ?_
    rw [hp]
    rfl
  | idle m =>
    rw [hp] at hstep
    obtain rfl := Option.some.inj hstep
    refine objects_handler rfl rfl ?_
    show (s.pushIdle m).listed + 0 = _
    rw [listed_pushIdle, hp]
    exact add_zero _

theorem objects_send {ret : SendRet} (hstep : s.send ret = some s') : s'.objects = s.objects := by
  unfold State.send at hstep
  split at hstep
  · next m index hp =>
    cases ret with
    | sent n =>
      dsimp only at hstep
      split at hstep
      · obtain rfl := Option.some.inj hstep
        refine objects_sender rfl ?_
        rw [hp]
        dsimp only [State.setSender]
        split <;> rfl
      · cases hstep
    | closed | error =>
      obtain rfl := Option.some.inj hstep
      refine objects_sender rfl ?_
      rw [hp]
      rfl
    | again =>
      obtain rfl := Option.some.inj hstep
      rfl
  · cases hstep

theorem objects_stepSender (hstep : s.stepSender = some s') : s'.objects = s.objects := by
  unfold State.stepSender at hstep
  cases hp : s.sender with
  | popFront =>
    rw [hp] at hstep
    dsimp only at hstep
    split at hstep
    · obtain rfl := Option.some.inj hstep
      rfl
    · next m l hl =>
      obtain rfl := Option.some.inj hstep
      refine objects_sender rfl ?_
      rw [hp]
      exact (listed_popSend hl).trans (add_zero _).symm
  | send m index =>
    rw [hp] at hstep
    cases hstep
  | OnSendMessage m | Disconnect m | OnClose fd | close fd =>
    rw [hp] at hstep
    obtain rfl := Option.some.inj hstep
    refine objects_sender rfl ?_
    rw [hp]
    rfl
  | idle m =>
    rw [hp] at hstep
    obtain rfl := Option.some.inj hstep
    refine objects_sender rfl ?_
    show (s.pushIdle m).listed + 0 = _
    rw [listed_pushIdle, hp]
    exact add_zero _
  | readFd m =>
    rw [hp] at hstep
    obtain rfl := Option.some.inj hstep
    refine objects_sender rfl ?_
    rw [hp]
    rfl
  | closeIfNeed m fd =>
    rw [hp] at hstep
    obtain rfl := Option.some.inj hstep
    refine objects_sender rfl ?_
    rw [hp]
    dsimp only [State.setSender]
    split <;> rfl

theorem objects_callAny {j : Fin k} {fd len : Nat} (hstep : s.callAny j fd len = some s') :
    s'.objects = s.objects := by
  unfold State.callAny at hstep
  split at hstep
  · next hfree =>
    split at hstep
    · obtain rfl := Option.some.inj hstep
      rfl
    · next m l hl =>
      obtain rfl := Option.some.inj hstep
      refine objects_caller rfl rfl ?_
      rw [hfree]
      exact (listed_popIdle hl).trans (add_zero _).symm
  · cases hstep

theorem objects_stepCaller {j : Fin k} (hstep : s.stepCaller j = some s') :
    s'.objects = s.objects := by
  unfold State.stepCaller at hstep
  cases hp : s.caller j with
  | free =>
    rw [hp] at hstep
    cases hstep
  | count m | seq m =>
    rw [hp] at hstep
    obtain rfl := Option.some.inj hstep
    refine objects_caller rfl rfl ?_
    rw [hp]
    rfl
  | push m =>
    rw [hp] at hstep
    obtain rfl := Option.some.inj hstep
    refine objects_caller rfl rfl ?_
    show State.listed { s with mSendImmediatelyMessageList := s.mSendImmediatelyMessageList ++ [m] } +
      0 = _
    rw [listed_pushSend, hp]
    exact add_zero _

/-- **No step loses a Message or has it in two places.** -/
theorem objects_step {a : Action h k} (hstep : s.stepAny a = some s') : s'.objects = s.objects := by
  cases a with
  | accept fd =>
    change s.accept fd = some s' at hstep
    unfold State.accept at hstep
    split at hstep
    · next hloop =>
      obtain rfl := Option.some.inj hstep
      split
      · rfl
      · refine objects_main rfl ?_
        rw [hloop.1]
        rfl
    · cases hstep
  | event fd error =>
    change s.event fd error = some s' at hstep
    unfold State.event at hstep
    split at hstep
    · next hloop =>
      obtain rfl := Option.some.inj hstep
      refine objects_main rfl ?_
      rw [hloop.1]
      rfl
    · cases hstep
  | OnAccept ret =>
    change s.onAccept ret = some s' at hstep
    unfold State.onAccept at hstep
    split at hstep
    · next fd hp =>
      obtain rfl := Option.some.inj hstep
      refine objects_main rfl ?_
      rw [hp]
      cases ret <;> rfl
    · cases hstep
  | recv ret =>
    change s.recv ret = some s' at hstep
    unfold State.recv at hstep
    split at hstep
    · next fd m hp =>
      cases ret with
      | data n =>
        dsimp only at hstep
        split at hstep
        · obtain rfl := Option.some.inj hstep
          refine objects_main rfl ?_
          rw [hp]
          rfl
        · cases hstep
      | closed | again | error =>
        obtain rfl := Option.some.inj hstep
        refine objects_main rfl ?_
        rw [hp]
        rfl
    · cases hstep
  | main => exact objects_stepMain hstep
  | handler i => exact objects_stepHandler hstep
  | send ret => exact objects_send hstep
  | sender => exact objects_stepSender hstep
  | call j fd len => exact objects_callAny hstep
  | caller j => exact objects_stepCaller hstep

theorem objects_init (h k pool watchers handleSize : Nat) (junk : Nat → Int × Bool × Nat × Nat) :
    (State.init h k pool watchers handleSize junk).objects = Multiset.range pool := by
  simp [State.objects, State.listed, State.threads, State.init, addrs, MainPc.holds, SenderPc.holds,
    HandlerPc.holds, CallerPc.holds, Multiset.range, Function.comp_def]

/-! ## a Message is in one place -/

theorem State.addr_unique {s : State h k} (hnodup : s.objects.Nodup) {A B : Multiset Nat} {a : Nat}
    (hsplit : s.objects = A + B) (ha : a ∈ A) : a ∉ B := by
  rw [hsplit] at hnodup
  exact Multiset.disjoint_left.mp (Multiset.nodup_add.mp hnodup).2.2 ha

end VncProxy.Tcp
