import VncProxy.Lib.Progress
import VncProxy.Tcp.Sent
import VncProxy.Tcp.Handled

/-!
# What is left to do in `TcpServer`

A connection, an event, bytes from `recv` and a call of `SendMessageByQueue` bring the threads
something to do; everything else is the server's own or an answer to it.

* `State.work`        a bound on the own steps that are left, for the places of the threads and the
                      Messages in the lists;
* `step_work`         an own step makes it smaller or is a look at an empty list (or at a socket that
                      takes nothing), which changes nothing;
* `recvWork_step`, `sendWork_step`  of what is to be received and what is to be sent it does a part of
                      one and leaves the other.
-/

namespace VncProxy.Tcp

variable {h k : Nat} {s s' : State h k}

/-! ## steps that bring nothing -/

/-- nothing comes from outside but answers -/
def Action.Own : Action h k → Prop
  | .accept _ | .event .. | .recv (.data _) | .call .. => False
  | .OnAccept _ | .recv .closed | .recv .again | .recv .error | .main | .handler _ | .send _ | .sender
  | .caller _ => True

inductive Thread (h k : Nat) where
  | main
  | handler (i : Fin h)
  | sender
  | caller (j : Fin k)

/-- the system calls on a socket -/
inductive Call where
  | recv
  | send

inductive Party (h k : Nat) where
  | thread (t : Thread h k)
  | call (c : Call)

/-- whose move it is: `recv` and `send` return when the kernel lets them; after `again` the send thread
goes on with the same call -/
def Action.party : Action h k → Party h k
  | .accept _ | .event .. | .OnAccept _ | .main => .thread .main
  | .recv _ => .call .recv
  | .handler i => .thread (.handler i)
  | .send .again | .sender => .thread .sender
  | .send _ => .call .send
  | .call j _ _ | .caller j => .thread (.caller j)

/-! ## the work -/

/-- `push` stands above `popIdle` and a Message in the handle list -/
def MainPc.work : MainPc → Nat
  | .loop => 0
  | .idle _ | .againIdle .. => 1
  | .close .. => 2
  | .OnClose .. => 3
  | .closeIfNeed .. => 4
  | .OnDisconnect .. => 5
  | .StopEvio .. | .refuse _ => 6
  | .recv .. | .watch _ => 7
  | .popIdle .. | .OnAccept _ => 8
  | .timeoutIdle .. | .resetSeqSend _ => 9
  | .OnTimeoutMessage .. | .resetSeqRecv _ => 10
  | .resetCount _ => 11
  | .push .. => 15
  | .seq .. => 16
  | .count .. => 17
  | .handleSize .. => 18

def HandlerPc.work : HandlerPc → Nat
  | .popFront => 0
  | .idle _ => 1
  | .close .. => 2
  | .OnClose .. => 3
  | .closeIfNeed _ => 4
  | .handle _ => 5

/-- each round of the loop of `SendMessageImmediately` writes at least a byte -/
def SenderPc.work : SenderPc → Nat
  | .popFront => 0
  | .close _ => 1
  | .OnClose _ => 2
  | .closeIfNeed .. => 3
  | .readFd _ => 4
  | .idle _ => 5
  | .OnSendMessage _ | .Disconnect _ => 6
  | .send m index => 7 + (m.len - index)

def CallerPc.work : CallerPc → Nat
  | .free => 0
  | .push m => 9 + m.len
  | .seq m => 10 + m.len
  | .count m => 11 + m.len

/-- the Messages in the handle list and in the send list -/
def State.listWork (s : State h k) : Nat :=
  6 * s.mHandleMessageList.length + (s.mSendImmediatelyMessageList.map fun m => 8 + m.len).sum

def State.work (s : State h k) : Nat :=
  s.listWork + s.main.work + s.sender.work + ∑ i, (s.handler i).work + ∑ j, (s.caller j).work

/-! ## a step of one thread -/

theorem work_main (hothers : (s'.handler, s'.sender, s'.caller) = (s.handler, s.sender, s.caller))
    (hlt : s'.listWork + s'.main.work < s.listWork + s.main.work) : s'.work < s.work := by
  obtain ⟨hhandler, hrest⟩ := Prod.mk.inj hothers
  obtain ⟨hsender, hcaller⟩ := Prod.mk.inj hrest
  unfold State.work
  rw [hhandler, hsender, hcaller]
  omega

theorem work_sender (hothers : (s'.main, s'.handler, s'.caller) = (s.main, s.handler, s.caller))
    (hlt : s'.listWork + s'.sender.work < s.listWork + s.sender.work) : s'.work < s.work := by
  obtain ⟨hmain, hrest⟩ := Prod.mk.inj hothers
  obtain ⟨hhandler, hcaller⟩ := Prod.mk.inj hrest
  unfold State.work
  rw [hmain, hhandler, hcaller]
  omega

theorem work_handler {i : Fin h} {pc : HandlerPc}
    (hhandler : s'.handler = Function.update s.handler i pc)
    (hothers : (s'.main, s'.sender, s'.caller) = (s.main, s.sender, s.caller))
    (hlt : s'.listWork + pc.work < s.listWork + (s.handler i).work) : s'.work < s.work := by
  obtain ⟨hmain, hrest⟩ := Prod.mk.inj hothers
  obtain ⟨hsender, hcaller⟩ := Prod.mk.inj hrest
  unfold State.work
  rw [hmain, hsender, hcaller, hhandler, sum_threads_update HandlerPc.work s.handler i pc,
    sum_threads HandlerPc.work s.handler i]
  omega

theorem work_caller {j : Fin k} {pc : CallerPc}
    (hcaller : s'.caller = Function.update s.caller j pc)
    (hothers : (s'.main, s'.handler, s'.sender) = (s.main, s.handler, s.sender))
    (hlt : s'.listWork + pc.work < s.listWork + (s.caller j).work) : s'.work < s.work := by
  obtain ⟨hmain, hrest⟩ := Prod.mk.inj hothers
  obtain ⟨hhandler, hsender⟩ := Prod.mk.inj hrest
  unfold State.work
  rw [hmain, hsender, hhandler, hcaller, sum_threads_update CallerPc.work s.caller j pc,
    sum_threads CallerPc.work s.caller j]
  omega

theorem work_next (fd : Nat) (m : Msg) : (MainPc.next fd m).work ≤ 8 := by
  unfold MainPc.next
  split
  · exact Nat.zero_le 8
  · exact Nat.le_refl 8

theorem listWork_pushHandle (s : State h k) (m : Msg) :
    State.listWork { s with mHandleMessageList := s.mHandleMessageList ++ [m] } = s.listWork + 6 := by
  unfold State.listWork
  dsimp only
  rw [List.length_append, List.length_singleton]
  omega

theorem listWork_popHandle {m : Msg} {l : List Msg} (hl : s.mHandleMessageList = m :: l) :
    State.listWork { s with mHandleMessageList := l } + 6 = s.listWork := by
  unfold State.listWork
  dsimp only
  rw [hl, List.length_cons]
  omega

theorem listWork_pushSend (s : State h k) (m : Msg) :
    State.listWork { s with mSendImmediatelyMessageList := s.mSendImmediatelyMessageList ++ [m] }
      = s.listWork + (8 + m.len) := by
  unfold State.listWork
  dsimp only
  rw [List.map_append, List.sum_append, List.map_singleton, List.sum_singleton]
  omega

theorem listWork_popSend {m : Msg} {l : List Msg} (hl : s.mSendImmediatelyMessageList = m :: l) :
    State.listWork { s with mSendImmediatelyMessageList := l } + (8 + m.len) = s.listWork := by
  unfold State.listWork
  dsimp only
  rw [hl, List.map_cons, List.sum_cons]
  omega

/-- `Recv_Callback` waits for an idle Message -/
def State.Starved (s : State h k) : Prop :=
  (∃ fd error, s.main = .popIdle fd error) ∧ s.mIdleMessageList = []

theorem work_stepMain (hstep : s.stepMain = some s') :
    s' = s ∧ s.Starved ∨ s'.work < s.work := by
  unfold State.stepMain at hstep
  cases hp : s.main with
  | loop | OnAccept fd =>
    rw [hp] at hstep
    cases hstep
  | resetCount fd | resetSeqRecv fd | resetSeqSend fd | refuse fd | OnTimeoutMessage fd m | count fd m
  | StopEvio fd m | OnDisconnect fd m | OnClose fd m | close fd m | seq fd m | againIdle fd m =>
    rw [hp] at hstep
    obtain rfl := Option.some.inj hstep
    refine .inr (work_main rfl ?_)
    rw [hp]
    exact Nat.add_lt_add_left (of_decide_eq_true rfl) _
  | watch fd | handleSize fd m =>
    rw [hp] at hstep
    dsimp only at hstep
    split at hstep <;> obtain rfl := Option.some.inj hstep <;> refine .inr (work_main rfl ?_) <;>
      rw [hp] <;> exact Nat.add_lt_add_left (of_decide_eq_true rfl) _
  | popIdle fd error =>
    rw [hp] at hstep
    dsimp only at hstep
    split at hstep
    · next hl => exact .inl ⟨(Option.some.inj hstep).symm, ⟨fd, error, hp⟩, hl⟩
    · obtain rfl := Option.some.inj hstep
      refine .inr (work_main rfl ?_)
      rw [hp]
      exact Nat.add_lt_add_left (of_decide_eq_true rfl) _
  | recv fd m error =>
    rw [hp] at hstep
    cases error with
    | false => cases hstep
    | true =>
      obtain rfl := Option.some.inj hstep
      refine .inr (work_main rfl ?_)
      rw [hp]
      exact Nat.add_lt_add_left (of_decide_eq_true rfl) _
  | timeoutIdle fd m =>
    rw [hp] at hstep
    obtain rfl := Option.some.inj hstep
    refine .inr (work_main rfl ?_)
    rw [hp]
    exact Nat.add_lt_add_left (Nat.lt_succ_of_le (work_next fd m)) s.listWork
  | push fd m =>
    rw [hp] at hstep
    obtain rfl := Option.some.inj hstep
    refine .inr (work_main rfl ?_)
    have hlist := listWork_pushHandle s m
    have hnext := work_next fd m
    rw [hp]
    show State.listWork { s with mHandleMessageList := s.mHandleMessageList ++ [m] } +
      (MainPc.next fd m).work < s.listWork + 15
    omega
  | closeIfNeed fd m =>
    rw [hp] at hstep
    obtain rfl := Option.some.inj hstep
    refine .inr (work_main rfl ?_)
    rw [hp]
    dsimp only [State.setMain]
    refine Nat.add_lt_add_left ?_ _
    split
    · exact of_decide_eq_true rfl
    · exact of_decide_eq_true rfl
  | idle m =>
    rw [hp] at hstep
    cases m with
    | none | some m =>
      obtain rfl := Option.some.inj hstep
      refine .inr (work_main rfl ?_)
      rw [hp]
      exact Nat.add_lt_add_left (of_decide_eq_true rfl) _

theorem work_onAccept {ret : Bool} (hstep : s.onAccept ret = some s') : s'.work < s.work := by
  unfold State.onAccept at hstep
  split at hstep
  · next fd hp =>
    obtain rfl := Option.some.inj hstep
    refine work_main rfl ?_
    rw [hp]
    cases ret <;> exact Nat.add_lt_add_left (of_decide_eq_true rfl) _
  · cases hstep

theorem work_recv {ret : RecvRet} (hown : (Action.recv ret : Action h k).Own)
    (hstep : s.recv ret = some s') : s'.work < s.work := by
  unfold State.recv at hstep
  split at hstep
  · next fd m hp =>
    cases ret with
    | data n => exact hown.elim
    | closed | again | error =>
      obtain rfl := Option.some.inj hstep
      refine work_main rfl ?_
      rw [hp]
      exact Nat.add_lt_add_left (of_decide_eq_true rfl) _
  · cases hstep

theorem work_stepHandler {i : Fin h} (hstep : s.stepHandler i = some s') :
    s' = s ∧ s.handler i = .popFront ∧ s.mHandleMessageList = [] ∨ s'.work < s.work := by
  unfold State.stepHandler at hstep
  cases hp : s.handler i with
  | popFront =>
    rw [hp] at hstep
    dsimp only at hstep
    split at hstep
    · next hl => exact .inl ⟨(Option.some.inj hstep).symm, rfl, hl⟩
    · next m l hl =>
      obtain rfl := Option.some.inj hstep
      refine .inr (work_handler rfl rfl ?_)
      have hlist := listWork_popHandle hl
      rw [hp]
      show State.listWork { s with mHandleMessageList := l } + 5 < s.listWork + 0
      omega
  | handle m | closeIfNeed m =>
    rw [hp] at hstep
    obtain rfl := Option.some.inj hstep
    refine .inr (work_handler rfl rfl ?_)
    rw [hp]
    refine Nat.add_lt_add_left ?_ _
    split <;> exact of_decide_eq_true rfl
  | OnClose fd m | close fd m | idle m =>
    rw [hp] at hstep
    obtain rfl := Option.some.inj hstep
    refine .inr (work_handler rfl rfl ?_)
    rw [hp]
    exact Nat.add_lt_add_left (of_decide_eq_true rfl) _

theorem work_send {ret : SendRet} (hstep : s.send ret = some s') :
    s' = s ∧ ret = .again ∨ s'.work < s.work := by
  unfold State.send at hstep
  split at hstep
  · next m index hp =>
    cases ret with
    | sent n =>
      dsimp only at hstep
      split at hstep
      · next hn =>
        obtain rfl := Option.some.inj hstep
        refine .inr (work_sender rfl ?_)
        rw [hp]
        refine Nat.add_lt_add_left ?_ s.listWork
        dsimp only [State.setSender]
        split
        · show 6 < 7 + (m.len - index)
          omega
        · show 7 + (m.len - (index + n)) < 7 + (m.len - index)
          omega
      · cases hstep
    | closed | error =>
      obtain rfl := Option.some.inj hstep
      refine .inr (work_sender rfl ?_)
      rw [hp]
      refine Nat.add_lt_add_left ?_ s.listWork
      show 6 < 7 + (m.len - index)
      omega
    | again => exact .inl ⟨(Option.some.inj hstep).symm, rfl⟩
  · cases hstep

theorem work_stepSender (hstep : s.stepSender = some s') :
    s' = s ∧ s.sender = .popFront ∧ s.mSendImmediatelyMessageList = [] ∨ s'.work < s.work := by
  unfold State.stepSender at hstep
  cases hp : s.sender with
  | popFront =>
    rw [hp] at hstep
    dsimp only at hstep
    split at hstep
    · next hl => exact .inl ⟨(Option.some.inj hstep).symm, rfl, hl⟩
    · next m l hl =>
      obtain rfl := Option.some.inj hstep
      refine .inr (work_sender rfl ?_)
      have hlist := listWork_popSend hl
      rw [hp]
      show State.listWork { s with mSendImmediatelyMessageList := l } + (7 + (m.len - 0)) < s.listWork + 0
      omega
  | send m index =>
    rw [hp] at hstep
    cases hstep
  | OnSendMessage m | Disconnect m | idle m | readFd m | OnClose fd | close fd =>
    rw [hp] at hstep
    obtain rfl := Option.some.inj hstep
    refine .inr (work_sender rfl ?_)
    rw [hp]
    exact Nat.add_lt_add_left (of_decide_eq_true rfl) _
  | closeIfNeed m fd =>
    rw [hp] at hstep
    obtain rfl := Option.some.inj hstep
    refine .inr (work_sender rfl ?_)
    rw [hp]
    dsimp only [State.setSender]
    refine Nat.add_lt_add_left ?_ _
    split <;> exact of_decide_eq_true rfl

theorem work_stepCaller {j : Fin k} (hstep : s.stepCaller j = some s') : s'.work < s.work := by
  unfold State.stepCaller at hstep
  cases hp : s.caller j with
  | free =>
    rw [hp] at hstep
    cases hstep
  | count m | seq m =>
    rw [hp] at hstep
    obtain rfl := Option.some.inj hstep
    refine work_caller rfl rfl ?_
    rw [hp]
    refine Nat.add_lt_add_left ?_ _
    unfold CallerPc.work
    dsimp only
    omega
  | push m =>
    rw [hp] at hstep
    obtain rfl := Option.some.inj hstep
    refine work_caller rfl rfl ?_
    have hlist := listWork_pushSend s m
    rw [hp]
    show State.listWork { s with mSendImmediatelyMessageList := s.mSendImmediatelyMessageList ++ [m] } + 0
      < s.listWork + (9 + m.len)
    omega

/-- the own steps that find nothing to do -/
inductive State.Waits (s : State h k) : Action h k → Prop
  | main (h : s.Starved) : s.Waits .main
  | handler (i : Fin h) (hpc : s.handler i = .popFront) (hl : s.mHandleMessageList = []) :
      s.Waits (.handler i)
  | sender (hpc : s.sender = .popFront) (hl : s.mSendImmediatelyMessageList = []) : s.Waits .sender
  | send : s.Waits (.send .again)

/-- **An own step does a part of the work or changes nothing.** -/
theorem step_work {a : Action h k} (hown : a.Own) (hstep : s.stepAny a = some s') :
    s' = s ∧ s.Waits a ∨ s'.work < s.work := by
  cases a with
  | accept | event | call => exact hown.elim
  | OnAccept ret => exact .inr (work_onAccept hstep)
  | recv ret => exact .inr (work_recv hown hstep)
  | main => exact (work_stepMain hstep).imp_left fun ⟨he, hs⟩ => ⟨he, .main hs⟩
  | handler i => exact (work_stepHandler hstep).imp_left fun ⟨he, hpc, hl⟩ => ⟨he, .handler i hpc hl⟩
  | send ret => exact (work_send hstep).imp_left fun ⟨he, hret⟩ => ⟨he, hret ▸ .send⟩
  | sender => exact (work_stepSender hstep).imp_left fun ⟨he, hpc, hl⟩ => ⟨he, .sender hpc hl⟩
  | caller j => exact .inr (work_stepCaller hstep)

/-! ## receiving and sending -/

def Action.OfReceiver : Action h k → Prop
  | .accept _ | .event .. | .OnAccept _ | .recv _ | .main | .handler _ => True
  | .send _ | .sender | .call .. | .caller _ => False

def State.recvWork (s : State h k) : Nat :=
  6 * s.mHandleMessageList.length + s.main.work + ∑ i, (s.handler i).work

def State.sendWork (s : State h k) : Nat :=
  (s.mSendImmediatelyMessageList.map fun m => 8 + m.len).sum + s.sender.work + ∑ j, (s.caller j).work

theorem work_split (s : State h k) : s.work = s.recvWork + s.sendWork := by
  unfold State.work State.listWork State.recvWork State.sendWork
  omega

theorem sendWork_kept {a : Action h k} (ha : a.OfReceiver) (hstep : s.stepAny a = some s') :
    s'.sendWork = s.sendWork := by
  obtain ⟨hlist, hsender, hcaller⟩ : s'.mSendImmediatelyMessageList = s.mSendImmediatelyMessageList ∧
      s'.sender = s.sender ∧ s'.caller = s.caller := by
    have hmain : a.OfMain → s'.mSendImmediatelyMessageList = s.mSendImmediatelyMessageList ∧
        s'.sender = s.sender ∧ s'.caller = s.caller := fun h =>
      ⟨(frame_main h hstep).sendList, (frame_main h hstep).sender, (frame_main h hstep).caller⟩
    cases a with
    | handler i =>
      have hframe := frame_stepHandler hstep
      exact ⟨hframe.sendList, hframe.sender, hframe.caller⟩
    | accept | event | OnAccept | recv | main => exact hmain trivial
    | send | sender | call | caller => exact ha.elim
  unfold State.sendWork
  rw [hlist, hsender, hcaller]

theorem recvWork_kept {a : Action h k} (ha : ¬ a.OfReceiver) (hstep : s.stepAny a = some s') :
    s'.recvWork = s.recvWork := by
  obtain ⟨hlist, hmain, hhandler⟩ : s'.mHandleMessageList = s.mHandleMessageList ∧
      s'.main = s.main ∧ s'.handler = s.handler := by
    cases a with
    | send ret =>
      have hframe := frame_send hstep
      exact ⟨hframe.handleList, hframe.main, hframe.handler⟩
    | sender =>
      have hframe := frame_stepSender hstep
      exact ⟨hframe.handleList, hframe.main, hframe.handler⟩
    | call j fd len =>
      have hframe := frame_callAny hstep
      exact ⟨hframe.handleList, hframe.main, hframe.handler⟩
    | caller j =>
      have hframe := frame_stepCaller hstep
      exact ⟨hframe.handleList, hframe.main, hframe.handler⟩
    | accept | event | OnAccept | recv | main | handler => exact absurd trivial ha
  unfold State.recvWork
  rw [hlist, hmain, hhandler]

/-- **An own step of a receiver leaves what is to be sent**, and does a part of the rest. -/
theorem recvWork_step {a : Action h k} (ha : a.OfReceiver) (hown : a.Own)
    (hstep : s.stepAny a = some s') :
    s' = s ∧ s.Waits a ∨ s'.recvWork < s.recvWork ∧ s'.sendWork = s.sendWork := by
  refine (step_work hown hstep).imp_right fun hlt => ?_
  have hsame := sendWork_kept ha hstep
  rw [work_split, work_split, hsame] at hlt
  exact ⟨Nat.lt_of_add_lt_add_right hlt, hsame⟩

/-- **An own step of a sender leaves what is to be received**, and does a part of the rest. -/
theorem sendWork_step {a : Action h k} (ha : ¬ a.OfReceiver) (hown : a.Own)
    (hstep : s.stepAny a = some s') :
    s' = s ∧ s.Waits a ∨ s'.recvWork = s.recvWork ∧ s'.sendWork < s.sendWork := by
  refine (step_work hown hstep).imp_right fun hlt => ?_
  have hsame := recvWork_kept ha hstep
  rw [work_split, work_split, hsame] at hlt
  exact ⟨hsame, Nat.lt_of_add_lt_add_left hlt⟩

end VncProxy.Tcp
