import VncProxy.Tcp.Table

/-!
# The close protocol of `TcpServer` is a deferred close

* `State.Inv`    the invariant: that of the table, and what the threads rely on;
* `State.Calm`   the condition on a step: `SendMessageByQueue` counts only while its connection
                 still has the descriptor and no close of it has been decided, and the late read of
                 `m->fd` still gives the descriptor the Message was sent on;
* `Inv.step`     a step that is `Calm` keeps the invariant.
-/

namespace VncProxy.Tcp

variable {h k : Nat} {f : Nat → Slot} {l l' : Load} {fd : Nat}

/-! ## the invariant -/

/-- registered and not disconnected yet -/
structure Slot.Serving (sl : Slot) : Prop where
  isOpen : sl.isOpen = true
  counted : sl.counted = true
  disconnected : sl.disconnected = false

/-- what the main thread relies on where it stands -/
def MainPc.Ok (f : Nat → Slot) : MainPc → Prop
  | .resetCount fd => (f fd).isOpen = true ∧ (f fd).counted = false ∧
      (f fd).disconnected = false ∧ (f fd).watched = false
  | .resetSeqRecv fd | .resetSeqSend fd | .OnAccept fd | .watch fd | .refuse fd
  | .OnDisconnect fd _ | .closeIfNeed fd _ => (f fd).Serving ∧ (f fd).watched = false
  | .recv fd m _ => (f fd).Serving ∧ (f fd).watched = true ∧ m.conn = (fd, (f fd).gen)
  | .handleSize fd m | .count fd m =>
    (f fd).Serving ∧ (f fd).watched = true ∧ m.conn = (fd, (f fd).gen) ∧ 0 < m.len
  | .seq fd m | .push fd m => (f fd).Serving ∧ (f fd).watched = true ∧ 0 < m.len
  | .popIdle fd _ | .OnTimeoutMessage fd _ | .timeoutIdle fd _ | .againIdle fd _
  | .StopEvio fd _ => (f fd).Serving ∧ (f fd).watched = true
  | .loop | .OnClose .. | .close .. | .idle _ => True

/-- a Message in the handle list carries data, and the send thread has read the right descriptor -/
structure State.Held (s : State h k) : Prop where
  list : ∀ m ∈ s.mHandleMessageList, 0 < m.len
  handler : ∀ i m, s.handler i = .handle m → 0 < m.len
  sender : ∀ m fd, s.sender = .closeIfNeed m fd → fd = m.fd

structure State.Inv (s : State h k) : Prop where
  table : (table s.slot s.load).Ok
  held : s.Held
  watched : ∀ fd, (s.slot fd).watched = true → (s.slot fd).Serving
  main : s.main.Ok s.slot

/-- the connection of the Message is the one that has the descriptor now, and no close of it has
been decided -/
def CallerPc.Calm (f : Nat → Slot) : CallerPc → Prop
  | .count m => (f m.fd).isOpen = true ∧ (f m.fd).counted = true ∧ (f m.fd).decided = false ∧
      (f m.fd).gen = m.gen
  | _ => True

/-- `m->fd` is still the descriptor that `m` was sent on -/
def SenderPc.Calm (readFd : Msg → Nat) : SenderPc → Prop
  | .readFd m => readFd m = m.fd
  | _ => True

/-- the condition on a step -/
def State.Calm (s : State h k) : Action h k → Prop
  | .caller j => (s.caller j).Calm s.slot
  | .sender => s.sender.Calm s.readFd
  | _ => True

instance (f : Nat → Slot) : ∀ pc : CallerPc, Decidable (pc.Calm f)
  | .count m => inferInstanceAs (Decidable ((f m.fd).isOpen = true ∧ _ ∧ _ ∧ _))
  | .free | .seq _ | .push _ => .isTrue trivial

instance (readFd : Msg → Nat) : ∀ pc : SenderPc, Decidable (pc.Calm readFd)
  | .readFd m => inferInstanceAs (Decidable (readFd m = m.fd))
  | .popFront | .send .. | .OnSendMessage _ | .Disconnect _ | .idle _ | .closeIfNeed .. | .OnClose _
  | .close _ => .isTrue trivial

instance (s : State h k) : ∀ a, Decidable (s.Calm a)
  | .caller j => inferInstanceAs (Decidable ((s.caller j).Calm s.slot))
  | .sender => inferInstanceAs (Decidable (s.sender.Calm s.readFd))
  | .accept _ | .event .. | .OnAccept _ | .recv _ | .main | .handler _ | .send _ | .call .. =>
    .isTrue trivial

structure Slot.Same (sl sl' : Slot) : Prop where
  counted : sl'.counted = sl.counted
  disconnected : sl'.disconnected = sl.disconnected
  watched : sl'.watched = sl.watched
  gen : sl'.gen = sl.gen
  isOpen : sl.disconnected = false → sl'.isOpen = sl.isOpen

theorem Slot.Same.serving {sl sl' : Slot} (h : sl.Same sl') (hs : sl.Serving) : sl'.Serving :=
  ⟨(h.isOpen hs.disconnected).trans hs.isOpen, h.counted.trans hs.counted,
    h.disconnected.trans hs.disconnected⟩

theorem MainPc.Ok.same {f f' : Nat → Slot} {pc : MainPc} (h : pc.Ok f)
    (hsame : ∀ fd, (f fd).Same (f' fd)) : pc.Ok f' := by
  cases pc with
  | resetCount fd =>
    obtain ⟨h1, h2, h3, h4⟩ := h
    have hf := hsame fd
    exact ⟨(hf.isOpen h3).trans h1, hf.counted.trans h2, hf.disconnected.trans h3,
      hf.watched.trans h4⟩
  | loop | OnClose | close | idle => trivial
  | recv fd m e =>
    obtain ⟨h1, h2, h3⟩ := h
    have hf := hsame fd
    exact ⟨hf.serving h1, hf.watched.trans h2, h3.trans (congrArg (Prod.mk fd) hf.gen.symm)⟩
  | handleSize fd m | count fd m =>
    obtain ⟨h1, h2, h3, h4⟩ := h
    have hf := hsame fd
    exact ⟨hf.serving h1, hf.watched.trans h2, h3.trans (congrArg (Prod.mk fd) hf.gen.symm), h4⟩
  | seq fd m | push fd m =>
    exact ⟨(hsame fd).serving h.1, (hsame fd).watched.trans h.2.1, h.2.2⟩
  | resetSeqRecv fd | resetSeqSend fd | OnAccept fd | watch fd | refuse fd | OnDisconnect fd m
  | closeIfNeed fd m | popIdle fd e | OnTimeoutMessage fd m | timeoutIdle fd m | againIdle fd m
  | StopEvio fd m =>
    exact ⟨(hsame fd).serving h.1, (hsame fd).watched.trans h.2⟩

theorem Slot.Same.refl (sl : Slot) : sl.Same sl := ⟨rfl, rfl, rfl, rfl, fun _ => rfl⟩

theorem same_update {f : Nat → Slot} {fd : Nat} {sl : Slot} (h : (f fd).Same sl) (fd' : Nat) :
    (f fd').Same (Function.update f fd sl fd') := by
  by_cases hfd : fd' = fd
  · subst hfd
    rw [Function.update_self]
    exact h
  · rw [Function.update_of_ne hfd]
    exact .refl _

theorem State.Inv.other {s s' : State h k} (hi : s.Inv) (hheld : s'.Held)
    (hmain : s'.main = s.main) (hsame : ∀ fd, (s.slot fd).Same (s'.slot fd))
    (htable : (Tcp.table s'.slot s'.load).Ok) : s'.Inv where
  table := htable
  held := hheld
  watched := fun fd hw => (hsame fd).serving (hi.watched fd ((hsame fd).watched.symm.trans hw))
  main := hmain ▸ hi.main.same hsame

theorem Slot.same_closeIfNeed (sl : Slot) : sl.Same sl.CloseSocketIfNeedByHandleThread.2 := by
  unfold Slot.CloseSocketIfNeedByHandleThread
  dsimp only
  split
  · split <;> exact ⟨rfl, rfl, rfl, rfl, fun _ => rfl⟩
  · exact ⟨rfl, rfl, rfl, rfl, fun _ => rfl⟩

theorem Slot.same_OnClose (sl : Slot) : sl.Same sl.OnClose := ⟨rfl, rfl, rfl, rfl, fun _ => rfl⟩

theorem Slot.same_count (sl : Slot) : sl.Same sl.count := ⟨rfl, rfl, rfl, rfl, fun _ => rfl⟩

theorem Slot.same_close {sl : Slot} (h : sl.disconnected = true) : sl.Same sl.close := by
  refine ⟨rfl, rfl, rfl, rfl, fun hd => ?_⟩
  rw [h] at hd
  cases hd

/-! ## the handler threads -/

theorem State.Inv.handler_goto {s s' : State h k} (hi : s.Inv) {i : Fin h} {pc : HandlerPc}
    (hhandler : s'.handler = Function.update s.handler i pc)
    (hothers : (s'.main, s'.sender, s'.caller) = (s.main, s.sender, s.caller))
    (hlist : ∀ m ∈ s'.mHandleMessageList, 0 < m.len) (hpc : ∀ m, pc = .handle m → 0 < m.len)
    (hsame : ∀ fd, (s.slot fd).Same (s'.slot fd))
    (htable : (Tcp.table s'.slot (s'.lists + (pc.load + s.besideHandler i))).Ok) : s'.Inv := by
  obtain ⟨hmain, hrest⟩ := Prod.mk.inj hothers
  have hsender := (Prod.mk.inj hrest).1
  refine hi.other ⟨hlist, fun i' m hm => ?_, hsender ▸ hi.held.sender⟩ hmain hsame
    (State.load_handler_goto hhandler hothers ▸ htable)
  rw [hhandler] at hm
  by_cases hii : i' = i
  · subst hii
    rw [Function.update_self] at hm
    exact hpc m hm
  · rw [Function.update_of_ne hii] at hm
    exact hi.held.handler i' m hm

theorem State.Inv.stepHandler {s s' : State h k} (hi : s.Inv) {i : Fin h}
    (hstep : s.stepHandler i = some s') : s'.Inv := by
  have hok : (Tcp.table s.slot (s.lists + ((s.handler i).load + s.besideHandler i))).Ok :=
    s.load_handler i ▸ hi.table
  unfold State.stepHandler at hstep
  cases hp : s.handler i with
  | popFront =>
    rw [hp] at hok hstep
    dsimp only at hstep
    split at hstep
    · obtain rfl := Option.some.inj hstep
      exact hi
    · next m l hl =>
      obtain rfl := Option.some.inj hstep
      have hlen : ∀ m' ∈ m :: l, 0 < m'.len := hl ▸ hi.held.list
      rw [State.lists_handle_cons hl] at hok
      refine hi.handler_goto rfl rfl (fun m' hm' => hlen m' (List.mem_cons_of_mem m hm')) ?_
        (fun _ => .refl _) (ok_take hok)
      intro m' hm'
      cases hm'
      exact hlen m (List.mem_cons_self ..)
  | handle m =>
    rw [hp] at hok hstep
    obtain rfl := Option.some.inj hstep
    rw [if_pos (hi.held.handler i m hp)]
    exact hi.handler_goto rfl rfl hi.held.list (by simp) (fun _ => .refl _) hok
  | closeIfNeed m =>
    rw [hp] at hok hstep
    obtain rfl := Option.some.inj hstep
    have hok' := ok_closeIfNeed hok
    refine hi.handler_goto rfl rfl hi.held.list ?_ (same_update (Slot.same_closeIfNeed _)) ?_
    · intro m'
      split <;> simp
    · rw [apply_ite HandlerPc.load]
      exact hok'
  | OnClose fd m =>
    rw [hp] at hok hstep
    obtain rfl := Option.some.inj hstep
    exact hi.handler_goto rfl rfl hi.held.list (by simp) (same_update (Slot.same_OnClose _))
      (ok_OnClose hok)
  | close fd m =>
    rw [hp] at hok hstep
    obtain rfl := Option.some.inj hstep
    exact hi.handler_goto rfl rfl hi.held.list (by simp)
      (same_update (Slot.same_close (ok_closing hok))) (ok_close hok)
  | idle m =>
    rw [hp] at hok hstep
    obtain rfl := Option.some.inj hstep
    exact hi.handler_goto rfl rfl hi.held.list (by simp) (fun _ => .refl _) hok

/-! ## the send thread -/

theorem State.Inv.sender_goto {s s' : State h k} (hi : s.Inv)
    (hothers : (s'.main, s'.handler, s'.caller) = (s.main, s.handler, s.caller))
    (hlist : s'.mHandleMessageList = s.mHandleMessageList)
    (hpc : ∀ m fd, s'.sender = .closeIfNeed m fd → fd = m.fd)
    (hsame : ∀ fd, (s.slot fd).Same (s'.slot fd))
    (htable : (Tcp.table s'.slot (s'.lists + (s'.sender.load + s.besideSender))).Ok) : s'.Inv := by
  obtain ⟨hmain, hrest⟩ := Prod.mk.inj hothers
  have hhandler := (Prod.mk.inj hrest).1
  exact hi.other ⟨hlist ▸ hi.held.list, hhandler ▸ hi.held.handler, hpc⟩ hmain hsame
    (State.load_sender_goto hothers ▸ htable)

theorem State.Inv.table_sender {s : State h k} (hi : s.Inv) :
    (Tcp.table s.slot (s.lists + (s.sender.load + s.besideSender))).Ok :=
  s.load_sender ▸ hi.table

theorem State.Inv.send {s s' : State h k} (hi : s.Inv) {ret : SendRet}
    (hstep : s.send ret = some s') : s'.Inv := by
  have hok := hi.table_sender
  unfold State.send at hstep
  cases hp : s.sender with
  | send m index =>
    rw [hp] at hok hstep
    dsimp only at hstep
    split at hstep
    · split at hstep
      · obtain rfl := Option.some.inj hstep
        refine hi.sender_goto rfl rfl ?_ (fun _ => .refl _) ?_
        · intro m' fd
          show (if _ then _ else _) = _ → _
          split <;> simp
        · show (Tcp.table _ (_ + (SenderPc.load (if _ then _ else _) + _))).Ok
          rw [apply_ite SenderPc.load]
          split <;> exact hok
      · cases hstep
    · obtain rfl := Option.some.inj hstep
      exact hi.sender_goto rfl rfl (by simp [State.setSender]) (fun _ => .refl _) hok
    · obtain rfl := Option.some.inj hstep
      exact hi
    · obtain rfl := Option.some.inj hstep
      exact hi.sender_goto rfl rfl (by simp [State.setSender]) (fun _ => .refl _) hok
  | _ =>
    rw [hp] at hstep
    cases hstep

theorem State.Inv.stepSender {s s' : State h k} (hi : s.Inv) (hcalm : s.Calm .sender)
    (hstep : s.stepSender = some s') : s'.Inv := by
  have hok := hi.table_sender
  unfold State.stepSender at hstep
  cases hp : s.sender with
  | popFront =>
    rw [hp] at hok hstep
    dsimp only at hstep
    split at hstep
    · obtain rfl := Option.some.inj hstep
      exact hi
    · next m l hl =>
      obtain rfl := Option.some.inj hstep
      rw [State.lists_send_cons hl] at hok
      exact hi.sender_goto rfl rfl (by simp [State.setSender]) (fun _ => .refl _) (ok_take hok)
  | send m index =>
    rw [hp] at hstep
    cases hstep
  | OnSendMessage m | Disconnect m | idle m =>
    rw [hp] at hok hstep
    obtain rfl := Option.some.inj hstep
    exact hi.sender_goto rfl rfl (by simp [State.setSender, State.pushIdle]) (fun _ => .refl _) hok
  | readFd m =>
    -- the descriptor read is that of the Message, because the step is `Calm`
    change s.sender.Calm s.readFd at hcalm
    rw [hp] at hcalm
    rw [hp] at hok hstep
    obtain rfl := Option.some.inj hstep
    refine hi.sender_goto rfl rfl ?_ (fun _ => .refl _) hok
    intro m' fd hm
    cases hm
    exact hcalm
  | closeIfNeed m fd =>
    obtain rfl := hi.held.sender m fd hp
    rw [hp] at hok hstep
    obtain rfl := Option.some.inj hstep
    have hok' := ok_closeIfNeed hok
    refine hi.sender_goto rfl rfl ?_ (same_update (Slot.same_closeIfNeed _)) ?_
    · intro m' fd
      show (if _ then _ else _) = _ → _
      split <;> simp
    · show (Tcp.table _ (_ + (SenderPc.load (if _ then _ else _) + _))).Ok
      rw [apply_ite SenderPc.load]
      exact hok'
  | OnClose fd =>
    rw [hp] at hok hstep
    obtain rfl := Option.some.inj hstep
    exact hi.sender_goto rfl rfl (by simp [State.setSender]) (same_update (Slot.same_OnClose _))
      (ok_OnClose hok)
  | close fd =>
    rw [hp] at hok hstep
    obtain rfl := Option.some.inj hstep
    exact hi.sender_goto rfl rfl (by simp [State.setSender])
      (same_update (Slot.same_close (ok_closing hok))) (ok_close hok)

/-! ## the threads that call `SendMessageByQueue` -/

theorem State.Inv.caller_goto {s s' : State h k} (hi : s.Inv) {j : Fin k} {pc : CallerPc}
    (hcaller : s'.caller = Function.update s.caller j pc)
    (hothers : (s'.main, s'.handler, s'.sender) = (s.main, s.handler, s.sender))
    (hlist : s'.mHandleMessageList = s.mHandleMessageList)
    (hsame : ∀ fd, (s.slot fd).Same (s'.slot fd))
    (htable : (Tcp.table s'.slot (s'.lists + (pc.load + s.besideCaller j))).Ok) : s'.Inv := by
  obtain ⟨hmain, hrest⟩ := Prod.mk.inj hothers
  obtain ⟨hhandler, hsender⟩ := Prod.mk.inj hrest
  exact hi.other ⟨hlist ▸ hi.held.list, hhandler ▸ hi.held.handler, hsender ▸ hi.held.sender⟩ hmain
    hsame (State.load_caller_goto hcaller hothers ▸ htable)

theorem State.Inv.table_caller {s : State h k} (hi : s.Inv) (j : Fin k) :
    (Tcp.table s.slot (s.lists + ((s.caller j).load + s.besideCaller j))).Ok :=
  s.load_caller j ▸ hi.table

theorem State.Inv.call {s s' : State h k} (hi : s.Inv) {j : Fin k} {fd len : Nat}
    (hstep : s.call j fd len = some s') : s'.Inv := by
  have hok := hi.table_caller j
  unfold State.call at hstep
  split at hstep
  · next hguard =>
    rw [hguard.1] at hok
    split at hstep
    · obtain rfl := Option.some.inj hstep
      exact hi
    · obtain rfl := Option.some.inj hstep
      exact hi.caller_goto rfl rfl rfl (fun _ => .refl _) hok
  · cases hstep

theorem State.Inv.stepCaller {s s' : State h k} (hi : s.Inv) {j : Fin k}
    (hcalm : s.Calm (.caller j)) (hstep : s.stepCaller j = some s') : s'.Inv := by
  have hok := hi.table_caller j
  unfold State.stepCaller at hstep
  cases hp : s.caller j with
  | free =>
    rw [hp] at hstep
    cases hstep
  | count m =>
    change (s.caller j).Calm s.slot at hcalm
    rw [hp] at hcalm
    obtain ⟨h1, h2, h3, h4⟩ := hcalm
    rw [hp] at hok hstep
    obtain rfl := Option.some.inj hstep
    have hok' := ok_count m.fd hok ⟨h1, h2, h3⟩
    rw [h4] at hok'
    exact hi.caller_goto rfl rfl rfl (same_update (Slot.same_count _)) hok'
  | seq m =>
    rw [hp] at hok hstep
    obtain rfl := Option.some.inj hstep
    exact hi.caller_goto rfl rfl rfl (same_update ⟨rfl, rfl, rfl, rfl, fun _ => rfl⟩)
      (ok_same rfl hok)
  | push m =>
    rw [hp] at hok hstep
    obtain rfl := Option.some.inj hstep
    refine hi.caller_goto rfl rfl rfl (fun _ => .refl _) ?_
    show (Tcp.table _ (State.lists { s with
      mSendImmediatelyMessageList := s.mSendImmediatelyMessageList ++ [m] } + (0 + _))).Ok
    rw [s.lists_send_concat m]
    exact ok_put hok

/-! ## the main thread -/

theorem State.Inv.main_goto {s s' : State h k} (hi : s.Inv)
    (hothers : (s'.handler, s'.sender, s'.caller) = (s.handler, s.sender, s.caller))
    (hlist : ∀ m ∈ s'.mHandleMessageList, 0 < m.len)
    (hwatched : ∀ fd, (s'.slot fd).watched = true → (s'.slot fd).Serving)
    (hmain : s'.main.Ok s'.slot)
    (htable : (Tcp.table s'.slot (s'.lists + (s'.main.load + s.besideMain))).Ok) : s'.Inv := by
  obtain ⟨hhandler, hrest⟩ := Prod.mk.inj hothers
  have hsender := (Prod.mk.inj hrest).1
  exact ⟨State.load_main_goto hothers ▸ htable,
    ⟨hlist, hhandler ▸ hi.held.handler, hsender ▸ hi.held.sender⟩, hwatched, hmain⟩

theorem State.Inv.table_main {s : State h k} (hi : s.Inv) :
    (Tcp.table s.slot (s.lists + (s.main.load + s.besideMain))).Ok :=
  s.load_main ▸ hi.table

theorem State.Inv.usable {s : State h k} (hi : s.Inv) {fd : Nat} (hs : (s.slot fd).Serving) :
    (s.slot fd).handle.Usable := by
  refine ⟨hs.isOpen, hs.counted, ?_⟩
  by_contra hne
  have hdec : (s.slot fd).decided = true := (Bool.not_eq_false _).mp hne
  have hdisc : (s.slot fd).disconnected = true := ((hi.table.entry fd).decided hdec).1
  have := hs.disconnected
  rw [hdisc] at this
  cases this

/-- an update of one slot, as far as the watchers go -/
theorem watched_update {f : Nat → Slot} {fd : Nat} {sl : Slot}
    (hf : ∀ fd, (f fd).watched = true → (f fd).Serving) (hsl : sl.watched = true → sl.Serving)
    (fd' : Nat) (hw : (Function.update f fd sl fd').watched = true) :
    (Function.update f fd sl fd').Serving := by
  by_cases hfd : fd' = fd
  · subst hfd
    rw [Function.update_self] at hw ⊢
    exact hsl hw
  · rw [Function.update_of_ne hfd] at hw ⊢
    exact hf fd' hw

theorem MainPc.next_ok {f : Nat → Slot} {fd : Nat} (m : Msg) (hs : (f fd).Serving)
    (hw : (f fd).watched = true) : (MainPc.next fd m).Ok f := by
  unfold MainPc.next
  split
  · trivial
  · exact ⟨hs, hw⟩

theorem MainPc.next_load (fd : Nat) (m : Msg) : (MainPc.next fd m).load = 0 := by
  unfold MainPc.next
  split <;> rfl

theorem State.Inv.accept {s s' : State h k} (hi : s.Inv) {fd : Nat}
    (hstep : s.accept fd = some s') : s'.Inv := by
  have hok := hi.table_main
  unfold State.accept at hstep
  split at hstep
  · next hguard =>
    obtain ⟨hmain, hopen⟩ := hguard
    rw [hmain] at hok
    obtain rfl := Option.some.inj hstep
    have hnw : (s.slot fd).watched = false := by
      by_contra hw
      have := (hi.watched fd (by simpa using hw)).isOpen
      rw [hopen] at this
      cases this
    have hwatched : ∀ fd', (Function.update s.slot fd (s.slot fd).accept fd').watched = true →
        (Function.update s.slot fd (s.slot fd).accept fd').Serving :=
      watched_update hi.watched fun hw => absurd hw (by simp [Slot.accept, hnw])
    split
    · refine hi.main_goto rfl hi.held.list hwatched ?_ ?_
      · show s.main.Ok _
        rw [hmain]
        trivial
      · show (Tcp.table _ (_ + (s.main.load + _))).Ok
        rw [hmain]
        exact ok_accept hok hopen
    · refine hi.main_goto rfl hi.held.list hwatched ?_ (ok_accept hok hopen)
      show MainPc.Ok (Function.update s.slot fd (s.slot fd).accept) (.resetCount fd)
      simp only [MainPc.Ok, Function.update_self]
      exact ⟨rfl, rfl, rfl, hnw⟩
  · cases hstep

theorem State.Inv.stepMain {s s' : State h k} (hi : s.Inv) (hstep : s.stepMain = some s') :
    s'.Inv := by
  have hok := hi.table_main
  have hm := hi.main
  unfold State.stepMain at hstep
  cases hp : s.main with
  | loop | OnAccept fd =>
    rw [hp] at hstep
    cases hstep
  | resetCount fd =>
    rw [hp] at hok hstep hm
    obtain ⟨h1, h2, h3, h4⟩ := hm
    obtain rfl := Option.some.inj hstep
    refine hi.main_goto rfl hi.held.list
      (watched_update hi.watched fun hw => absurd hw (by simp [Slot.resetCount, h4])) ?_
      (ok_resetCount hok h1 h2)
    show MainPc.Ok (Function.update _ _ _) (.resetSeqRecv fd)
    simp only [MainPc.Ok, Function.update_self]
    exact ⟨⟨h1, rfl, h3⟩, h4⟩
  | resetSeqRecv fd =>
    rw [hp] at hok hstep hm
    obtain rfl := Option.some.inj hstep
    refine hi.main_goto rfl hi.held.list (watched_update hi.watched fun _ => ?_) ?_
      (ok_same rfl hok)
    · exact ⟨hm.1.isOpen, hm.1.counted, hm.1.disconnected⟩
    · show MainPc.Ok (Function.update _ _ _) (.resetSeqSend fd)
      simp only [MainPc.Ok, Function.update_self]
      exact ⟨⟨hm.1.isOpen, hm.1.counted, hm.1.disconnected⟩, hm.2⟩
  | resetSeqSend fd =>
    rw [hp] at hok hstep hm
    obtain rfl := Option.some.inj hstep
    refine hi.main_goto rfl hi.held.list (watched_update hi.watched fun _ => ?_) ?_
      (ok_same rfl hok)
    · exact ⟨hm.1.isOpen, hm.1.counted, hm.1.disconnected⟩
    · show MainPc.Ok (Function.update _ _ _) (.OnAccept fd)
      simp only [MainPc.Ok, Function.update_self]
      exact ⟨⟨hm.1.isOpen, hm.1.counted, hm.1.disconnected⟩, hm.2⟩
  | watch fd =>
    rw [hp] at hok hstep hm
    dsimp only at hstep
    split at hstep
    · obtain rfl := Option.some.inj hstep
      refine hi.main_goto rfl hi.held.list (watched_update hi.watched fun _ => ?_) trivial
        (ok_same rfl hok)
      exact ⟨hm.1.isOpen, hm.1.counted, hm.1.disconnected⟩
    · obtain rfl := Option.some.inj hstep
      exact hi.main_goto rfl hi.held.list hi.watched hm hok
  | refuse fd | OnTimeoutMessage fd m | OnDisconnect fd m =>
    rw [hp] at hok hstep hm
    obtain rfl := Option.some.inj hstep
    exact hi.main_goto rfl hi.held.list hi.watched hm hok
  | popIdle fd error =>
    rw [hp] at hok hstep hm
    dsimp only at hstep
    split at hstep
    · obtain rfl := Option.some.inj hstep
      exact hi
    · obtain rfl := Option.some.inj hstep
      exact hi.main_goto rfl hi.held.list hi.watched ⟨hm.1, hm.2, rfl⟩ hok
  | recv fd m error =>
    rw [hp] at hok hstep hm
    cases error with
    | false => cases hstep
    | true =>
      obtain rfl := Option.some.inj hstep
      exact hi.main_goto rfl hi.held.list hi.watched ⟨hm.1, hm.2.1⟩ hok
  | handleSize fd m =>
    rw [hp] at hok hstep hm
    dsimp only at hstep
    split at hstep
    · obtain rfl := Option.some.inj hstep
      exact hi.main_goto rfl hi.held.list hi.watched ⟨hm.1, hm.2.1⟩ hok
    · obtain rfl := Option.some.inj hstep
      exact hi.main_goto rfl hi.held.list hi.watched hm hok
  | timeoutIdle fd m =>
    rw [hp] at hok hstep hm
    obtain rfl := Option.some.inj hstep
    refine hi.main_goto rfl hi.held.list hi.watched (MainPc.next_ok m hm.1 hm.2) ?_
    show (Tcp.table _ (_ + ((MainPc.next fd m).load + _))).Ok
    rw [MainPc.next_load]
    exact hok
  | count fd m =>
    rw [hp] at hok hstep hm
    obtain ⟨hs, hw, hconn, hlen⟩ := hm
    obtain rfl := Option.some.inj hstep
    have hs' : Slot.Serving (s.slot fd).count := ⟨hs.isOpen, hs.counted, hs.disconnected⟩
    have hok' := ok_count fd hok (hi.usable hs)
    rw [← hconn] at hok'
    refine hi.main_goto rfl hi.held.list (watched_update hi.watched fun _ => hs') ?_ hok'
    show MainPc.Ok (Function.update _ _ _) (.seq fd m)
    simp only [MainPc.Ok, Function.update_self]
    exact ⟨hs', hw, hlen⟩
  | seq fd m =>
    rw [hp] at hok hstep hm
    obtain ⟨hs, hw, hlen⟩ := hm
    obtain rfl := Option.some.inj hstep
    refine hi.main_goto rfl hi.held.list (watched_update hi.watched fun _ => ?_) ?_
      (ok_same rfl hok)
    · exact ⟨hs.isOpen, hs.counted, hs.disconnected⟩
    · show MainPc.Ok (Function.update _ _ _) (.push fd _)
      simp only [MainPc.Ok, Function.update_self]
      exact ⟨⟨hs.isOpen, hs.counted, hs.disconnected⟩, hw, hlen⟩
  | push fd m =>
    rw [hp] at hok hstep hm
    obtain ⟨hs, hw, hlen⟩ := hm
    obtain rfl := Option.some.inj hstep
    refine hi.main_goto rfl ?_ hi.watched (MainPc.next_ok m hs hw) ?_
    · intro m' hm'
      rcases List.mem_append.mp hm' with h1 | h1
      · exact hi.held.list m' h1
      · rw [List.mem_singleton.mp h1]
        exact hlen
    · show (Tcp.table _ (State.lists { s with
        mHandleMessageList := s.mHandleMessageList ++ [m] } + ((MainPc.next fd m).load + _))).Ok
      rw [s.lists_handle_concat m, MainPc.next_load]
      exact ok_put hok
  | againIdle fd m =>
    rw [hp] at hok hstep hm
    obtain rfl := Option.some.inj hstep
    exact hi.main_goto rfl hi.held.list hi.watched trivial hok
  | StopEvio fd m =>
    rw [hp] at hok hstep hm
    obtain rfl := Option.some.inj hstep
    refine hi.main_goto rfl hi.held.list (watched_update hi.watched fun hw => by cases hw) ?_
      (ok_same rfl hok)
    show MainPc.Ok (Function.update _ _ _) (.OnDisconnect fd _)
    simp only [MainPc.Ok, Function.update_self]
    exact ⟨⟨hm.1.isOpen, hm.1.counted, hm.1.disconnected⟩, trivial⟩
  | closeIfNeed fd m =>
    rw [hp] at hok hstep hm
    obtain ⟨hs, hw⟩ := hm
    obtain rfl := Option.some.inj hstep
    have hw' : (s.slot fd).OnDisconnect.2.watched = false := by
      unfold Slot.OnDisconnect
      dsimp only
      split <;> exact hw
    have hok' := ok_OnDisconnect hok (hi.usable hs) hs.disconnected
    refine hi.main_goto rfl hi.held.list
      (watched_update hi.watched fun h => absurd h (by simp [hw'])) ?_ ?_
    · show MainPc.Ok _ (if _ then _ else _)
      split <;> trivial
    · show (Tcp.table _ (_ + (MainPc.load (if _ then _ else _) + _))).Ok
      rw [apply_ite MainPc.load]
      exact hok'
  | OnClose fd m =>
    rw [hp] at hok hstep
    obtain rfl := Option.some.inj hstep
    refine hi.main_goto rfl hi.held.list (watched_update hi.watched fun hw => ?_) trivial
      (ok_OnClose hok)
    exact (Slot.same_OnClose _).serving (hi.watched fd hw)
  | close fd m =>
    rw [hp] at hok hstep
    obtain rfl := Option.some.inj hstep
    refine hi.main_goto rfl hi.held.list (watched_update hi.watched fun hw => ?_) trivial
      (ok_close hok)
    exact (Slot.same_close (ok_closing hok)).serving (hi.watched fd hw)
  | idle m =>
    rw [hp] at hok hstep
    cases m with
    | none =>
      obtain rfl := Option.some.inj hstep
      exact hi.main_goto rfl hi.held.list hi.watched trivial hok
    | some m =>
      obtain rfl := Option.some.inj hstep
      exact hi.main_goto rfl hi.held.list hi.watched trivial hok

theorem State.Inv.event {s s' : State h k} (hi : s.Inv) {fd : Nat} {error : Bool}
    (hstep : s.event fd error = some s') : s'.Inv := by
  have hok := hi.table_main
  unfold State.event at hstep
  split at hstep
  · next hguard =>
    obtain ⟨hmain, hw⟩ := hguard
    rw [hmain] at hok
    obtain rfl := Option.some.inj hstep
    exact hi.main_goto rfl hi.held.list hi.watched ⟨hi.watched fd hw, hw⟩ hok
  · cases hstep

theorem State.Inv.onAccept {s s' : State h k} (hi : s.Inv) {ret : Bool}
    (hstep : s.onAccept ret = some s') : s'.Inv := by
  have hok := hi.table_main
  have hm := hi.main
  unfold State.onAccept at hstep
  split at hstep
  · next fd hp =>
    rw [hp] at hok hm
    obtain rfl := Option.some.inj hstep
    cases ret with
    | false =>
      exact hi.main_goto rfl hi.held.list hi.watched hm hok
    | true =>
      exact hi.main_goto rfl hi.held.list hi.watched hm hok
  · cases hstep

theorem State.Inv.recv {s s' : State h k} (hi : s.Inv) {ret : RecvRet}
    (hstep : s.recv ret = some s') : s'.Inv := by
  have hok := hi.table_main
  have hm := hi.main
  unfold State.recv at hstep
  split at hstep
  · next fd m hp =>
    rw [hp] at hok hm
    obtain ⟨hs, hw, hconn⟩ := hm
    cases ret with
    | data len =>
      dsimp only at hstep
      split at hstep
      · next hlen =>
        obtain rfl := Option.some.inj hstep
        exact hi.main_goto rfl hi.held.list hi.watched ⟨hs, hw, hconn, hlen.1⟩ hok
      · cases hstep
    | closed | again | error =>
      obtain rfl := Option.some.inj hstep
      exact hi.main_goto rfl hi.held.list hi.watched ⟨hs, hw⟩ hok
  · cases hstep

/-! ## all steps -/

/-- **A step that is `Calm` keeps the invariant.** -/
theorem State.Inv.step {s s' : State h k} {a : Action h k} (hi : s.Inv) (hcalm : s.Calm a)
    (hstep : s.step a = some s') : s'.Inv := by
  cases a with
  | accept fd => exact hi.accept hstep
  | event fd error => exact hi.event hstep
  | OnAccept ret => exact hi.onAccept hstep
  | recv ret => exact hi.recv hstep
  | main => exact hi.stepMain hstep
  | handler i => exact hi.stepHandler hstep
  | send ret => exact hi.send hstep
  | sender => exact hi.stepSender hcalm hstep
  | call j fd len => exact hi.call hstep
  | caller j => exact hi.stepCaller hcalm hstep

theorem State.Inv.init (h k pool watchers handleSize : Nat)
    (junk : Nat → Int × Bool × Nat × Nat) :
    (State.init h k pool watchers handleSize junk).Inv := by
  have hload : (State.init h k pool watchers handleSize junk).load = 0 := by
    simp [State.load, State.threadLoad, State.init, MainPc.load, SenderPc.load, HandlerPc.load,
      CallerPc.load, listLoad]
  refine ⟨?_, ⟨by simp [State.init], ?_, ?_⟩, ?_, trivial⟩
  · rw [hload]
    refine ⟨fun e he => absurd he (by simp [Tcp.table]), fun fd => ?_⟩
    constructor <;> simp [Tcp.table, Slot.handle, State.init]
  · intro i m hm
    cases hm
  · intro m fd hm
    cases hm
  · intro fd hw
    cases hw

end VncProxy.Tcp
