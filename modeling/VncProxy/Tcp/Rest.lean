import VncProxy.Tcp.Calls

/-!
# `TcpServer` when nothing more comes

* `Stream.progress`     the threads and the record as a step system whose own steps come to an end;
* `resting_of_atRest`   at rest every thread is at its start and every Message idle: no thread waits
                        for a Message that never comes;
* `settles`             when nothing more comes, the calls return and no thread is passed over for ever,
                        the server comes to rest, and every chunk has then been handled;
* `writes_all`          and what was queued for a connection is on its socket.
-/

namespace VncProxy.Tcp

variable {h k : Nat}

/-! ## the step system -/

theorem Action.Own.fits {a : Action h k} (hown : a.Own) (b : List Byte) : a.Fits b := by
  cases a with
  | recv ret =>
    cases ret with
    | data n => exact hown.elim
    | closed | again | error => exact trivial
  | call j fd len => exact hown.elim
  | accept | event | OnAccept | main | handler | send | sender | caller => exact trivial

theorem Action.Own.fills {a : Action h k} (hown : a.Own) (s : State h k) : s.fills a = none := by
  cases a with
  | recv ret =>
    cases ret with
    | data n => exact hown.elim
    | closed | again | error => rfl
  | call j fd len => exact hown.elim
  | accept | event | OnAccept | main | handler | send | sender | caller => rfl

theorem Action.Own.receives {a : Action h k} (hown : a.Own) (s : State h k) : s.receives a = [] := by
  cases a with
  | recv ret =>
    cases ret with
    | data n => exact hown.elim
    | closed | again | error => rfl
  | accept | event | OnAccept | main | handler | send | sender | call | caller => rfl

theorem Stream.Step.same {s s' : Stream h k} {a : Action h k × List Byte} (hstep : s.Step a s')
    (hown : a.1.Own) (hserver : s'.server = s.server) (hwaits : s.server.Waits a.1) : s' = s := by
  have hbuffer := hstep.buffer_same (hown.fills s.server)
  have hreceived := hstep.received
  rw [hown.receives] at hreceived
  obtain ⟨act, b⟩ := a
  have hrefused := hstep.refused
  have hpushed := hstep.pushed
  have hhandled := hstep.handled
  have hqueued := hstep.queued
  have hwritten := hstep.written
  have habandoned := hstep.abandoned
  have hnone : s.server.refuses act = [] ∧ s.server.pushes act = [] ∧ s.server.handles act = [] ∧
      s.server.queues act = [] ∧ s.writes act = [] ∧ s.server.abandons act = [] := by
    cases hwaits with
    | main hstarved =>
      obtain ⟨⟨fd, error, hpc⟩, -⟩ := hstarved
      simp only [State.refuses, State.pushes, State.handles, State.queues, Stream.writes,
        State.abandons, hpc, and_self]
    | handler i hpc hl =>
      simp only [State.refuses, State.pushes, State.handles, State.queues, Stream.writes,
        State.abandons, hpc, and_self]
    | sender hpc hl => exact ⟨rfl, rfl, rfl, rfl, rfl, rfl⟩
    | send => exact ⟨rfl, rfl, rfl, rfl, rfl, rfl⟩
  obtain ⟨h1, h2, h3, h4, h5, h6⟩ := hnone
  rw [h1] at hrefused
  rw [h2] at hpushed
  rw [h3] at hhandled
  rw [h4] at hqueued
  rw [h5] at hwritten
  rw [h6] at habandoned
  cases s
  cases s'
  simp_all

def Stream.progress (h k : Nat) : Progress (Stream h k) (Action h k × List Byte) (Party h k) Nat where
  step := Stream.step
  own a := a.1.Own
  party a := a.1.party
  work s := s.server.work
  same_or_lt := fun hown hstep => by
    have hstep := Stream.step_cases hstep
    rcases step_work hown hstep.server with ⟨hserver, hwaits⟩ | hlt
    · exact .inl (hstep.same hown hserver hwaits)
    · exact .inr hlt

def State.progress (h k : Nat) : Progress (State h k) (Action h k) (Party h k) Nat where
  step := State.stepAny
  own := Action.Own
  party := Action.party
  work := State.work
  same_or_lt := fun hown hstep => (step_work hown hstep).imp_left And.left

theorem State.drives (h k : Nat) : Drives (State.progress h k) id some .call where
  own hown hb := by
    obtain rfl := Option.some.inj hb
    exact hown
  step hstep hb := by
    obtain rfl := Option.some.inj hb
    exact hstep
  other _ hnone := by cases hnone
  party := ⟨fun ha => ⟨_, rfl, ha⟩, fun ⟨b, hb, hparty⟩ => by
    obtain rfl := Option.some.inj hb
    exact hparty⟩
  able hown _ hstep := ⟨_, _, rfl, hown, hstep⟩

/-- the record says nothing about what can be done -/
theorem Stream.step_own {s : Stream h k} {a : Action h k} {t : State h k} (hown : a.Own)
    (hstep : s.server.stepAny a = some t) : ∃ s', s.step (a, []) = some s' ∧ s'.server = t := by
  unfold Stream.step
  rw [if_pos (Action.Own.fits hown []), hstep]
  exact ⟨_, rfl, rfl⟩

theorem Stream.drives (h k : Nat) :
    Drives (Stream.progress h k) Stream.server (fun a => some a.1) .call where
  own hown hb := by
    obtain rfl := Option.some.inj hb
    exact hown
  step hstep hb := by
    obtain rfl := Option.some.inj hb
    exact (Stream.step_cases hstep).server
  other _ hnone := by cases hnone
  party := ⟨fun ha => ⟨_, rfl, ha⟩, fun ⟨b, hb, hparty⟩ => by
    obtain rfl := Option.some.inj hb
    exact hparty⟩
  able hown _ hstep := by
    obtain ⟨s', hmove, -⟩ := Stream.step_own hown hstep
    exact ⟨(_, []), s', rfl, hown, hmove⟩

theorem Stream.atRest_server {s : Stream h k} (hrest : (Stream.progress h k).AtRest s) :
    (State.progress h k).AtRest s.server := by
  rintro a t ⟨hown, hstep, hlt⟩
  obtain ⟨s', hs, rfl⟩ := Stream.step_own hown hstep
  exact hrest (a, []) s' ⟨hown, hs, hlt⟩

/-- an own step changes nothing, or does a part of what is to be received or of what is to be sent -/
theorem Stream.Step.work {s s' : Stream h k} {a : Action h k × List Byte} (hstep : s.Step a s')
    (hown : a.1.Own) : s' = s ∧ s.server.Waits a.1 ∨
      s'.server.recvWork < s.server.recvWork ∨
      s'.server.recvWork = s.server.recvWork ∧ s'.server.sendWork < s.server.sendWork := by
  by_cases ha : a.1.OfReceiver
  · rcases recvWork_step ha hown hstep.server with ⟨hserver, hwaits⟩ | hlt
    · exact .inl ⟨hstep.same hown hserver hwaits, hwaits⟩
    · exact .inr (.inl hlt.1)
  · rcases sendWork_step ha hown hstep.server with ⟨hserver, hwaits⟩ | hlt
    · exact .inl ⟨hstep.same hown hserver hwaits, hwaits⟩
    · exact .inr (.inr hlt)

/-! ## at rest -/

structure State.Resting (s : State h k) : Prop where
  main : s.main = .loop
  handler : ∀ i, s.handler i = .popFront
  sender : s.sender = .popFront
  caller : ∀ j, s.caller j = .free
  handleList : s.mHandleMessageList = []
  sendList : s.mSendImmediatelyMessageList = []

instance (s : State h k) : Decidable s.Resting :=
  decidable_of_iff (s.main = .loop ∧ (∀ i, s.handler i = .popFront) ∧ s.sender = .popFront ∧
      (∀ j, s.caller j = .free) ∧ s.mHandleMessageList = [] ∧ s.mSendImmediatelyMessageList = [])
    ⟨fun ⟨h1, h2, h3, h4, h5, h6⟩ => ⟨h1, h2, h3, h4, h5, h6⟩,
      fun ⟨h1, h2, h3, h4, h5, h6⟩ => ⟨h1, h2, h3, h4, h5, h6⟩⟩

variable {s : State h k}

theorem waits_of_atRest (hrest : (State.progress h k).AtRest s) {a : Action h k} (hown : a.Own)
    {t : State h k} (hstep : s.stepAny a = some t) : s.Waits a := by
  rcases step_work hown hstep with ⟨-, hwaits⟩ | hlt
  · exact hwaits
  · exact absurd ⟨hown, hstep, hlt⟩ (hrest a t)

theorem not_inCall_of_atRest (hrest : (State.progress h k).AtRest s) (c : Call) : ¬ s.InCall c := by
  intro hs
  obtain ⟨a, t, hown, hparty, hstep⟩ := hs.able
  exact hrest a t ⟨hown, hstep, call_work hown hparty hstep⟩

theorem stepMain_some (s : State h k) : s.main = .loop ∨ (∃ fd, s.main = .OnAccept fd) ∨
    (∃ fd m, s.main = .recv fd m false) ∨ ∃ t, s.stepMain = some t := by
  unfold State.stepMain
  cases hp : s.main with
  | loop => exact .inl rfl
  | OnAccept fd => exact .inr (.inl ⟨fd, rfl⟩)
  | recv fd m error =>
    cases error with
    | false => exact .inr (.inr (.inl ⟨fd, m, rfl⟩))
    | true => exact .inr (.inr (.inr ⟨_, rfl⟩))
  | watch fd | popIdle fd error | handleSize fd m =>
    refine .inr (.inr (.inr ?_))
    dsimp only
    split <;> exact ⟨_, rfl⟩
  | idle m => cases m <;> exact .inr (.inr (.inr ⟨_, rfl⟩))
  | resetCount | resetSeqRecv | resetSeqSend | refuse | OnTimeoutMessage | timeoutIdle | count | seq
  | push | againIdle | StopEvio | OnDisconnect | closeIfNeed | OnClose | close =>
    exact .inr (.inr (.inr ⟨_, rfl⟩))

theorem handler_of_atRest (hrest : (State.progress h k).AtRest s) (i : Fin h) :
    s.handler i = .popFront ∧ s.mHandleMessageList = [] := by
  obtain ⟨t, ht⟩ : ∃ t, s.stepHandler i = some t := by
    unfold State.stepHandler
    cases s.handler i with
    | popFront =>
      dsimp only
      split <;> exact ⟨_, rfl⟩
    | handle | closeIfNeed | OnClose | close | idle => exact ⟨_, rfl⟩
  cases waits_of_atRest hrest (show (Action.handler i).Own from trivial) ht with
  | handler _ hpc hl => exact ⟨hpc, hl⟩

theorem sender_of_atRest (hrest : (State.progress h k).AtRest s) :
    s.sender = .popFront ∧ s.mSendImmediatelyMessageList = [] := by
  cases hp : s.sender with
  | send m index => exact absurd ⟨m, index, hp⟩ (not_inCall_of_atRest hrest .send)
  | popFront | OnSendMessage | Disconnect | idle | readFd | closeIfNeed | OnClose | close =>
    obtain ⟨t, ht⟩ : ∃ t, s.stepSender = some t := by
      unfold State.stepSender
      rw [hp]
      dsimp only
      first
        | exact ⟨_, rfl⟩
        | split <;> exact ⟨_, rfl⟩
    cases waits_of_atRest hrest (show Action.sender.Own from trivial) ht with
    | sender hpc hl => exact ⟨hp ▸ hpc, hl⟩

theorem stepCaller_some {j : Fin k} (hbusy : s.caller j ≠ .free) : ∃ t, s.stepCaller j = some t := by
  unfold State.stepCaller
  cases hp : s.caller j with
  | free => exact absurd hp hbusy
  | count | seq | push => exact ⟨_, rfl⟩

theorem caller_of_atRest (hrest : (State.progress h k).AtRest s) (j : Fin k) :
    s.caller j = .free := by
  by_contra hbusy
  obtain ⟨t, ht⟩ := stepCaller_some hbusy
  cases waits_of_atRest hrest (show (Action.caller j).Own from trivial) ht

theorem main_of_atRest (hrest : (State.progress h k).AtRest s) :
    s.main = .loop ∨ s.Starved := by
  rcases stepMain_some s with hp | ⟨fd, hp⟩ | ⟨fd, m, hp⟩ | ⟨t, ht⟩
  · exact .inl hp
  · have hstep : s.onAccept true = some (s.setMain (.watch fd)) := by
      unfold State.onAccept
      rw [hp]
      rfl
    cases waits_of_atRest hrest (show (Action.OnAccept true).Own from trivial) hstep
  · exact absurd ⟨fd, m, hp⟩ (not_inCall_of_atRest hrest .recv)
  · cases waits_of_atRest hrest (show Action.main.Own from trivial) ht with
    | main hstarved => exact .inr hstarved

/-- **Nothing waits in vain**: with a handler thread and a Message, `Recv_Callback` never waits for an
idle Message when all the others wait. -/
theorem resting_of_atRest (hh : 0 < h) {pool : Nat} (hpool : 0 < pool) (hobjects : s.objects = List.range pool)
    (hrest : (State.progress h k).AtRest s) : s.Resting := by
  obtain ⟨hsender, hsendList⟩ := sender_of_atRest hrest
  have hhandler := fun i => (handler_of_atRest hrest i).1
  have hhandleList := (handler_of_atRest hrest ⟨0, hh⟩).2
  have hcaller := caller_of_atRest hrest
  refine ⟨(main_of_atRest hrest).resolve_right ?_, hhandler, hsender, hcaller, hhandleList, hsendList⟩
  rintro ⟨⟨fd, error, hmain⟩, hidle⟩
  -- no Message would be anywhere
  have hnone : s.objects = 0 := by
    unfold State.objects State.listed State.threads
    rw [hidle, hhandleList, hsendList, hmain, hsender]
    simp only [hhandler, hcaller]
    simp [addrs, MainPc.holds, SenderPc.holds, HandlerPc.holds, CallerPc.holds]
  have hcard := congrArg Multiset.card hobjects
  rw [hnone] at hcard
  simp at hcard
  omega

theorem State.Resting.same {s s' : State h k} (hs : s.Resting) {a : Action h k} (hown : a.Own)
    (hstep : s.stepAny a = some s') : s' = s := by
  cases a with
  | accept | event | call => exact hown.elim
  | OnAccept ret =>
    change s.onAccept ret = _ at hstep
    rw [State.onAccept, hs.main] at hstep
    cases hstep
  | recv ret =>
    change s.recv ret = _ at hstep
    rw [State.recv, hs.main] at hstep
    cases hstep
  | main =>
    change s.stepMain = _ at hstep
    rw [State.stepMain, hs.main] at hstep
    cases hstep
  | handler i =>
    change s.stepHandler i = _ at hstep
    rw [State.stepHandler, hs.handler, hs.handleList] at hstep
    exact (Option.some.inj hstep).symm
  | send ret =>
    change s.send ret = _ at hstep
    rw [State.send, hs.sender] at hstep
    cases hstep
  | sender =>
    change s.stepSender = _ at hstep
    rw [State.stepSender, hs.sender, hs.sendList] at hstep
    exact (Option.some.inj hstep).symm
  | caller j =>
    change s.stepCaller j = _ at hstep
    rw [State.stepCaller, hs.caller] at hstep
    cases hstep

theorem State.Resting.work_zero {s : State h k} (hs : s.Resting) : s.recvWork = 0 ∧ s.sendWork = 0 := by
  unfold State.recvWork State.sendWork
  rw [hs.handleList, hs.sendList, hs.main, hs.sender]
  simp [hs.handler, hs.caller, MainPc.work, HandlerPc.work, SenderPc.work, CallerPc.work]

theorem State.Resting.atRest {s : State h k} (hs : s.Resting) : (State.progress h k).AtRest s := by
  rintro a s' ⟨hown, hstep, hlt⟩
  exact absurd (congrArg State.work (hs.same hown hstep)) (Nat.ne_of_lt hlt)

theorem State.Resting.look {s : State h k} (hs : s.Resting) (i : Fin h) :
    s.stepAny (.handler i) = some s := by
  show s.stepHandler i = _
  rw [State.stepHandler, hs.handler, hs.handleList]

variable {s : Stream h k}

theorem Stream.atRest_of_resting (hs : s.server.Resting) : (Stream.progress h k).AtRest s := by
  rintro a s' ⟨hown, hstep, hlt⟩
  exact hs.atRest a.1 s'.server ⟨hown, (Stream.step_cases hstep).server, hlt⟩

theorem Stream.look (hs : s.server.Resting) (i : Fin h) : s.step (.handler i, []) = some s := by
  obtain ⟨s', hs'⟩ : ∃ s', s.step (.handler i, []) = some s' := by
    unfold Stream.step
    rw [hs.look i]
    exact ⟨_, rfl⟩
  have hstep := Stream.step_cases hs'
  have hsame : s' = s := hstep.same (show Action.Own (.handler i) from trivial)
    (Option.some.inj (hstep.server.symm.trans (hs.look i))) (.handler i (hs.handler i) hs.handleList)
  exact hsame ▸ hs'

/-! ## the chunks at rest -/

/-- what has been received on a connection of which no chunk is dropped is in the handle list or in
hand -/
def Kept (r : Rx) (buffer : Nat → List Byte) (received : List (Conn × List Byte))
    (refused : List Conn) (pushed : List (Conn × List Byte)) : Prop :=
  ∀ c, c ∉ refused → bytesOf received c =
    bytesOf pushed c ++ bytesOf (r.hand.map fun m => (m.conn, buffer m.addr)) c

section
variable {r r' : Rx} {f f' : Nat → Line} {room : Prop} {e : Rx.Event} {b : List Byte}
  {buffer buffer' : Nat → List Byte} {received : List (Conn × List Byte)} {refused : List Conn}
  {pushed : List (Conn × List Byte)}

theorem Kept.goto (hi : Kept r buffer received refused pushed)
    (hhand : (r'.hand.map fun m => (m.conn, buffer' m.addr)) =
      r.hand.map fun m => (m.conn, buffer m.addr)) : Kept r' buffer' received refused pushed :=
  fun c hc => hhand ▸ hi c hc

theorem Kept.recv {fd : Nat} {m m' : Msg} (hi : Kept (.ready fd m) buffer received refused pushed)
    (hfill : buffer' m'.addr = b) :
    Kept (.got fd m') buffer' (received ++ [(m'.conn, b)]) refused pushed := by
  intro c hc
  have hall : bytesOf received c = bytesOf pushed c ++ [] := hi c hc
  rw [bytesOf_append, hall, List.append_nil]
  show _ = _ ++ bytesOf [(m'.conn, buffer' m'.addr)] c
  rw [hfill]

theorem Kept.drop {fd : Nat} {m : Msg} (hi : Kept (.drop fd m) buffer received refused pushed)
    (hhand : r'.hand = []) : Kept r' buffer' received (refused ++ [m.conn]) pushed := by
  intro c hc
  rw [List.mem_append, List.mem_singleton, not_or] at hc
  have hall : bytesOf received c = bytesOf pushed c ++ bytesOf [(m.conn, buffer m.addr)] c := hi c hc.1
  rw [hall, bytesOf_other (Ne.symm hc.2), hhand]
  rfl

theorem Kept.push {fd : Nat} {m : Msg} (hi : Kept (.push fd m) buffer received refused pushed)
    (hhand : r'.hand = []) :
    Kept r' buffer' received refused (pushed ++ [(m.conn, buffer m.addr)]) := by
  intro c hc
  rw [hi c hc, hhand, bytesOf_append]
  exact (List.append_nil _).symm

/-- **A step keeps the bytes** of the connections of which no chunk is dropped. -/
theorem Kept.step (hi : Kept r buffer received refused pushed) (hfits : r.Fits f)
    (hstep : Rx.Step room r f e r' f')
    (hbuffer : e.receives = [] → ∀ m ∈ r'.hand, buffer' m.addr = buffer m.addr)
    (hfill : e.receives ≠ [] → ∀ m ∈ r'.hand, buffer' m.addr = b) :
    Kept r' buffer' (received ++ e.receives.map fun c => (c, b)) (refused ++ e.refuses)
      (pushed ++ e.pushes.map fun m => (m.conn, buffer m.addr)) := by
  cases hstep with
  | recv fd m f len hlen =>
    have hfill := hfill (List.cons_ne_nil _ _) _ (List.mem_singleton_self _)
    show Kept _ _ (received ++ [((fd, (f fd).gen), b)]) (refused ++ []) (pushed ++ [])
    rw [List.append_nil, List.append_nil, ← show m.conn = (fd, (f fd).gen) from hfits.2]
    exact hi.recv hfill
  | drop fd m f =>
    show Kept _ _ (received ++ []) (refused ++ [m.conn]) (pushed ++ [])
    rw [List.append_nil, List.append_nil]
    exact hi.drop rfl
  | push fd m f | pushNext fd m f =>
    show Kept _ _ (received ++ []) (refused ++ []) (pushed ++ [(m.conn, buffer m.addr)])
    rw [List.append_nil, List.append_nil]
    exact hi.push rfl
  | same | tooMany | fits =>
    show Kept _ _ (received ++ []) (refused ++ []) (pushed ++ [])
    rw [List.append_nil, List.append_nil, List.append_nil]
    exact hi.goto (List.map_congr_left fun m hm => by rw [hbuffer rfl m hm])
  | seq fd m f =>
    show Kept _ _ (received ++ []) (refused ++ []) (pushed ++ [])
    rw [List.append_nil, List.append_nil, List.append_nil]
    refine hi.goto ?_
    show [(m.conn, buffer' m.addr)] = [(m.conn, buffer m.addr)]
    rw [hbuffer rfl _ (List.mem_singleton_self _)]
  | accept | acceptZero | reset | watch | refuse | unwatch | event | pop | leave | dropped
  | droppedNext =>
    show Kept _ _ (received ++ []) (refused ++ []) (pushed ++ [])
    rw [List.append_nil, List.append_nil, List.append_nil]
    exact hi.goto rfl

end

def Stream.Kept (s : Stream h k) : Prop :=
  Tcp.Kept s.server.main.rx s.buffer s.received s.refused (tagged s.pushed)

theorem Stream.Kept.step {pool : Nat} {s' : Stream h k} {a : Action h k × List Byte}
    (hi : s.Kept) (hsound : s.Sound pool) (hstep : s.Step a s') : s'.Kept := by
  obtain ⟨e, he⟩ := rx_step hstep.server
  have hpushed : tagged s'.pushed
      = tagged s.pushed ++ e.pushes.map fun m => (m.conn, s.buffer m.addr) := by
    rw [hstep.pushed, he.pushes]
    unfold tagged
    rw [List.map_append, List.map_map]
    rfl
  unfold Stream.Kept at hi ⊢
  rw [hstep.received, hstep.refused, hpushed, he.receives, he.refuses]
  refine hi.step hsound.numbered.rx he.step ?_ ?_
  · intro hquiet m hm
    obtain ⟨m0, hm0, haddr⟩ := he.step.hand_quiet hquiet hm
    rw [← haddr]
    exact hstep.kept_main hsound.nodup (he.receives.trans hquiet) (hand_holds _ hm0)
  · intro hreceives m hm
    obtain ⟨fd, m0, hready, haddr⟩ := he.step.hand_receive hreceives hm
    refine hstep.filled m.addr ?_
    obtain ⟨fd', m', error, hmain, hfills⟩ := State.fills_of_receives (he.receives ▸ hreceives)
    rw [hmain] at hready
    obtain ⟨-, rfl⟩ := Rx.ready.inj hready
    rw [hfills, haddr]

structure Stream.Settled (pool : Nat) (s : Stream h k) : Prop where
  resting : s.server.Resting
  /-- every Message of `Start` is idle, once -/
  idle : (s.server.mIdleMessageList.map Msg.addr).Perm (List.range pool)
  /-- `OnRecvMessage` has been called once for every chunk put in the handle list -/
  handled : s.handled.Perm s.pushed
  /-- and these are all that was received, on a connection of which no chunk was dropped -/
  received : ∀ c, c ∉ s.refused → bytesOf (tagged s.pushed) c = bytesOf s.received c

theorem Stream.Sound.settled {pool : Nat} (hi : s.Sound pool) (hcarried : s.Carried) (hkept : s.Kept)
    (hresting : s.server.Resting) : s.Settled pool := by
  refine ⟨hresting, ?_, ?_, fun c hc => ?_⟩
  · refine Multiset.coe_eq_coe.mp (Eq.trans ?_ hi.objects)
    unfold State.objects State.listed State.threads
    rw [hresting.handleList, hresting.sendList, hresting.main, hresting.sender]
    simp only [hresting.handler, hresting.caller]
    simp [addrs, MainPc.holds, SenderPc.holds, HandlerPc.holds, CallerPc.holds]
  · have hchunks : s.server.chunks = 0 := by
      unfold State.chunks
      rw [hresting.handleList]
      simp [hresting.handler, HandlerPc.chunk]
    have hall := hcarried.chunks
    rw [hchunks, Multiset.map_zero, add_zero] at hall
    exact (Multiset.coe_eq_coe.mp hall).symm
  · have hall := hkept c hc
    rw [hresting.main] at hall
    exact (hall.trans (List.append_nil _)).symm

/-! ## every fair execution -/

section
variable {pool watchers handleSize : Nat} {junk : Nat → Int × Bool × Nat × Nat}
  {l : List (Action h k × List Byte)} {state : Nat → Stream h k}
  {label : Nat → Action h k × List Byte}

structure Stream.Received (pool : Nat) (s : Stream h k) : Prop where
  sound : s.Sound pool
  carried : s.Carried
  kept : s.Kept

theorem Stream.Received.step {s s' : Stream h k} {a : Action h k × List Byte}
    (hi : s.Received pool) (hstep : s.Step a s') : s'.Received pool :=
  ⟨hi.sound.step hstep, hi.carried.step hi.sound.nodup hstep, hi.kept.step hi.sound hstep⟩

theorem Stream.Received.init (h k pool watchers handleSize : Nat)
    (junk : Nat → Int × Bool × Nat × Nat) :
    (Stream.init h k pool watchers handleSize junk).Received pool :=
  ⟨.init .., .init .., fun _ _ => rfl⟩

/-- **Every chunk is handled in the end**: after any run, when nothing more comes, every `recv` and
every `send` returns and no thread that has something to do is passed over for ever, there is a moment
from which on every Message is idle and every chunk that was not dropped has been handled, with its
bytes. -/
theorem settles (hh : 0 < h) (hpool : 0 < pool)
    (hrun : run Stream.step (Stream.init h k pool watchers handleSize junk) l = some (state 0))
    (he : (Stream.progress h k).Execution state label)
    (hfair : ∀ t, (Stream.progress h k).FairTo (.thread t) state label)
    (hreturns : Returns (fun n => (state n).server) fun n => some (label n).1) :
    ∃ n, ∀ m ≥ n, (state m).Settled pool := by
  have hi : (state 0).Received pool :=
    inv_run (fun _ _ _ hi hstep => hi.step (Stream.step_cases hstep)) (.init ..) hrun
  have hall : ∀ n, (state n).Received pool :=
    he.inv (p := fun _ _ => True) (fun _ _ _ hi _ hstep => hi.step (Stream.step_cases hstep)) hi
      fun _ => trivial
  obtain ⟨n, hrest, hsame⟩ := Progress.fair_rests he ((Stream.drives h k).fair he hfair hreturns)
  refine ⟨n, fun m hm => ?_⟩
  rw [hsame m hm]
  obtain ⟨hsound, hcarried, hkept⟩ := hall n
  exact hsound.settled hcarried hkept
    (resting_of_atRest hh hpool hsound.objects (Stream.atRest_server hrest))

/-- **It takes at most `work` steps that do something**, answers of `recv` and `send` among them. -/
theorem settles_within {s : Stream h k} (hh : 0 < h) (hpool : 0 < pool) (hi : s.Received pool) :
    ∃ l t, run Stream.step s l = some t ∧ l.length ≤ s.server.work ∧ t.Settled pool := by
  obtain ⟨l, t, hrun, hbusy, hrest⟩ := Progress.drains (P := Stream.progress h k) s
  have hle : l.length + t.server.work ≤ s.server.work := Progress.length_le hbusy hrun
  obtain ⟨hsound, hcarried, hkept⟩ : t.Received pool :=
    inv_run (fun _ _ _ hi hstep => hi.step (Stream.step_cases hstep)) hi hrun
  exact ⟨l, t, hrun, Nat.le_of_add_right_le hle,
    hsound.settled hcarried hkept
      (resting_of_atRest hh hpool hsound.objects (Stream.atRest_server hrest))⟩

/-- one chunk is in the handle list, and the handler thread moves -/
theorem settles_one :
    ∃ state label, run Stream.step fresh (accept5 ++ chunk5 65) = some (state 0) ∧
      (Stream.progress 1 1).Execution state label ∧
      (∀ t, (Stream.progress 1 1).FairTo (.thread t) state label) ∧
      (Returns (fun n => (state n).server) fun n => some (label n).1) ∧
      ∃ n, ∀ m ≥ n, (state m).Settled 3 := by
  obtain ⟨s, hs, t, ht, hresting⟩ : ∃ s, run Stream.step fresh (accept5 ++ chunk5 65) = some s ∧
      ∃ t, run Stream.step s (plain [.handler 0, .handler 0, .handler 0, .handler 0]) = some t ∧
        t.server.Resting := by
    decide
  obtain ⟨state, label, rfl, he, hfair, -⟩ := Progress.follow (P := Stream.progress 1 1)
    (p := fun _ _ => True) ht
    (by simp [plain, Stream.progress, Action.Own]) (runOk_true _ _ _) (Stream.atRest_of_resting hresting)
    (show (Stream.progress 1 1).own (.handler 0, []) from trivial) (Stream.look hresting 0) trivial
  have hreturns := (Stream.drives 1 1).returns he fun c => hfair (.call c)
  exact ⟨state, label, hs, he, fun t => hfair (.thread t), hreturns,
    settles Nat.one_pos (by decide) hs he (fun t => hfair (.thread t)) hreturns⟩

/-- **Everything queued is written in the end**, for a connection that is open and of which no Message
has been given up, when `send` has written on own sockets only and every `recv` and every `send`
returns. -/
theorem writes_all (hh : 0 < h) (hpool : 0 < pool)
    (hown : RunOk Stream.step Stream.SendsOwn (Stream.init h k pool watchers handleSize junk) l)
    (hrun : run Stream.step (Stream.init h k pool watchers handleSize junk) l = some (state 0))
    (he : (Stream.progress h k).Execution state label)
    (hfair : ∀ t, (Stream.progress h k).FairTo (.thread t) state label)
    (hreturns : Returns (fun n => (state n).server) fun n => some (label n).1)
    (howns : ∀ n, (state n).SendsOwn (label n)) :
    ∃ n, ∀ m ≥ n, ∀ c, (state m).Live c → c ∉ (state m).abandoned →
      bytesOf (state m).written c = bytesOf (tagged (state m).queued) c := by
  have hstep : ∀ s (a : Action h k × List Byte) s', s.Sound pool ∧ s.Sending → s.SendsOwn a →
      Stream.step s a = some s' → s'.Sound pool ∧ s'.Sending := fun s a s' hi hok hstep =>
    ⟨hi.1.step (Stream.step_cases hstep), hi.2.step hi.1.nodup hok (Stream.step_cases hstep)⟩
  have hi : (state 0).Sound pool ∧ (state 0).Sending :=
    inv_runOk hstep ⟨.init .., .init ..⟩ hown hrun
  have hall : ∀ n, (state n).Sound pool ∧ (state n).Sending := he.inv hstep hi howns
  obtain ⟨n, hrest, hsame⟩ := Progress.fair_rests he ((Stream.drives h k).fair he hfair hreturns)
  refine ⟨n, fun m hm c hc hab => ?_⟩
  rw [hsame m hm] at hc hab ⊢
  obtain ⟨hsound, hsending⟩ := hall n
  have hresting := resting_of_atRest hh hpool hsound.objects (Stream.atRest_server hrest)
  have hunsent : (state n).unsent = [] := by
    unfold Stream.unsent Tcp.unsent
    rw [hresting.sender, hresting.sendList]
    rfl
  have hwhole := hsending.whole c hc hab
  rw [hunsent] at hwhole
  exact (List.append_nil _).symm.trans hwhole

/-- a reply of two bytes is written in two parts -/
theorem writes_all_two :
    ∃ state label, run Stream.step fresh (accept5 ++ [(.call 0 5 2, [65, 66])] ++
        plain [.caller 0, .caller 0, .caller 0]) = some (state 0) ∧
      (Stream.progress 1 1).Execution state label ∧
      (∀ t, (Stream.progress 1 1).FairTo (.thread t) state label) ∧
      (Returns (fun n => (state n).server) fun n => some (label n).1) ∧
      ∃ n, ∀ m ≥ n, ∀ c, (state m).Live c → c ∉ (state m).abandoned →
        bytesOf (state m).written c = bytesOf (tagged (state m).queued) c := by
  obtain ⟨s, hs, hown, t, ht, howns, hresting⟩ : ∃ s, run Stream.step fresh (accept5 ++
        [(.call 0 5 2, [65, 66])] ++ plain [.caller 0, .caller 0, .caller 0]) = some s ∧
      RunOk Stream.step Stream.SendsOwn fresh (accept5 ++
        [(.call 0 5 2, [65, 66])] ++ plain [.caller 0, .caller 0, .caller 0]) ∧
      ∃ t, run Stream.step s (plain [.sender, .send (.sent 1), .send (.sent 1), .sender, .sender,
          .sender, .sender]) = some t ∧
        RunOk Stream.step Stream.SendsOwn s (plain [.sender, .send (.sent 1), .send (.sent 1), .sender,
          .sender, .sender, .sender]) ∧ t.server.Resting := by
    decide
  obtain ⟨state, label, rfl, he, hfair, hall⟩ := Progress.follow (P := Stream.progress 1 1) ht
    (by simp [plain, Stream.progress, Action.Own]) howns (Stream.atRest_of_resting hresting)
    (show (Stream.progress 1 1).own (.handler 0, []) from trivial) (Stream.look hresting 0)
    (show t.SendsOwn (.handler 0, []) from trivial)
  have hreturns := (Stream.drives 1 1).returns he fun c => hfair (.call c)
  exact ⟨state, label, hs, he, fun t => hfair (.thread t), hreturns,
    writes_all Nat.one_pos (by decide) hown hs he (fun t => hfair (.thread t)) hreturns hall⟩

end

end VncProxy.Tcp
