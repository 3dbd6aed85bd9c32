import VncProxy.Proxy.Answer

/-!
# Who owns a task

`SendClient2VNC` takes a Message, a number of `mpVNCClient` and a session, and stores the task in the
session.  It does not look at the result of `InsertRequestTask`, and the numbers start again with every
`mpVNCClient`, while the sessions of the clients stay.

* `State.AllOrNothing`     what a call leaves behind, sent or not;
* `State.SeqFree`          the number to be given is not in the session of the client;
* `State.allOrNothing_iff`
* `State.OwnedOnce`        every task has one session that deletes it;
* `State.Owning`           what every run keeps of it;
* `step_owner_cases`       what a step does to the sessions and the tasks;
* `send_all_or_nothing_iff`.
-/

namespace VncProxy.Relay

variable {s s' : State}

/-! ## one call -/

/-- no session has the task -/
def State.CallerOwns (s : State) (task : Task) : Prop :=
  ∀ fd seq t, s.Stores fd seq t → t.addr ≠ task.addr

/-- one frame is queued, and its number stands for this task in the session, or for none -/
structure State.Sent (s s' : State) (v : VNCClient) (client : Client) (task : Task)
    (needReturn : Bool) : Prop where
  counter : s'.mpVNCClient = some { v with miPacketSendSeq := v.miPacketSendSeq + 1 }
  frame : ∃ m, s'.mClientTcpVNCServer.mSendImmediatelyMessageList
      = s.mClientTcpVNCServer.mSendImmediatelyMessageList ++ [m] ∧
    m.fd = v.fd ∧ m.data = (task.task.cmd v.miPacketSendSeq client.fd).frame
  idle : ∃ sm, s.mClientTcpVNCServer.mIdleMessageList = sm :: s'.mClientTcpVNCServer.mIdleMessageList
  stored : ∀ t, s'.Stores client.fd v.miPacketSendSeq t ↔ needReturn = true ∧ t = task
  others : ∀ fd seq t, ¬ (fd = client.fd ∧ seq = v.miPacketSendSeq) →
    (s'.Stores fd seq t ↔ s.Stores fd seq t)
  http : s'.mClientTcpServer = s.mClientTcpServer

def State.AllOrNothing (s : State) (client : Client) (task : Task) (needReturn : Bool) : Prop :=
  let r := s.SendClient2VNC client task needReturn
  if r.1 then ∃ v ∈ s.mpVNCClient, s.Sent r.2 v client task needReturn else r.2 = s

/-- if the call can succeed, the number it gives is not in the session of the client -/
def State.SeqFree (s : State) (client : Client) : Prop :=
  ∀ v ∈ s.mpVNCClient, v.isOnline = true → s.mClientTcpVNCServer.mIdleMessageList ≠ [] →
    ∀ t, ¬ s.Stores client.fd v.miPacketSendSeq t

theorem forward_frame {v : VNCClient} {client : Client} {task : Task} {needReturn : Bool}
    {sm : Message} (hfull : sm.Full) (idle : List Message) :
    ∃ m, (s.forward v client task needReturn sm idle).mClientTcpVNCServer.mSendImmediatelyMessageList
        = s.mClientTcpVNCServer.mSendImmediatelyMessageList ++ [m] ∧
      m.fd = v.fd ∧ m.data = (task.task.cmd v.miPacketSendSeq client.fd).frame :=
  ⟨_, rfl, rfl, SendClient2VNC_bytes task.task ⟨sm.buffer, hfull⟩ v.miPacketSendSeq client.fd⟩

theorem State.sent_forward {v : VNCClient} {client : Client} {task : Task} {needReturn : Bool}
    {sm : Message} {idle : List Message} (hfull : sm.Full)
    (hidle : s.mClientTcpVNCServer.mIdleMessageList = sm :: idle)
    (hfree : ∀ t, ¬ s.Stores client.fd v.miPacketSendSeq t) :
    s.Sent (s.forward v client task needReturn sm idle) v client task needReturn where
  counter := rfl
  frame := forward_frame hfull idle
  idle := ⟨sm, hidle⟩
  stored t := by
    rw [State.stores_forward, or_iff_right (hfree t)]
    exact ⟨fun h => ⟨h.1, h.2.2.2.2⟩, fun h => ⟨h.1, hfree, rfl, rfl, h.2⟩⟩
  others fd seq t hne := by
    rw [State.stores_forward, or_iff_left]
    exact fun h => hne ⟨h.2.2.1, h.2.2.2.1⟩
  http := rfl

/-- **A call is all or nothing just when the number it gives is free.** -/
theorem State.allOrNothing_iff (hfull : ∀ m ∈ s.mClientTcpVNCServer.mIdleMessageList, m.Full)
    (client : Client) {task : Task} (hown : s.CallerOwns task) (needReturn : Bool) :
    s.AllOrNothing client task needReturn ↔ s.SeqFree client := by
  unfold State.AllOrNothing
  rcases s.SendClient2VNC_cases client task needReturn with
    ⟨he, hnone⟩ | ⟨v, sm, idle, hv, hon, hidle, he⟩
  · rw [he]
    exact iff_of_true rfl fun v hv hon hne => absurd (hnone v hv hon) hne
  · rw [he]
    have hsm : sm.Full := hfull sm (hidle ▸ List.mem_cons_self)
    show (∃ v' ∈ s.mpVNCClient, s.Sent _ v' client task needReturn) ↔ _
    constructor
    · rintro ⟨v', hv', hsent⟩ w hw _ _ t ht
      obtain rfl := Option.some.inj (hv'.symm.trans hw)
      obtain rfl := Option.some.inj (hv.symm.trans hw)
      -- an old task under the number is still there, and it is not the one of the caller
      obtain ⟨_, rfl⟩ := (hsent.stored t).mp (State.stores_forward.mpr (.inl ht))
      exact hown _ _ t ht rfl
    · intro hfree
      refine ⟨v, hv, State.sent_forward hsm hidle (hfree v hv hon ?_)⟩
      rw [hidle]
      exact List.cons_ne_nil sm idle

/-! ## all tasks -/

def State.OwnedOnce (s : State) : Prop :=
  (∀ fd seq t, s.Stores fd seq t → t.addr ∈ s.live) ∧
    ∀ a ∈ s.live, ∃! p : CInt × CInt, ∃ t, s.Stores p.1 p.2 t ∧ t.addr = a

def State.NoLeak (s : State) : Prop := ∀ a ∈ s.live, ∃ fd seq t, s.Stores fd seq t ∧ t.addr = a

structure State.Owning (s : State) : Prop where
  fresh : ∀ a ∈ s.live, a < s.tasks
  live : ∀ fd seq t, s.Stores fd seq t → t.addr ∈ s.live
  once : ∀ {fd seq t fd' seq' t'}, s.Stores fd seq t → s.Stores fd' seq' t' → t.addr = t'.addr →
    fd = fd' ∧ seq = seq'
  full : ∀ m ∈ s.mClientTcpVNCServer.mIdleMessageList, m.Full

theorem State.Owning.ownedOnce_iff (hs : s.Owning) : s.OwnedOnce ↔ s.NoLeak := by
  constructor
  · intro h a ha
    obtain ⟨p, ⟨t, ht⟩, _⟩ := h.2 a ha
    exact ⟨p.1, p.2, t, ht⟩
  · intro h
    refine ⟨hs.live, fun a ha => ?_⟩
    obtain ⟨fd, seq, t, ht, hat⟩ := h a ha
    refine ⟨(fd, seq), ⟨t, ht, hat⟩, ?_⟩
    rintro ⟨fd', seq'⟩ ⟨t', ht', hat'⟩
    obtain ⟨rfl, rfl⟩ := hs.once ht' ht (hat'.trans hat.symm)
    rfl

/-- a chunk is only stored under a number that is free -/
def State.Insertable (s : State) : Action → Prop
  | .recv fd _ => ∀ client ∈ s.mClientMap fd, s.SeqFree client
  | _ => True

/-! ## what a step does to the sessions and the tasks -/

/-- nothing -/
structure Same (s s' : State) : Prop where
  stores : ∀ fd seq t, s'.Stores fd seq t ↔ s.Stores fd seq t
  live : s'.live = s.live
  tasks : s.tasks ≤ s'.tasks

structure Closed (s s' : State) (fd₀ : CInt) : Prop where
  stores : ∀ fd seq t, s'.Stores fd seq t ↔ s.Stores fd seq t ∧ fd ≠ fd₀
  live : ∀ a, a ∈ s'.live ↔ a ∈ s.live ∧ ∀ seq t, s.Stores fd₀ seq t → t.addr ≠ a
  tasks : s'.tasks = s.tasks

/-- a new task is queued, and stored if its number is free -/
structure Queued (s s' : State) (fd₀ seq₀ : CInt) (task : Task) : Prop where
  stores : ∀ fd seq t, s'.Stores fd seq t ↔ s.Stores fd seq t ∨
    (∀ t', ¬ s.Stores fd₀ seq₀ t') ∧ fd = fd₀ ∧ seq = seq₀ ∧ t = task
  live : s'.live = s.live ++ [s.tasks]
  tasks : s'.tasks = s.tasks + 1
  addr : task.addr = s.tasks

theorem State.deleteTask_new {live : List Nat} {n : Nat} (hfresh : ∀ a ∈ live, a < n) :
    (live ++ [n]).filter (· != n) = live := by
  rw [List.filter_append, List.filter_eq_self.mpr, List.filter_cons_of_neg (by simp), List.filter_nil,
    List.append_nil]
  intro a ha
  have := hfresh a ha
  simp only [bne_iff_ne, ne_eq]
  omega

theorem State.same_disconnect {fd : CInt} (hfresh : ∀ a ∈ s.live, a < s.tasks)
    (h : s.OnDisconnect fd = some s') : Same s s' := by
  obtain ⟨client, _, rfl⟩ := State.OnDisconnect_eq h
  -- the task is not stored, and it is deleted in any case
  have hlive := State.deleteTask_new hfresh
  rcases State.SendClient2VNC_cases ((s.setOffline fd client).newTask .ProxyClientDisconnectTask).2
      { client with isOnline := false } ⟨s.tasks, .ProxyClientDisconnectTask⟩ false with
    ⟨he, _⟩ | ⟨v, sm, idle, _, _, _, he⟩
  · rw [he]
    exact ⟨fun _ _ _ => Iff.rfl, hlive, Nat.le_succ _⟩
  · rw [he]
    refine ⟨fun fd' seq t => ?_, hlive, Nat.le_succ _⟩
    show (State.forward _ v _ _ false sm idle).Stores fd' seq t ↔ _
    rw [State.stores_forward, or_iff_left (fun h => nomatch h.1)]
    rfl

theorem State.closed_or_same (s : State) (fd : CInt) :
    Same s (s.OnClose fd) ∨ ∃ fd₀, Closed s (s.OnClose fd) fd₀ := by
  unfold State.OnClose
  split
  · next client _ =>
    unfold State.CloseSessionByClient
    split
    · next session hss =>
      have hstores : ∀ seq t, s.Stores client.fd seq t ↔ (seq, t) ∈ session.mRequestTaskMap := by
        intro seq t
        unfold State.Stores
        rw [hss]
        simp
      refine .inr ⟨client.fd, fun fd' seq t => ?_, fun a => ?_, rfl⟩
      · unfold State.Stores
        show (∃ ss, Function.update s.mClient2SessionMap client.fd none fd' = some ss ∧ _) ↔ _
        by_cases hfd : fd' = client.fd
        · rw [hfd, Function.update_self]
          simp
        · rw [Function.update_of_ne hfd]
          exact (and_iff_left hfd).symm
      · show a ∈ s.live.filter _ ↔ _
        rw [List.mem_filter]
        refine and_congr_right fun _ => ?_
        simp only [Bool.not_eq_true', List.contains_eq_mem, decide_eq_false_iff_not, List.mem_map,
          not_exists, not_and, hstores, Prod.forall]
    · exact .inl ⟨fun _ _ _ => Iff.rfl, rfl, Nat.le_refl _⟩
  · exact .inl ⟨fun _ _ _ => Iff.rfl, rfl, Nat.le_refl _⟩

theorem State.queued_or_same (hfresh : ∀ a ∈ s.live, a < s.tasks) (fd : CInt) (data : Chunk) :
    Same s (s.HandleRecvMessage fd data) ∧ s.Insertable (.recv fd data) ∨
      ∃ fd₀ seq₀ task, Queued s (s.HandleRecvMessage fd data) fd₀ seq₀ task ∧
        (s.Insertable (.recv fd data) ↔ ∀ t, ¬ s.Stores fd₀ seq₀ t) := by
  rcases s.HandleRecvMessage_cases fd data with ⟨he, hnone⟩ | ⟨client, hc, sent, s₁, hsend, he⟩
  · rw [he]
    refine .inl ⟨⟨fun _ _ _ => Iff.rfl, rfl, Nat.le_refl _⟩, fun client hc => ?_⟩
    rw [hnone] at hc
    cases hc
  · have hins : s.Insertable (.recv fd data) ↔ s.SeqFree client := by
      constructor
      · exact fun h => h client hc
      · intro h client' hc'
        obtain rfl := Option.some.inj (hc.symm.trans hc')
        exact h
    rw [hins, he]
    rcases State.SendClient2VNC_cases (s.newTask (.ProxyClientTask data)).2 client
        ⟨s.tasks, .ProxyClientTask data⟩ true with ⟨hf, hnone⟩ | ⟨v, sm, idle, hv, hon, hidle, hf⟩
    · obtain ⟨rfl, rfl⟩ := Prod.mk.inj (hsend.symm.trans hf)
      exact .inl ⟨⟨fun _ _ _ => Iff.rfl, State.deleteTask_new hfresh, Nat.le_succ _⟩,
        fun v hv hon hne => absurd (hnone v hv hon) hne⟩
    · obtain ⟨rfl, rfl⟩ := Prod.mk.inj (hsend.symm.trans hf)
      refine .inr ⟨client.fd, v.miPacketSendSeq, ⟨s.tasks, .ProxyClientTask data⟩,
        ⟨fun fd' seq t => ?_, rfl, rfl, rfl⟩, ?_⟩
      · show (State.forward _ v client _ true sm idle).Stores fd' seq t ↔ _
        rw [State.stores_forward, and_iff_right rfl]
        rfl
      · constructor
        · refine fun h => h v hv hon ?_
          rw [show s.mClientTcpVNCServer.mIdleMessageList = sm :: idle from hidle]
          exact List.cons_ne_nil sm idle
        · intro h v' hv' _ _
          obtain rfl := Option.some.inj (hv'.symm.trans hv)
          exact h

/-- **What a step does to the sessions and the tasks**: nothing, or it deletes a session, or it queues a
new task. -/
theorem step_owner_cases {a : Action} (hfresh : ∀ a ∈ s.live, a < s.tasks) (h : s.step a = some s') :
    Same s s' ∧ s.Insertable a ∨ (∃ fd₀, Closed s s' fd₀) ∧ s.Insertable a ∨
      ∃ fd₀ seq₀ task, Queued s s' fd₀ seq₀ task ∧
        (s.Insertable a ↔ ∀ t, ¬ s.Stores fd₀ seq₀ t) := by
  have hsame : Same s s := ⟨fun _ _ _ => Iff.rfl, rfl, Nat.le_refl _⟩
  cases a with
  | disconnect fd => exact .inl ⟨State.same_disconnect hfresh h, trivial⟩
  | close fd =>
    obtain rfl := Option.some.inj h
    rcases s.closed_or_same fd with hs | hc
    · exact .inl ⟨hs, trivial⟩
    · exact .inr (.inl ⟨hc, trivial⟩)
  | recv fd data =>
    obtain rfl := Option.some.inj h
    exact (State.queued_or_same hfresh fd data).imp_right .inr
  | accept fd =>
    obtain rfl := Option.some.inj h
    exact .inl ⟨⟨fun _ _ _ => Iff.rfl, rfl, Nat.le_refl _⟩, trivial⟩
  | vncAccept fd =>
    obtain rfl := Option.some.inj h
    refine .inl ⟨?_, trivial⟩
    unfold State.vncAccept
    split
    · exact ⟨fun _ _ _ => Iff.rfl, rfl, Nat.le_refl _⟩
    · exact hsame
  | vncDisconnect fd | vncClose fd =>
    obtain rfl := Option.some.inj h
    exact .inl ⟨⟨fun _ _ _ => Iff.rfl, rfl, Nat.le_refl _⟩, trivial⟩
  | parseCmd cmd =>
    refine .inl ⟨?_, trivial⟩
    change (if _ then _ else _) = some s' at h
    split at h
    · obtain rfl := Option.some.inj h
      rcases s.OnParseCmd_cases cmd with ⟨he, _⟩ | ⟨session, task, _, _, _, he⟩
      · rw [he]
        exact hsame
      · rw [he]
        unfold State.reply
        split <;> exact ⟨fun _ _ _ => Iff.rfl, rfl, Nat.le_refl _⟩
    · cases h
  | servers http vnc =>
    refine .inl ⟨?_, trivial⟩
    change (if _ then _ else _) = some s' at h
    split at h
    · obtain rfl := Option.some.inj h
      exact ⟨fun _ _ _ => Iff.rfl, rfl, Nat.le_refl _⟩
    · cases h

/-! ## the runs -/

theorem State.Owning.init (http : Server) {vnc : Server} (hfull : vnc.Full) :
    (State.init http vnc).Owning where
  fresh := nofun
  live := fun _ _ _ ⟨_, hss, _⟩ => nomatch hss
  once := fun ⟨_, hss, _⟩ => nomatch hss
  full := hfull.idle

theorem State.Owning.step {a : Action} (hs : s.Owning) (h : s.step a = some s') : s'.Owning := by
  have hfull : ∀ m ∈ s'.mClientTcpVNCServer.mIdleMessageList, m.Full :=
    (step_effect h).vnc.elim (fun hm m h => hs.full m (hm m h)) Server.Full.idle
  rcases step_owner_cases hs.fresh h with ⟨hc, _⟩ | ⟨⟨fd₀, hc⟩, _⟩ | ⟨fd₀, seq₀, task, hc, _⟩
  · refine ⟨fun a ha => ?_, fun fd seq t ht => ?_, fun h1 h2 => ?_, hfull⟩
    · rw [hc.live] at ha
      exact Nat.lt_of_lt_of_le (hs.fresh a ha) hc.tasks
    · rw [hc.live]
      exact hs.live fd seq t ((hc.stores fd seq t).mp ht)
    · exact hs.once ((hc.stores ..).mp h1) ((hc.stores ..).mp h2)
  · refine ⟨fun a ha => ?_, fun fd seq t ht => ?_, fun h1 h2 => ?_, hfull⟩
    · rw [hc.tasks]
      exact hs.fresh a ((hc.live a).mp ha).1
    · obtain ⟨ht, hfd⟩ := (hc.stores fd seq t).mp ht
      -- a task of the deleted session would be in two sessions
      exact (hc.live _).mpr ⟨hs.live fd seq t ht, fun seq' t' ht' he => hfd (hs.once ht ht' he.symm).1⟩
    · exact hs.once ((hc.stores ..).mp h1).1 ((hc.stores ..).mp h2).1
  · have hnew : ∀ fd seq t, s.Stores fd seq t → t.addr ≠ task.addr := by
      intro fd seq t ht
      have := hs.fresh t.addr (hs.live fd seq t ht)
      rw [hc.addr]
      omega
    refine ⟨fun a ha => ?_, fun fd seq t ht => ?_, fun h1 h2 he => ?_, hfull⟩
    · rw [hc.live, List.mem_append, List.mem_singleton] at ha
      rw [hc.tasks]
      rcases ha with ha | rfl
      · exact Nat.lt_succ_of_lt (hs.fresh a ha)
      · exact Nat.lt_succ_self _
    · rw [hc.live, List.mem_append, List.mem_singleton, ← hc.addr]
      rcases (hc.stores fd seq t).mp ht with ht | ⟨_, _, _, rfl⟩
      · exact .inl (hs.live fd seq t ht)
      · exact .inr rfl
    · rcases (hc.stores ..).mp h1 with h1 | ⟨_, rfl, rfl, rfl⟩ <;>
        rcases (hc.stores ..).mp h2 with h2 | ⟨_, rfl, rfl, rfl⟩
      · exact hs.once h1 h2 he
      · exact absurd he (hnew _ _ _ h1)
      · exact absurd he.symm (hnew _ _ _ h2)
      · exact ⟨rfl, rfl⟩

/-- **A task is lost just when a chunk is queued under a number that is not free**, and it stays lost. -/
theorem State.Owning.noLeak_step {a : Action} (hs : s.Owning) (h : s.step a = some s') :
    s'.NoLeak ↔ s.NoLeak ∧ s.Insertable a := by
  rcases step_owner_cases hs.fresh h with ⟨hc, hins⟩ | ⟨⟨fd₀, hc⟩, hins⟩ | ⟨fd₀, seq₀, task, hc, hins⟩
  · rw [and_iff_left hins]
    unfold State.NoLeak
    simp only [hc.live, hc.stores]
  · rw [and_iff_left hins]
    constructor
    · intro hno a ha
      by_cases hin : ∀ seq t, s.Stores fd₀ seq t → t.addr ≠ a
      · obtain ⟨fd, seq, t, ht, hat⟩ := hno a ((hc.live a).mpr ⟨ha, hin⟩)
        exact ⟨fd, seq, t, ((hc.stores ..).mp ht).1, hat⟩
      · push Not at hin
        exact ⟨fd₀, hin⟩
    · intro hno a ha
      obtain ⟨ha, hin⟩ := (hc.live a).mp ha
      obtain ⟨fd, seq, t, ht, hat⟩ := hno a ha
      refine ⟨fd, seq, t, (hc.stores ..).mpr ⟨ht, ?_⟩, hat⟩
      rintro rfl
      exact hin seq t ht hat
  · rw [hins]
    have hlive : ∀ a, a ∈ s'.live ↔ a ∈ s.live ∨ a = s.tasks := by
      intro a
      rw [hc.live, List.mem_append, List.mem_singleton]
    constructor
    · intro hno
      constructor
      · intro a ha
        obtain ⟨fd, seq, t, ht, rfl⟩ := hno a ((hlive a).mpr (.inl ha))
        rcases (hc.stores ..).mp ht with ht | ⟨_, _, _, rfl⟩
        · exact ⟨fd, seq, t, ht, rfl⟩
        · exact absurd (hs.fresh _ ha) (by rw [hc.addr]; exact Nat.lt_irrefl _)
      · obtain ⟨fd, seq, t, ht, hat⟩ := hno s.tasks ((hlive _).mpr (.inr rfl))
        rcases (hc.stores ..).mp ht with ht | ⟨hfree, _⟩
        · have := hs.fresh t.addr (hs.live fd seq t ht)
          omega
        · exact hfree
    · rintro ⟨hno, hfree⟩ a ha
      rcases (hlive a).mp ha with ha | rfl
      · obtain ⟨fd, seq, t, ht, hat⟩ := hno a ha
        exact ⟨fd, seq, t, (hc.stores ..).mpr (.inl ht), hat⟩
      · exact ⟨fd₀, seq₀, task, (hc.stores ..).mpr (.inr ⟨hfree, rfl, rfl, rfl⟩), hc.addr⟩

/-- **In every state of a run, a call of `SendClient2VNC` is all or nothing just when the number that it
gives is not in the session of the client; and every task has one owner just when no chunk was queued
under a number that was.** -/
theorem send_all_or_nothing_iff (http vnc : Server) (hfull : vnc.Full) (l : List Action) (s : State)
    (hrun : run State.step (State.init http vnc) l = some s) :
    (∀ (client : Client) (task : Task) (needReturn : Bool), s.CallerOwns task →
        (s.AllOrNothing client task needReturn ↔ s.SeqFree client)) ∧
      (s.OwnedOnce ↔ RunOk State.step State.Insertable (State.init http vnc) l) := by
  have hinit := State.Owning.init http hfull
  have hs : s.Owning := inv_run (fun _ _ _ => State.Owning.step) hinit hrun
  refine ⟨fun client task needReturn hown => State.allOrNothing_iff hs.full client hown needReturn, ?_⟩
  have hno : (State.init http vnc).NoLeak := nofun
  rw [hs.ownedOnce_iff, runOk_iff (fun _ _ _ => State.Owning.step)
    (fun _ _ _ => State.Owning.noLeak_step) hinit hrun, and_iff_right hno]

theorem State.stores_one {s : State} {fd₀ seq₀ : CInt} {client : Client} {task : Task}
    (h : s.mClient2SessionMap = Function.update (fun _ => none) fd₀ (some ⟨client, [(seq₀, task)]⟩))
    (fd seq : CInt) (t : Task) : s.Stores fd seq t ↔ fd = fd₀ ∧ seq = seq₀ ∧ t = task := by
  unfold State.Stores
  rw [h]
  by_cases hfd : fd = fd₀
  · rw [hfd, Function.update_self]
    simp
  · rw [Function.update_of_ne hfd]
    simp [hfd]

/-- one client has sent one chunk -/
theorem send_all_or_nothing_one :
    ∃ (http vnc : Server) (l : List Action) (s : State) (client : Client), vnc.Full ∧
      run State.step (State.init http vnc) l = some s ∧ s.live = [0] ∧ s.OwnedOnce ∧
      ∀ task needReturn, s.CallerOwns task → s.AllOrNothing client task needReturn := by
  let m : Message := ⟨0, 0, 0, 0, List.replicate MAX_LOG_BUFFER_LEN 0⟩
  let vnc : Server := ⟨[m, m], [], fun _ => 0⟩
  let chunk : Chunk := ⟨[71], by decide, by decide⟩
  have hfull : vnc.Full := by
    have hm : m.Full := List.length_replicate
    exact ⟨by simp [vnc, hm], nofun⟩
  have hrun : ∃ s, run State.step (State.init ⟨[], [], fun _ => 0⟩ vnc)
      [.accept 5, .vncAccept 7, .recv 5 chunk] = some s ∧ s.live = [0] ∧
      s.mpVNCClient = some ⟨7, true, 1⟩ ∧
      s.mClient2SessionMap = Function.update (fun _ => none) 5
        (some ⟨⟨5, 0, true⟩, [(0, ⟨0, .ProxyClientTask chunk⟩)]⟩) :=
    ⟨_, rfl, rfl, rfl, rfl⟩
  obtain ⟨s, hs, hlive, hv, hmap⟩ := hrun
  obtain ⟨hcall, hrunok⟩ := send_all_or_nothing_iff _ vnc hfull _ s hs
  refine ⟨_, vnc, _, s, ⟨5, 0, true⟩, hfull, hs, hlive, hrunok.mpr ?_, fun task needReturn hown =>
    (hcall _ task needReturn hown).mpr ?_⟩
  · -- the only chunk finds no session
    refine ⟨trivial, fun s₁ h₁ => ⟨trivial, fun s₂ h₂ => ⟨?_, fun _ _ => trivial⟩⟩⟩
    obtain rfl := Option.some.inj h₁
    obtain rfl := Option.some.inj h₂
    exact fun _ _ _ _ _ _ _ ⟨_, hss, _⟩ => nomatch hss
  · intro v hv' _ _ t ht
    obtain rfl := Option.some.inj (hv.symm.trans hv')
    exact absurd ((State.stores_one hmap ..).mp ht).2.1 (by decide)

/-- the VNC link is lost and made again: the first number is given a second time -/
theorem not_send_all_or_nothing :
    ¬ ∀ (http vnc : Server), vnc.Full → ∀ (l : List Action) (s : State),
      run State.step (State.init http vnc) l = some s →
        ∀ client task needReturn, s.CallerOwns task → s.AllOrNothing client task needReturn := by
  intro hall
  let m : Message := ⟨0, 0, 0, 0, List.replicate MAX_LOG_BUFFER_LEN 0⟩
  let vnc : Server := ⟨[m, m], [], fun _ => 0⟩
  let chunk : Chunk := ⟨[71], by decide, by decide⟩
  have hm : m.Full := List.length_replicate
  have hfull : vnc.Full := ⟨by simp [vnc, hm], nofun⟩
  have hrun : ∃ s, run State.step (State.init ⟨[], [], fun _ => 0⟩ vnc)
      [.accept 5, .vncAccept 7, .recv 5 chunk, .vncDisconnect 7, .vncClose 7, .vncAccept 8] = some s ∧
      s.mClientTcpVNCServer.mIdleMessageList = [m] ∧ s.mpVNCClient = some ⟨8, true, 0⟩ ∧
      s.mClient2SessionMap = Function.update (fun _ => none) 5
        (some ⟨⟨5, 0, true⟩, [(0, ⟨0, .ProxyClientTask chunk⟩)]⟩) :=
    ⟨_, rfl, rfl, rfl, rfl⟩
  obtain ⟨s, hs, hidle, hv, hmap⟩ := hrun
  have hown : s.CallerOwns ⟨1, .ProxyClientTask chunk⟩ := by
    intro fd seq t ht
    rw [((State.stores_one hmap ..).mp ht).2.2]
    decide
  have hall := hall _ vnc hfull _ s hs ⟨5, 0, true⟩ _ true hown
  rw [State.allOrNothing_iff (by rw [hidle]; simpa using hm) _ hown] at hall
  refine hall _ hv rfl ?_ _ ((State.stores_one hmap ..).mpr ⟨rfl, rfl, rfl⟩)
  rw [hidle]
  exact List.cons_ne_nil m []

end VncProxy.Relay
