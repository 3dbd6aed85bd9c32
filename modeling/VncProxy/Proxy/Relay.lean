import Mathlib.Logic.Function.Basic
import VncProxy.Lib.Run
import VncProxy.Wire.SendCommand

/-!
# What `TcpProxyServer` passes on

The sessions with their tasks, the Messages of the two servers with their contents, and
`mpVNCClient`.  A call of a callback is one step; what the threads of the two servers do with their
lists in between is a step of its own.

* `ITask.GetReturnData`       the answer of a task, written over a Message buffer;
* `Session`, `Server`, `State`  the data;
* `State.SendClient2VNC`, `State.ReturnVNC2Client`, `State.OnParseCmd`;
* `State.step`                one step of the system;
* `step_effect`               what it does to the sessions, the idle Messages and the answers.

Tasks are numbered in the order of their allocation; `live` are those not deleted yet.  `arrived` is a
ghost: the commands for a known session and seq, each with the Message that was taken and the one that
was queued.
-/

namespace VncProxy

/-- `GetReturnData(cmd, buffer, len)`: the result, and `buffer` and `len` behind the call -/
def ITask.GetReturnData (t : ITask) (cmd : CMD) (buffer : List Byte) (len : Nat) :
    Bool × List Byte × Nat :=
  match t with
  | .ProxyClientTask _ =>
    if 0 < cmd.header.len.toInt then
      let len := cmd.header.len.toInt.toNat
      (false, memcpy buffer 0 (cmd.param.take len), len)
    else (false, buffer, len)
  | .ProxyClientDisconnectTask => (true, buffer, len)

namespace Relay

/-! ## the data -/

/-- a `Message` of one of the two servers; `addr` stands for the pointer -/
structure Message where
  addr : Nat
  fd : CInt
  len : Nat
  seq : Nat
  buffer : List Byte
deriving DecidableEq

def Message.data (m : Message) : List Byte := m.buffer.take m.len

def Message.Full (m : Message) : Prop := m.buffer.length = MAX_LOG_BUFFER_LEN

instance (m : Message) : Decidable m.Full := inferInstanceAs (Decidable (_ = _))

structure Server where
  mIdleMessageList : List Message
  mSendImmediatelyMessageList : List Message
  mpPacketSeqSend : CInt → Nat

def Server.SendMessageByQueue (s : Server) (m : Message) : Server :=
  { s with
    mpPacketSeqSend := Function.update s.mpPacketSeqSend m.fd (s.mpPacketSeqSend m.fd + 1)
    mSendImmediatelyMessageList :=
      s.mSendImmediatelyMessageList ++ [{ m with seq := s.mpPacketSeqSend m.fd }] }

/-- `PopFront` of the idle list -/
def Server.pop (s : Server) (idle : List Message) : Server := { s with mIdleMessageList := idle }

/-- an object behind an `ITask*`; `addr` stands for the pointer -/
structure Task where
  addr : Nat
  task : ITask
deriving DecidableEq

/-- `conn` numbers the connections -/
structure Client where
  fd : CInt
  conn : Nat
  isOnline : Bool
deriving DecidableEq

structure Session where
  client : Client
  mRequestTaskMap : List (CInt × Task)
deriving DecidableEq

def Session.FindRequestTask (s : Session) (seq : CInt) : Option Task :=
  (s.mRequestTaskMap.find? (·.1 == seq)).map Prod.snd

def Session.InsertRequestTask (s : Session) (seq : CInt) (task : Task) : Bool × Session :=
  match s.FindRequestTask seq with
  | none => (true, { s with mRequestTaskMap := s.mRequestTaskMap ++ [(seq, task)] })
  | some _ => (false, s)

/-- the `Client` behind `mpVNCClient` -/
structure VNCClient where
  fd : CInt
  isOnline : Bool
  miPacketSendSeq : CInt
deriving DecidableEq

/-- a command for a known session and seq: the connection it is for, the first Message of the idle list
and the Message that was queued -/
structure Arrival where
  conn : Nat
  cmd : CMD
  idle : Option Message
  queued : Option Message

structure State where
  mClientMap : CInt → Option Client
  mClient2SessionMap : CInt → Option Session
  mpVNCClient : Option VNCClient
  mClientTcpServer : Server
  mClientTcpVNCServer : Server
  conns : Nat
  tasks : Nat
  live : List Nat
  arrived : List Arrival

def State.init (http vnc : Server) : State where
  mClientMap := fun _ => none
  mClient2SessionMap := fun _ => none
  mpVNCClient := none
  mClientTcpServer := http
  mClientTcpVNCServer := vnc
  conns := 0
  tasks := 0
  live := []
  arrived := []

/-! ## `SendClient2VNC` and `ReturnVNC2Client` -/

/-- the Message that `ReturnVNC2Client` queues for the client, written over `sm` -/
def Session.answer (session : Session) (task : Task) (cmd : CMD) (sm : Message) : Message :=
  let r := task.task.GetReturnData cmd sm.buffer sm.len
  { sm with fd := session.client.fd, buffer := r.2.1, len := r.2.2 }

namespace State

/-- the session of the client, which is made if there is none -/
def session (s : State) (client : Client) : Session :=
  (s.mClient2SessionMap client.fd).getD ⟨client, []⟩

/-- the part of `SendClient2VNC` behind `PopFront`; the result of `InsertRequestTask` is not looked at -/
def forward (s : State) (v : VNCClient) (client : Client) (task : Task) (needReturn : Bool)
    (sm : Message) (idle : List Message) : State :=
  let seq := v.miPacketSendSeq
  let session := s.session client
  let session := if needReturn then (session.InsertRequestTask seq task).2 else session
  let buffer := task.task.GetSendCmd sm.buffer seq client.fd
  let sm := { sm with
    buffer := buffer
    fd := v.fd
    len := sizeofCMDH + (CMDH.read buffer).len.toNat }
  { s with
    mpVNCClient := some { v with miPacketSendSeq := seq + 1 }
    mClient2SessionMap := Function.update s.mClient2SessionMap client.fd (some session)
    mClientTcpVNCServer := (s.mClientTcpVNCServer.pop idle).SendMessageByQueue sm }

def SendClient2VNC (s : State) (client : Client) (task : Task) (needReturn : Bool) : Bool × State :=
  match s.mpVNCClient with
  | none => (false, s)
  | some v =>
    if v.isOnline then
      match s.mClientTcpVNCServer.mIdleMessageList with
      | [] => (false, s)
      | sm :: idle => (true, s.forward v client task needReturn sm idle)
    else (false, s)

/-- the part of `ReturnVNC2Client` behind `FindRequestTask` -/
def reply (s : State) (session : Session) (task : Task) (cmd : CMD) : Bool × State :=
  match s.mClientTcpServer.mIdleMessageList with
  | [] =>
    (false, { s with arrived := s.arrived ++ [⟨session.client.conn, cmd, none, none⟩] })
  | sm :: idle =>
    let m := session.answer task cmd sm
    (true, { s with
      mClientTcpServer := (s.mClientTcpServer.pop idle).SendMessageByQueue m
      arrived := s.arrived ++ [⟨session.client.conn, cmd, some sm, some m⟩] })

def ReturnVNC2Client (s : State) (cmd : CMD) : Bool × State :=
  match s.mClient2SessionMap cmd.header.fd with
  | some session =>
    match session.FindRequestTask cmd.header.seq with
    | some task => s.reply session task cmd
    | none => (false, s)
  | none => (false, s)

/-- `OnParseCmd(mpVNCClient, cmd)`; `Disconnect` shuts a socket down, which is not seen here -/
def OnParseCmd (s : State) (cmd : CMD) : State :=
  match cmd.header.cmdt with
  | .CommandTypeProxyDisconnect => s
  | .CommandTypeNone | .CommandTypeProxy | .other .. => (s.ReturnVNC2Client cmd).2

/-! ## the callbacks -/

def newTask (s : State) (task : ITask) : Task × State :=
  (⟨s.tasks, task⟩, { s with tasks := s.tasks + 1, live := s.live ++ [s.tasks] })

def deleteTask (s : State) (task : Task) : State := { s with live := s.live.filter (· != task.addr) }

def OnAccept (s : State) (fd : CInt) : State :=
  { s with
    mClientMap := match s.mClientMap fd with
      | none => Function.update s.mClientMap fd (some ⟨fd, s.conns, true⟩)
      | some _ => s.mClientMap
    conns := s.conns + 1 }

def setOffline (s : State) (fd : CInt) (client : Client) : State :=
  { s with mClientMap := Function.update s.mClientMap fd (some { client with isOnline := false }) }

def OnDisconnect (s : State) (fd : CInt) : Option State :=
  (s.mClientMap fd).map fun client =>
    let (task, s) := (s.setOffline fd client).newTask .ProxyClientDisconnectTask
    let (_, s) := s.SendClient2VNC { client with isOnline := false } task false
    s.deleteTask task

def CloseSessionByClient (s : State) (client : Client) : State :=
  match s.mClient2SessionMap client.fd with
  | some session =>
    { s with
      live := s.live.filter fun a => !(session.mRequestTaskMap.map fun e => e.2.addr).contains a
      mClient2SessionMap := Function.update s.mClient2SessionMap client.fd none }
  | none => s

def OnClose (s : State) (fd : CInt) : State :=
  match s.mClientMap fd with
  | some client =>
    { s.CloseSessionByClient client with mClientMap := Function.update s.mClientMap fd none }
  | none => s

/-- `HandleRecvMessage(m)`; where it fails the socket is shut down -/
def HandleRecvMessage (s : State) (fd : CInt) (data : Chunk) : State :=
  match s.mClientMap fd with
  | some client =>
    let (task, s) := s.newTask (.ProxyClientTask data)
    let (sent, s) := s.SendClient2VNC client task true
    if sent then s else s.deleteTask task
  | none => s

def vncAccept (s : State) (fd : CInt) : State :=
  match s.mpVNCClient with
  | none => { s with mpVNCClient := some ⟨fd, true, 0⟩ }
  | some _ => s

def vncDisconnect (s : State) (fd : CInt) : State :=
  { s with
    mpVNCClient := s.mpVNCClient.map fun v => if v.fd = fd then { v with isOnline := false } else v }

def vncClose (s : State) (fd : CInt) : State :=
  { s with mpVNCClient := s.mpVNCClient.filter fun v => v.fd ≠ fd }

end State

inductive Action where
  | accept (fd : CInt)
  | disconnect (fd : CInt)
  | close (fd : CInt)
  | recv (fd : CInt) (data : Chunk)
  | vncAccept (fd : CInt)
  | vncDisconnect (fd : CInt)
  | vncClose (fd : CInt)
  | parseCmd (cmd : CMD)
  /-- the threads of the servers take Messages out of their lists and give Messages back -/
  | servers (http vnc : Server)

instance (c : CMD) : Decidable c.Sendable :=
  decidable_of_iff (c.header.len.toInt = c.param.length ∧ c.param.length < MAX_PARAM_LEN)
    ⟨fun h => ⟨h.1, h.2⟩, fun h => ⟨h.1, h.2⟩⟩

structure Server.Full (s : Server) : Prop where
  idle : ∀ m ∈ s.mIdleMessageList, m.Full
  send : ∀ m ∈ s.mSendImmediatelyMessageList, m.Full

instance (s : Server) : Decidable s.Full :=
  decidable_of_iff ((∀ m ∈ s.mIdleMessageList, m.Full) ∧ ∀ m ∈ s.mSendImmediatelyMessageList, m.Full)
    ⟨fun h => ⟨h.1, h.2⟩, fun h => ⟨h.1, h.2⟩⟩

def State.step (s : State) : Action → Option State
  | .accept fd => some (s.OnAccept fd)
  | .disconnect fd => s.OnDisconnect fd
  | .close fd => some (s.OnClose fd)
  | .recv fd data => some (s.HandleRecvMessage fd data)
  | .vncAccept fd => some (s.vncAccept fd)
  | .vncDisconnect fd => some (s.vncDisconnect fd)
  | .vncClose fd => some (s.vncClose fd)
  | .parseCmd cmd =>
    if s.mpVNCClient.isSome ∧ cmd.Sendable then some (s.OnParseCmd cmd) else none
  | .servers http vnc =>
    if http.Full ∧ vnc.Full then
      some { s with mClientTcpServer := http, mClientTcpVNCServer := vnc }
    else none

/-! ## what the functions do -/

section
variable {s s' : State}

theorem State.SendClient2VNC_cases (s : State) (client : Client) (task : Task) (needReturn : Bool) :
    s.SendClient2VNC client task needReturn = (false, s) ∧
        (∀ v, s.mpVNCClient = some v → v.isOnline = true →
          s.mClientTcpVNCServer.mIdleMessageList = []) ∨
      ∃ v sm idle, s.mpVNCClient = some v ∧ v.isOnline = true ∧
        s.mClientTcpVNCServer.mIdleMessageList = sm :: idle ∧
        s.SendClient2VNC client task needReturn = (true, s.forward v client task needReturn sm idle) := by
  unfold State.SendClient2VNC
  cases hv : s.mpVNCClient with
  | none => exact .inl ⟨rfl, fun v h => by cases h⟩
  | some v =>
    cases ho : v.isOnline with
    | false =>
      refine .inl ⟨by simp [ho], fun v' h' ho' => ?_⟩
      obtain rfl := Option.some.inj h'
      rw [ho] at ho'
      cases ho'
    | true =>
      cases hi : s.mClientTcpVNCServer.mIdleMessageList with
      | nil => exact .inl ⟨by simp [ho], fun _ _ _ => rfl⟩
      | cons sm idle => exact .inr ⟨v, sm, idle, rfl, ho, rfl, by simp [ho]⟩

/-- the callbacks of the HTTP server that call it -/
theorem State.OnDisconnect_eq {fd : CInt} (h : s.OnDisconnect fd = some s') :
    ∃ client, s.mClientMap fd = some client ∧
      s' = (((s.setOffline fd client).newTask .ProxyClientDisconnectTask).2.SendClient2VNC
        { client with isOnline := false } ⟨s.tasks, .ProxyClientDisconnectTask⟩ false).2.deleteTask
          ⟨s.tasks, .ProxyClientDisconnectTask⟩ := by
  obtain ⟨client, hc, rfl⟩ := Option.map_eq_some_iff.mp h
  exact ⟨client, hc, rfl⟩

theorem State.HandleRecvMessage_cases (s : State) (fd : CInt) (data : Chunk) :
    s.HandleRecvMessage fd data = s ∧ s.mClientMap fd = none ∨
      ∃ client, s.mClientMap fd = some client ∧ ∃ sent s₁,
      (s.newTask (.ProxyClientTask data)).2.SendClient2VNC client ⟨s.tasks, .ProxyClientTask data⟩ true
          = (sent, s₁) ∧
        s.HandleRecvMessage fd data
          = if sent then s₁ else s₁.deleteTask ⟨s.tasks, .ProxyClientTask data⟩ := by
  unfold State.HandleRecvMessage
  cases hc : s.mClientMap fd with
  | none => exact .inl ⟨rfl, rfl⟩
  | some client => exact .inr ⟨client, rfl, _, _, rfl, rfl⟩

theorem State.ReturnVNC2Client_cases (s : State) (cmd : CMD) :
    s.ReturnVNC2Client cmd = (false, s) ∧
        (∀ session, s.mClient2SessionMap cmd.header.fd = some session →
          session.FindRequestTask cmd.header.seq = none) ∨
      ∃ session task, s.mClient2SessionMap cmd.header.fd = some session ∧
        session.FindRequestTask cmd.header.seq = some task ∧
        s.ReturnVNC2Client cmd = s.reply session task cmd := by
  unfold State.ReturnVNC2Client
  cases hs : s.mClient2SessionMap cmd.header.fd with
  | none => exact .inl ⟨rfl, nofun⟩
  | some session =>
    cases ht : session.FindRequestTask cmd.header.seq with
    | none =>
      refine .inl ⟨by simp [ht], fun session' h => ?_⟩
      obtain rfl := Option.some.inj h
      exact ht
    | some task => exact .inr ⟨session, task, rfl, ht, by simp [ht]⟩

theorem State.OnParseCmd_eq (s : State) {cmd : CMD}
    (hcmd : cmd.header.cmdt ≠ .CommandTypeProxyDisconnect) :
    s.OnParseCmd cmd = (s.ReturnVNC2Client cmd).2 := by
  unfold State.OnParseCmd
  cases h : cmd.header.cmdt with
  | CommandTypeProxyDisconnect => exact absurd h hcmd
  | CommandTypeNone | CommandTypeProxy | other => rfl

theorem State.OnParseCmd_cases (s : State) (cmd : CMD) :
    s.OnParseCmd cmd = s ∧ (cmd.header.cmdt ≠ .CommandTypeProxyDisconnect → ∀ session,
        s.mClient2SessionMap cmd.header.fd = some session →
          session.FindRequestTask cmd.header.seq = none) ∨
      ∃ session task, cmd.header.cmdt ≠ .CommandTypeProxyDisconnect ∧
        s.mClient2SessionMap cmd.header.fd = some session ∧
        session.FindRequestTask cmd.header.seq = some task ∧
        s.OnParseCmd cmd = (s.reply session task cmd).2 := by
  by_cases hcmd : cmd.header.cmdt = .CommandTypeProxyDisconnect
  · refine .inl ⟨?_, fun hne => absurd hcmd hne⟩
    unfold State.OnParseCmd
    rw [hcmd]
  · rw [s.OnParseCmd_eq hcmd]
    rcases s.ReturnVNC2Client_cases cmd with ⟨he, hnone⟩ | ⟨session, task, hss, ht, he⟩
    · exact .inl ⟨by rw [he], fun _ => hnone⟩
    · exact .inr ⟨session, task, hcmd, hss, ht, by rw [he]⟩

theorem Session.mem_of_find {ss : Session} {seq : CInt} {task : Task}
    (h : ss.FindRequestTask seq = some task) : (seq, task) ∈ ss.mRequestTaskMap := by
  obtain ⟨e, he, rfl⟩ := Option.map_eq_some_iff.mp h
  have hkey : e.1 = seq := by simpa using List.find?_some he
  exact hkey ▸ List.mem_of_find?_eq_some he

theorem Session.find_eq_none {ss : Session} {seq : CInt} :
    ss.FindRequestTask seq = none ↔ ∀ t, (seq, t) ∉ ss.mRequestTaskMap := by
  unfold Session.FindRequestTask
  rw [Option.map_eq_none_iff, List.find?_eq_none]
  constructor
  · intro h t ht
    exact h _ ht (by simp)
  · rintro h ⟨q, t⟩ he hq
    have hq' : q = seq := by simpa using hq
    exact h t (hq' ▸ he)

/-- a session of the client's descriptor has the task under the seq -/
def State.Stores (s : State) (fd seq : CInt) (t : Task) : Prop :=
  ∃ ss, s.mClient2SessionMap fd = some ss ∧ (seq, t) ∈ ss.mRequestTaskMap

theorem Session.mem_insert {ss : Session} {seq q : CInt} {task t : Task} :
    (q, t) ∈ (ss.InsertRequestTask seq task).2.mRequestTaskMap ↔
      (q, t) ∈ ss.mRequestTaskMap ∨ ss.FindRequestTask seq = none ∧ q = seq ∧ t = task := by
  unfold Session.InsertRequestTask
  split
  · next hnone =>
    rw [List.mem_append, List.mem_singleton, Prod.mk.injEq]
    exact ⟨fun h => h.imp_right fun h => ⟨hnone, h⟩, fun h => h.imp_right And.right⟩
  · next t' hsome =>
    refine ⟨.inl, fun h => h.resolve_right fun h => ?_⟩
    rw [hsome] at h
    cases h.1

theorem State.stores_forward {v : VNCClient} {client : Client} {task : Task} {needReturn : Bool}
    {sm : Message} {idle : List Message} {fd q : CInt} {t : Task} :
    (s.forward v client task needReturn sm idle).Stores fd q t ↔ s.Stores fd q t ∨
      needReturn = true ∧ (∀ t', ¬ s.Stores client.fd v.miPacketSendSeq t') ∧ fd = client.fd ∧
        q = v.miPacketSendSeq ∧ t = task := by
  have hsession : ∀ q t, (q, t) ∈ (s.session client).mRequestTaskMap ↔ s.Stores client.fd q t := by
    intro q t
    unfold State.session State.Stores
    cases hs : s.mClient2SessionMap client.fd with
    | none => simp
    | some ss => simp
  unfold State.Stores
  show (∃ ss, Function.update s.mClient2SessionMap client.fd _ fd = some ss ∧ _) ↔ _
  by_cases hfd : fd = client.fd
  · subst hfd
    rw [Function.update_self]
    simp only [Option.some.injEq, exists_eq_left', true_and]
    cases needReturn with
    | false =>
      simp only [Bool.false_eq_true, if_false, false_and, or_false]
      exact hsession q t
    | true =>
      simp only [if_true, true_and, Session.mem_insert, Session.find_eq_none, hsession]
      rfl
  · rw [Function.update_of_ne hfd]
    exact ⟨.inl, fun h => h.resolve_right fun h => hfd h.2.2.1⟩

theorem State.OnClose_sessions (s : State) {fd fd' : CInt} {ss : Session}
    (h : (s.OnClose fd).mClient2SessionMap fd' = some ss) : s.mClient2SessionMap fd' = some ss := by
  unfold State.OnClose at h
  split at h
  · next client _ =>
    change (s.CloseSessionByClient client).mClient2SessionMap fd' = some ss at h
    unfold State.CloseSessionByClient at h
    split at h
    · change Function.update s.mClient2SessionMap client.fd none fd' = some ss at h
      by_cases hfd : fd' = client.fd
      · rw [hfd, Function.update_self] at h
        cases h
      · rwa [Function.update_of_ne hfd] at h
    · exact h
  · exact h

/-! ## what a step does -/

/-- the effect of a step on the sessions, the idle Messages and the answers -/
structure Effect (s : State) (a : Action) (s' : State) : Prop where
  stores : ∀ fd seq t, s'.Stores fd seq t → s.Stores fd seq t ∨ ∃ chunk, t.task = .ProxyClientTask chunk
  http : (∀ m ∈ s'.mClientTcpServer.mIdleMessageList, m ∈ s.mClientTcpServer.mIdleMessageList) ∨
    s'.mClientTcpServer.Full
  vnc : (∀ m ∈ s'.mClientTcpVNCServer.mIdleMessageList, m ∈ s.mClientTcpVNCServer.mIdleMessageList) ∨
    s'.mClientTcpVNCServer.Full
  arrived : s'.arrived = s.arrived ∨ ∃ cmd, a = .parseCmd cmd

theorem Effect.of_sessions {a : Action}
    (hsessions : ∀ fd ss, s'.mClient2SessionMap fd = some ss → s.mClient2SessionMap fd = some ss)
    (hhttp : s'.mClientTcpServer = s.mClientTcpServer)
    (hvnc : s'.mClientTcpVNCServer = s.mClientTcpVNCServer) (harrived : s'.arrived = s.arrived) :
    Effect s a s' where
  stores := fun fd _ _ ⟨ss, hss, hmem⟩ => .inl ⟨ss, hsessions fd ss hss, hmem⟩
  http := .inl (hhttp ▸ fun _ hm => hm)
  vnc := .inl (hvnc ▸ fun _ hm => hm)
  arrived := .inl harrived

theorem Effect.refl (s : State) (a : Action) : Effect s a s :=
  .of_sessions (fun _ _ h => h) rfl rfl rfl

theorem Effect.send (s : State) (a : Action) (client : Client) (task : Task) (needReturn : Bool)
    (ht : needReturn = true → ∃ chunk, task.task = .ProxyClientTask chunk) :
    Effect s a (s.SendClient2VNC client task needReturn).2 := by
  rcases s.SendClient2VNC_cases client task needReturn with ⟨he, _⟩ | ⟨v, sm, idle, _, _, hidle, he⟩
  · rw [he]
    exact .refl s a
  · rw [he]
    refine ⟨fun fd seq t h => ?_, .inl fun m hm => hm, .inl fun m hm => ?_, .inl rfl⟩
    · rcases State.stores_forward.mp h with h | ⟨hr, _, _, _, rfl⟩
      · exact .inl h
      · exact .inr (ht hr)
    · rw [hidle]
      exact List.mem_cons_of_mem sm hm

theorem Effect.reply (s : State) (session : Session) (task : Task) (cmd : CMD) :
    Effect s (.parseCmd cmd) (s.reply session task cmd).2 := by
  unfold State.reply
  cases hidle : s.mClientTcpServer.mIdleMessageList with
  | nil => exact ⟨fun _ _ _ h => .inl h, .inl fun m hm => hm, .inl fun m hm => hm, .inr ⟨cmd, rfl⟩⟩
  | cons sm idle =>
    refine ⟨fun _ _ _ h => .inl h, .inl fun m hm => ?_, .inl fun m hm => hm, .inr ⟨cmd, rfl⟩⟩
    rw [hidle]
    exact List.mem_cons_of_mem sm hm

/-- **The effect of every step.** -/
theorem step_effect {a : Action} (h : s.step a = some s') : Effect s a s' := by
  cases a with
  | accept fd | vncDisconnect fd | vncClose fd =>
    obtain rfl := Option.some.inj h
    exact .of_sessions (fun _ _ h => h) rfl rfl rfl
  | disconnect fd =>
    obtain ⟨client, _, rfl⟩ := State.OnDisconnect_eq h
    have he := Effect.send ((s.setOffline fd client).newTask .ProxyClientDisconnectTask).2
      (.disconnect fd) { client with isOnline := false } ⟨s.tasks, .ProxyClientDisconnectTask⟩ false nofun
    exact ⟨he.stores, he.http, he.vnc, he.arrived⟩
  | close fd =>
    obtain rfl := Option.some.inj h
    have hrest : (s.OnClose fd).mClientTcpServer = s.mClientTcpServer ∧
        (s.OnClose fd).mClientTcpVNCServer = s.mClientTcpVNCServer ∧
        (s.OnClose fd).arrived = s.arrived := by
      unfold State.OnClose State.CloseSessionByClient
      split
      · split <;> exact ⟨rfl, rfl, rfl⟩
      · exact ⟨rfl, rfl, rfl⟩
    exact .of_sessions (fun _ _ => s.OnClose_sessions) hrest.1 hrest.2.1 hrest.2.2
  | recv fd data =>
    obtain rfl := Option.some.inj h
    rcases s.HandleRecvMessage_cases fd data with ⟨he, _⟩ | ⟨client, _, sent, s₁, hsend, he⟩
    · rw [he]
      exact .refl s _
    · have hs₁ := Effect.send (s.newTask (.ProxyClientTask data)).2 (.recv fd data) client
        ⟨s.tasks, .ProxyClientTask data⟩ true fun _ => ⟨data, rfl⟩
      rw [hsend] at hs₁
      rw [he]
      split <;> exact ⟨hs₁.stores, hs₁.http, hs₁.vnc, hs₁.arrived⟩
  | vncAccept fd =>
    obtain rfl := Option.some.inj h
    unfold State.vncAccept
    split <;> exact .of_sessions (fun _ _ h => h) rfl rfl rfl
  | parseCmd cmd =>
    change (if _ then _ else _) = some s' at h
    split at h
    · obtain rfl := Option.some.inj h
      rcases s.OnParseCmd_cases cmd with ⟨he, _⟩ | ⟨session, task, _, _, _, he⟩
      · rw [he]
        exact .refl s _
      · rw [he]
        exact .reply s session task cmd
    · cases h
  | servers http vnc =>
    change (if _ then _ else _) = some s' at h
    split at h
    · next hfull =>
      obtain rfl := Option.some.inj h
      exact ⟨fun _ _ _ h => .inl h, .inr hfull.1, .inr hfull.2, .inl rfl⟩
    · cases h

end

end Relay

end VncProxy
