import VncProxy.Proxy.Relay
import VncProxy.Tcp.Pending

/-!
# The way of the requests through TcpProxyServer

The two `TcpServer`s of TcpProxyServer with all their threads and the bytes in their Messages.  A
handler thread of the HTTP server in `OnRecvMessage`, or its main thread in `OnDisconnect`, is a caller of
`SendMessageByQueue` of the VNC server; it goes on in its own server when it is done there.

* `State`            both servers and `mpVNCClient`;
* `SendClient2VNC`   the command of a task in a Message for the VNC connection;
* `State.step`       one step of any thread;
* `State.Step`       what it does, `step_cases`.
-/

namespace VncProxy.Forward

open Tcp (Stream Conn Msg)
open Relay (VNCClient)

/-- a command on its way: who sends it, for which connection of the HTTP server and on which of the VNC
server -/
structure Item (g : Nat) where
  thread : Fin (g + 1)
  client : Conn
  peer : Conn
  cmd : CMD
deriving DecidableEq

/-- `g` and `h` are the handler threads of the HTTP and the VNC server, `k` the threads that queue for
the HTTP server; the last of the `g + 1` callers is the main thread of the HTTP server -/
structure State (g h k : Nat) where
  mClientTcpServer : Stream g k
  mClientTcpVNCServer : Stream h (g + 1)
  mpVNCClient : Option VNCClient
  /-- what a thread in `SendMessageByQueue` has in its Message -/
  sending : Fin (g + 1) → Option (Item g)
  /-- the commands for which `SendClient2VNC` has taken a Message -/
  begun : List (Item g)
  /-- the commands that are in the send list or have left it -/
  sent : List (Item g)
  /-- the tasks for which `SendClient2VNC` has failed or was not called -/
  dropped : List (Conn × ITask)

inductive Action (g h k : Nat) where
  /-- a thread of the HTTP server outside of `OnRecvMessage` and `OnDisconnect` -/
  | http (a : Tcp.Action g k) (bytes : List Byte)
  /-- `found` says that the descriptor is in `mClientMap` -/
  | OnRecvMessage (i : Fin g) (found : Bool)
  | OnDisconnect (found : Bool)
  /-- a thread of the VNC server, or one in `SendMessageByQueue` -/
  | vnc (a : Tcp.Action h (g + 1)) (bytes : List Byte)

variable {g h k : Nat}

/-! ## `mpVNCClient` -/

/-- `mpVNCClient` behind the callbacks of the VNC server: `OnAccept`, `OnDisconnect` and `OnClose` -/
def State.observe (s : State g h k) (a : Tcp.Action h (g + 1)) : Option VNCClient :=
  let offline fd := s.mpVNCClient.map fun v => if v.fd.toNat = fd then { v with isOnline := false } else v
  let closed fd := s.mpVNCClient.filter fun v => v.fd.toNat ≠ fd
  match a with
  | .OnAccept _ =>
    match s.mClientTcpVNCServer.server.main, s.mpVNCClient with
    | .OnAccept fd, none => some ⟨BitVec.ofNat 32 fd, true, 0⟩
    | _, v => v
  | .main =>
    match s.mClientTcpVNCServer.server.main with
    | .OnDisconnect fd _ => offline fd
    | .OnClose fd _ => closed fd
    | _ => s.mpVNCClient
  | .handler i =>
    match s.mClientTcpVNCServer.server.handler i with
    | .OnClose fd _ => closed fd
    | _ => s.mpVNCClient
  | .sender =>
    match s.mClientTcpVNCServer.server.sender with
    | .OnClose fd => closed fd
    | _ => s.mpVNCClient
  | _ => s.mpVNCClient

/-- `OnAccept` takes a connection when there is none -/
def State.Takes (s : State g h k) : Tcp.Action h (g + 1) → Prop
  | .OnAccept ret => ret = s.mpVNCClient.isNone
  | _ => True

instance (s : State g h k) : DecidablePred s.Takes
  | .OnAccept ret => inferInstanceAs (Decidable (ret = s.mpVNCClient.isNone))
  | .accept _ | .event .. | .recv _ | .main | .handler _ | .send _ | .sender | .call .. | .caller _ =>
    .isTrue trivial

/-! ## steps -/

/-- `SendClient2VNC(client, task)` of thread `j` up to `SendMessageByQueue`, with its result; what is in
the Message is the frame of the command, `SendClient2VNC_bytes` -/
def State.SendClient2VNC (s : State g h k) (j : Fin (g + 1)) (client : Conn) (task : ITask) :
    Option (Bool × State g h k) :=
  match s.mpVNCClient, s.mClientTcpVNCServer.server.mIdleMessageList with
  | some v, _ :: _ =>
    if v.isOnline then
      let cmd := task.cmd v.miPacketSendSeq (BitVec.ofNat 32 client.1)
      let item : Item g := ⟨j, client, s.mClientTcpVNCServer.server.conn v.fd.toNat, cmd⟩
      (s.mClientTcpVNCServer.step (.call j v.fd.toNat cmd.frame.length, cmd.frame)).map fun vnc =>
        (true, { s with
          mClientTcpVNCServer := vnc
          mpVNCClient := some { v with miPacketSendSeq := v.miPacketSendSeq + 1 }
          sending := Function.update s.sending j (some item)
          begun := s.begun ++ [item] })
    else some (false, s)
  | _, _ => some (false, s)

/-- `if( client != NULL )` -/
def State.forward (s : State g h k) (j : Fin (g + 1)) (client : Conn) (task : ITask) (found : Bool) :
    Option (State g h k) :=
  (if found then s.SendClient2VNC j client task else some (false, s)).map fun r =>
    if r.1 then r.2 else { r.2 with dropped := r.2.dropped ++ [(client, task)] }

/-- `SetBuffer(m->buffer, m->len)` -/
def SetBuffer (buffer : List Byte) : Option ITask :=
  if h : 0 < buffer.length ∧ buffer.length < MAX_BUFFER_LEN then
    some (.ProxyClientTask ⟨buffer, h.1, h.2⟩)
  else none

/-- `HandleRecvMessage(m)`; where it fails the socket is shut down, which is not seen here -/
def State.HandleRecvMessage (s : State g h k) (i : Fin g) (found : Bool) : Option (State g h k) :=
  match s.mClientTcpServer.server.handler i with
  | .handle m =>
    if 0 < m.len ∧ s.mClientTcpVNCServer.server.caller i.castSucc = .free then
      (s.mClientTcpServer.step (.handler i, [])).bind fun http =>
        (SetBuffer (s.mClientTcpServer.buffer m.addr)).bind fun task =>
          State.forward { s with mClientTcpServer := http } i.castSucc m.conn task found
    else none
  | _ => none

/-- `OnDisconnect(fd)` of the HTTP server -/
def State.onDisconnect (s : State g h k) (found : Bool) : Option (State g h k) :=
  match s.mClientTcpServer.server.main with
  | .OnDisconnect fd _ =>
    if s.mClientTcpVNCServer.server.caller (Fin.last g) = .free then
      (s.mClientTcpServer.step (.main, [])).bind fun http =>
        State.forward { s with mClientTcpServer := http } (Fin.last g)
          (s.mClientTcpServer.server.conn fd) .ProxyClientDisconnectTask found
    else none
  | _ => none

/-- the thread is in one of these callbacks, or about to call it -/
def State.Busy (s : State g h k) : Tcp.Action g k → Prop
  | .handler i => s.mClientTcpServer.server.handles (.handler i) ≠ [] ∨
      s.mClientTcpVNCServer.server.caller i.castSucc ≠ .free
  | .main => (match s.mClientTcpServer.server.main with | .OnDisconnect .. => True | _ => False) ∨
      s.mClientTcpVNCServer.server.caller (Fin.last g) ≠ .free
  | _ => False

instance (s : State g h k) : DecidablePred s.Busy
  | .handler _ => inferInstanceAs (Decidable (_ ∨ _))
  | .main =>
    have : Decidable (match s.mClientTcpServer.server.main with
        | .OnDisconnect .. => True | _ => False) := by split <;> infer_instance
    inferInstanceAs (Decidable (_ ∨ _))
  | .accept _ | .event .. | .OnAccept _ | .recv _ | .send _ | .sender | .call .. | .caller _ =>
    .isFalse id

/-- `PushBack` of the send list -/
def State.put (s : State g h k) (a : Tcp.Action h (g + 1)) : State g h k :=
  match a, s.mClientTcpVNCServer.server.queues a with
  | .caller j, _ :: _ =>
    { s with
      sending := Function.update s.sending j none
      sent := s.sent ++ (s.sending j).toList }
  | _, _ => s

/-- only `SendClient2VNC` calls `SendMessageByQueue` of the VNC server -/
def State.stepVNC (s : State g h k) (a : Tcp.Action h (g + 1)) (bytes : List Byte) :
    Option (State g h k) :=
  match a with
  | .call .. => none
  | a =>
    if s.Takes a then
      (s.mClientTcpVNCServer.step (a, bytes)).map fun vnc =>
        { s.put a with mClientTcpVNCServer := vnc, mpVNCClient := s.observe a }
    else none

def State.step (s : State g h k) : Action g h k → Option (State g h k)
  | .http a bytes =>
    if s.Busy a then none
    else (s.mClientTcpServer.step (a, bytes)).map fun http => { s with mClientTcpServer := http }
  | .OnRecvMessage i found => s.HandleRecvMessage i found
  | .OnDisconnect found => s.onDisconnect found
  | .vnc a bytes => s.stepVNC a bytes

/-! ## what a step does -/

/-- the callbacks with their tasks -/
inductive State.Calls (s : State g h k) : Tcp.Action g k → Fin (g + 1) → Conn → ITask → Prop
  | recv (i : Fin g) (m : Msg) (chunk : Chunk)
      (hm : s.mClientTcpServer.server.handler i = .handle m) (hlen : 0 < m.len)
      (hchunk : s.mClientTcpServer.buffer m.addr = chunk.bytes) :
      s.Calls (.handler i) i.castSucc m.conn (.ProxyClientTask chunk)
  | disconnect (fd : Nat) (m : Option Msg)
      (hmain : s.mClientTcpServer.server.main = .OnDisconnect fd m) :
      s.Calls .main (Fin.last g) (s.mClientTcpServer.server.conn fd) .ProxyClientDisconnectTask

inductive State.Step (s : State g h k) : Action g h k → State g h k → Prop
  | http (a : Tcp.Action g k) (bytes : List Byte) (http : Stream g k) (hbusy : ¬ s.Busy a)
      (hstep : s.mClientTcpServer.Step (a, bytes) http) :
      s.Step (.http a bytes) { s with mClientTcpServer := http }
  | drop (b : Action g h k) (a : Tcp.Action g k) (j : Fin (g + 1)) (client : Conn) (task : ITask)
      (http : Stream g k) (hcalls : s.Calls a j client task)
      (hstep : s.mClientTcpServer.Step (a, []) http) :
      s.Step b { s with mClientTcpServer := http, dropped := s.dropped ++ [(client, task)] }
  | send (b : Action g h k) (a : Tcp.Action g k) (j : Fin (g + 1)) (client : Conn) (task : ITask)
      (http : Stream g k) (hcalls : s.Calls a j client task)
      (hstep : s.mClientTcpServer.Step (a, []) http)
      (hfree : s.mClientTcpVNCServer.server.caller j = .free) (v : VNCClient)
      (sm : Msg) (idle : List Msg) (hidle : s.mClientTcpVNCServer.server.mIdleMessageList = sm :: idle)
      (x : Item g) (hx : x = ⟨j, client, s.mClientTcpVNCServer.server.conn v.fd.toNat,
        task.cmd v.miPacketSendSeq (BitVec.ofNat 32 client.1)⟩) (vnc : Stream h (g + 1))
      (hvnc : s.mClientTcpVNCServer.Step (.call j v.fd.toNat x.cmd.frame.length, x.cmd.frame) vnc) :
      s.Step b { s with
        mClientTcpServer := http
        mClientTcpVNCServer := vnc
        mpVNCClient := some { v with miPacketSendSeq := v.miPacketSendSeq + 1 }
        sending := Function.update s.sending j (some x)
        begun := s.begun ++ [x] }
  | vnc (a : Tcp.Action h (g + 1)) (bytes : List Byte) (vnc : Stream h (g + 1))
      (hcall : ∀ j fd len, a ≠ .call j fd len) (hstep : s.mClientTcpVNCServer.Step (a, bytes) vnc) :
      s.Step (.vnc a bytes)
        { s.put a with mClientTcpVNCServer := vnc, mpVNCClient := s.observe a }

theorem forward_cases {s s' : State g h k} {b : Action g h k} {a : Tcp.Action g k} {j : Fin (g + 1)}
    {client : Conn} {task : ITask} {found : Bool} {http : Stream g k}
    (hcalls : s.Calls a j client task) (hstep : s.mClientTcpServer.Step (a, []) http)
    (hfree : s.mClientTcpVNCServer.server.caller j = .free)
    (hforward : State.forward { s with mClientTcpServer := http } j client task found = some s') :
    s.Step b s' := by
  unfold State.forward at hforward
  obtain ⟨r, hr, rfl⟩ := Option.map_eq_some_iff.mp hforward
  have hdrop : r = (false, { s with mClientTcpServer := http }) → s.Step b
      (if r.1 then r.2 else { r.2 with dropped := r.2.dropped ++ [(client, task)] }) := by
    intro he
    subst he
    exact .drop b a j client task http hcalls hstep
  cases found with
  | false => exact hdrop (Option.some.inj hr).symm
  | true =>
    change State.SendClient2VNC _ j client task = some r at hr
    unfold State.SendClient2VNC at hr
    split at hr
    · next v sm idle hv hidle =>
      split at hr
      · obtain ⟨vnc, hvnc, rfl⟩ := Option.map_eq_some_iff.mp hr
        exact .send b a j client task http hcalls hstep hfree v sm idle hidle _ rfl vnc
          (Stream.step_cases hvnc)
      · exact hdrop (Option.some.inj hr).symm
    · exact hdrop (Option.some.inj hr).symm

theorem step_cases {s s' : State g h k} {a : Action g h k} (hstep : s.step a = some s') :
    s.Step a s' := by
  cases a with
  | http a bytes =>
    change (if s.Busy a then none else _) = _ at hstep
    split at hstep
    · cases hstep
    · next hbusy =>
      obtain ⟨http, hhttp, rfl⟩ := Option.map_eq_some_iff.mp hstep
      exact .http a bytes http hbusy (Stream.step_cases hhttp)
  | OnRecvMessage i found =>
    change s.HandleRecvMessage i found = _ at hstep
    unfold State.HandleRecvMessage at hstep
    split at hstep
    · next m hm =>
      split at hstep
      · next hlen =>
        obtain ⟨http, hhttp, hstep⟩ := Option.bind_eq_some_iff.mp hstep
        obtain ⟨task, htask, hstep⟩ := Option.bind_eq_some_iff.mp hstep
        unfold SetBuffer at htask
        split at htask
        · next hchunk =>
          obtain rfl := Option.some.inj htask
          exact forward_cases (.recv i m ⟨_, hchunk.1, hchunk.2⟩ hm hlen.1 rfl)
            (Stream.step_cases hhttp) hlen.2 hstep
        · cases htask
      · cases hstep
    · cases hstep
  | OnDisconnect found =>
    change s.onDisconnect found = _ at hstep
    unfold State.onDisconnect at hstep
    split at hstep
    · next fd m hmain =>
      split at hstep
      · next hfree =>
        obtain ⟨http, hhttp, hstep⟩ := Option.bind_eq_some_iff.mp hstep
        exact forward_cases (.disconnect fd m hmain) (Stream.step_cases hhttp) hfree hstep
      · cases hstep
    · cases hstep
  | vnc a bytes =>
    change s.stepVNC a bytes = _ at hstep
    unfold State.stepVNC at hstep
    cases a with
    | call => cases hstep
    | accept | event | OnAccept | recv | main | handler | send | sender | caller =>
      dsimp only at hstep
      split at hstep
      · obtain ⟨vnc, hvnc, rfl⟩ := Option.map_eq_some_iff.mp hstep
        exact .vnc _ bytes vnc (fun _ _ _ he => by cases he) (Stream.step_cases hvnc)
      · cases hstep

theorem http_of_step {s s' : State g h k} {a : Action g h k} (hstep : s.step a = some s') :
    s'.mClientTcpServer = s.mClientTcpServer ∨ ∃ b, s.mClientTcpServer.Step b s'.mClientTcpServer := by
  cases step_cases hstep with
  | http a bytes http hbusy hhttp => exact .inr ⟨_, hhttp⟩
  | drop b a j client task http hcalls hhttp => exact .inr ⟨_, hhttp⟩
  | send b a j client task http hcalls hhttp => exact .inr ⟨_, hhttp⟩
  | vnc a bytes vnc hcall hvnc =>
    refine .inl ?_
    show (s.put a).mClientTcpServer = _
    unfold State.put
    split <;> rfl

end VncProxy.Forward
