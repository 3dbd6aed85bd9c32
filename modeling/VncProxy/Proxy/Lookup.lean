import VncProxy.Lib.Mutex
import VncProxy.Proxy.System

/-!
# The sessions of `TcpProxyServer`, step by step

The threads that are in `SendClient2VNC`, in `ReturnVNC2Client` or in `OnClose` of
`mClientTcpServer`, with the mutex of `mClient2SessionMap` and the steps that are made under it.
Thread 0 is the main thread of `mClientTcpServer`.  What `AddSeq` returns, which command a thread
parses and whether an idle Message is left are free; so is when `OnClose` is called, once
`OnDisconnect` has returned.

* `Life`, `Msg`, `Call`, `Return`  a connection, a Message and the two calls;
* `State.step`  one step;
* `State.Ok`    the promise of `TcpServer`: `OnClose` is called once, when no Message is pending.

The mutex of `mClientMap` is left out, so the threads that hold it are free to overtake each other.
-/

namespace VncProxy.Lookup

open Proxy (Client Session)

structure Life where
  /-- `OnDisconnect` has been called -/
  disconnected : Bool
  /-- it has returned -/
  returned : Bool
  onCloses : Nat
  /-- `CloseSessionByClient` has been through its section -/
  erased : Bool
deriving DecidableEq

def Life.new : Life := ⟨false, false, 0, false⟩

/-- the connections are numbered in the order of their `accept` -/
structure Msg where
  fd : Nat
  conn : Nat
deriving DecidableEq

/-- `SendClient2VNC(client, task, needReturn)`, called for a Message of the connection `conn`, or
without `needReturn` in its `OnDisconnect` -/
structure Call where
  client : Client
  needReturn : Bool
  conn : Nat
deriving DecidableEq

/-- `ReturnVNC2Client(cmd)` for a header with `fd` and `seq`, and what it has come to so far -/
structure Return where
  fd : Nat
  seq : CInt
  /-- the connection that has `fd`, if a request task was queued for it under `seq` and its session
  has not been closed -/
  due : Option Nat
  session : Bool
  task : Bool
  idle : Bool
  /-- the connection that has `sm->fd` when `sm` is queued -/
  sm : Option Nat
deriving DecidableEq

inductive SendPc where
  | check
  | popIdle
  | addSeq
  | lock (seq : CInt)
  | find (seq : CInt)
  | new (seq : CInt)
  | InsertRequestTask (seq : CInt)
  | queue (seq : CInt)
  | unlock
deriving DecidableEq

inductive ReturnPc where
  | lock
  | find
  | FindRequestTask
  | popIdle
  | queue
  | unlock
deriving DecidableEq

inductive ClosePc where
  | findClient
  | lock (client : Client)
  | erase (client : Client)
  | unlock
  | delete
  /-- `close(fd)` of `TcpServer` -/
  | close
deriving DecidableEq

inductive Pc where
  | free
  /-- in `HandleRecvMessage`, before `mClientMap.Find(m->fd)` -/
  | find (m : Msg)
  | send (c : Call) (pc : SendPc)
  | reply (r : Return) (pc : ReturnPc)
  | OnClose (fd : Nat) (pc : ClosePc)
deriving DecidableEq

/-- what `mClientTcpServer` and `mClientMap` know: `holder` is the connection that has a descriptor -/
structure Clients where
  holder : Nat → Option Nat
  count : Nat
  life : Nat → Life
  mClientMap : Nat → Option Client
  mHandleMessageList : List Msg

def Clients.init : Clients where
  holder := fun _ => none
  count := 0
  life := fun _ => .new
  mClientMap := fun _ => none
  mHandleMessageList := []

/-- `locked` is the thread that holds the mutex of `mClient2SessionMap`; `sent` holds the request
tasks that were queued, with their connections, and `returned` the calls of `ReturnVNC2Client` that
have returned -/
structure State (n : Nat) where
  clients : Clients
  mClient2SessionMap : Nat → Option Session
  locked : Option (Fin (n + 1))
  thread : Fin (n + 1) → Pc
  sent : List (Nat × CInt)
  returned : List Return

def State.init (n : Nat) : State n where
  clients := .init
  mClient2SessionMap := fun _ => none
  locked := none
  thread := fun _ => .free
  sent := []
  returned := []

inductive Action (n : Nat) where
  /-- `accept` returns `fd` and `OnAccept` is called -/
  | accept (fd : Nat)
  | recv (fd : Nat)
  | disconnect (fd : Nat)
  /-- a handler thread takes a Message -/
  | pop (i : Fin n)
  /-- a handler thread parses a command of VNC -/
  | OnParseCmd (i : Fin n) (fd : Nat) (seq : CInt)
  | OnClose (i : Fin (n + 1)) (fd : Nat)
  | AddSeq (i : Fin (n + 1)) (seq : CInt)
  /-- `answer` is what a check of `mpVNCClient` or a `PopFront` of the idle list comes to -/
  | step (i : Fin (n + 1)) (answer : Bool)
deriving DecidableEq

variable {n : Nat}

namespace Clients

/-! ## the connections -/

def setLife (f : Clients) (c : Nat) (x : Life) : Clients :=
  { f with life := Function.update f.life c x }

/-- `OnAccept` inserts a new `Client`, unless there is one -/
def accept (f : Clients) (fd : Nat) : Clients :=
  { f with
    holder := Function.update f.holder fd (some f.count)
    count := f.count + 1
    mClientMap :=
      if f.mClientMap fd = none then Function.update f.mClientMap fd (some ⟨fd, f.count⟩)
      else f.mClientMap }

def push (f : Clients) (m : Msg) : Clients :=
  { f with mHandleMessageList := f.mHandleMessageList ++ [m] }

def disconnect (f : Clients) (c : Nat) : Clients :=
  f.setLife c { f.life c with disconnected := true }

/-- `OnDisconnect` returns -/
def left (f : Clients) (c : Nat) : Clients := f.setLife c { f.life c with returned := true }

def OnClose (f : Clients) (c : Nat) : Clients :=
  f.setLife c { f.life c with onCloses := (f.life c).onCloses + 1 }

def erase (f : Clients) (c : Nat) : Clients := f.setLife c { f.life c with erased := true }

def delete (f : Clients) (fd : Nat) : Clients :=
  { f with mClientMap := Function.update f.mClientMap fd none }

def close (f : Clients) (fd : Nat) : Clients :=
  { f with holder := Function.update f.holder fd none }

end Clients

namespace State

/-! ## steps -/

def goto (s : State n) (i : Fin (n + 1)) (pc : Pc) : State n :=
  { s with thread := Function.update s.thread i pc }

/-- a thread changes what is known of the connections -/
def tell (s : State n) (f : Clients) : State n := { s with clients := f }

def lock (s : State n) (i : Fin (n + 1)) (pc : Pc) : Option (State n) :=
  if s.locked = none then some { s.goto i pc with locked := some i } else none

def unlock (s : State n) : State n := { s with locked := none }

def setSession (s : State n) (fd : Nat) (session : Option Session) : State n :=
  { s with mClient2SessionMap := Function.update s.mClient2SessionMap fd session }

theorem setSession_map (s : State n) (fd : Nat) (session : Option Session) (fd' : Nat) :
    (s.setSession fd session).mClient2SessionMap fd' =
      if fd' = fd then session else s.mClient2SessionMap fd' :=
  Function.update_apply ..

def accept (s : State n) (fd : Nat) : Option (State n) :=
  if s.thread 0 = .free ∧ s.clients.holder fd = none then some (s.tell (s.clients.accept fd))
  else none

def recv (s : State n) (fd : Nat) : Option (State n) :=
  match s.clients.holder fd with
  | some c =>
    if s.thread 0 = .free ∧ (s.clients.life c).disconnected = false then
      some (s.tell (s.clients.push ⟨fd, c⟩))
    else none
  | none => none

/-- `OnDisconnect(fd)`, which finds the client -/
def disconnect (s : State n) (fd : Nat) : Option (State n) :=
  match s.clients.holder fd, s.clients.mClientMap fd with
  | some c, some client =>
    if s.thread 0 = .free ∧ (s.clients.life c).disconnected = false then
      some ((s.tell (s.clients.disconnect c)).goto 0 (.send ⟨client, false, c⟩ .check))
    else none
  | _, _ => none

def pop (s : State n) (i : Fin n) : Option (State n) :=
  match s.thread i.succ, s.clients.mHandleMessageList with
  | .free, m :: l =>
    some ((s.tell { s.clients with mHandleMessageList := l }).goto i.succ (.find m))
  | _, _ => none

def OnParseCmd (s : State n) (i : Fin n) (fd : Nat) (seq : CInt) : Option (State n) :=
  if s.thread i.succ = .free then
    some (s.goto i.succ (.reply ⟨fd, seq, none, false, false, false, none⟩ .lock))
  else none

/-- `TcpServer` calls `OnClose(fd)` behind `OnDisconnect(fd)` -/
def OnClose (s : State n) (i : Fin (n + 1)) (fd : Nat) : Option (State n) :=
  match s.clients.holder fd with
  | some c =>
    if s.thread i = .free ∧ (s.clients.life c).returned = true then
      some ((s.tell (s.clients.OnClose c)).goto i (.OnClose fd .findClient))
    else none
  | none => none

/-- `SendClient2VNC` returns, and `OnDisconnect` if it has called it -/
def finish (s : State n) (i : Fin (n + 1)) (c : Call) : State n :=
  (if c.needReturn then s else s.tell (s.clients.left c.conn)).goto i .free

def AddSeq (s : State n) (i : Fin (n + 1)) (seq : CInt) : Option (State n) :=
  match s.thread i with
  | .send c .addSeq => some (s.goto i (.send c (.lock seq)))
  | _ => none

def SendClient2VNC (s : State n) (i : Fin (n + 1)) (c : Call) (answer : Bool) :
    SendPc → Option (State n)
  | .check => some (if answer then s.goto i (.send c .popIdle) else s.finish i c)
  | .popIdle => some (if answer then s.goto i (.send c .addSeq) else s.finish i c)
  | .addSeq => none
  | .lock seq => s.lock i (.send c (.find seq))
  | .find seq =>
    some (s.goto i (.send c (if (s.mClient2SessionMap c.client.fd).isSome then .InsertRequestTask seq
      else .new seq)))
  | .new seq =>
    some ((s.setSession c.client.fd (some ⟨c.client, []⟩)).goto i (.send c (.InsertRequestTask seq)))
  | .InsertRequestTask seq =>
    let session := s.mClient2SessionMap c.client.fd
    some ((s.setSession c.client.fd
      (if c.needReturn then session.map (·.InsertRequestTask seq) else session)).goto i
        (.send c (.queue seq)))
  | .queue seq =>
    some ({ s with sent := if c.needReturn then s.sent ++ [(c.conn, seq)] else s.sent }.goto i
      (.send c .unlock))
  | .unlock => some (s.unlock.finish i c)

/-- the connection to which a reply is due -/
def due (s : State n) (fd : Nat) (seq : CInt) : Option Nat :=
  match s.clients.holder fd with
  | some c => if (c, seq) ∈ s.sent ∧ (s.clients.life c).erased = false then some c else none
  | none => none

def ReturnVNC2Client (s : State n) (i : Fin (n + 1)) (r : Return) (answer : Bool) :
    ReturnPc → Option (State n)
  | .lock => s.lock i (.reply r .find)
  | .find =>
    let session := (s.mClient2SessionMap r.fd).isSome
    some (s.goto i (.reply { r with due := s.due r.fd r.seq, session := session }
      (if session then .FindRequestTask else .unlock)))
  | .FindRequestTask =>
    let task := (s.mClient2SessionMap r.fd).any fun session => session.mRequestTaskMap.contains r.seq
    some (s.goto i (.reply { r with task := task } (if task then .popIdle else .unlock)))
  | .popIdle =>
    some (s.goto i (.reply { r with idle := answer } (if answer then .queue else .unlock)))
  | .queue =>
    -- `sm->fd = session->client->fd`
    some (s.goto i (.reply { r with sm :=
      (s.mClient2SessionMap r.fd).bind fun session => s.clients.holder session.client.fd } .unlock))
  | .unlock => some ({ s.unlock with returned := s.returned ++ [r] }.goto i .free)

def CloseSessionByClient (s : State n) (i : Fin (n + 1)) (fd : Nat) : ClosePc → Option (State n)
  | .findClient =>
    some (s.goto i (.OnClose fd (match s.clients.mClientMap fd with
      | some client => .lock client
      | none => .close)))
  | .lock client => s.lock i (.OnClose fd (.erase client))
  | .erase client =>
    some (((s.setSession client.fd none).tell (s.clients.erase client.conn)).goto i
      (.OnClose fd .unlock))
  | .unlock => some (s.unlock.goto i (.OnClose fd .delete))
  | .delete => some ((s.tell (s.clients.delete fd)).goto i (.OnClose fd .close))
  | .close => some ((s.tell (s.clients.close fd)).goto i .free)

def stepThread (s : State n) (i : Fin (n + 1)) (answer : Bool) : Option (State n) :=
  match s.thread i with
  | .free => none
  | .find m =>
    some (s.goto i (match s.clients.mClientMap m.fd with
      | some client => .send ⟨client, true, m.conn⟩ .check
      | none => .free))
  | .send c pc => s.SendClient2VNC i c answer pc
  | .reply r pc => s.ReturnVNC2Client i r answer pc
  | .OnClose fd pc => s.CloseSessionByClient i fd pc

def step (s : State n) : Action n → Option (State n)
  | .accept fd => s.accept fd
  | .recv fd => s.recv fd
  | .disconnect fd => s.disconnect fd
  | .pop i => s.pop i
  | .OnParseCmd i fd seq => s.OnParseCmd i fd seq
  | .OnClose i fd => s.OnClose i fd
  | .AddSeq i seq => s.AddSeq i seq
  | .step i answer => s.stepThread i answer

/-! ### what each step does -/

variable {s s' : State n}

theorem accept_eq {fd : Nat} (h : s.accept fd = some s') :
    s.clients.holder fd = none ∧ s' = s.tell (s.clients.accept fd) := by
  unfold accept at h
  split at h
  · next hfd => exact ⟨hfd.2, (Option.some.inj h).symm⟩
  · cases h

theorem recv_eq {fd : Nat} (h : s.recv fd = some s') :
    ∃ c, s.clients.holder fd = some c ∧ (s.clients.life c).disconnected = false ∧
      s' = s.tell (s.clients.push ⟨fd, c⟩) := by
  unfold recv at h
  split at h
  · next c hc =>
    split at h
    · next hd => exact ⟨c, hc, hd.2, (Option.some.inj h).symm⟩
    · cases h
  · cases h

theorem disconnect_eq {fd : Nat} (h : s.disconnect fd = some s') :
    ∃ c client, s.clients.holder fd = some c ∧ s.clients.mClientMap fd = some client ∧
      s.thread 0 = .free ∧ (s.clients.life c).disconnected = false ∧
      s' = (s.tell (s.clients.disconnect c)).goto 0 (.send ⟨client, false, c⟩ .check) := by
  unfold disconnect at h
  split at h
  · next c client hc hclient =>
    split at h
    · next hd => exact ⟨c, client, hc, hclient, hd.1, hd.2, (Option.some.inj h).symm⟩
    · cases h
  · cases h

theorem pop_eq {i : Fin n} (h : s.pop i = some s') :
    ∃ m l, s.thread i.succ = .free ∧ s.clients.mHandleMessageList = m :: l ∧
      s' = (s.tell { s.clients with mHandleMessageList := l }).goto i.succ (.find m) := by
  unfold pop at h
  split at h
  · next m l hi hl => exact ⟨m, l, hi, hl, (Option.some.inj h).symm⟩
  · cases h

theorem OnParseCmd_eq {i : Fin n} {fd : Nat} {seq : CInt} (h : s.OnParseCmd i fd seq = some s') :
    s.thread i.succ = .free ∧
      s' = s.goto i.succ (.reply ⟨fd, seq, none, false, false, false, none⟩ .lock) := by
  unfold OnParseCmd at h
  split at h
  · next hi => exact ⟨hi, (Option.some.inj h).symm⟩
  · cases h

theorem OnClose_eq {i : Fin (n + 1)} {fd : Nat} (h : s.OnClose i fd = some s') :
    ∃ c, s.clients.holder fd = some c ∧ s.thread i = .free ∧ (s.clients.life c).returned = true ∧
      s' = (s.tell (s.clients.OnClose c)).goto i (.OnClose fd .findClient) := by
  unfold OnClose at h
  split at h
  · next c hc =>
    split at h
    · next hi => exact ⟨c, hc, hi.1, hi.2, (Option.some.inj h).symm⟩
    · cases h
  · cases h

theorem AddSeq_eq {i : Fin (n + 1)} {seq : CInt} (h : s.AddSeq i seq = some s') :
    ∃ c, s.thread i = .send c .addSeq ∧ s' = s.goto i (.send c (.lock seq)) := by
  unfold AddSeq at h
  split at h
  · next c hi => exact ⟨c, hi, (Option.some.inj h).symm⟩
  · cases h

end State

/-! ## the promise of `TcpServer` -/

/-- the connection whose Message a thread handles -/
def Pc.message : Pc → Option Nat
  | .find m => some m.conn
  | .send c _ => if c.needReturn then some c.conn else none
  | _ => none

def State.Pending (s : State n) (c : Nat) : Prop :=
  (∃ m ∈ s.clients.mHandleMessageList, m.conn = c) ∨ ∃ i, (s.thread i).message = some c

instance (s : State n) (c : Nat) : Decidable (s.Pending c) :=
  inferInstanceAs (Decidable ((∃ m ∈ s.clients.mHandleMessageList, m.conn = c) ∨ _))

def State.Ok (s : State n) : Action n → Prop
  | .OnClose _ fd => ∀ c ∈ s.clients.holder fd, (s.clients.life c).onCloses = 0 ∧ ¬ s.Pending c
  | _ => True

instance (s : State n) : ∀ a, Decidable (s.Ok a)
  | .OnClose _ fd => inferInstanceAs (Decidable (∀ c ∈ s.clients.holder fd, _ ∧ _))
  | .accept _ | .recv _ | .disconnect _ | .pop _ | .OnParseCmd .. | .AddSeq .. | .step .. =>
    .isTrue trivial

end VncProxy.Lookup
