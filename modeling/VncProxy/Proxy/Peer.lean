import VncProxy.Tcp.Close
import VncProxy.Tcp.Frame

/-!
# `mpVNCClient`

`mClientTcpVNCServer` with its threads, the callbacks `OnAccept`, `OnDisconnect` and `OnClose` of its
main thread, handler threads and send thread, and `k` threads that call `SendClient2VNC`; every read
and write of `mpVNCClient` is a step.  Nothing keeps a copy of the pointer, so only the last `Client`
is followed.  What `SendClient2VNC` does with the sessions is left out but for the mutex.

* `Client`, `SendPc`, `AcceptPc`, `ClosePc`  the object and where the threads stand;
* `State.other`   the sockets of the process that are not of this server;
* `State.step`    one step;
* `State.Kept`    every dereference has found a `Client`, every frame went to its own connection;
* `State.Ok`      the condition on a step.
-/

namespace VncProxy.Peer

open Tcp (Msg Conn)

variable {h k : Nat}

/-- `conn` is the connection with `fd`, `none` as long as `fd` is -1; `deleted` is a ghost -/
structure Client where
  conn : Option Conn
  isOnline : Bool
  miPacketSendSeq : CInt
  deleted : Bool
deriving DecidableEq

def Client.fd (c : Client) : Option Nat := c.conn.map Prod.fst

inductive Closer (h : Nat) where
  | main
  | handler (i : Fin h)
  | sender
deriving DecidableEq

/-- in `OnAccept`; the pc of a thread that is not there is `check` -/
inductive AcceptPc where
  | check
  | new
  | fd
  | isOnline
deriving DecidableEq

/-- in `OnClose` -/
inductive ClosePc where
  | check
  | delete
  /-- before `mpVNCClient = NULL` -/
  | setNull
deriving DecidableEq

/-- in `SendClient2VNC`; `isOnline`, `addSeq` and `fd` are before a dereference of `mpVNCClient` -/
inductive SendPc where
  | free
  | check
  | isOnline
  | popIdle
  | addSeq (m : Msg)
  | lock (m : Msg)
  | fd (m : Msg)
  /-- in `SendMessageByQueue` -/
  | queue
  | unlock
deriving DecidableEq

/-- behind the check, and not yet behind the last dereference -/
def SendPc.inside : SendPc → Bool
  | .isOnline | .popIdle | .addSeq _ | .lock _ | .fd _ => true
  | .free | .check | .queue | .unlock => false

/-- a connection of the server, or one of the other sockets, which are numbered -/
inductive Socket where
  | vnc (c : Conn)
  | other (n : Nat)
deriving DecidableEq

/-- `other` and `others` are the descriptors and the number of the other sockets; `derefs` says of each
dereference in `SendClient2VNC` whether it has found a `Client`, `written` where a frame went: the
connection of the `Client` its `sm->fd` was read from, and the socket -/
structure State (h k : Nat) where
  server : Tcp.State h k
  mpVNCClient : Option Client
  accept : AcceptPc
  close : Closer h → ClosePc
  send : Fin k → SendPc
  /-- the thread that holds the mutex of `mClient2SessionMap` -/
  locked : Option (Fin k)
  other : Nat → Option Nat
  others : Nat
  derefs : List Bool
  written : List (Conn × Socket)

def State.init (h k pool watchers handleSize : Nat) (junk : Nat → Int × Bool × Nat × Nat) :
    State h k where
  server := .init h k pool watchers handleSize junk
  mpVNCClient := none
  accept := .check
  close := fun _ => .check
  send := fun _ => .free
  locked := none
  other := fun _ => none
  others := 0
  derefs := []
  written := []

inductive Action (h k : Nat) where
  /-- a step of `TcpServer` -/
  | server (a : Tcp.Action h k)
  | OnAccept
  | OnClose (x : Closer h)
  /-- a thread goes on in `SendClient2VNC`, with a command of `len` bytes -/
  | SendClient2VNC (j : Fin k) (len : Nat)
  /-- the rest of the process opens or closes a socket -/
  | openOther (fd : Nat)
  | closeOther (fd : Nat)
deriving DecidableEq

/-! ## the threads of the server -/

def Closer.action : Closer h → Tcp.Action h k
  | .main => .main
  | .handler i => .handler i
  | .sender => .sender

/-- the descriptor whose `OnClose` a thread is in -/
def Closer.closing (s : Tcp.State h k) : Closer h → Option Nat
  | .main =>
    match s.main with
    | .OnClose fd _ => some fd
    | _ => none
  | .handler i =>
    match s.handler i with
    | .OnClose fd _ => some fd
    | _ => none
  | .sender =>
    match s.sender with
    | .OnClose fd => some fd
    | _ => none

namespace State

def goto (s : State h k) (j : Fin k) (pc : SendPc) : State h k :=
  { s with send := Function.update s.send j pc }

def setClose (s : State h k) (x : Closer h) (pc : ClosePc) : State h k :=
  { s with close := Function.update s.close x pc }

def Own (s : State h k) : Tcp.Action h k → Prop
  | .accept fd => s.other fd = none
  | .OnAccept _ | .call .. => False
  | .main => Closer.main.closing s.server = none
  | .handler i => (Closer.handler i).closing s.server = none
  | .sender => Closer.sender.closing s.server = none
  | .event .. | .recv _ | .send _ | .caller _ => True

instance (s : State h k) : ∀ a, Decidable (s.Own a)
  | .accept fd => inferInstanceAs (Decidable (s.other fd = none))
  | .OnAccept _ | .call .. => .isFalse id
  | .main | .handler _ | .sender => inferInstanceAs (Decidable (_ = none))
  | .event .. | .recv _ | .send _ | .caller _ => .isTrue trivial

def OnDisconnect (s : State h k) : Tcp.Action h k → Option Client
  | .main =>
    match s.server.main with
    | .OnDisconnect fd _ =>
      s.mpVNCClient.map fun c => if c.fd = some fd then { c with isOnline := false } else c
    | _ => s.mpVNCClient
  | _ => s.mpVNCClient

/-- what has the descriptor -/
def socket (s : State h k) (fd : Nat) : Option Socket :=
  if (s.server.slot fd).isOpen then some (.vnc (s.server.conn fd))
  else (s.other fd).map .other

/-- `send` has written bytes of a frame -/
def writes (s : State h k) : Tcp.Action h k → List (Conn × Socket)
  | .send (.sent _) =>
    match s.server.sender with
    | .send m _ => (s.socket m.fd).toList.map fun x => (m.conn, x)
    | _ => []
  | _ => []

def stepServer (s : State h k) (a : Tcp.Action h k) : Option (State h k) :=
  if s.Own a then
    (s.server.step a).map fun server =>
      { s with
        server := server
        mpVNCClient := s.OnDisconnect a
        written := s.written ++ s.writes a }
  else none

def accepted (s : State h k) (ret : Bool) : Option (State h k) :=
  (s.server.step (.OnAccept ret)).map fun server => { s with server := server }

def OnAccept (s : State h k) : Option (State h k) :=
  match s.server.main with
  | .OnAccept fd =>
    match s.accept with
    | .check =>
      match s.mpVNCClient with
      | none => some { s with accept := .new }
      | some _ => s.accepted false
    | .new =>
      some { s with mpVNCClient := some ⟨none, false, 0, false⟩, accept := .fd }
    | .fd =>
      some { s with
        mpVNCClient := s.mpVNCClient.map fun c =>
          { c with conn := some (s.server.conn fd) }
        accept := .isOnline }
    | .isOnline =>
      accepted { s with
        mpVNCClient := s.mpVNCClient.map fun c => { c with isOnline := true }
        accept := .check } true
  | _ => none

def closed (s : State h k) (x : Closer h) : Option (State h k) :=
  (s.server.step x.action).map fun server => { s with server := server }

def OnClose (s : State h k) (x : Closer h) : Option (State h k) :=
  match x.closing s.server with
  | some fd =>
    match s.close x with
    | .check =>
      if s.mpVNCClient.any fun c => c.fd = some fd then some (s.setClose x .delete) else s.closed x
    | .delete =>
      some (setClose { s with
        mpVNCClient := s.mpVNCClient.map fun c => { c with deleted := true } } x .setNull)
    | .setNull => (setClose { s with mpVNCClient := none } x .check).closed x
  | none => none

/-! ## `SendClient2VNC` -/

/-- there is an object behind `mpVNCClient` -/
def found (s : State h k) : Bool := s.mpVNCClient.any fun c => !c.deleted

def deref (s : State h k) : State h k := { s with derefs := s.derefs ++ [s.found] }

def SendClient2VNC (s : State h k) (j : Fin k) (len : Nat) : Option (State h k) :=
  match s.send j with
  | .free => some (s.goto j .check)
  | .check => some (s.goto j (if s.mpVNCClient = none then .free else .isOnline))
  | .isOnline => some (s.deref.goto j (if s.mpVNCClient.any Client.isOnline then .popIdle else .free))
  | .popIdle =>
    match s.server.mIdleMessageList with
    | [] => some (s.goto j .free)
    | m :: l => some ({ s with server := { s.server with mIdleMessageList := l } }.goto j (.addSeq m))
  | .addSeq m =>
    some (goto { s.deref with
      mpVNCClient := s.mpVNCClient.map fun c =>
        { c with miPacketSendSeq := c.miPacketSendSeq + 1 } } j (.lock m))
  | .lock m => if s.locked = none then some ({ s with locked := some j }.goto j (.fd m)) else none
  | .fd m =>
    match s.mpVNCClient.bind Client.conn with
    | some c =>
      some (goto { s.deref with
        server := s.server.setCaller j (.count { m with fd := c.1, gen := c.2, len := len }) } j .queue)
    -- the arrays have no entry -1, the frame is not followed
    | none => some (s.deref.goto j .unlock)
  | .queue => if s.server.caller j = .free then some (s.goto j .unlock) else none
  | .unlock => some ({ s with locked := none }.goto j .free)

/-! ## the process -/

def openOther (s : State h k) (fd : Nat) : Option (State h k) :=
  if s.socket fd = none then
    some { s with other := Function.update s.other fd (some s.others), others := s.others + 1 }
  else none

def closeOther (s : State h k) (fd : Nat) : Option (State h k) :=
  some { s with other := Function.update s.other fd none }

def step (s : State h k) : Action h k → Option (State h k)
  | .server a => s.stepServer a
  | .OnAccept => s.OnAccept
  | .OnClose x => s.OnClose x
  | .SendClient2VNC j len => s.SendClient2VNC j len
  | .openOther fd => s.openOther fd
  | .closeOther fd => s.closeOther fd

/-! ## the property and the condition -/

/-- no dereference was of NULL or of a deleted `Client`, and what was written of a frame went to the
VNC connection it was made for -/
structure Kept (s : State h k) : Prop where
  derefs : ∀ b ∈ s.derefs, b = true
  written : ∀ w ∈ s.written, w.2 = .vnc w.1

/-- a thread of the server is between `delete mpVNCClient` and `mpVNCClient = NULL` -/
def Deleting (s : State h k) : Prop := ∃ x, s.close x = .setNull

theorem deleting_iff (s : State h k) :
    (s.close .main = .setNull ∨ s.close .sender = .setNull ∨ ∃ i, s.close (.handler i) = .setNull) ↔
      s.Deleting := by
  refine ⟨?_, fun ⟨x, hx⟩ => ?_⟩
  · rintro (hx | hx | ⟨i, hx⟩)
    · exact ⟨_, hx⟩
    · exact ⟨_, hx⟩
    · exact ⟨_, hx⟩
  · cases x with
    | main => exact .inl hx
    | sender => exact .inr (.inl hx)
    | handler i => exact .inr (.inr ⟨i, hx⟩)

instance (s : State h k) : Decidable s.Deleting := decidable_of_iff _ s.deleting_iff

/-- `OnClose` deletes the `Client` only while no thread is between its check and its last dereference,
no thread makes its check between the deletion and `mpVNCClient = NULL`, and the steps of `TcpServer`
are `Calm` -/
def Ok (s : State h k) : Action h k → Prop
  | .server a => s.server.Calm a
  | .OnClose x => s.close x = .delete → ∀ j, (s.send j).inside = false
  | .SendClient2VNC j _ => s.send j = .check → ¬ s.Deleting
  | .OnAccept | .openOther _ | .closeOther _ => True

instance (s : State h k) : ∀ a, Decidable (s.Ok a)
  | .server a => inferInstanceAs (Decidable (s.server.Calm a))
  | .OnClose _ | .SendClient2VNC .. => inferInstanceAs (Decidable (_ → _))
  | .OnAccept | .openOther _ | .closeOther _ => .isTrue trivial

end State

end VncProxy.Peer
