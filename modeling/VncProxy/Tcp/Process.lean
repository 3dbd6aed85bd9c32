import VncProxy.Lib.Run
import VncProxy.Tcp.Frame

/-!
# Two servers in one process

`TcpProxyServer::Run` starts two servers.  Each allocates `mpCloseRecv`, `mpHandlingMessageCount`,
`mpPacketSeqRecv` and `mpPacketSeqSend` with `2 * maxConnection` entries and indexes them by the number
`accept` has returned, -1 included.

* `State.accesses`   the entries a step of one server reads or writes;
* `Process`          the two servers and the descriptors that are open in the process;
* `Process.step`     one step; the first access outside the arrays ends the run (`outside`);
* `Event.Fits`       the condition: `accept` does not fail, its number is below the size, and no
                     Message is queued with a number that is not set.
-/

namespace VncProxy.Tcp

variable {h k : Nat}

/-! ## the accesses of one server -/

inductive PerConnection where
  | mpCloseRecv
  | mpHandlingMessageCount
  | mpPacketSeqRecv
  | mpPacketSeqSend
deriving DecidableEq

/-- the sections of `OnDisconnect` and `CloseSocketIfNeedByHandleThread` -/
def closeAccesses (fd : Nat) : List (PerConnection × Nat) :=
  [(.mpHandlingMessageCount, fd), (.mpCloseRecv, fd)]

def MainPc.accesses : MainPc → List (PerConnection × Nat)
  | .resetCount fd => [(.mpCloseRecv, fd), (.mpHandlingMessageCount, fd)]
  | .resetSeqRecv fd => [(.mpPacketSeqRecv, fd)]
  | .resetSeqSend fd => [(.mpPacketSeqSend, fd)]
  | .count fd _ => [(.mpHandlingMessageCount, fd)]
  | .seq fd _ => [(.mpPacketSeqRecv, fd)]
  | .closeIfNeed fd _ => closeAccesses fd
  | _ => []

def HandlerPc.accesses : HandlerPc → List (PerConnection × Nat)
  | .closeIfNeed m => closeAccesses m.fd
  | _ => []

def SenderPc.accesses : SenderPc → List (PerConnection × Nat)
  | .closeIfNeed _ fd => closeAccesses fd
  | _ => []

/-- `SendMessageByQueue` -/
def CallerPc.accesses : CallerPc → List (PerConnection × Nat)
  | .count m => [(.mpHandlingMessageCount, m.fd)]
  | .seq m => [(.mpPacketSeqSend, m.fd)]
  | _ => []

def State.accesses (s : State h k) : Action h k → List (PerConnection × Nat)
  | .main => s.main.accesses
  | .handler i => (s.handler i).accesses
  | .sender => s.sender.accesses
  | .caller j => (s.caller j).accesses
  | .accept _ | .event .. | .OnAccept _ | .recv _ | .send _ | .call .. => []

/-- the descriptor that a step gives to `close` -/
def State.closes (s : State h k) : Action h k → Option Nat
  | .main =>
    match s.main with
    | .close fd _ => some fd
    | _ => none
  | .handler i =>
    match s.handler i with
    | .close fd _ => some fd
    | _ => none
  | .sender =>
    match s.sender with
    | .close fd => some fd
    | _ => none
  | _ => none

/-- `accept` has returned `fd`; `if( client == 0 ) return;` -/
def State.accepted (s : State h k) (fd : Nat) : State h k :=
  let s' := s.setSlot fd (s.slot fd).accept
  if fd = 0 then s' else s'.setMain (.resetCount fd)

/-! ## the process -/

inductive ServerName where
  | mClientTcpServer
  | mClientTcpVNCServer
deriving DecidableEq

/-- the `maxConnection` that `Run` gives to `Start` -/
def ServerName.maxConnection (miMaxClient : Nat) : ServerName → Nat
  | .mClientTcpServer => miMaxClient
  | .mClientTcpVNCServer => 2

/-- `failed` says that `accept` has returned -1 and the main thread goes on with it -/
structure Server (h k : Nat) where
  maxConnection : Nat
  threads : State h k
  failed : Bool

/-- what `accept` comes to; after `error` the errno is neither `EAGAIN` nor `EWOULDBLOCK` -/
inductive AcceptRet where
  | client (fd : Nat)
  | again
  | error
deriving DecidableEq

inductive Event (h k : Nat) where
  | accept (x : ServerName) (ret : AcceptRet)
  /-- a step of a thread, which is not `accept` -/
  | thread (x : ServerName) (a : Action h k)
  /-- `SendClient2VNC` queues a Message with the `fd` of a `Client` that `OnAccept` has made and not
  given its number yet, -1 -/
  | sendUnset (j : Fin k)
  /-- the rest of the process opens or closes a descriptor -/
  | openOther (fd : Nat)
  | closeOther (fd : Nat)
deriving DecidableEq

/-- `isOpen` is the descriptor table; `outside` says that an access was outside its array, behind
which the program has no meaning -/
structure Process (h k : Nat) where
  server : ServerName → Server h k
  isOpen : Nat → Bool
  outside : Bool

/-- `others` are the descriptors that are open when the servers have started -/
def Process.init (h k miMaxClient handleSize : Nat) (junk : ServerName → Nat → Int × Bool × Nat × Nat)
    (others : Nat → Bool) : Process h k where
  server := fun x =>
    ⟨x.maxConnection miMaxClient,
      State.init h k 10000 (2 * x.maxConnection miMaxClient) handleSize (junk x), false⟩
  isOpen := others
  outside := false

/-- the indices a step of a thread uses; behind a failed `accept` they are -1 -/
def Server.indices (s : Server h k) (a : Action h k) : List Int :=
  if s.failed ∧ a = .main then [-1] else (s.threads.accesses a).map fun x => (x.2 : Int)

def Server.InRange (s : Server h k) (i : Int) : Prop := 0 ≤ i ∧ i < (2 * s.maxConnection : Nat)

instance (s : Server h k) (i : Int) : Decidable (s.InRange i) := inferInstanceAs (Decidable (_ ∧ _))

/-- the step of a thread; `SendMessageByQueue` may be called for any number that `accept` has returned,
also when the connection has been closed since -/
def Server.thread (s : Server h k) : Action h k → Option (State h k)
  | .accept _ => none
  | .call j fd len =>
    if fd ≠ 0 ∧ 0 < (s.threads.slot fd).gen then s.threads.callAny j fd len else none
  | .event fd error => if s.failed then none else s.threads.event fd error
  | a => s.threads.step a

namespace Process

def setServer (p : Process h k) (x : ServerName) (s : Server h k) : Process h k :=
  { p with server := Function.update p.server x s }

def accept (p : Process h k) (x : ServerName) (ret : AcceptRet) : Option (Process h k) :=
  if (p.server x).threads.main = .loop ∧ (p.server x).failed = false then
    match ret with
    | .client fd =>
      if p.isOpen fd = false then
        some { p.setServer x { p.server x with threads := (p.server x).threads.accepted fd } with
          isOpen := Function.update p.isOpen fd true }
      else none
    | .again => some p
    | .error => some (p.setServer x { p.server x with failed := true })
  else none

def thread (p : Process h k) (x : ServerName) (a : Action h k) : Option (Process h k) :=
  if ∀ i ∈ (p.server x).indices a, (p.server x).InRange i then
    ((p.server x).thread a).map fun threads =>
      { p.setServer x { p.server x with threads := threads } with
        isOpen := match (p.server x).threads.closes a with
          | some fd => Function.update p.isOpen fd false
          | none => p.isOpen }
  else some { p with outside := true }

def sendUnset (p : Process h k) (j : Fin k) : Option (Process h k) :=
  match (p.server .mClientTcpVNCServer).threads.main with
  | .OnAccept _ =>
    if (p.server .mClientTcpVNCServer).threads.caller j = .free then some { p with outside := true }
    else none
  | _ => none

def step (p : Process h k) (e : Event h k) : Option (Process h k) :=
  if p.outside then none
  else
    match e with
    | .accept x ret => p.accept x ret
    | .thread x a => p.thread x a
    | .sendUnset j => p.sendUnset j
    | .openOther fd =>
      if p.isOpen fd = false then some { p with isOpen := Function.update p.isOpen fd true } else none
    | .closeOther fd => some { p with isOpen := Function.update p.isOpen fd false }

end Process

/-- `accept` does not fail, the number it returns is below the size of the arrays (0 is never used as
an index), and no Message is queued with a number that is not set -/
def Event.Fits (miMaxClient : Nat) : Event h k → Prop
  | .accept x (.client fd) => fd = 0 ∨ fd < 2 * x.maxConnection miMaxClient
  | .accept _ .error | .sendUnset _ => False
  | _ => True

instance (miMaxClient : Nat) : ∀ e : Event h k, Decidable (e.Fits miMaxClient)
  | .accept _ (.client _) => inferInstanceAs (Decidable (_ ∨ _))
  | .accept _ .error | .sendUnset _ => .isFalse id
  | .accept _ .again | .thread .. | .openOther _ | .closeOther _ => .isTrue trivial

end VncProxy.Tcp
