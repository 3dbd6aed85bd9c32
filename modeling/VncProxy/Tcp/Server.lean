import Mathlib.Logic.Function.Basic
import VncProxy.Wire.Command

/-!
# The threads of `TcpServer`

The main thread (`Accept_Callback`, `Recv_Callback`, `OnDisconnect`), `h` handler threads
(`HandleRunnable::onRun`), the send thread (`SendMessageImmediately`) and `k` other threads that
call `SendMessageByQueue`.  The steps are the sections under a mutex, the single `MessageList`
operations, the callbacks and the system calls; an `Action` says which thread moves and what the
kernel or the observer answers.  `accept` is taken to succeed, and every descriptor to be below
`2 * maxConnection`, the size of the four arrays (4 in the VNC server): `slot` has an entry for every
number, and `Tcp.Bounds` is about the indices.

* `Slot`      the entries of index `fd` of the arrays, and what is known of the connection that
              `accept` gave this number last (`isOpen` to `closes`, which no code reads);
* `Msg`       a Message; `gen` says which of the connections with its `fd` it belongs to;
* `MainPc`, `HandlerPc`, `SenderPc`, `CallerPc`  where a thread stands;
* `State.step`  one step.
-/

namespace VncProxy.Tcp

structure Slot where
  mpHandlingMessageCount : Int
  mpCloseRecv : Bool
  mpPacketSeqRecv : Nat
  mpPacketSeqSend : Nat
  /-- a watcher calls `Recv_Callback` for it -/
  watched : Bool
  isOpen : Bool
  /-- the number of times `accept` has returned it -/
  gen : Nat
  /-- `Accept_Callback` has set the counter to 0 -/
  counted : Bool
  /-- `OnAccept` has been called, other threads know it -/
  known : Bool
  /-- the section of `OnDisconnect` has run -/
  disconnected : Bool
  /-- one of the two sections has set `bClose` -/
  decided : Bool
  onCloses : Nat
  closes : Nat
deriving DecidableEq

/-- `addr` stands for the pointer -/
structure Msg where
  addr : Nat
  fd : Nat
  gen : Nat
  len : Nat
  seq : Nat
deriving DecidableEq

/-- the main thread; each place is before the operation it is named after -/
inductive MainPc where
  | loop
  /-- `accept` has returned -/
  | resetCount (fd : Nat)
  | resetSeqRecv (fd : Nat)
  | resetSeqSend (fd : Nat)
  | OnAccept (fd : Nat)
  | watch (fd : Nat)
  | refuse (fd : Nat)
  /-- the loop of `Recv_Callback`, `error` is `revents & EV_ERROR` -/
  | popIdle (fd : Nat) (error : Bool)
  | recv (fd : Nat) (m : Msg) (error : Bool)
  | handleSize (fd : Nat) (m : Msg)
  | OnTimeoutMessage (fd : Nat) (m : Msg)
  | timeoutIdle (fd : Nat) (m : Msg)
  | count (fd : Nat) (m : Msg)
  | seq (fd : Nat) (m : Msg)
  | push (fd : Nat) (m : Msg)
  | againIdle (fd : Nat) (m : Msg)
  /-- `OnDisconnect` -/
  | StopEvio (fd : Nat) (m : Msg)
  | OnDisconnect (fd : Nat) (m : Option Msg)
  | closeIfNeed (fd : Nat) (m : Option Msg)
  | OnClose (fd : Nat) (m : Option Msg)
  | close (fd : Nat) (m : Option Msg)
  | idle (m : Option Msg)
deriving DecidableEq

inductive HandlerPc where
  | popFront
  | handle (m : Msg)
  | closeIfNeed (m : Msg)
  | OnClose (fd : Nat) (m : Msg)
  | close (fd : Nat) (m : Msg)
  | idle (m : Msg)
deriving DecidableEq

inductive SenderPc where
  | popFront
  | send (m : Msg) (index : Nat)
  | OnSendMessage (m : Msg)
  | Disconnect (m : Msg)
  | idle (m : Msg)
  /-- before the argument `m->fd` is read; `m` has been given back -/
  | readFd (m : Msg)
  | closeIfNeed (m : Msg) (fd : Nat)
  | OnClose (fd : Nat)
  | close (fd : Nat)
deriving DecidableEq

/-- a thread that calls `SendMessageByQueue(m)` -/
inductive CallerPc where
  | free
  | count (m : Msg)
  | seq (m : Msg)
  | push (m : Msg)
deriving DecidableEq

structure State (h k : Nat) where
  mIdleMessageList : List Msg
  mHandleMessageList : List Msg
  mSendImmediatelyMessageList : List Msg
  mHandleSize : Nat
  mWatcherList : Nat
  slot : Nat → Slot
  main : MainPc
  handler : Fin h → HandlerPc
  sender : SenderPc
  caller : Fin k → CallerPc

/-- what `recv` returns; after `closed` it is 0 and after `again`, `error` -1 -/
inductive RecvRet where
  | data (ret : Nat)
  | closed
  | again
  | error
deriving DecidableEq

inductive SendRet where
  | sent (ret : Nat)
  | closed
  | again
  | error
deriving DecidableEq

inductive Action (h k : Nat) where
  /-- `accept` returns `fd` -/
  | accept (fd : Nat)
  /-- the loop calls `Recv_Callback` -/
  | event (fd : Nat) (error : Bool)
  | OnAccept (ret : Bool)
  | recv (ret : RecvRet)
  | main
  | handler (i : Fin h)
  | send (ret : SendRet)
  | sender
  /-- another thread has a reply of `len` bytes for the connection -/
  | call (j : Fin k) (fd len : Nat)
  | caller (j : Fin k)
deriving DecidableEq

variable {h k : Nat}

/-! ## the parts of the state -/

def State.setSlot (s : State h k) (fd : Nat) (sl : Slot) : State h k :=
  { s with slot := Function.update s.slot fd sl }
def State.setMain (s : State h k) (pc : MainPc) : State h k := { s with main := pc }
def State.setHandler (s : State h k) (i : Fin h) (pc : HandlerPc) : State h k :=
  { s with handler := Function.update s.handler i pc }
def State.setSender (s : State h k) (pc : SenderPc) : State h k := { s with sender := pc }
def State.setCaller (s : State h k) (j : Fin k) (pc : CallerPc) : State h k :=
  { s with caller := Function.update s.caller j pc }

/-- `GetIdleMessageList()->PushBack(m)` -/
def State.pushIdle (s : State h k) (m : Msg) : State h k :=
  { s with mIdleMessageList := s.mIdleMessageList ++ [m] }

def MainPc.holds : MainPc → List Msg
  | .recv _ m _ | .handleSize _ m | .OnTimeoutMessage _ m | .timeoutIdle _ m | .count _ m | .seq _ m
  | .push _ m | .againIdle _ m | .StopEvio _ m => [m]
  | .OnDisconnect _ m | .closeIfNeed _ m | .OnClose _ m | .close _ m | .idle m => m.toList
  | _ => []

def HandlerPc.holds : HandlerPc → List Msg
  | .popFront => []
  | .handle m | .closeIfNeed m | .OnClose _ m | .close _ m | .idle m => [m]

def CallerPc.holds : CallerPc → List Msg
  | .free => []
  | .count m | .seq m | .push m => [m]

/-- where the object at an address can be found when the send thread does not hold it -/
def State.messages (s : State h k) : List Msg :=
  s.mIdleMessageList ++ s.mHandleMessageList ++ s.mSendImmediatelyMessageList ++ s.main.holds ++
    (List.ofFn s.handler).flatMap HandlerPc.holds ++ (List.ofFn s.caller).flatMap CallerPc.holds

/-- the read of `m->fd` through a pointer that the thread no longer owns -/
def State.readFd (s : State h k) (m : Msg) : Nat :=
  match s.messages.find? (·.addr == m.addr) with
  | some m' => m'.fd
  | none => m.fd

/-! ## sections -/

/-- `accept` hands out a number that is free -/
def Slot.accept (sl : Slot) : Slot :=
  { sl with
    isOpen := true
    gen := sl.gen + 1
    counted := false
    known := false
    disconnected := false
    decided := false
    onCloses := 0
    closes := 0 }

/-- `mpCloseRecv[client] = false; mpHandlingMessageCount[client] = 0` -/
def Slot.resetCount (sl : Slot) : Slot :=
  { sl with mpCloseRecv := false, mpHandlingMessageCount := 0, counted := true }

def Slot.count (sl : Slot) : Slot :=
  { sl with mpHandlingMessageCount := sl.mpHandlingMessageCount + 1 }

/-- the section of `CloseSocketIfNeedByHandleThread`, with `bClose` -/
def Slot.CloseSocketIfNeedByHandleThread (sl : Slot) : Bool × Slot :=
  let sl := { sl with mpHandlingMessageCount := sl.mpHandlingMessageCount - 1 }
  if sl.mpHandlingMessageCount = 0 then
    if sl.mpCloseRecv then (true, { sl with decided := true }) else (false, sl)
  else (false, sl)

/-- the section of `OnDisconnect`, with `bClose` -/
def Slot.OnDisconnect (sl : Slot) : Bool × Slot :=
  let sl := { sl with disconnected := true }
  if sl.mpHandlingMessageCount = 0 then (true, { sl with decided := true })
  else (false, { sl with mpCloseRecv := true })

def Slot.OnClose (sl : Slot) : Slot := { sl with onCloses := sl.onCloses + 1 }

def Slot.close (sl : Slot) : Slot := { sl with closes := sl.closes + 1, isOpen := false }

/-! ## the main thread -/

def State.accept (s : State h k) (fd : Nat) : Option (State h k) :=
  if s.main = .loop ∧ (s.slot fd).isOpen = false then
    let s' := s.setSlot fd (s.slot fd).accept
    -- `if( client == 0 ) return;`
    some (if fd = 0 then s' else s'.setMain (.resetCount fd))
  else none

def State.event (s : State h k) (fd : Nat) (error : Bool) : Option (State h k) :=
  if s.main = .loop ∧ (s.slot fd).watched = true then some (s.setMain (.popIdle fd error))
  else none

def State.onAccept (s : State h k) (ret : Bool) : Option (State h k) :=
  match s.main with
  | .OnAccept fd => some (s.setMain (if ret then .watch fd else .refuse fd))
  | _ => none

/-- `if( ret != MAX_BUFFER_LEN - 1 ) break;` -/
def MainPc.next (fd : Nat) (m : Msg) : MainPc :=
  if m.len ≠ MAX_BUFFER_LEN - 1 then .loop else .popIdle fd false

def State.recv (s : State h k) (ret : RecvRet) : Option (State h k) :=
  match s.main with
  | .recv fd m false =>
    match ret with
    | .data n =>
      if 1 ≤ n ∧ n ≤ MAX_BUFFER_LEN - 1 then some (s.setMain (.handleSize fd { m with len := n }))
      else none
    | .closed => some (s.setMain (.StopEvio fd m))
    | .again => some (s.setMain (.againIdle fd m))
    | .error => some (s.setMain (.StopEvio fd m))
  | _ => none

/-- the steps of the main thread that depend on nothing else -/
def State.stepMain (s : State h k) : Option (State h k) :=
  match s.main with
  | .resetCount fd =>
    some ((s.setSlot fd (s.slot fd).resetCount).setMain (.resetSeqRecv fd))
  | .resetSeqRecv fd =>
    some ((s.setSlot fd { s.slot fd with mpPacketSeqRecv := 0 }).setMain (.resetSeqSend fd))
  | .resetSeqSend fd =>
    some ((s.setSlot fd { s.slot fd with mpPacketSeqSend := 0, known := true }).setMain
      (.OnAccept fd))
  | .watch fd =>
    if 0 < s.mWatcherList then
      some ({ s.setSlot fd { s.slot fd with watched := true } with
        mWatcherList := s.mWatcherList - 1 }.setMain .loop)
    else some (s.setMain (.refuse fd))
  | .refuse fd => some (s.setMain (.OnDisconnect fd none))
  | .popIdle fd error =>
    match s.mIdleMessageList with
    | [] => some s
    | m :: l =>
      -- `m->Reset(); m->fd = fd;`
      some ({ s with mIdleMessageList := l }.setMain
        (.recv fd { m with fd := fd, gen := (s.slot fd).gen, len := 0, seq := 0 } error))
  | .recv fd m true => some (s.setMain (.StopEvio fd m))
  | .handleSize fd m =>
    if 0 < s.mHandleSize ∧ s.mHandleSize < s.mHandleMessageList.length then
      some (s.setMain (.OnTimeoutMessage fd m))
    else some (s.setMain (.count fd m))
  | .OnTimeoutMessage fd m => some (s.setMain (.timeoutIdle fd m))
  | .timeoutIdle fd m => some ((s.pushIdle m).setMain (.next fd m))
  | .count fd m => some ((s.setSlot fd (s.slot fd).count).setMain (.seq fd m))
  | .seq fd m =>
    let seq := (s.slot fd).mpPacketSeqRecv
    some ((s.setSlot fd { s.slot fd with mpPacketSeqRecv := seq + 1 }).setMain
      (.push fd { m with seq := seq }))
  | .push fd m =>
    some ({ s with mHandleMessageList := s.mHandleMessageList ++ [m] }.setMain (.next fd m))
  | .againIdle _ m => some ((s.pushIdle m).setMain .loop)
  | .StopEvio fd m =>
    some ({ s.setSlot fd { s.slot fd with watched := false } with
      mWatcherList := s.mWatcherList + 1 }.setMain (.OnDisconnect fd (some m)))
  | .OnDisconnect fd m => some (s.setMain (.closeIfNeed fd m))
  | .closeIfNeed fd m =>
    let r := (s.slot fd).OnDisconnect
    some ((s.setSlot fd r.2).setMain (if r.1 then .OnClose fd m else .idle m))
  | .OnClose fd m => some ((s.setSlot fd (s.slot fd).OnClose).setMain (.close fd m))
  | .close fd m => some ((s.setSlot fd (s.slot fd).close).setMain (.idle m))
  | .idle none => some (s.setMain .loop)
  | .idle (some m) => some ((s.pushIdle m).setMain .loop)
  | _ => none

/-! ## the other threads -/

def State.stepHandler (s : State h k) (i : Fin h) : Option (State h k) :=
  match s.handler i with
  | .popFront =>
    match s.mHandleMessageList with
    | [] => some s
    | m :: l => some ({ s with mHandleMessageList := l }.setHandler i (.handle m))
  | .handle m =>
    -- `OnRecvMessage(m)` if there is data, `OnSendMessage(m)` otherwise
    some (s.setHandler i (if 0 < m.len then .closeIfNeed m else .idle m))
  | .closeIfNeed m =>
    let r := (s.slot m.fd).CloseSocketIfNeedByHandleThread
    some ((s.setSlot m.fd r.2).setHandler i (if r.1 then .OnClose m.fd m else .idle m))
  | .OnClose fd m => some ((s.setSlot fd (s.slot fd).OnClose).setHandler i (.close fd m))
  | .close fd m => some ((s.setSlot fd (s.slot fd).close).setHandler i (.idle m))
  | .idle m => some ((s.pushIdle m).setHandler i .popFront)

def State.send (s : State h k) (ret : SendRet) : Option (State h k) :=
  match s.sender with
  | .send m index =>
    match ret with
    | .sent n =>
      if 1 ≤ n ∧ index + n ≤ m.len then
        some (s.setSender (if index + n = m.len then .OnSendMessage { m with len := 0 }
          else .send m (index + n)))
      else none
    | .closed => some (s.setSender (.Disconnect m))
    | .again => some s
    | .error => some (s.setSender (.Disconnect m))
  | _ => none

def State.stepSender (s : State h k) : Option (State h k) :=
  match s.sender with
  | .popFront =>
    match s.mSendImmediatelyMessageList with
    | [] => some s
    | m :: l => some ({ s with mSendImmediatelyMessageList := l }.setSender (.send m 0))
  | .OnSendMessage m => some (s.setSender (.idle m))
  | .Disconnect m => some (s.setSender (.idle m))
  | .idle m => some ((s.pushIdle m).setSender (.readFd m))
  | .readFd m => some (s.setSender (.closeIfNeed m (s.readFd m)))
  | .closeIfNeed _ fd =>
    let r := (s.slot fd).CloseSocketIfNeedByHandleThread
    some ((s.setSlot fd r.2).setSender (if r.1 then .OnClose fd else .popFront))
  | .OnClose fd => some ((s.setSlot fd (s.slot fd).OnClose).setSender (.close fd))
  | .close fd => some ((s.setSlot fd (s.slot fd).close).setSender .popFront)
  | .send .. => none

/-- a call of `SendMessageByQueue` begins between `OnAccept` and the return of `OnClose` -/
def State.call (s : State h k) (j : Fin k) (fd len : Nat) : Option (State h k) :=
  if s.caller j = .free ∧ (s.slot fd).known = true ∧ (s.slot fd).onCloses = 0 then
    match s.mIdleMessageList with
    | [] => some s
    | m :: l =>
      some ({ s with mIdleMessageList := l }.setCaller j
        (.count { m with fd := fd, gen := (s.slot fd).gen, len := len }))
  else none

def State.stepCaller (s : State h k) (j : Fin k) : Option (State h k) :=
  match s.caller j with
  | .free => none
  | .count m => some ((s.setSlot m.fd (s.slot m.fd).count).setCaller j (.seq m))
  | .seq m =>
    let seq := (s.slot m.fd).mpPacketSeqSend
    some ((s.setSlot m.fd { s.slot m.fd with mpPacketSeqSend := seq + 1 }).setCaller j
      (.push { m with seq := seq }))
  | .push m =>
    some ({ s with
      mSendImmediatelyMessageList := s.mSendImmediatelyMessageList ++ [m] }.setCaller j .free)

def State.step (s : State h k) : Action h k → Option (State h k)
  | .accept fd => s.accept fd
  | .event fd error => s.event fd error
  | .OnAccept ret => s.onAccept ret
  | .recv ret => s.recv ret
  | .main => s.stepMain
  | .handler i => s.stepHandler i
  | .send ret => s.send ret
  | .sender => s.stepSender
  | .call j fd len => s.call j fd len
  | .caller j => s.stepCaller j

/-- the state `Start` leaves, with `pool` idle Messages (10000) and `2 * maxConnection` watchers;
`junk` is what `new` left in the arrays -/
def State.init (h k pool watchers handleSize : Nat) (junk : Nat → Int × Bool × Nat × Nat) :
    State h k where
  mIdleMessageList := (List.range pool).map fun a => ⟨a, 0, 0, 0, 0⟩
  mHandleMessageList := []
  mSendImmediatelyMessageList := []
  mHandleSize := handleSize
  mWatcherList := watchers
  slot := fun fd =>
    { mpHandlingMessageCount := (junk fd).1
      mpCloseRecv := (junk fd).2.1
      mpPacketSeqRecv := (junk fd).2.2.1
      mpPacketSeqSend := (junk fd).2.2.2
      watched := false
      isOpen := false
      gen := 0
      counted := false
      known := false
      disconnected := false
      decided := false
      onCloses := 0
      closes := 0 }
  main := .loop
  handler := fun _ => .popFront
  sender := .popFront
  caller := fun _ => .free

end VncProxy.Tcp
