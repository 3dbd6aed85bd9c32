import VncProxy.Tcp.Table

/-!
# The bytes that go through `TcpServer`

The threads of `TcpServer` with the buffers of the Messages and a record of what is done with them.
An action comes with the bytes that `recv` returns or that a caller fills in.  Here a thread may call
`SendMessageByQueue` at any time and for any descriptor.

* `Stream`        the server, the buffers and the record;
* `Stream.step`   one step; `Stream.step_cases` says what it does.
-/

namespace VncProxy.Tcp

variable {h k : Nat}

/-- a descriptor and which of the connections with this number -/
abbrev Conn := Nat × Nat

/-- the connection that has the descriptor, or had it last -/
def State.conn (s : State h k) (fd : Nat) : Conn := (fd, (s.slot fd).gen)

instance (c : Conn) (l : List Conn) : Decidable (c ∈ l) :=
  inferInstanceAs (Decidable (c ∈ l))

structure Stream (h k : Nat) where
  server : State h k
  /-- `buffer[0..len)` of the Message at an address -/
  buffer : Nat → List Byte
  /-- what `recv` has returned -/
  received : List (Conn × List Byte)
  /-- the connections of the chunks that were over `mHandleSize` -/
  refused : List Conn
  /-- the Messages put in the handle list -/
  pushed : List (Msg × List Byte)
  /-- the Messages passed to `OnRecvMessage` -/
  handled : List (Msg × List Byte)
  /-- the Messages put in the send list by `SendMessageByQueue` -/
  queued : List (Msg × List Byte)
  /-- what `send` has written, with the connection that had the descriptor -/
  written : List (Conn × List Byte)
  /-- the connections of the Messages given up before all of them was written -/
  abandoned : List Conn

/-- a Message with what is in its buffer -/
def Stream.entry (s : Stream h k) (m : Msg) : Msg × List Byte := (m, s.buffer m.addr)

/-! ## what a step records -/

/-- `GetHandleMessageList()->Size() > GetHandleSize()` -/
def State.Overloaded (s : State h k) : Prop :=
  0 < s.mHandleSize ∧ s.mHandleSize < s.mHandleMessageList.length

instance (s : State h k) : Decidable s.Overloaded :=
  inferInstanceAs (Decidable (_ ∧ _))

def Action.Fits : Action h k → List Byte → Prop
  | .recv (.data ret), bytes => bytes.length = ret
  | .call _ _ len, bytes => bytes.length = len
  | _, _ => True

instance : ∀ (a : Action h k) (bytes : List Byte), Decidable (a.Fits bytes)
  | .recv (.data ret), bytes => inferInstanceAs (Decidable (bytes.length = ret))
  | .call _ _ len, bytes => inferInstanceAs (Decidable (bytes.length = len))
  | .accept _, _ | .event .., _ | .OnAccept _, _ | .recv .closed, _ | .recv .again, _
  | .recv .error, _ | .main, _ | .handler _, _ | .send _, _ | .sender, _ | .caller _, _ =>
    .isTrue trivial

/-- the address of the Message whose buffer is filled -/
def State.fills (s : State h k) : Action h k → Option Nat
  | .recv (.data _) =>
    match s.main with
    | .recv _ m _ => some m.addr
    | _ => none
  | .call .. => s.mIdleMessageList.head?.map Msg.addr
  | _ => none

def State.receives (s : State h k) : Action h k → List Conn
  | .recv (.data _) =>
    match s.main with
    | .recv fd _ _ => [s.conn fd]
    | _ => []
  | _ => []

def State.refuses (s : State h k) : Action h k → List Conn
  | .main =>
    match s.main with
    | .OnTimeoutMessage _ m => [m.conn]
    | _ => []
  | _ => []

def State.pushes (s : State h k) : Action h k → List Msg
  | .main =>
    match s.main with
    | .push _ m => [m]
    | _ => []
  | _ => []

def State.handles (s : State h k) : Action h k → List Msg
  | .handler i =>
    match s.handler i with
    | .handle m => if 0 < m.len then [m] else []
    | _ => []
  | _ => []

def State.queues (s : State h k) : Action h k → List Msg
  | .caller j =>
    match s.caller j with
    | .push m => [m]
    | _ => []
  | _ => []

/-- `send` has written bytes; a descriptor that is closed belongs to no connection -/
def Stream.writes (s : Stream h k) : Action h k → List (Conn × List Byte)
  | .send (.sent ret) =>
    match s.server.sender with
    | .send m index =>
      if (s.server.slot m.fd).isOpen then
        [(s.server.conn m.fd, ((s.buffer m.addr).drop index).take ret)]
      else []
    | _ => []
  | _ => []

/-- a Message is given up, and some of it has not been written -/
def State.abandons (s : State h k) : Action h k → List Conn
  | .send .closed | .send .error =>
    match s.sender with
    | .send m index => if index < m.len then [m.conn] else []
    | _ => []
  | _ => []

/-! ## steps -/

/-- the reply of a caller, for any descriptor and at any time -/
def State.callAny (s : State h k) (j : Fin k) (fd len : Nat) : Option (State h k) :=
  if s.caller j = .free then
    match s.mIdleMessageList with
    | [] => some s
    | m :: l =>
      some ({ s with mIdleMessageList := l }.setCaller j
        (.count { m with fd := fd, gen := (s.slot fd).gen, len := len }))
  else none

def State.stepAny (s : State h k) : Action h k → Option (State h k)
  | .call j fd len => s.callAny j fd len
  | a => s.step a

def Stream.step (s : Stream h k) (a : Action h k × List Byte) : Option (Stream h k) :=
  if a.1.Fits a.2 then
    (s.server.stepAny a.1).map fun server =>
      { server := server
        buffer := match s.server.fills a.1 with
          | some addr => Function.update s.buffer addr a.2
          | none => s.buffer
        received := s.received ++ (s.server.receives a.1).map fun c => (c, a.2)
        refused := s.refused ++ s.server.refuses a.1
        pushed := s.pushed ++ (s.server.pushes a.1).map s.entry
        handled := s.handled ++ (s.server.handles a.1).map s.entry
        queued := s.queued ++ (s.server.queues a.1).map s.entry
        written := s.written ++ s.writes a.1
        abandoned := s.abandoned ++ s.server.abandons a.1 }
  else none

def Stream.init (h k pool watchers handleSize : Nat) (junk : Nat → Int × Bool × Nat × Nat) :
    Stream h k where
  server := State.init h k pool watchers handleSize junk
  buffer := fun _ => []
  received := []
  refused := []
  pushed := []
  handled := []
  queued := []
  written := []
  abandoned := []

structure Stream.Step (s : Stream h k) (a : Action h k × List Byte) (s' : Stream h k) : Prop where
  fits : a.1.Fits a.2
  server : s.server.stepAny a.1 = some s'.server
  buffer : ∀ addr, some addr ≠ s.server.fills a.1 → s'.buffer addr = s.buffer addr
  filled : ∀ addr, some addr = s.server.fills a.1 → s'.buffer addr = a.2
  received : s'.received = s.received ++ (s.server.receives a.1).map fun c => (c, a.2)
  refused : s'.refused = s.refused ++ s.server.refuses a.1
  pushed : s'.pushed = s.pushed ++ (s.server.pushes a.1).map s.entry
  handled : s'.handled = s.handled ++ (s.server.handles a.1).map s.entry
  queued : s'.queued = s.queued ++ (s.server.queues a.1).map s.entry
  written : s'.written = s.written ++ s.writes a.1
  abandoned : s'.abandoned = s.abandoned ++ s.server.abandons a.1

theorem Stream.Step.buffer_same {s s' : Stream h k} {a : Action h k × List Byte} (hstep : s.Step a s')
    (hfills : s.server.fills a.1 = none) : s'.buffer = s.buffer := by
  funext addr
  apply hstep.buffer addr
  rw [hfills]
  exact Option.some_ne_none addr

theorem Stream.step_cases {s s' : Stream h k} {a : Action h k × List Byte}
    (hstep : s.step a = some s') : s.Step a s' := by
  unfold Stream.step at hstep
  split at hstep
  · next hfits =>
    obtain ⟨server, hserver, rfl⟩ := Option.map_eq_some_iff.mp hstep
    refine ⟨hfits, hserver, fun addr haddr => ?_, fun addr haddr => ?_, rfl, rfl, rfl, rfl, rfl, rfl,
      rfl⟩
    · cases hf : s.server.fills a.1 with
      | none => rfl
      | some addr' =>
        rw [hf] at haddr
        exact Function.update_of_ne (fun he => haddr (congrArg some he)) _ _
    · rw [← haddr]
      exact Function.update_self ..
  · cases hstep

end VncProxy.Tcp
