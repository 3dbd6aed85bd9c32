import VncProxy.Proxy.Decode
import VncProxy.Proxy.Relay
import VncProxy.Tcp.Sent

/-!
# The way back of TcpProxyServer

The two `TcpServer`s of TcpProxyServer with all their threads, and the `Client` between them.  A
handler thread of the VNC server that has a chunk takes `mKMutex` in `ParseData` and has it until it has
passed every command it found to `OnParseCmd`; it is then the caller of `SendMessageByQueue` of the
HTTP server.

* `State`          both servers, the `Client` and the holder of its mutex;
* `State.step`     one step of any thread;
* `Inv`            what holds while the VNC connection `peer` brings frames of commands;
* `Inv.step`       every step that is `Calm` keeps it.
-/

namespace VncProxy.Return

open Tcp (Stream Conn Msg)

/-- a handler thread in `ParseData`, with the commands that it has still to pass to `OnParseCmd` -/
structure Holder (h : Nat) where
  thread : Fin h
  cmds : List CMD

/-- `g` and `h` are the handler threads of the HTTP and the VNC server, `k` the threads that queue for
the VNC server -/
structure State (g h k : Nat) where
  mClientTcpVNCServer : Stream h k
  mpVNCClient : Client
  mKMutex : Option (Holder h)
  mClientTcpServer : Stream g h
  /-- what `OnParseCmd` has been called with -/
  passed : List CMD
  /-- the commands that have been answered, with the connections that had their descriptors -/
  answered : List (Conn × CMD)

inductive Action (g h k : Nat) where
  /-- a thread of the VNC server outside of `OnRecvMessage` -/
  | vnc (a : Tcp.Action h k) (bytes : List Byte)
  | ParseData (i : Fin h)
  /-- `task` is what the session of the descriptor has under the seq -/
  | OnParseCmd (task : Option Chunk)
  | unlock
  /-- a thread of the HTTP server, or the holder in `SendMessageByQueue` -/
  | http (a : Tcp.Action g h) (bytes : List Byte)

variable {g h k : Nat}

/-! ## steps -/

/-- the step is one of the thread in `ParseData`, or a call of `OnRecvMessage` -/
def State.Parses (s : State g h k) (a : Tcp.Action h k) : Prop :=
  s.mClientTcpVNCServer.server.handles a ≠ [] ∨
    s.mKMutex.map (fun holder => Tcp.Action.handler (k := k) holder.thread) = some a

instance (s : State g h k) (a : Tcp.Action h k) : Decidable (s.Parses a) :=
  inferInstanceAs (Decidable (_ ∨ _))

/-- `HandleRecvVNCMessage(m)`, up to the end of `ParseData` -/
def State.parse (fuel : Nat) (s : State g h k) (i : Fin h) : Option (State g h k) :=
  match s.mKMutex, s.mClientTcpVNCServer.server.handler i with
  | none, .handle m =>
    if 0 < m.len then
      (s.mClientTcpVNCServer.step (.handler i, [])).bind fun vnc =>
        (VncProxy.ParseData fuel s.mpVNCClient
            (m.message (s.mClientTcpVNCServer.buffer m.addr))).map fun r =>
          { s with
            mClientTcpVNCServer := vnc
            mpVNCClient := r.1
            mKMutex := some ⟨i, r.1.parsed.drop s.mpVNCClient.parsed.length⟩ }
    else none
  | _, _ => none

/-- the part of `ReturnVNC2Client` behind `FindRequestTask` -/
def State.reply (s : State g h k) (i : Fin h) (cmd : CMD) (task : Chunk) : Option (State g h k) :=
  match s.mClientTcpServer.server.mIdleMessageList with
  | [] => some s
  | sm :: _ =>
    let r := (ITask.ProxyClientTask task).GetReturnData cmd (s.mClientTcpServer.buffer sm.addr) sm.len
    let data := r.2.1.take r.2.2
    let fd := cmd.header.fd.toNat
    (s.mClientTcpServer.step (.call i fd data.length, data)).map fun http =>
      { s with
        mClientTcpServer := http
        answered := s.answered ++ [(s.mClientTcpServer.server.conn fd, cmd)] }

/-- `OnParseCmd(mpVNCClient, cmd)`; `Disconnect` shuts the socket down, which is not seen here -/
def State.onParseCmd (s : State g h k) (i : Fin h) (cmd : CMD) (task : Option Chunk) :
    Option (State g h k) :=
  match cmd.header.cmdt, task with
  | .CommandTypeProxyDisconnect, _ => some s
  | _, some task => s.reply i cmd task
  | _, none => some s

/-- the holder of `mKMutex` goes on to the next command -/
def State.dispatch (s : State g h k) (task : Option Chunk) : Option (State g h k) :=
  match s.mKMutex with
  | some ⟨i, cmd :: cmds⟩ =>
    if s.mClientTcpServer.server.caller i = .free then
      State.onParseCmd { s with mKMutex := some ⟨i, cmds⟩, passed := s.passed ++ [cmd] } i cmd task
    else none
  | _ => none

def State.unlock (s : State g h k) : Option (State g h k) :=
  match s.mKMutex with
  | some ⟨i, []⟩ =>
    if s.mClientTcpServer.server.caller i = .free then some { s with mKMutex := none } else none
  | _ => none

/-- only `ReturnVNC2Client` calls `SendMessageByQueue` of the HTTP server -/
def State.stepHttp (s : State g h k) (a : Tcp.Action g h) (bytes : List Byte) :
    Option (State g h k) :=
  match a with
  | .call .. => none
  | a => (s.mClientTcpServer.step (a, bytes)).map fun http => { s with mClientTcpServer := http }

def State.step (fuel : Nat) (s : State g h k) : Action g h k → Option (State g h k)
  | .vnc a bytes =>
    if s.Parses a then none
    else (s.mClientTcpVNCServer.step (a, bytes)).map fun vnc => { s with mClientTcpVNCServer := vnc }
  | .ParseData i => s.parse fuel i
  | .OnParseCmd task => s.dispatch task
  | .unlock => s.unlock
  | .http a bytes => s.stepHttp a bytes

theorem answer_data {cmd : CMD} (task : Chunk) (buffer : List Byte) (len : Nat) (hsized : cmd.Sized)
    (hpos : 0 < cmd.param.length) :
    let r := (ITask.ProxyClientTask task).GetReturnData cmd buffer len
    r.2.1.take r.2.2 = cmd.param := by
  have hlen : cmd.header.len.toInt.toNat = cmd.param.length := by
    rw [hsized]
    rfl
  have hpos' : 0 < cmd.header.len.toInt := by
    rw [hsized]
    exact_mod_cast hpos
  unfold ITask.GetReturnData
  dsimp only
  rw [if_pos hpos', hlen, List.take_length]
  exact memcpy_take_self buffer cmd.param

inductive State.Step (fuel : Nat) (s : State g h k) : Action g h k → State g h k → Prop
  | vnc (a : Tcp.Action h k) (bytes : List Byte) (vnc : Stream h k) (hparses : ¬ s.Parses a)
      (hstep : s.mClientTcpVNCServer.Step (a, bytes) vnc) :
      s.Step fuel (.vnc a bytes) { s with mClientTcpVNCServer := vnc }
  | parse (i : Fin h) (m : Msg) (vnc : Stream h k) (r : Client × Int) (hmutex : s.mKMutex = none)
      (hm : s.mClientTcpVNCServer.server.handler i = .handle m) (hlen : 0 < m.len)
      (hstep : s.mClientTcpVNCServer.Step (.handler i, []) vnc)
      (hparse : VncProxy.ParseData fuel s.mpVNCClient
        (m.message (s.mClientTcpVNCServer.buffer m.addr)) = some r) :
      s.Step fuel (.ParseData i) { s with
        mClientTcpVNCServer := vnc
        mpVNCClient := r.1
        mKMutex := some ⟨i, r.1.parsed.drop s.mpVNCClient.parsed.length⟩ }
  /-- a Disconnect, or no session, no task or no idle Message -/
  | skip (i : Fin h) (cmd : CMD) (cmds : List CMD) (task : Option Chunk)
      (hmutex : s.mKMutex = some ⟨i, cmd :: cmds⟩)
      (hfree : s.mClientTcpServer.server.caller i = .free) :
      s.Step fuel (.OnParseCmd task) { s with
        mKMutex := some ⟨i, cmds⟩
        passed := s.passed ++ [cmd] }
  | reply (i : Fin h) (cmd : CMD) (cmds : List CMD) (task : Chunk) (sm : Msg) (idle : List Msg)
      (http : Stream g h) (data : List Byte) (hmutex : s.mKMutex = some ⟨i, cmd :: cmds⟩)
      (hfree : s.mClientTcpServer.server.caller i = .free)
      (hcmdt : cmd.header.cmdt ≠ .CommandTypeProxyDisconnect)
      (hidle : s.mClientTcpServer.server.mIdleMessageList = sm :: idle)
      (hdata : cmd.Sized → 0 < cmd.param.length → data = cmd.param)
      (hstep : s.mClientTcpServer.Step (.call i cmd.header.fd.toNat data.length, data) http) :
      s.Step fuel (.OnParseCmd (some task)) { s with
        mKMutex := some ⟨i, cmds⟩
        mClientTcpServer := http
        passed := s.passed ++ [cmd]
        answered := s.answered ++ [(s.mClientTcpServer.server.conn cmd.header.fd.toNat, cmd)] }
  | unlock (i : Fin h) (hmutex : s.mKMutex = some ⟨i, []⟩)
      (hfree : s.mClientTcpServer.server.caller i = .free) :
      s.Step fuel .unlock { s with mKMutex := none }
  | http (a : Tcp.Action g h) (bytes : List Byte) (http : Stream g h)
      (hcall : ∀ j fd len, a ≠ .call j fd len) (hstep : s.mClientTcpServer.Step (a, bytes) http) :
      s.Step fuel (.http a bytes) { s with mClientTcpServer := http }

theorem step_cases {fuel : Nat} {s s' : State g h k} {a : Action g h k}
    (hstep : s.step fuel a = some s') : s.Step fuel a s' := by
  cases a with
  | vnc a bytes =>
    change (if s.Parses a then none else _) = _ at hstep
    split at hstep
    · cases hstep
    · next hparses =>
      obtain ⟨vnc, hvnc, rfl⟩ := Option.map_eq_some_iff.mp hstep
      exact .vnc a bytes vnc hparses (Stream.step_cases hvnc)
  | ParseData i =>
    change s.parse fuel i = _ at hstep
    unfold State.parse at hstep
    split at hstep
    · next m hmutex hm =>
      split at hstep
      · next hlen =>
        obtain ⟨vnc, hvnc, hstep⟩ := Option.bind_eq_some_iff.mp hstep
        obtain ⟨r, hparse, rfl⟩ := Option.map_eq_some_iff.mp hstep
        exact .parse i m vnc r hmutex hm hlen (Stream.step_cases hvnc) hparse
      · cases hstep
    · cases hstep
  | OnParseCmd task =>
    change s.dispatch task = _ at hstep
    unfold State.dispatch at hstep
    split at hstep
    · next i cmd cmds hmutex =>
      split at hstep
      · next hfree =>
        unfold State.onParseCmd at hstep
        split at hstep
        · obtain rfl := Option.some.inj hstep
          exact .skip i cmd cmds _ hmutex hfree
        · next task hcmdt =>
          unfold State.reply at hstep
          split at hstep
          · obtain rfl := Option.some.inj hstep
            exact .skip i cmd cmds _ hmutex hfree
          · next sm idle hidle =>
            obtain ⟨http, hhttp, rfl⟩ := Option.map_eq_some_iff.mp hstep
            exact .reply i cmd cmds task sm idle http _ hmutex hfree hcmdt hidle
              (answer_data task _ _) (Stream.step_cases hhttp)
        · obtain rfl := Option.some.inj hstep
          exact .skip i cmd cmds none hmutex hfree
      · cases hstep
    · cases hstep
  | unlock =>
    change s.unlock = _ at hstep
    unfold State.unlock at hstep
    split at hstep
    · next i hmutex =>
      split at hstep
      · next hfree =>
        obtain rfl := Option.some.inj hstep
        exact .unlock i hmutex hfree
      · cases hstep
    · cases hstep
  | http a bytes =>
    change s.stepHttp a bytes = _ at hstep
    unfold State.stepHttp at hstep
    cases a with
    | call => cases hstep
    | accept | event | OnAccept | recv | main | handler | send | sender | caller =>
      obtain ⟨http, hhttp, rfl⟩ := Option.map_eq_some_iff.mp hstep
      exact .http _ bytes http (fun _ _ _ he => by cases he) (Stream.step_cases hhttp)

end VncProxy.Return
