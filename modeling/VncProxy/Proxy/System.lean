import VncProxy.Http.DataHttpParser
import VncProxy.Proxy.Front

/-!
# The two servers and the link between them

`TcpProxyServer` with its HTTP clients (`Front`), its sessions and its `mpVNCClient`, and
`HttpProxyServer` with its parsers and its HttpRequests.  The connections of `HttpProxyServer` are
numbered, `TcpProxyServer` accepts them in this order.

* `State.SendClient2VNC`, `State.ReturnVNC2Client`, `State.OnParseCmd`;
* `State.OnRecvProxyBuffer`, `State.OnRecvProxyDisconnect`, `State.onReceiveBody`, `State.onFinish`;
* `State.step`          one step of the system;
* `State.step_cases`    what it does, as far as the invariants have to know it (`State.Step`);
* `State.step_front`    what it is for the HTTP clients: a `Front.Move`, or nothing.

Commands are read whole and in the order they were written.  A frame goes to the connection
that `mpVNCClient` stands for and is lost where `HttpProxyServer` has left that connection.  A step
that would follow a NULL `mpVNCClient`, or look for a client that is not in `mClientMap`, is not in
the model.
-/

namespace VncProxy.Proxy

/-- `mRequestTaskMap` is given by its keys -/
structure Session where
  client : Client
  mRequestTaskMap : List CInt
deriving DecidableEq

def Session.InsertRequestTask (s : Session) (seq : CInt) : Session :=
  if seq ∈ s.mRequestTaskMap then s
  else { s with mRequestTaskMap := s.mRequestTaskMap ++ [seq] }

theorem Session.InsertRequestTask_client (ss : Session) (seq : CInt) :
    (ss.InsertRequestTask seq).client = ss.client := by
  unfold Session.InsertRequestTask
  split <;> rfl

theorem Session.mem_InsertRequestTask {ss : Session} {seq seq' : CInt}
    (h : seq' ∈ (ss.InsertRequestTask seq).mRequestTaskMap) :
    seq' ∈ ss.mRequestTaskMap ∨ seq' = seq := by
  unfold Session.InsertRequestTask at h
  split at h
  · exact Or.inl h
  · rcases List.mem_append.mp h with h | h
    · exact Or.inl h
    · exact Or.inr (List.mem_singleton.mp h)

theorem Session.InsertRequestTask_self (ss : Session) (seq : CInt) :
    seq ∈ (ss.InsertRequestTask seq).mRequestTaskMap := by
  unfold Session.InsertRequestTask
  split
  · assumption
  · exact List.mem_append_right _ (List.mem_singleton_self seq)

theorem Session.InsertRequestTask_mono (ss : Session) (seq : CInt) {seq' : CInt}
    (h : seq' ∈ ss.mRequestTaskMap) : seq' ∈ (ss.InsertRequestTask seq).mRequestTaskMap := by
  unfold Session.InsertRequestTask
  split
  · exact h
  · exact List.mem_append_left _ h

/-- the `Client` of the connection `link` -/
structure VNCClient where
  link : Nat
  isOnline : Bool
  miPacketSendSeq : CInt
deriving DecidableEq

/-- `fed` is a ghost: the chunks given to `ParseData`, with their connections -/
structure Parser where
  parser : DataHttpParser
  fed : List (Nat × Chunk)

/-- the connections whose bytes were given to a parser -/
def Parser.src (p : Parser) : List Nat := p.fed.map Prod.fst

theorem Parser.src_ne_nil {p : Parser} {l : List (Nat × Chunk)} {x : Nat × Chunk}
    (hp : p.fed = l ++ [x]) : p.src ≠ [] := by
  unfold Parser.src
  rw [hp, List.map_append]
  exact List.append_ne_nil_of_right_ne_nil _ (List.cons_ne_nil _ _)

/-- an HttpRequest; `src` holds the connections of the bytes it was started from -/
structure Request where
  fd : Nat
  seq : CInt
  src : List Nat
deriving DecidableEq

/-- a command of `SendProxyBuffer` or `SendProxyDisconnect` on its way -/
inductive Command where
  | proxy (fd : Nat) (seq : CInt) (src : List Nat) (param : List Byte)
  | disconnect (fd : Nat) (src : List Nat)
deriving DecidableEq

/-- a payload that `ReturnVNC2Client` has queued: the connection that has `sm->fd`, and the
connections whose bytes started the HttpRequest -/
structure Reply where
  holder : Option Nat
  src : List Nat
  param : List Byte
deriving DecidableEq

/-- a call of `mClientTcpServer.Disconnect(fd)` for a command: the connection that has `fd`, and the
connections whose HttpRequest or bytes it was sent for -/
structure Cut where
  victim : Option Nat
  src : List Nat
deriving DecidableEq

/-- `accepted` and `links` count the connections of `HttpProxyServer`, `link` is the one it uses;
`down` holds the frames it has not read, `up g` what was written on the connection `g`;
`reject` is the SendProxyDisconnect its receive thread is about to make; `replied` and `cut` are
ghosts -/
structure State (n : Nat) where
  front : Front n
  mClient2SessionMap : Nat → Option Session
  mpVNCClient : Option VNCClient
  accepted : Nat
  links : Nat
  link : Option Nat
  down : List Frame
  up : Nat → List Command
  mDataHttpParserMap : Nat → Option Parser
  requests : List Request
  reject : Option (Nat × List Nat)
  replied : List Reply
  cut : List Cut

def State.init (n mHandleSize : Nat) : State n where
  front := Front.init n mHandleSize
  mClient2SessionMap := fun _ => none
  mpVNCClient := none
  accepted := 0
  links := 0
  link := none
  down := []
  up := fun _ => []
  mDataHttpParserMap := fun _ => none
  requests := []
  reject := none
  replied := []
  cut := []

/-- `idle` says whether `PopFront` of the idle list returns a Message, `started` whether
`StartRequest` succeeds, `sent` whether `SendCommand` does -/
inductive Action (n : Nat) where
  | accept (fd : Nat)
  | recv (fd : Nat) (chunk : Chunk)
  | disconnect (fd : Nat)
  | main (idle : Bool)
  | handler (i : Fin n) (idle : Bool)
  | close (fd : Nat)
  /-- `ConnectServer` -/
  | connect
  /-- `RecvCommand` fails -/
  | linkLost
  | vncAccept
  | vncDisconnect
  | vncClose
  | recvCommand (started : Bool)
  | reject (sent : Bool)
  | receiveBody (i : Nat) (param : List Byte) (sent : Bool)
  /-- `onSuccess` or `onFail` -/
  | finish (i : Nat) (sent : Bool)
  | parseCmd (idle : Bool)
deriving DecidableEq

variable {n : Nat}

namespace State

/-! ## `TcpProxyServer` -/

/-- `mpVNCClient == NULL || !(mpVNCClient->isOnline)` does not hold -/
def online (s : State n) : Bool :=
  match s.mpVNCClient with
  | some v => v.isOnline
  | none => false

/-- the section of `mClient2SessionMap` in `SendClient2VNC` -/
def queue (s : State n) (v : VNCClient) (frame : Frame) (needReturn : Bool) : State n :=
  let session := (s.mClient2SessionMap frame.client.fd).getD ⟨frame.client, []⟩
  let session := if needReturn then session.InsertRequestTask frame.seq else session
  { s with
    mClient2SessionMap := Function.update s.mClient2SessionMap frame.client.fd (some session)
    down := if s.link = some v.link then s.down ++ [frame] else s.down }

def SendClient2VNC (s : State n) (client : Client) (src : Nat) (task : ITask) (needReturn idle : Bool) :
    SendPc → Option (State n × Result)
  | .check => some (s, if s.online then .goto .popIdle else .ret none)
  | .popIdle => some (s, if idle then .goto .addSeq else .ret none)
  | .addSeq => s.mpVNCClient.map fun v =>
    ({ s with mpVNCClient := some { v with miPacketSendSeq := v.miPacketSendSeq + 1 } },
      .goto (.queue v.miPacketSendSeq))
  | .queue seq => s.mpVNCClient.map fun v =>
    (s.queue v ⟨client, src, seq, task⟩ needReturn, .ret (some seq))

/-- a move of the HTTP clients that concerns nothing else -/
def move (s : State n) (mv : Front.Move n) : Option (State n) :=
  (s.front.step mv).map fun f => { s with front := f }

def main (s : State n) (idle : Bool) : Option (State n) :=
  match s.front.main with
  | .OnDisconnect client pc =>
    (s.SendClient2VNC client client.conn .ProxyClientDisconnectTask false idle pc).bind
      fun x => x.1.move (.main x.2)
  | .loop => none

def handler (s : State n) (i : Fin n) (idle : Bool) : Option (State n) :=
  match s.front.handler i with
  | .popFront => s.move (.pop i)
  | .find _ => s.move (.find i)
  | .send m client pc =>
    (s.SendClient2VNC client m.conn (.ProxyClientTask m.chunk) true idle pc).bind
      fun x => x.1.move (.send i x.2)

/-- `OnClose(fd)`, which deletes the session, and `close(fd)` -/
def close (s : State n) (fd : Nat) : Option (State n) :=
  (s.move (.close fd)).map fun s =>
    { s with mClient2SessionMap := Function.update s.mClient2SessionMap fd none }

def vncAccept (s : State n) : Option (State n) :=
  if s.accepted < s.links then
    match s.mpVNCClient with
    | none =>
      some { s with mpVNCClient := some ⟨s.accepted, true, 0⟩, accepted := s.accepted + 1 }
    | some _ =>
      some { s with up := Function.update s.up s.accepted [], accepted := s.accepted + 1 }
  else none

def vncDisconnect (s : State n) : Option (State n) :=
  s.mpVNCClient.map fun v => { s with mpVNCClient := some { v with isOnline := false } }

/-- `OnClose` of the VNC server; what it has not parsed of the connection is gone -/
def vncClose (s : State n) : Option (State n) :=
  match s.mpVNCClient with
  | some v =>
    if v.isOnline = false then
      some { s with mpVNCClient := none, up := Function.update s.up v.link [] }
    else none
  | none => none

def ReturnVNC2Client (s : State n) (fd : Nat) (seq : CInt) (src : List Nat) (param : List Byte)
    (idle : Bool) : State n :=
  match s.mClient2SessionMap fd with
  | some session =>
    if seq ∈ session.mRequestTaskMap ∧ idle then
      { s with replied := s.replied ++ [⟨s.front.holder session.client.fd, src, param⟩] }
    else s
  | none => s

def OnParseCmd (s : State n) (idle : Bool) : Command → State n
  | .disconnect fd src => { s with cut := s.cut ++ [⟨s.front.holder fd, src⟩] }
  | .proxy fd seq src param => s.ReturnVNC2Client fd seq src param idle

/-- the next command of the VNC connection is parsed -/
def parseCmd (s : State n) (idle : Bool) : Option (State n) :=
  match s.mpVNCClient with
  | some v =>
    match s.up v.link with
    | cmd :: l => some ({ s with up := Function.update s.up v.link l }.OnParseCmd idle cmd)
    | [] => none
  | none => none

/-! ## `HttpProxyServer` -/

def connect (s : State n) : Option (State n) :=
  if s.link = none then some { s with link := some s.links, links := s.links + 1 } else none

/-- `OnDisConnected`, which does nothing, and `Close` -/
def linkLost (s : State n) : Option (State n) :=
  if s.link ≠ none ∧ s.reject = none then some { s with link := none, down := [] } else none

def SendCommand (s : State n) (sent : Bool) (cmd : Command) : State n :=
  match s.link with
  | some g => if sent then { s with up := Function.update s.up g (s.up g ++ [cmd]) } else s
  | none => s

def OnRecvProxyBuffer (s : State n) (fd : Nat) (seq : CInt) (src : Nat) (chunk : Chunk)
    (started : Bool) : State n :=
  let p := (s.mDataHttpParserMap fd).getD ⟨.new, []⟩
  let (parser, ret) := p.parser.ParseData chunk.bytes
  let p : Parser := ⟨parser, p.fed ++ [(src, chunk)]⟩
  { s with
    mDataHttpParserMap := Function.update s.mDataHttpParserMap fd (some p)
    requests := if ret = 1 ∧ started then s.requests ++ [⟨fd, seq, p.src⟩] else s.requests
    reject := if ret = -1 then some (fd, p.src) else s.reject }

def OnRecvProxyDisconnect (s : State n) (fd : Nat) : State n :=
  { s with mDataHttpParserMap := Function.update s.mDataHttpParserMap fd none }

def OnRecvCommand (s : State n) (frame : Frame) (started : Bool) : State n :=
  match frame.task with
  | .ProxyClientTask chunk => s.OnRecvProxyBuffer frame.client.fd frame.seq frame.src chunk started
  | .ProxyClientDisconnectTask => s.OnRecvProxyDisconnect frame.client.fd

def recvCommand (s : State n) (started : Bool) : Option (State n) :=
  if s.link ≠ none ∧ s.reject = none then
    match s.down with
    | frame :: l => some ({ s with down := l }.OnRecvCommand frame started)
    | [] => none
  else none

/-- the `SendProxyDisconnect(fd)` of `OnRecvProxyBuffer` -/
def rejectStep (s : State n) (sent : Bool) : Option (State n) :=
  s.reject.map fun x => { s with reject := none }.SendCommand sent (.disconnect x.1 x.2)

/-- one command of `SendProxyBuffer` -/
def onReceiveBody (s : State n) (i : Nat) (param : List Byte) (sent : Bool) : Option (State n) :=
  s.requests[i]?.map fun r => s.SendCommand sent (.proxy r.fd r.seq r.src param)

/-- `onSuccess(request)` and `onFail(request)` -/
def onFinish (s : State n) (i : Nat) (sent : Bool) : Option (State n) :=
  s.requests[i]?.map fun r =>
    let s := { s with requests := s.requests.eraseIdx i }
    if (s.mDataHttpParserMap r.fd).isSome then s.SendCommand sent (.disconnect r.fd r.src) else s

def step (s : State n) : Action n → Option (State n)
  | .accept fd => s.move (.accept fd)
  | .recv fd chunk => s.move (.recv fd chunk)
  | .disconnect fd => s.move (.disconnect fd)
  | .main idle => s.main idle
  | .handler i idle => s.handler i idle
  | .close fd => s.close fd
  | .connect => s.connect
  | .linkLost => s.linkLost
  | .vncAccept => s.vncAccept
  | .vncDisconnect => s.vncDisconnect
  | .vncClose => s.vncClose
  | .recvCommand started => s.recvCommand started
  | .reject sent => s.rejectStep sent
  | .receiveBody i param sent => s.onReceiveBody i param sent
  | .finish i sent => s.onFinish i sent
  | .parseCmd idle => s.parseCmd idle

/-! ## what a step does -/

/-- what a step of `SendClient2VNC` comes to -/
def result (s : State n) (idle : Bool) : SendPc → Option Result
  | .check => some (if s.online then .goto .popIdle else .ret none)
  | .popIdle => some (if idle then .goto .addSeq else .ret none)
  | .addSeq => s.mpVNCClient.map fun v => .goto (.queue v.miPacketSendSeq)
  | .queue seq => s.mpVNCClient.map fun _ => .ret (some seq)

theorem result_queue {s : State n} {v : VNCClient} (hv : s.mpVNCClient = some v) {idle : Bool}
    {seq : CInt} : s.result idle (.queue seq) = some (.ret (some seq)) := by
  unfold result
  rw [hv]
  rfl

theorem result_queued {s : State n} {idle : Bool} {pc : SendPc} {seq : CInt}
    (h : s.result idle pc = some (.ret (some seq))) : pc = .queue seq := by
  cases pc with
  | check =>
    have h' := Option.some.inj h
    split at h' <;> simp at h'
  | popIdle =>
    have h' := Option.some.inj h
    split at h' <;> simp at h'
  | addSeq =>
    obtain ⟨v, _, h'⟩ := Option.map_eq_some_iff.mp h
    exact absurd h' (by simp)
  | queue seq' =>
    obtain ⟨v, _, h'⟩ := Option.map_eq_some_iff.mp h
    injection h' with h'
    rw [Option.some.inj h']

theorem result_failed {s : State n} {idle : Bool} {pc : SendPc}
    (h : s.result idle pc = some (.ret none)) :
    (pc = .check ∧ s.online = false) ∨ (pc = .popIdle ∧ idle = false) := by
  cases pc with
  | check =>
    left
    have h' := Option.some.inj h
    by_cases ho : s.online = true
    · rw [if_pos ho] at h'
      exact absurd h' (by simp)
    · exact ⟨rfl, Bool.not_eq_true _ ▸ ho⟩
  | popIdle =>
    right
    have h' := Option.some.inj h
    by_cases hi : idle = true
    · rw [if_pos hi] at h'
      exact absurd h' (by simp)
    · exact ⟨rfl, Bool.not_eq_true _ ▸ hi⟩
  | addSeq =>
    obtain ⟨v, _, h'⟩ := Option.map_eq_some_iff.mp h
    exact absurd h' (by simp)
  | queue seq =>
    obtain ⟨v, _, h'⟩ := Option.map_eq_some_iff.mp h
    exact absurd h' (by simp)

inductive Moves (s : State n) : Action n → Front.Move n → Prop
  | accept (fd : Nat) : Moves s (.accept fd) (.accept fd)
  | recv (fd : Nat) (chunk : Chunk) : Moves s (.recv fd chunk) (.recv fd chunk)
  | disconnect (fd : Nat) : Moves s (.disconnect fd) (.disconnect fd)
  | main {client : Client} {pc : SendPc} {idle : Bool} {r : Result}
      (hm : s.front.main = .OnDisconnect client pc) (hr : s.result idle pc = some r) :
      Moves s (.main idle) (.main r)
  | pop (i : Fin n) (idle : Bool) : Moves s (.handler i idle) (.pop i)
  | find (i : Fin n) (idle : Bool) : Moves s (.handler i idle) (.find i)
  | send {i : Fin n} {m : Item} {client : Client} {pc : SendPc} {idle : Bool} {r : Result}
      (hi : s.front.handler i = .send m client pc) (hr : s.result idle pc = some r) :
      Moves s (.handler i idle) (.send i r)
  | close (fd : Nat) : Moves s (.close fd) (.close fd)

/-- a move that neither queues a frame nor closes a connection -/
def Plain : Front.Move n → Prop
  | .close _ | .main (.ret (some _)) | .send _ (.ret (some _)) => False
  | _ => True

theorem Plain.ne_close {mv : Front.Move n} (h : Plain mv) (fd : Nat) : mv ≠ .close fd := by
  rintro rfl
  exact h

/-- `up` differs from `s.up` by `cmd` at most, on the connection in use -/
def Written (s : State n) (up : Nat → List Command) (cmd : Command) : Prop :=
  ∀ g, ∀ x ∈ up g, x ∈ s.up g ∨ (x = cmd ∧ s.link = some g)

inductive Step (s : State n) : Action n → State n → Prop
  /-- `SendClient2VNC` may have taken a seq from `mpVNCClient` -/
  | move {a : Action n} {mv : Front.Move n} {f : Front n} (v : Option VNCClient) (hmv : s.Moves a mv)
      (hplain : Plain mv) (hf : s.front.step mv = some f) :
      Step s a { s with front := f, mpVNCClient := v }
  | queueChunk {i : Fin n} {idle : Bool} {m : Item} {client : Client} {seq : CInt} {v : VNCClient}
      (hi : s.front.handler i = .send m client (.queue seq)) (hv : s.mpVNCClient = some v) :
      Step s (.handler i idle) { s.queue v ⟨client, m.conn, seq, .ProxyClientTask m.chunk⟩ true with
        front := s.front.forwarded i m client seq }
  | queueDisconnect {idle : Bool} {client : Client} {seq : CInt} {v : VNCClient}
      (hm : s.front.main = .OnDisconnect client (.queue seq)) (hv : s.mpVNCClient = some v) :
      Step s (.main idle) { s.queue v ⟨client, client.conn, seq, .ProxyClientDisconnectTask⟩ false with
        front := s.front.left client (some seq) }
  | close {fd : Nat} {f : Front n} (hf : s.front.step (.close fd) = some f) :
      Step s (.close fd) { s with
        front := f
        mClient2SessionMap := Function.update s.mClient2SessionMap fd none }
  | connect (h : s.link = none) :
      Step s .connect { s with link := some s.links, links := s.links + 1 }
  | linkLost (h : s.reject = none) : Step s .linkLost { s with link := none, down := [] }
  /-- the VNC server accepts, disconnects or closes -/
  | vnc {a : Action n} (v : Option VNCClient) (accepted : Nat) {up : Nat → List Command}
      (ha : a = .vncAccept ∨ a = .vncDisconnect ∨ a = .vncClose)
      (hup : ∀ g, ∀ x ∈ up g, x ∈ s.up g) :
      Step s a { s with mpVNCClient := v, accepted := accepted, up := up }
  /-- a parser gets a chunk, and what comes of it has the connections of that parser -/
  | feed {started : Bool} {frame : Frame} {l : List Frame} {chunk : Chunk} {p : Parser}
      {requests : List Request} {reject : Option (Nat × List Nat)} (hl : s.down = frame :: l)
      (ht : frame.task = .ProxyClientTask chunk)
      (hp : p.fed = ((s.mDataHttpParserMap frame.client.fd).getD ⟨.new, []⟩).fed
        ++ [(frame.src, chunk)])
      (hrequests : requests = s.requests ∨
        requests = s.requests ++ [⟨frame.client.fd, frame.seq, p.src⟩])
      (hreject : reject = none ∨ reject = some (frame.client.fd, p.src)) :
      Step s (.recvCommand started) { s with
        down := l
        mDataHttpParserMap := Function.update s.mDataHttpParserMap frame.client.fd (some p)
        requests := requests
        reject := reject }
  /-- a parser is deleted -/
  | forget {started : Bool} {frame : Frame} {l : List Frame} (hl : s.down = frame :: l)
      (ht : frame.task = .ProxyClientDisconnectTask) :
      Step s (.recvCommand started) { s with
        down := l
        mDataHttpParserMap := Function.update s.mDataHttpParserMap frame.client.fd none }
  | reject {sent : Bool} {fd : Nat} {src : List Nat} {up : Nat → List Command}
      (hx : s.reject = some (fd, src)) (hup : s.Written up (.disconnect fd src)) :
      Step s (.reject sent) { s with reject := none, up := up }
  | body {i : Nat} {param : List Byte} {sent : Bool} {r : Request} {up : Nat → List Command}
      (hr : r ∈ s.requests) (hup : s.Written up (.proxy r.fd r.seq r.src param)) :
      Step s (.receiveBody i param sent) { s with up := up }
  /-- the Disconnect is only sent if the descriptor has a parser -/
  | finish {i : Nat} {sent : Bool} {r : Request} {up : Nat → List Command}
      (hr : s.requests[i]? = some r) (hup : s.Written up (.disconnect r.fd r.src))
      (hparser : (s.mDataHttpParserMap r.fd).isSome = true ∨ up = s.up) :
      Step s (.finish i sent) { s with requests := s.requests.eraseIdx i, up := up }
  | cut {idle : Bool} {g fd : Nat} {src : List Nat} {l : List Command}
      (hl : s.up g = .disconnect fd src :: l) :
      Step s (.parseCmd idle) { s with
        up := Function.update s.up g l
        cut := s.cut ++ [⟨s.front.holder fd, src⟩] }
  | reply {idle : Bool} {g fd : Nat} {seq : CInt} {src : List Nat} {param : List Byte}
      {l : List Command} {ss : Session} (hl : s.up g = .proxy fd seq src param :: l)
      (hss : s.mClient2SessionMap fd = some ss) (hseq : seq ∈ ss.mRequestTaskMap) :
      Step s (.parseCmd idle) { s with
        up := Function.update s.up g l
        replied := s.replied ++ [⟨s.front.holder ss.client.fd, src, param⟩] }
  | skip {idle : Bool} {g : Nat} {cmd : Command} {l : List Command} (hl : s.up g = cmd :: l) :
      Step s (.parseCmd idle) { s with up := Function.update s.up g l }

/-- **What one step of `SendClient2VNC` does**: it queues the frame, or it takes a seq at most. -/
theorem SendClient2VNC_eq {s s' : State n} {client : Client} {src : Nat} {task : ITask}
    {needReturn idle : Bool} {pc : SendPc} {r : Result}
    (h : s.SendClient2VNC client src task needReturn idle pc = some (s', r)) :
    s.result idle pc = some r ∧
      ((∃ v, s' = { s with mpVNCClient := v } ∧ ∀ seq, r ≠ .ret (some seq)) ∨
        ∃ v seq, s.mpVNCClient = some v ∧ pc = .queue seq ∧ r = .ret (some seq) ∧
          s' = s.queue v ⟨client, src, seq, task⟩ needReturn) := by
  cases pc with
  | check =>
    obtain ⟨rfl, rfl⟩ := Prod.mk.inj (Option.some.inj h)
    refine ⟨rfl, Or.inl ⟨s.mpVNCClient, rfl, fun seq => ?_⟩⟩
    split <;> simp
  | popIdle =>
    obtain ⟨rfl, rfl⟩ := Prod.mk.inj (Option.some.inj h)
    refine ⟨rfl, Or.inl ⟨s.mpVNCClient, rfl, fun seq => ?_⟩⟩
    split <;> simp
  | addSeq =>
    obtain ⟨v, hv, he⟩ := Option.map_eq_some_iff.mp h
    obtain ⟨rfl, rfl⟩ := Prod.mk.inj he
    exact ⟨Option.map_eq_some_iff.mpr ⟨v, hv, rfl⟩, Or.inl ⟨_, rfl, fun _ => by simp⟩⟩
  | queue seq =>
    obtain ⟨v, hv, he⟩ := Option.map_eq_some_iff.mp h
    obtain ⟨rfl, rfl⟩ := Prod.mk.inj he
    exact ⟨Option.map_eq_some_iff.mpr ⟨v, hv, rfl⟩, Or.inr ⟨v, seq, hv, rfl, rfl, rfl⟩⟩

theorem move_eq {s s' : State n} {mv : Front.Move n} (h : s.move mv = some s') :
    ∃ f, s.front.step mv = some f ∧ s' = { s with front := f } := by
  obtain ⟨f, hf, rfl⟩ := Option.map_eq_some_iff.mp h
  exact ⟨f, hf, rfl⟩

theorem step_move {s s' : State n} {a : Action n} {mv : Front.Move n} (hmv : s.Moves a mv)
    (hplain : Plain mv) (h : s.move mv = some s') : s.Step a s' := by
  obtain ⟨f, hf, rfl⟩ := move_eq h
  exact .move s.mpVNCClient hmv hplain hf

theorem step_main {s s' : State n} {idle : Bool} (h : s.main idle = some s') :
    s.Step (.main idle) s' := by
  unfold State.main at h
  split at h
  · rename_i client pc hm
    obtain ⟨⟨s₁, r⟩, h1, h2⟩ := Option.bind_eq_some_iff.mp h
    obtain ⟨f, hf, rfl⟩ := move_eq h2
    obtain ⟨hr, ⟨v, rfl, hne⟩ | ⟨v, seq, hv, rfl, rfl, rfl⟩⟩ := SendClient2VNC_eq h1
    · refine .move v (.main hm hr) ?_ hf
      rcases r with pc' | _ | seq
      · exact trivial
      · exact trivial
      · exact absurd rfl (hne seq)
    · rw [show (s.queue v _ false).front = s.front from rfl, Front.step_left hm] at hf
      obtain rfl := Option.some.inj hf
      exact .queueDisconnect hm hv
  · exact absurd h (by simp)

theorem step_handler {s s' : State n} {i : Fin n} {idle : Bool} (h : s.handler i idle = some s') :
    s.Step (.handler i idle) s' := by
  unfold State.handler at h
  split at h
  · exact step_move (.pop i idle) trivial h
  · exact step_move (.find i idle) trivial h
  · rename_i m client pc hi
    obtain ⟨⟨s₁, r⟩, h1, h2⟩ := Option.bind_eq_some_iff.mp h
    obtain ⟨f, hf, rfl⟩ := move_eq h2
    obtain ⟨hr, ⟨v, rfl, hne⟩ | ⟨v, seq, hv, rfl, rfl, rfl⟩⟩ := SendClient2VNC_eq h1
    · refine .move v (.send hi hr) ?_ hf
      rcases r with pc' | _ | seq
      · exact trivial
      · exact trivial
      · exact absurd rfl (hne seq)
    · rw [show (s.queue v _ true).front = s.front from rfl, Front.step_forwarded hi] at hf
      obtain rfl := Option.some.inj hf
      exact .queueChunk hi hv

theorem step_close {s s' : State n} {fd : Nat} (h : s.close fd = some s') :
    s.Step (.close fd) s' := by
  obtain ⟨t, ht, rfl⟩ := Option.map_eq_some_iff.mp h
  obtain ⟨f, hf, rfl⟩ := move_eq ht
  exact .close hf

theorem step_connect {s s' : State n} (h : s.connect = some s') : s.Step .connect s' := by
  unfold State.connect at h
  split at h
  · obtain rfl := Option.some.inj h
    exact .connect ‹_›
  · exact absurd h (by simp)

theorem step_linkLost {s s' : State n} (h : s.linkLost = some s') : s.Step .linkLost s' := by
  unfold State.linkLost at h
  split at h
  · rename_i hc
    obtain rfl := Option.some.inj h
    exact .linkLost hc.2
  · exact absurd h (by simp)

theorem mem_update_up {up : Nat → List Command} {g g' : Nat} {l : List Command} {cmd : Command}
    (hl : ∀ x ∈ l, x ∈ up g') (h : cmd ∈ Function.update up g' l g) : cmd ∈ up g := by
  by_cases hg : g = g'
  · subst hg
    rw [Function.update_self] at h
    exact hl cmd h
  · rwa [Function.update_of_ne hg] at h

theorem step_vncAccept {s s' : State n} (h : s.vncAccept = some s') : s.Step .vncAccept s' := by
  unfold State.vncAccept at h
  split at h
  · split at h
    · obtain rfl := Option.some.inj h
      exact .vnc _ _ (Or.inl rfl) fun _ _ => id
    · obtain rfl := Option.some.inj h
      exact .vnc s.mpVNCClient _ (Or.inl rfl) fun _ _ => mem_update_up (by simp)
  · exact absurd h (by simp)

theorem step_vncDisconnect {s s' : State n} (h : s.vncDisconnect = some s') :
    s.Step .vncDisconnect s' := by
  obtain ⟨v, _, rfl⟩ := Option.map_eq_some_iff.mp h
  exact .vnc _ s.accepted (Or.inr (Or.inl rfl)) fun _ _ => id

theorem step_vncClose {s s' : State n} (h : s.vncClose = some s') : s.Step .vncClose s' := by
  unfold State.vncClose at h
  split at h
  · split at h
    · obtain rfl := Option.some.inj h
      exact .vnc none s.accepted (Or.inr (Or.inr rfl)) fun _ _ => mem_update_up (by simp)
    · exact absurd h (by simp)
  · exact absurd h (by simp)

theorem OnRecvProxyBuffer_eq (s : State n) (fd : Nat) (seq : CInt) (src : Nat) (chunk : Chunk)
    (started : Bool) : ∃ p : Parser, ∃ requests reject,
    p.fed = ((s.mDataHttpParserMap fd).getD ⟨.new, []⟩).fed ++ [(src, chunk)] ∧
      (requests = s.requests ∨ requests = s.requests ++ [⟨fd, seq, p.src⟩]) ∧
      (reject = s.reject ∨ reject = some (fd, p.src)) ∧
      s.OnRecvProxyBuffer fd seq src chunk started = { s with
        mDataHttpParserMap := Function.update s.mDataHttpParserMap fd (some p)
        requests := requests
        reject := reject } := by
  refine ⟨_, _, _, ?_, ?_, ?_, rfl⟩
  · rfl
  · split
    · exact Or.inr rfl
    · exact Or.inl rfl
  · split
    · exact Or.inr rfl
    · exact Or.inl rfl

theorem step_recvCommand {s s' : State n} {started : Bool} (h : s.recvCommand started = some s') :
    s.Step (.recvCommand started) s' := by
  unfold State.recvCommand at h
  split at h
  · rename_i hc
    split at h
    · rename_i frame l hl
      obtain rfl := Option.some.inj h
      unfold OnRecvCommand
      cases ht : frame.task with
      | ProxyClientTask chunk =>
        obtain ⟨p, requests, reject, hp, hrequests, hreject, he⟩ := OnRecvProxyBuffer_eq
          { s with down := l } frame.client.fd frame.seq frame.src chunk started
        dsimp only
        rw [he]
        exact .feed hl ht hp hrequests (hc.2 ▸ hreject)
      | ProxyClientDisconnectTask => exact .forget hl ht
    · exact absurd h (by simp)
  · exact absurd h (by simp)

theorem ReturnVNC2Client_eq (s : State n) (fd : Nat) (seq : CInt) (src : List Nat)
    (param : List Byte) (idle : Bool) :
    (∃ ss, s.mClient2SessionMap fd = some ss ∧ seq ∈ ss.mRequestTaskMap ∧
      s.ReturnVNC2Client fd seq src param idle = { s with
        replied := s.replied ++ [⟨s.front.holder ss.client.fd, src, param⟩] }) ∨
    s.ReturnVNC2Client fd seq src param idle = s := by
  unfold ReturnVNC2Client
  split
  · rename_i ss hss
    split
    · rename_i hseq
      exact Or.inl ⟨ss, hss, hseq.1, rfl⟩
    · exact Or.inr rfl
  · exact Or.inr rfl

theorem step_parseCmd {s s' : State n} {idle : Bool} (h : s.parseCmd idle = some s') :
    s.Step (.parseCmd idle) s' := by
  unfold State.parseCmd at h
  split at h
  · split at h
    · rename_i v _ _ cmd l hl
      obtain rfl := Option.some.inj h
      cases cmd with
      | disconnect fd src => exact .cut hl
      | proxy fd seq src param =>
        show s.Step _ (ReturnVNC2Client _ fd seq src param idle)
        rcases ReturnVNC2Client_eq { s with up := Function.update s.up v.link l } fd seq src param
          idle with ⟨ss, hss, hseq, he⟩ | he
        · rw [he]
          exact .reply hl hss hseq
        · rw [he]
          exact .skip hl
    · exact absurd h (by simp)
  · exact absurd h (by simp)

theorem SendCommand_eq (s : State n) (sent : Bool) (cmd : Command) :
    ∃ up, s.SendCommand sent cmd = { s with up := up } ∧ s.Written up cmd := by
  have hsame : s.Written s.up cmd := fun _ _ hx => Or.inl hx
  unfold SendCommand
  split
  · rename_i g hg
    split
    · refine ⟨_, rfl, fun g' x hx => ?_⟩
      by_cases hgg : g' = g
      · subst hgg
        rw [Function.update_self] at hx
        rcases List.mem_append.mp hx with hx | hx
        · exact Or.inl hx
        · exact Or.inr ⟨List.mem_singleton.mp hx, hg⟩
      · rw [Function.update_of_ne hgg] at hx
        exact Or.inl hx
    · exact ⟨s.up, rfl, hsame⟩
  · exact ⟨s.up, rfl, hsame⟩

theorem step_reject {s s' : State n} {sent : Bool} (h : s.rejectStep sent = some s') :
    s.Step (.reject sent) s' := by
  obtain ⟨⟨fd, src⟩, hx, rfl⟩ := Option.map_eq_some_iff.mp h
  obtain ⟨up, he, hup⟩ := SendCommand_eq { s with reject := none } sent (.disconnect fd src)
  rw [he]
  exact .reject hx hup

theorem step_receiveBody {s s' : State n} {i : Nat} {param : List Byte} {sent : Bool}
    (h : s.onReceiveBody i param sent = some s') : s.Step (.receiveBody i param sent) s' := by
  obtain ⟨r, hr, rfl⟩ := Option.map_eq_some_iff.mp h
  obtain ⟨up, he, hup⟩ := s.SendCommand_eq sent (.proxy r.fd r.seq r.src param)
  rw [he]
  exact .body (List.mem_of_getElem? hr) hup

theorem step_finish {s s' : State n} {i : Nat} {sent : Bool} (h : s.onFinish i sent = some s') :
    s.Step (.finish i sent) s' := by
  obtain ⟨r, hr, rfl⟩ := Option.map_eq_some_iff.mp h
  dsimp only
  split
  · rename_i hparser
    obtain ⟨up, he, hup⟩ := SendCommand_eq { s with requests := s.requests.eraseIdx i } sent
      (.disconnect r.fd r.src)
    rw [he]
    exact .finish hr hup (Or.inl hparser)
  · exact .finish hr (fun _ _ hx => Or.inl hx) (Or.inr rfl)

/-- **What a step of the system does.** -/
theorem step_cases {s s' : State n} {a : Action n} (h : s.step a = some s') : s.Step a s' := by
  cases a with
  | accept fd => exact step_move (.accept fd) trivial h
  | recv fd chunk => exact step_move (.recv fd chunk) trivial h
  | disconnect fd => exact step_move (.disconnect fd) trivial h
  | main idle => exact step_main h
  | handler i idle => exact step_handler h
  | close fd => exact step_close h
  | connect => exact step_connect h
  | linkLost => exact step_linkLost h
  | vncAccept => exact step_vncAccept h
  | vncDisconnect => exact step_vncDisconnect h
  | vncClose => exact step_vncClose h
  | recvCommand started => exact step_recvCommand h
  | reject sent => exact step_reject h
  | receiveBody i param sent => exact step_receiveBody h
  | finish i sent => exact step_finish h
  | parseCmd idle => exact step_parseCmd h

/-! ## what a step is for the HTTP clients -/

/-- **For the HTTP clients a step is one of the moves the action stands for, or nothing.** -/
theorem step_front {s s' : State n} {a : Action n} (h : s.step a = some s') :
    s'.front = s.front ∨ ∃ mv, s.Moves a mv ∧ s.front.step mv = some s'.front := by
  cases step_cases h with
  | move v hmv _ hf => exact Or.inr ⟨_, hmv, hf⟩
  | queueChunk hi hv =>
    exact Or.inr ⟨_, .send hi (result_queue hv), Front.step_forwarded hi _⟩
  | queueDisconnect hm hv =>
    exact Or.inr ⟨_, .main hm (result_queue hv), Front.step_left hm _⟩
  | close hf => exact Or.inr ⟨_, .close _, hf⟩
  | connect | linkLost | vnc | feed | forget | reject | body | finish | cut | reply | skip =>
    exact Or.inl rfl

/-- an invariant of the HTTP clients, with a condition on the moves -/
theorem front_inv {s s' : State n} {a : Action n} {I : Front n → Prop}
    {P : Front n → Front.Move n → Prop}
    (hstep : ∀ mv f, s.front.step mv = some f → P s.front mv → I f) (hs : I s.front)
    (hok : ∀ mv, s.Moves a mv → P s.front mv) (h : s.step a = some s') : I s'.front := by
  rcases step_front h with he | ⟨mv, hmv, hf⟩
  · rwa [he]
  · exact hstep mv _ hf (hok mv hmv)

/-! ## the numbers of the links -/

structure Linked (s : State n) : Prop where
  link : ∀ g, s.link = some g → g < s.links
  up : ∀ g cmd, cmd ∈ s.up g → g < s.links

theorem Linked.init (n mHandleSize : Nat) : (State.init n mHandleSize).Linked where
  link _ h := absurd h (by simp [State.init])
  up _ _ h := absurd h List.not_mem_nil

theorem Linked.congr {s t : State n} (hs : s.Linked) (hlink : t.link = s.link)
    (hlinks : t.links = s.links) (hup : ∀ g cmd, cmd ∈ t.up g → ∃ cmd', cmd' ∈ s.up g) :
    t.Linked := by
  refine ⟨fun g h => ?_, fun g cmd h => ?_⟩
  · rw [hlinks]
    exact hs.link g (hlink ▸ h)
  · rw [hlinks]
    obtain ⟨cmd', h'⟩ := hup g cmd h
    exact hs.up g cmd' h'

theorem Linked.written {s t : State n} (hs : s.Linked) {cmd : Command} (hup : s.Written t.up cmd)
    (hlink : t.link = s.link) (hlinks : t.links = s.links) : t.Linked := by
  refine ⟨fun g h => ?_, fun g x h => ?_⟩
  · rw [hlinks]
    exact hs.link g (hlink ▸ h)
  · rw [hlinks]
    rcases hup g x h with h | ⟨_, hg⟩
    · exact hs.up g x h
    · exact hs.link g hg

theorem mem_up_tail {s : State n} {g g' : Nat} {cmd x : Command} {l : List Command}
    (hl : s.up g = cmd :: l) (hx : x ∈ Function.update s.up g l g') : x ∈ s.up g' :=
  mem_update_up (fun _ hy => hl ▸ List.mem_cons_of_mem _ hy) hx

theorem Linked.step {s s' : State n} {a : Action n} (hs : s.Linked) (h : s.step a = some s') :
    s'.Linked := by
  cases step_cases h with
  | move | queueChunk | queueDisconnect | close | feed | forget =>
    exact hs.congr rfl rfl fun g cmd hcmd => ⟨cmd, hcmd⟩
  | connect h =>
    refine ⟨fun g hg => ?_, fun g cmd hcmd => Nat.lt_succ_of_lt (hs.up g cmd hcmd)⟩
    rw [← Option.some.inj hg]
    exact Nat.lt_succ_self _
  | linkLost h => exact ⟨fun g hg => absurd (show none = some g from hg) (by simp), hs.up⟩
  | vnc v accepted ha hup => exact hs.congr rfl rfl fun g cmd hcmd => ⟨cmd, hup g cmd hcmd⟩
  | reject hx hup => exact hs.written hup rfl rfl
  | body hr hup => exact hs.written hup rfl rfl
  | finish hr hup hparser => exact hs.written hup rfl rfl
  | cut hl => exact hs.congr rfl rfl fun g cmd hcmd => ⟨cmd, mem_up_tail hl hcmd⟩
  | reply hl => exact hs.congr rfl rfl fun g cmd hcmd => ⟨cmd, mem_up_tail hl hcmd⟩
  | skip hl => exact hs.congr rfl rfl fun g cmd hcmd => ⟨cmd, mem_up_tail hl hcmd⟩

end State

end VncProxy.Proxy
