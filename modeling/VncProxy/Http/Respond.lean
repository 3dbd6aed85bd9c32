import VncProxy.Http.Receive
import VncProxy.Wire.Told

/-!
# The threads of HttpProxyServer

The receive thread calls `OnRecvCommand`; each HttpRequest has a thread in which libcurl reads the body
of the request and writes what comes.  All of them send on the one `TcpProxyClient`.

* `State`        the connection, the parsers, and the HttpRequests that run;
* `State.step`   one step of any thread;
* `step_cases`   what it does.
-/

namespace VncProxy.Respond

open HttpProxyServer (Alloc Outcome Server Started)

/-- at most `n` HttpRequests run at once, each in a thread of its own; the last thread of
`mTcpProxyClient` is the receive thread -/
structure State (n : Nat) where
  mTcpProxyClient : Sender (n + 1)
  server : Server
  request : Fin n → Option Started
  /-- the thread that has the mutex of `mDataHttpParserMap` in `onSuccess` or `onFail` -/
  mutex : Option (Fin n)
  /-- what `OnRecvCommand` has been called with -/
  received : List (CMD × Alloc)
  /-- what libcurl has read, and what it has written, with the descriptor of the HttpRequest -/
  uploaded : List (CInt × List Byte)
  downloaded : List (CInt × List Byte)
  /-- the descriptors that `onSuccess` or `onFail` has called `SendProxyDisconnect` with -/
  ended : List CInt

inductive Action (n : Nat) where
  /-- `t` is the thread of the HttpRequest that may be started -/
  | OnRecvCommand (cmd : CMD) (x : Alloc) (t : Fin n)
  | CurlReadHandle (t : Fin n) (size nmemb : Nat)
  | CurlWriteHandle (t : Fin n) (buffer : List Byte) (size nmemb : Nat)
  /-- `onSuccess` or `onFail`, up to `SendProxyDisconnect` -/
  | onFinish (t : Fin n)
  /-- the rest of it -/
  | unlock (t : Fin n)
  /-- a thread goes on in `SendProxyBuffer` or `SendProxyDisconnect`, or the connection is lost or made -/
  | send (m : Sender.Move (n + 1))

variable {n : Nat}

def State.init (n : Nat) : State n where
  mTcpProxyClient := Sender.init (n + 1)
  server := Server.init
  request := fun _ => none
  mutex := none
  received := []
  uploaded := []
  downloaded := []
  ended := []

/-! ## steps -/

/-- what the receive thread does with what came of a command -/
def State.follow (s : State n) (t : Fin n) : List (CInt × Outcome) → Option (State n)
  | [(_, .starts q)] =>
    if (s.request t).isNone then some { s with request := Function.update s.request t (some q) }
    else none
  | [(fd, .disconnects)] =>
    (s.mTcpProxyClient.call (Fin.last n) (.SendProxyDisconnect fd)).map fun client =>
      { s with mTcpProxyClient := client }
  | _ => some s

def State.OnRecvCommand (N : Nat) (s : State n) (cmd : CMD) (x : Alloc) (t : Fin n) : Option (State n) :=
  if s.mutex.isNone ∧ s.mTcpProxyClient.thread (Fin.last n) = .idle then
    (HttpProxyServer.OnRecvCommand N s.server cmd x).bind fun server =>
      State.follow { s with server := server, received := s.received ++ [(cmd, x)] } t
        (server.outcomes.drop s.server.outcomes.length)
  else none

/-- the HttpRequest of the thread while it is in `curl_easy_perform`, and in no callback -/
def State.performs (s : State n) (t : Fin n) : Option Started :=
  if s.mutex ≠ some t ∧ s.mTcpProxyClient.thread t.castSucc = .idle then s.request t else none

def State.CurlReadHandle (s : State n) (t : Fin n) (size nmemb : Nat) : Option (State n) :=
  (s.performs t).map fun q =>
    let r := q.request.CurlReadHandle size nmemb
    { s with
      request := Function.update s.request t (some { q with request := r.1 })
      uploaded := s.uploaded ++ [(q.fd, r.2.1)] }

/-- `HttpClient::CurlWriteHandle`, `HttpRequest::onReceiveBody` and `HttpProxyServer::onReceiveBody`;
nothing is cached -/
def State.CurlWriteHandle (s : State n) (t : Fin n) (buffer : List Byte) (size nmemb : Nat) :
    Option (State n) :=
  (s.performs t).bind fun q =>
    if buffer.length = size * nmemb then
      let len := int32 (size * nmemb : Nat)
      (s.mTcpProxyClient.call t.castSucc (.SendProxyBuffer q.seq q.fd (buffer.take len.toNat))).map
        fun client =>
          { s with
            mTcpProxyClient := client
            downloaded := s.downloaded ++ [(q.fd, buffer)] }
    else none

def State.onFinish (s : State n) (t : Fin n) : Option (State n) :=
  if s.mutex.isNone then
    (s.performs t).bind fun q =>
      match s.server.mDataHttpParserMap q.fd with
      | some _ =>
        (s.mTcpProxyClient.call t.castSucc (.SendProxyDisconnect q.fd)).map fun client =>
          { s with
            mTcpProxyClient := client
            mutex := some t
            ended := s.ended ++ [q.fd] }
      | none => some { s with mutex := some t }
  else none

/-- `mDataHttpParserMap.Unlock()` and `delete request` -/
def State.unlock (s : State n) (t : Fin n) : Option (State n) :=
  if s.mutex = some t ∧ s.mTcpProxyClient.thread t.castSucc = .idle then
    some { s with mutex := none, request := Function.update s.request t none }
  else none

def State.send (s : State n) : Sender.Move (n + 1) → Option (State n)
  | .callBuffer .. | .callDisconnect .. => none
  | m => (s.mTcpProxyClient.step m).map fun client => { s with mTcpProxyClient := client }

def State.step (N : Nat) (s : State n) : Action n → Option (State n)
  | .OnRecvCommand cmd x t => s.OnRecvCommand N cmd x t
  | .CurlReadHandle t size nmemb => s.CurlReadHandle t size nmemb
  | .CurlWriteHandle t buffer size nmemb => s.CurlWriteHandle t buffer size nmemb
  | .onFinish t => s.onFinish t
  | .unlock t => s.unlock t
  | .send m => s.send m

theorem OnRecvCommand_outcomes {N : Nat} {server server' : Server} {cmd : CMD} {x : Alloc}
    (hcall : HttpProxyServer.OnRecvCommand N server cmd x = some server') :
    server'.outcomes = server.outcomes ∨
      ∃ o, server'.outcomes = server.outcomes ++ [(cmd.header.fd, o)] ∧
        (∀ q, o = .starts q → q.fd = cmd.header.fd) ∧
        (server'.mDataHttpParserMap cmd.header.fd).isSome := by
  unfold HttpProxyServer.OnRecvCommand at hcall
  dsimp only at hcall
  split at hcall
  · obtain ⟨⟨p, o⟩, hbuffer, rfl⟩ := Option.map_eq_some_iff.mp hcall
    refine .inr ⟨o, rfl, fun q hq => ?_, ?_⟩
    · subst hq
      unfold HttpProxyServer.OnRecvProxyBuffer at hbuffer
      dsimp only at hbuffer
      split at hbuffer
      · obtain ⟨request, -, hpair⟩ := Option.map_eq_some_iff.mp hbuffer
        obtain ⟨-, hq⟩ := Prod.mk.inj hpair
        split at hq
        · rw [← Outcome.starts.inj hq]
        · cases hq
      · split at hbuffer
        · cases hbuffer
        · cases hbuffer
    · dsimp only
      rw [Function.update_self]
      rfl
  · obtain rfl := Option.some.inj hcall
    exact .inl rfl
  · obtain rfl := Option.some.inj hcall
    exact .inl rfl

/-- what a step does -/
inductive State.Step (N : Nat) (s : State n) : Action n → State n → Prop
  /-- a command that starts nothing -/
  | recv (cmd : CMD) (x : Alloc) (t : Fin n) (server : Server) (hmutex : s.mutex = none)
      (hserver : HttpProxyServer.OnRecvCommand N s.server cmd x = some server)
      (hout : server.outcomes = s.server.outcomes ∨ ∃ o, (o = .waits ∨ o = .fails) ∧
        server.outcomes = s.server.outcomes ++ [(cmd.header.fd, o)]) :
      s.Step N (.OnRecvCommand cmd x t)
        { s with server := server, received := s.received ++ [(cmd, x)] }
  | start (cmd : CMD) (x : Alloc) (t : Fin n) (server : Server) (q : Started) (hmutex : s.mutex = none)
      (hserver : HttpProxyServer.OnRecvCommand N s.server cmd x = some server)
      (hout : server.outcomes = s.server.outcomes ++ [(cmd.header.fd, .starts q)])
      (hfd : q.fd = cmd.header.fd) (hfree : s.request t = none) :
      s.Step N (.OnRecvCommand cmd x t)
        { s with
          server := server
          received := s.received ++ [(cmd, x)]
          request := Function.update s.request t (some q) }
  | reject (cmd : CMD) (x : Alloc) (t : Fin n) (server : Server) (client : Sender (n + 1))
      (hmutex : s.mutex = none)
      (hserver : HttpProxyServer.OnRecvCommand N s.server cmd x = some server)
      (hout : server.outcomes = s.server.outcomes ++ [(cmd.header.fd, .disconnects)])
      (hcall : s.mTcpProxyClient.call (Fin.last n) (.SendProxyDisconnect cmd.header.fd) = some client) :
      s.Step N (.OnRecvCommand cmd x t)
        { s with
          server := server
          received := s.received ++ [(cmd, x)]
          mTcpProxyClient := client }
  | read (t : Fin n) (size nmemb : Nat) (q : Started) (hq : s.performs t = some q) :
      s.Step N (.CurlReadHandle t size nmemb)
        { s with
          request := Function.update s.request t
            (some { q with request := (q.request.CurlReadHandle size nmemb).1 })
          uploaded := s.uploaded ++ [(q.fd, (q.request.CurlReadHandle size nmemb).2.1)] }
  | write (t : Fin n) (buffer : List Byte) (size nmemb : Nat) (q : Started) (client : Sender (n + 1))
      (hq : s.performs t = some q) (hlen : buffer.length = size * nmemb)
      (hcall : s.mTcpProxyClient.call t.castSucc (.SendProxyBuffer q.seq q.fd
        (buffer.take (int32 (size * nmemb : Nat)).toNat)) = some client) :
      s.Step N (.CurlWriteHandle t buffer size nmemb)
        { s with
          mTcpProxyClient := client
          downloaded := s.downloaded ++ [(q.fd, buffer)] }
  | finish (t : Fin n) (q : Started) (client : Sender (n + 1)) (hmutex : s.mutex = none)
      (hq : s.performs t = some q)
      (hcall : s.mTcpProxyClient.call t.castSucc (.SendProxyDisconnect q.fd) = some client) :
      s.Step N (.onFinish t)
        { s with
          mTcpProxyClient := client
          mutex := some t
          ended := s.ended ++ [q.fd] }
  /-- the client is gone -/
  | gone (t : Fin n) (q : Started) (hmutex : s.mutex = none) (hq : s.performs t = some q)
      (hparser : s.server.mDataHttpParserMap q.fd = none) :
      s.Step N (.onFinish t) { s with mutex := some t }
  | unlock (t : Fin n) (hmutex : s.mutex = some t)
      (hidle : s.mTcpProxyClient.thread t.castSucc = .idle) :
      s.Step N (.unlock t) { s with mutex := none, request := Function.update s.request t none }
  | send (m : Sender.Move (n + 1)) (client : Sender (n + 1))
      (hstep : s.mTcpProxyClient.step m = some client) :
      s.Step N (.send m) { s with mTcpProxyClient := client }

theorem performs_eq {s : State n} {t : Fin n} {q : Started} (hq : s.performs t = some q) :
    s.request t = some q ∧ s.mutex ≠ some t ∧ s.mTcpProxyClient.thread t.castSucc = .idle := by
  unfold State.performs at hq
  split at hq
  · next hguard => exact ⟨hq, hguard.1, hguard.2⟩
  · cases hq

theorem step_cases {N : Nat} {s s' : State n} {a : Action n} (hstep : s.step N a = some s') :
    s.Step N a s' := by
  cases a with
  | OnRecvCommand cmd x t =>
    change s.OnRecvCommand N cmd x t = _ at hstep
    unfold State.OnRecvCommand at hstep
    split at hstep
    · next hguard =>
      have hmutex : s.mutex = none := Option.isNone_iff_eq_none.mp hguard.1
      obtain ⟨server, hserver, hfollow⟩ := Option.bind_eq_some_iff.mp hstep
      rcases OnRecvCommand_outcomes hserver with hout | ⟨o, hout, hfd, -⟩
      · rw [hout, List.drop_length] at hfollow
        obtain rfl := Option.some.inj hfollow
        exact .recv cmd x t server hmutex hserver (.inl hout)
      · rw [hout, List.drop_left] at hfollow
        cases o with
        | waits =>
          obtain rfl := Option.some.inj hfollow
          exact .recv cmd x t server hmutex hserver (.inr ⟨_, .inl rfl, hout⟩)
        | fails =>
          obtain rfl := Option.some.inj hfollow
          exact .recv cmd x t server hmutex hserver (.inr ⟨_, .inr rfl, hout⟩)
        | starts q =>
          change (if (s.request t).isNone then _ else _) = _ at hfollow
          split at hfollow
          · next hfree =>
            obtain rfl := Option.some.inj hfollow
            exact .start cmd x t server q hmutex hserver hout (hfd q rfl)
              (Option.isNone_iff_eq_none.mp hfree)
          · cases hfollow
        | disconnects =>
          obtain ⟨client, hcall, rfl⟩ := Option.map_eq_some_iff.mp hfollow
          exact .reject cmd x t server client hmutex hserver hout hcall
    · cases hstep
  | CurlReadHandle t size nmemb =>
    obtain ⟨q, hq, rfl⟩ := Option.map_eq_some_iff.mp hstep
    exact .read t size nmemb q hq
  | CurlWriteHandle t buffer size nmemb =>
    obtain ⟨q, hq, hstep⟩ := Option.bind_eq_some_iff.mp hstep
    split at hstep
    · next hlen =>
      obtain ⟨client, hcall, rfl⟩ := Option.map_eq_some_iff.mp hstep
      exact .write t buffer size nmemb q client hq hlen hcall
    · cases hstep
  | onFinish t =>
    change s.onFinish t = _ at hstep
    unfold State.onFinish at hstep
    split at hstep
    · next hguard =>
      have hmutex : s.mutex = none := Option.isNone_iff_eq_none.mp hguard
      obtain ⟨q, hq, hstep⟩ := Option.bind_eq_some_iff.mp hstep
      split at hstep
      · obtain ⟨client, hcall, rfl⟩ := Option.map_eq_some_iff.mp hstep
        exact .finish t q client hmutex hq hcall
      · next hparser =>
        obtain rfl := Option.some.inj hstep
        exact .gone t q hmutex hq hparser
    · cases hstep
  | unlock t =>
    change s.unlock t = _ at hstep
    unfold State.unlock at hstep
    split at hstep
    · next hguard =>
      obtain rfl := Option.some.inj hstep
      exact .unlock t hguard.1 hguard.2
    · cases hstep
  | send m =>
    change s.send m = _ at hstep
    unfold State.send at hstep
    split at hstep
    · cases hstep
    · cases hstep
    · obtain ⟨client, hclient, rfl⟩ := Option.map_eq_some_iff.mp hstep
      exact .send m client hclient

end VncProxy.Respond
