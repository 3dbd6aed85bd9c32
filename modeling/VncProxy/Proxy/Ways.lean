import VncProxy.Proxy.Forwarded
import VncProxy.Proxy.Returned

/-!
# Both ways through TcpProxyServer

The two servers with the threads of `VncProxy.Forward` and those of `VncProxy.Return` at once: the handler
threads of each server are the ones that queue for the other.

* `State`            the state of the way of the requests, and the `Client` with its mutex;
* `State.step`       one step of any thread;
* `simulates_forward`, `simulates_back`  each way is seen as it is on its own.
-/

namespace VncProxy.Ways

open Tcp (Stream Conn)
open Return (Holder)

/-- `client` is the `Client` of the VNC connection -/
structure State (g h : Nat) extends Forward.State g h h where
  client : Client
  mKMutex : Option (Holder h)
  /-- what `OnParseCmd` has been called with -/
  passed : List CMD
  /-- the commands that have been answered, with the connections that had their descriptors -/
  answered : List (Conn × CMD)

variable {g h : Nat}

/-- the way of the replies -/
def State.back (s : State g h) : Return.State g h (g + 1) where
  mClientTcpVNCServer := s.mClientTcpVNCServer
  mpVNCClient := s.client
  mKMutex := s.mKMutex
  mClientTcpServer := s.mClientTcpServer
  passed := s.passed
  answered := s.answered

def State.setForward (s : State g h) (forward : Forward.State g h h) : State g h :=
  { s with toState := forward }

def State.setBack (s : State g h) (back : Return.State g h (g + 1)) : State g h :=
  { s with
    mClientTcpVNCServer := back.mClientTcpVNCServer
    client := back.mpVNCClient
    mKMutex := back.mKMutex
    mClientTcpServer := back.mClientTcpServer
    passed := back.passed
    answered := back.answered }

inductive Action (g h : Nat) where
  /-- a thread of the HTTP server outside of its callbacks, or one in its `SendMessageByQueue` -/
  | http (a : Tcp.Action g h) (bytes : List Byte)
  | OnRecvMessage (i : Fin g) (found : Bool)
  | OnDisconnect (found : Bool)
  /-- a thread of the VNC server outside of `ParseData`, or one in its `SendMessageByQueue` -/
  | vnc (a : Tcp.Action h (g + 1)) (bytes : List Byte)
  | ParseData (i : Fin h)
  | OnParseCmd (task : Option Chunk)
  | unlock

def State.step (fuel : Nat) (s : State g h) : Action g h → Option (State g h)
  | .http a bytes => if s.Busy a then none else (s.back.stepHttp a bytes).map s.setBack
  | .OnRecvMessage i found => (s.HandleRecvMessage i found).map s.setForward
  | .OnDisconnect found => (s.onDisconnect found).map s.setForward
  | .vnc a bytes => if s.back.Parses a then none else (s.stepVNC a bytes).map s.setForward
  | .ParseData i => (s.back.parse fuel i).map s.setBack
  | .OnParseCmd task => (s.back.dispatch task).map s.setBack
  | .unlock => s.back.unlock.map s.setBack

/-- the conditions of both ways -/
def State.Calm (peer : Conn) (s : State g h) : Action g h → Prop
  | .http a bytes => s.mClientTcpServer.SendsOwn (a, bytes)
  | .vnc a bytes =>
    s.mClientTcpVNCServer.SendsOwn (a, bytes) ∧ s.mClientTcpVNCServer.NoGap (a, bytes)
  | .ParseData i => s.back.Calm peer (.ParseData i)
  | .OnRecvMessage .. | .OnDisconnect _ | .OnParseCmd _ | .unlock => True

instance (peer : Conn) (s : State g h) : DecidablePred (s.Calm peer)
  | .http a bytes => inferInstanceAs (Decidable (s.mClientTcpServer.SendsOwn (a, bytes)))
  | .vnc a bytes => inferInstanceAs (Decidable (s.mClientTcpVNCServer.SendsOwn (a, bytes) ∧
      s.mClientTcpVNCServer.NoGap (a, bytes)))
  | .ParseData i => inferInstanceAs (Decidable (s.back.Calm peer (.ParseData i)))
  | .OnRecvMessage .. | .OnDisconnect _ | .OnParseCmd _ | .unlock => .isTrue trivial

/-! ## the way of the requests -/

section
variable {s s' : State g h} {fuel : Nat} {peer : Conn}

theorem forward_http {a : Tcp.Action g h} {bytes : List Byte} {http : Stream g h}
    (hbusy : ¬ s.toState.Busy a) (hstep : s.mClientTcpServer.step (a, bytes) = some http) :
    s.toState.step (.http a bytes) = some { s.toState with mClientTcpServer := http } := by
  show (if s.toState.Busy a then none else _) = _
  rw [if_neg hbusy, hstep]
  rfl

theorem forward_parse {back : Return.State g h (g + 1)} {i : Fin h} (hparse : s.back.parse fuel i = some back) :
    s.toState.step (.vnc (.handler i) []) = some (s.setBack back).toState := by
  unfold Return.State.parse at hparse
  split at hparse
  · next m hmutex hm =>
    split at hparse
    · obtain ⟨vnc, hvnc, hparse⟩ := Option.bind_eq_some_iff.mp hparse
      obtain ⟨r, -, rfl⟩ := Option.map_eq_some_iff.mp hparse
      have hput : s.toState.put (.handler i) = s.toState := by
        unfold Forward.State.put
        split
        · next hq _ => cases hq
        · rfl
      have hobserve : s.toState.observe (.handler i) = s.mpVNCClient := by
        unfold Forward.State.observe
        dsimp only
        rw [show s.mClientTcpVNCServer.server.handler i = _ from hm]
      show s.toState.stepVNC (.handler i) [] = _
      unfold Forward.State.stepVNC
      dsimp only
      rw [if_pos (show s.toState.Takes (.handler i) from trivial), hput, hobserve,
        show s.mClientTcpVNCServer.step (.handler i, []) = some vnc from hvnc]
      rfl
    · cases hparse
  · cases hparse

theorem forward_dispatch {back : Return.State g h (g + 1)} {task : Option Chunk}
    (hdispatch : s.back.dispatch task = some back) :
    ∃ l, run Forward.State.step s.toState l = some (s.setBack back).toState ∧
      RunOk Forward.State.step Forward.State.Calm s.toState l := by
  have hskip : ∀ back : Return.State g h (g + 1),
      back.mClientTcpServer = s.mClientTcpServer → back.mClientTcpVNCServer = s.mClientTcpVNCServer →
      ∃ l, run Forward.State.step s.toState l = some (s.setBack back).toState ∧
        RunOk Forward.State.step Forward.State.Calm s.toState l := by
    intro back hhttp hvnc
    refine ⟨[], congrArg some ?_, trivial⟩
    unfold State.setBack
    dsimp only
    rw [hhttp, hvnc]
  unfold Return.State.dispatch at hdispatch
  split at hdispatch
  · next i cmd cmds hmutex =>
    split at hdispatch
    · unfold Return.State.onParseCmd at hdispatch
      split at hdispatch
      · obtain rfl := Option.some.inj hdispatch
        exact hskip _ rfl rfl
      · next task hcmdt =>
        unfold Return.State.reply at hdispatch
        split at hdispatch
        · obtain rfl := Option.some.inj hdispatch
          exact hskip _ rfl rfl
        · next sm idle hidle =>
          obtain ⟨http, hhttp, rfl⟩ := Option.map_eq_some_iff.mp hdispatch
          exact ⟨_, run_one (forward_http id hhttp), runOk_one trivial⟩
      · obtain rfl := Option.some.inj hdispatch
        exact hskip _ rfl rfl
    · cases hdispatch
  · cases hdispatch

/-- **The way of the requests** in both ways at once. -/
theorem simulates_forward (fuel : Nat) (peer : Conn) :
    Simulates (State.step fuel) (State.Calm peer) Forward.State.step Forward.State.Calm
      (State.toState (g := g) (h := h)) := by
  intro s a s' hcalm hstep
  cases a with
  | http a bytes =>
    change (if s.Busy a then none else _) = _ at hstep
    split at hstep
    · cases hstep
    · next hbusy =>
      obtain ⟨back, hback, rfl⟩ := Option.map_eq_some_iff.mp hstep
      unfold Return.State.stepHttp at hback
      cases a with
      | call => cases hback
      | accept | event | OnAccept | recv | main | handler | send | sender | caller =>
        obtain ⟨http, hhttp, rfl⟩ := Option.map_eq_some_iff.mp hback
        exact ⟨_, run_one (forward_http hbusy hhttp), runOk_one trivial⟩
  | OnRecvMessage i found =>
    obtain ⟨forward, hforward, rfl⟩ := Option.map_eq_some_iff.mp hstep
    exact ⟨[.OnRecvMessage i found], run_one hforward, runOk_one trivial⟩
  | OnDisconnect found =>
    obtain ⟨forward, hforward, rfl⟩ := Option.map_eq_some_iff.mp hstep
    exact ⟨[.OnDisconnect found], run_one hforward, runOk_one trivial⟩
  | vnc a bytes =>
    change (if s.back.Parses a then none else _) = _ at hstep
    split at hstep
    · cases hstep
    · obtain ⟨forward, hforward, rfl⟩ := Option.map_eq_some_iff.mp hstep
      exact ⟨[.vnc a bytes], run_one hforward, runOk_one hcalm.1⟩
  | ParseData i =>
    obtain ⟨back, hback, rfl⟩ := Option.map_eq_some_iff.mp hstep
    exact ⟨[.vnc (.handler i) []], run_one (forward_parse hback), runOk_one trivial⟩
  | OnParseCmd task =>
    obtain ⟨back, hback, rfl⟩ := Option.map_eq_some_iff.mp hstep
    exact forward_dispatch hback
  | unlock =>
    obtain ⟨back, hback, rfl⟩ := Option.map_eq_some_iff.mp hstep
    refine ⟨[], ?_, trivial⟩
    unfold Return.State.unlock at hback
    split at hback
    · split at hback
      · obtain rfl := Option.some.inj hback
        rfl
      · cases hback
    · cases hback

/-! ## the way of the replies -/

/-- `SendClient2VNC` is at most a call for the VNC server -/
theorem forward_streams {f f' : Forward.State g h h} {j : Fin (g + 1)} {client : Conn} {task : ITask}
    {found : Bool} (hforward : f.forward j client task found = some f') :
    f'.mClientTcpServer = f.mClientTcpServer ∧
      (f'.mClientTcpVNCServer = f.mClientTcpVNCServer ∨ ∃ (fd : Nat) (bytes : List Byte),
        f.mClientTcpVNCServer.step (.call j fd bytes.length, bytes) = some f'.mClientTcpVNCServer) := by
  unfold Forward.State.forward at hforward
  obtain ⟨r, hr, rfl⟩ := Option.map_eq_some_iff.mp hforward
  cases found with
  | false =>
    obtain rfl := Option.some.inj hr
    exact ⟨rfl, .inl rfl⟩
  | true =>
    change f.SendClient2VNC j client task = some r at hr
    unfold Forward.State.SendClient2VNC at hr
    split at hr
    · split at hr
      · obtain ⟨vnc, hvnc, rfl⟩ := Option.map_eq_some_iff.mp hr
        exact ⟨rfl, .inr ⟨_, _, hvnc⟩⟩
      · obtain rfl := Option.some.inj hr
        exact ⟨rfl, .inl rfl⟩
    · obtain rfl := Option.some.inj hr
      exact ⟨rfl, .inl rfl⟩

theorem back_vnc {back : Return.State g h (g + 1)} {a : Tcp.Action h (g + 1)} {bytes : List Byte}
    {vnc : Stream h (g + 1)} (hparses : ¬ back.Parses a)
    (hstep : back.mClientTcpVNCServer.step (a, bytes) = some vnc) :
    back.step fuel (.vnc a bytes) = some { back with mClientTcpVNCServer := vnc } := by
  show (if back.Parses a then none else _) = _
  rw [if_neg hparses, hstep]
  rfl

theorem not_parses_call (back : Return.State g h (g + 1)) (j : Fin (g + 1)) (fd len : Nat) :
    ¬ back.Parses (.call j fd len) := by
  rintro (hhandles | hholder)
  · exact hhandles rfl
  · cases hmutex : back.mKMutex with
    | none =>
      rw [hmutex] at hholder
      cases hholder
    | some holder =>
      rw [hmutex] at hholder
      cases hholder

/-- a callback of the HTTP server: its thread goes on, and then it may call for the VNC server -/
theorem back_callback {a : Tcp.Action g h} {http : Stream g h} {forward : Forward.State g h h}
    {j : Fin (g + 1)} {client : Conn} {task : ITask} {found : Bool}
    (hhttp : s.back.step fuel (.http a []) = some { s.back with mClientTcpServer := http })
    (hcalm : s.back.Calm peer (.http a []))
    (hforward : Forward.State.forward { s.toState with mClientTcpServer := http } j client task found
      = some forward) :
    ∃ l, run (Return.State.step fuel) s.back l = some (s.setForward forward).back ∧
      RunOk (Return.State.step fuel) (Return.State.Calm peer) s.back l := by
  obtain ⟨hserver, hvnc | ⟨fd, bytes, hvnc⟩⟩ := forward_streams hforward
  · have hback : (s.setForward forward).back = { s.back with mClientTcpServer := http } := by
      unfold State.back State.setForward
      dsimp only
      rw [hserver, hvnc]
    exact ⟨_, hback ▸ run_one hhttp, runOk_one hcalm⟩
  · have hback : (s.setForward forward).back
        = { s.back with mClientTcpServer := http, mClientTcpVNCServer := forward.mClientTcpVNCServer } := by
      unfold State.back State.setForward
      dsimp only
      rw [hserver]
    have hcall : Return.State.step fuel { s.back with mClientTcpServer := http }
        (.vnc (.call j fd bytes.length) bytes) = _ := back_vnc (not_parses_call _ j fd bytes.length) hvnc
    refine ⟨[.http a []] ++ [.vnc (.call j fd bytes.length) bytes], ?_, ?_⟩
    · rw [run_append (run_one hhttp), hback]
      exact run_one hcall
    · exact runOk_append (runOk_one hcalm) (run_one hhttp) (runOk_one trivial)

/-- **The way of the replies** in both ways at once. -/
theorem simulates_back (fuel : Nat) (peer : Conn) :
    Simulates (State.step fuel) (State.Calm peer) (Return.State.step fuel) (Return.State.Calm peer)
      (State.back (g := g) (h := h)) := by
  intro s a s' hcalm hstep
  cases a with
  | http a bytes =>
    change (if s.Busy a then none else _) = _ at hstep
    split at hstep
    · cases hstep
    · obtain ⟨back, hback, rfl⟩ := Option.map_eq_some_iff.mp hstep
      exact ⟨[.http a bytes], run_one hback, runOk_one hcalm⟩
  | OnRecvMessage i found =>
    obtain ⟨forward, hforward, rfl⟩ := Option.map_eq_some_iff.mp hstep
    unfold Forward.State.HandleRecvMessage at hforward
    split at hforward
    · split at hforward
      · obtain ⟨http, hhttp, hforward⟩ := Option.bind_eq_some_iff.mp hforward
        obtain ⟨task, -, hforward⟩ := Option.bind_eq_some_iff.mp hforward
        exact back_callback (a := .handler i) ((congrArg (Option.map _) hhttp).trans rfl) trivial hforward
      · cases hforward
    · cases hforward
  | OnDisconnect found =>
    obtain ⟨forward, hforward, rfl⟩ := Option.map_eq_some_iff.mp hstep
    unfold Forward.State.onDisconnect at hforward
    split at hforward
    · split at hforward
      · obtain ⟨http, hhttp, hforward⟩ := Option.bind_eq_some_iff.mp hforward
        exact back_callback (a := .main) ((congrArg (Option.map _) hhttp).trans rfl) trivial hforward
      · cases hforward
    · cases hforward
  | vnc a bytes =>
    change (if s.back.Parses a then none else _) = _ at hstep
    split at hstep
    · cases hstep
    · next hparses =>
      obtain ⟨forward, hforward, rfl⟩ := Option.map_eq_some_iff.mp hstep
      unfold Forward.State.stepVNC at hforward
      have hput : (s.put a).mClientTcpServer = s.mClientTcpServer := by
        unfold Forward.State.put
        split <;> rfl
      cases a with
      | call => cases hforward
      | accept | event | OnAccept | recv | main | handler | send | sender | caller =>
        dsimp only at hforward
        split at hforward
        · obtain ⟨vnc, hvnc, rfl⟩ := Option.map_eq_some_iff.mp hforward
          refine ⟨_, (run_one (back_vnc hparses hvnc)).trans (congrArg some ?_), runOk_one hcalm.2⟩
          unfold State.back State.setForward
          dsimp only
          rw [hput]
        · cases hforward
  | ParseData i =>
    obtain ⟨back, hback, rfl⟩ := Option.map_eq_some_iff.mp hstep
    exact ⟨[.ParseData i], run_one hback, runOk_one hcalm⟩
  | OnParseCmd task =>
    obtain ⟨back, hback, rfl⟩ := Option.map_eq_some_iff.mp hstep
    exact ⟨[.OnParseCmd task], run_one hback, runOk_one trivial⟩
  | unlock =>
    obtain ⟨back, hback, rfl⟩ := Option.map_eq_some_iff.mp hstep
    exact ⟨[.unlock], run_one hback, runOk_one trivial⟩

end

/-! ## every run -/

def State.init (http : Stream g h) (vnc : Stream h (g + 1)) (idle : List Message) : State g h where
  toState := Forward.State.init http vnc
  client := Client.fresh idle
  mKMutex := none
  passed := []
  answered := []

structure State.Resting (s : State g h) : Prop where
  http : s.mClientTcpServer.server.Resting
  vnc : s.mClientTcpVNCServer.server.Resting
  mutex : s.mKMutex = none

instance (s : State g h) : Decidable s.Resting :=
  have : Decidable (s.mKMutex = none) :=
    decidable_of_iff (s.mKMutex.isNone = true) Option.isNone_iff_eq_none
  decidable_of_iff (s.mClientTcpServer.server.Resting ∧ s.mClientTcpVNCServer.server.Resting ∧
      s.mKMutex = none)
    ⟨fun ⟨h1, h2, h3⟩ => ⟨h1, h2, h3⟩, fun ⟨h1, h2, h3⟩ => ⟨h1, h2, h3⟩⟩

/-- **Every calm run is a calm run of each way**, with the same bytes in the same servers. -/
theorem run_ways {fuel : Nat} {peer : Conn} {http : Stream g h} {vnc : Stream h (g + 1)}
    {idle : List Message} {l : List (Action g h)} {s : State g h}
    (hcalm : RunOk (State.step fuel) (State.Calm peer) (State.init http vnc idle) l)
    (hrun : run (State.step fuel) (State.init http vnc idle) l = some s) :
    (∃ lf, run Forward.State.step (Forward.State.init http vnc) lf = some s.toState ∧
      RunOk Forward.State.step Forward.State.Calm (Forward.State.init http vnc) lf) ∧
    ∃ lb, run (Return.State.step fuel) (Return.State.init g h (g + 1) vnc http idle) lb = some s.back ∧
      RunOk (Return.State.step fuel) (Return.State.Calm peer)
        (Return.State.init g h (g + 1) vnc http idle) lb :=
  ⟨(simulates_forward fuel peer).run hcalm hrun, (simulates_back fuel peer).run hcalm hrun⟩

end VncProxy.Ways
