import Mathlib.Data.Prod.Lex
import VncProxy.Proxy.Served

/-!
# Both ways of TcpProxyServer when nothing more comes

* `State.work`         what is left to be done: what the HTTP server has to receive comes before what the
                       VNC server has, this before the commands that `ParseData` has found, and all of
                       them before what is to be sent;
* `step_work`          an own step makes it smaller or changes nothing;
* `drives_http`, `drives_vnc`  the system calls of either server are answered for themselves;
* `resting_of_atRest`  at rest no thread waits for the other server, for `mKMutex` or for a Message;
* `both_settle`        when the calls return and no thread is passed over for ever both servers come to
                       rest, and everything that has come is then on the sockets.
-/

namespace VncProxy.Ways

open Tcp (Stream Conn Msg bytesOf tagged)
open Return (Holder)

variable {g h fuel : Nat} {s s' : State g h} {a : Action g h}

/-! ## the step system -/

/-- nothing comes from outside but answers -/
def Action.Own : Action g h → Prop
  | .http a _ => a.Own
  | .vnc a _ => a.Own
  | .OnRecvMessage .. | .OnDisconnect _ | .ParseData _ | .OnParseCmd _ | .unlock => True

/-- a thread in `SendMessageByQueue` of the other server is a caller there; `holder` has `mKMutex` -/
inductive Party (g h : Nat) where
  | http (p : Tcp.Party g h)
  | vnc (p : Tcp.Party h (g + 1))
  | holder

/-- all but the system calls -/
def Party.Runs : Party g h → Prop
  | .http (.call _) | .vnc (.call _) => False
  | .http (.thread _) | .vnc (.thread _) | .holder => True

def Action.party : Action g h → Party g h
  | .http a _ => .http a.party
  | .OnRecvMessage i _ => .http (.thread (.handler i))
  | .OnDisconnect _ => .http (.thread .main)
  | .vnc a _ => .vnc a.party
  | .ParseData i => .vnc (.thread (.handler i))
  | .OnParseCmd _ | .unlock => .holder

/-- the step of a server outside of its callbacks -/
def Action.ofHttp : Action g h → Option (Tcp.Action g h)
  | .http a _ => some a
  | _ => none

def Action.ofVNC : Action g h → Option (Tcp.Action h (g + 1))
  | .vnc a _ => some a
  | _ => none

/-- the commands for `OnParseCmd`, and the unlocking -/
def State.todo (s : State g h) : Nat := (s.mKMutex.map fun holder => holder.cmds.length + 1).getD 0

def State.sendWork (s : State g h) : Nat :=
  s.mClientTcpServer.server.sendWork + s.mClientTcpVNCServer.server.sendWork

def State.work (s : State g h) : Nat ×ₗ Nat ×ₗ Nat ×ₗ Nat :=
  toLex (s.mClientTcpServer.server.recvWork, toLex (s.mClientTcpVNCServer.server.recvWork,
    toLex (s.todo, s.sendWork)))

theorem work_lt_http
    (hhttp : s'.mClientTcpServer.server.recvWork < s.mClientTcpServer.server.recvWork) :
    s'.work < s.work :=
  Prod.Lex.toLex_lt_toLex.mpr (.inl hhttp)

theorem work_lt_vnc
    (hhttp : s'.mClientTcpServer.server.recvWork = s.mClientTcpServer.server.recvWork)
    (hvnc : s'.mClientTcpVNCServer.server.recvWork < s.mClientTcpVNCServer.server.recvWork) :
    s'.work < s.work :=
  Prod.Lex.toLex_lt_toLex.mpr (.inr ⟨hhttp, Prod.Lex.toLex_lt_toLex.mpr (.inl hvnc)⟩)

theorem work_lt_todo
    (hhttp : s'.mClientTcpServer.server.recvWork = s.mClientTcpServer.server.recvWork)
    (hvnc : s'.mClientTcpVNCServer.server.recvWork = s.mClientTcpVNCServer.server.recvWork)
    (htodo : s'.todo < s.todo) : s'.work < s.work :=
  Prod.Lex.toLex_lt_toLex.mpr (.inr ⟨hhttp, Prod.Lex.toLex_lt_toLex.mpr (.inr ⟨hvnc,
    Prod.Lex.toLex_lt_toLex.mpr (.inl htodo)⟩)⟩)

theorem work_lt_send
    (hhttp : s'.mClientTcpServer.server.recvWork = s.mClientTcpServer.server.recvWork)
    (hvnc : s'.mClientTcpVNCServer.server.recvWork = s.mClientTcpVNCServer.server.recvWork)
    (htodo : s'.todo = s.todo) (hsend : s'.sendWork < s.sendWork) : s'.work < s.work :=
  Prod.Lex.toLex_lt_toLex.mpr (.inr ⟨hhttp, Prod.Lex.toLex_lt_toLex.mpr (.inr ⟨hvnc,
    Prod.Lex.toLex_lt_toLex.mpr (.inr ⟨htodo, hsend⟩)⟩)⟩)

/-! ## a step -/

theorem http_step {b : Tcp.Action g h} {bytes : List Byte}
    (hstep : s.step fuel (.http b bytes) = some s') : ¬ s.Busy b ∧ ∃ http,
      s.mClientTcpServer.Step (b, bytes) http ∧ s' = s.setBack { s.back with mClientTcpServer := http } := by
  change (if s.Busy b then none else _) = _ at hstep
  split at hstep
  · cases hstep
  · next hbusy =>
    obtain ⟨back, hback, rfl⟩ := Option.map_eq_some_iff.mp hstep
    refine ⟨hbusy, ?_⟩
    cases Return.step_cases (show s.back.step fuel (.http b bytes) = _ from hback) with
    | http _ _ http hcall hhttp => exact ⟨http, hhttp, rfl⟩

theorem vnc_step {b : Tcp.Action h (g + 1)} {bytes : List Byte}
    (hstep : s.step fuel (.vnc b bytes) = some s') : ∃ vnc,
      s.mClientTcpVNCServer.Step (b, bytes) vnc ∧
      s' = s.setForward { s.put b with mClientTcpVNCServer := vnc, mpVNCClient := s.observe b } := by
  change (if s.back.Parses b then none else _) = _ at hstep
  split at hstep
  · cases hstep
  · obtain ⟨forward, hforward, rfl⟩ := Option.map_eq_some_iff.mp hstep
    unfold Forward.State.stepVNC at hforward
    cases b with
    | call => cases hforward
    | accept | event | OnAccept | recv | main | handler | send | sender | caller =>
      dsimp only at hforward
      split at hforward
      · obtain ⟨vnc, hvnc, rfl⟩ := Option.map_eq_some_iff.mp hforward
        exact ⟨vnc, Stream.step_cases hvnc, rfl⟩
      · cases hforward

/-- a look at an empty list is not seen by `mpVNCClient` -/
theorem forward_waits {b : Tcp.Action h (g + 1)} (hwaits : s.mClientTcpVNCServer.server.Waits b) :
    s.put b = s.toState ∧ s.observe b = s.mpVNCClient := by
  unfold Forward.State.put Forward.State.observe
  cases hwaits with
  | main hstarved =>
    obtain ⟨⟨fd, error, hmain⟩, -⟩ := hstarved
    dsimp only
    rw [hmain]
    exact ⟨rfl, rfl⟩
  | handler i hpc hl =>
    dsimp only
    rw [hpc]
    exact ⟨rfl, rfl⟩
  | sender hpc hl =>
    dsimp only
    rw [hpc]
    exact ⟨rfl, rfl⟩
  | send => exact ⟨rfl, rfl⟩

theorem handle_work {h k : Nat} {server server' : Stream h k} {i : Fin h} {m : Msg}
    (hm : server.server.handler i = .handle m) (hstep : server.Step (.handler i, []) server') :
    server'.server.recvWork < server.server.recvWork := by
  have hown : (Tcp.Action.handler i : Tcp.Action h k).Own := trivial
  have hreceiver : (Tcp.Action.handler i : Tcp.Action h k).OfReceiver := trivial
  refine ((Tcp.recvWork_step hreceiver hown hstep.server).resolve_left fun hwaits => ?_).1
  cases hwaits.2 with
  | handler _ hpc hl =>
    rw [hm] at hpc
    cases hpc

theorem disconnect_work {h k : Nat} {server server' : Stream h k} {fd : Nat} {m : Option Msg}
    (hmain : server.server.main = .OnDisconnect fd m) (hstep : server.Step (.main, []) server') :
    server'.server.recvWork < server.server.recvWork := by
  have hown : (Tcp.Action.main : Tcp.Action h k).Own := trivial
  have hreceiver : (Tcp.Action.main : Tcp.Action h k).OfReceiver := trivial
  refine ((Tcp.recvWork_step hreceiver hown hstep.server).resolve_left fun hwaits => ?_).1
  cases hwaits.2 with
  | main hstarved =>
    obtain ⟨⟨fd', error, hpc⟩, -⟩ := hstarved
    rw [hmain] at hpc
    cases hpc

theorem callback_work {f : Forward.State g h h} {c : Forward.Action g h h}
    (hc : (∃ i found, c = .OnRecvMessage i found) ∨ ∃ found, c = .OnDisconnect found)
    (hstep : s.toState.step c = some f) :
    f.mClientTcpServer.server.recvWork < s.mClientTcpServer.server.recvWork := by
  have hcalls : ∀ {b : Tcp.Action g h} {j : Fin (g + 1)} {client : Conn} {task : ITask}
      {http : Stream g h}, s.toState.Calls b j client task → s.mClientTcpServer.Step (b, []) http →
        http.server.recvWork < s.mClientTcpServer.server.recvWork := by
    intro b j client task http hcalls hhttp
    cases hcalls with
    | recv i m chunk hm => exact handle_work hm hhttp
    | disconnect fd m hmain => exact disconnect_work hmain hhttp
  cases Forward.step_cases hstep with
  | drop _ b j client task http hcall hhttp => exact hcalls hcall hhttp
  | send _ b j client task http hcall hhttp => exact hcalls hcall hhttp
  | http | vnc =>
    rcases hc with ⟨i, found, hc⟩ | ⟨found, hc⟩
    · cases hc
    · cases hc

/-- **An own step does a part of the work or changes nothing.** -/
theorem step_work (hown : a.Own) (hstep : s.step fuel a = some s') : s' = s ∨ s'.work < s.work := by
  cases a with
  | http b bytes =>
    obtain ⟨-, http, hhttp, rfl⟩ := http_step hstep
    rcases hhttp.work hown with ⟨rfl, -⟩ | hlt | ⟨hsame, hlt⟩
    · exact .inl rfl
    · exact .inr (work_lt_http hlt)
    · exact .inr (work_lt_send hsame rfl rfl (Nat.add_lt_add_right hlt _))
  | vnc b bytes =>
    obtain ⟨vnc, hvnc, rfl⟩ := vnc_step hstep
    have hput : (s.put b).mClientTcpServer = s.mClientTcpServer := by
      unfold Forward.State.put
      split <;> rfl
    have hhttp : (s.put b).mClientTcpServer.server.recvWork = s.mClientTcpServer.server.recvWork :=
      congrArg (fun http => http.server.recvWork) hput
    rcases hvnc.work hown with ⟨rfl, hwaits⟩ | hlt | ⟨hsame, hlt⟩
    · obtain ⟨hput, hobserve⟩ := forward_waits hwaits
      rw [hput, hobserve]
      exact .inl rfl
    · exact .inr (work_lt_vnc hhttp hlt)
    · refine .inr (work_lt_send hhttp hsame rfl ?_)
      show (s.put b).mClientTcpServer.server.sendWork + vnc.server.sendWork < _
      rw [hput]
      exact Nat.add_lt_add_left hlt _
  | OnRecvMessage i found =>
    obtain ⟨forward, hforward, rfl⟩ := Option.map_eq_some_iff.mp hstep
    exact .inr (work_lt_http (callback_work (.inl ⟨i, found, rfl⟩) hforward))
  | OnDisconnect found =>
    obtain ⟨forward, hforward, rfl⟩ := Option.map_eq_some_iff.mp hstep
    exact .inr (work_lt_http (callback_work (.inr ⟨found, rfl⟩) hforward))
  | ParseData i =>
    obtain ⟨back, hback, rfl⟩ := Option.map_eq_some_iff.mp hstep
    cases Return.step_cases (show s.back.step fuel (.ParseData i) = _ from hback) with
    | parse _ m vnc r hmutex hm hlen hvnc hparse => exact .inr (work_lt_vnc rfl (handle_work hm hvnc))
  | OnParseCmd task =>
    obtain ⟨back, hback, rfl⟩ := Option.map_eq_some_iff.mp hstep
    cases Return.step_cases (show s.back.step fuel (.OnParseCmd task) = _ from hback) with
    | skip i cmd cmds _ hmutex hfree =>
      refine .inr (work_lt_todo rfl rfl ?_)
      unfold State.todo
      rw [show s.mKMutex = _ from hmutex]
      exact Nat.lt_succ_self _
    | reply i cmd cmds task sm idle http data hmutex hfree hcmdt hidle hdata hhttp =>
      refine .inr (work_lt_todo (Tcp.recvWork_kept id hhttp.server) rfl ?_)
      unfold State.todo
      rw [show s.mKMutex = _ from hmutex]
      exact Nat.lt_succ_self _
  | unlock =>
    obtain ⟨back, hback, rfl⟩ := Option.map_eq_some_iff.mp hstep
    cases Return.step_cases (show s.back.step fuel .unlock = _ from hback) with
    | unlock i hmutex hfree =>
      refine .inr (work_lt_todo rfl rfl ?_)
      unfold State.todo
      rw [show s.mKMutex = _ from hmutex]
      exact Nat.one_pos

def progress (fuel g h : Nat) :
    Progress (State g h) (Action g h) (Party g h) (Nat ×ₗ Nat ×ₗ Nat ×ₗ Nat) where
  step := State.step fuel
  own := Action.Own
  party := Action.party
  work := State.work
  same_or_lt := step_work

/-! ## the system calls -/

theorem http_move (fuel : Nat) {b : Tcp.Action g h} (hown : b.Own) (hbusy : ¬ s.Busy b) {t : Tcp.State g h}
    (hstep : s.mClientTcpServer.server.stepAny b = some t) :
    ∃ s', s.step fuel (.http b []) = some s' ∧ s'.mClientTcpServer.server = t := by
  obtain ⟨http, hhttp, rfl⟩ := Stream.step_own hown hstep
  refine ⟨s.setBack { s.back with mClientTcpServer := http }, ?_, rfl⟩
  show (if s.Busy b then none else (s.back.stepHttp b []).map s.setBack) = _
  rw [if_neg hbusy]
  unfold Return.State.stepHttp
  cases b with
  | call => exact hown.elim
  | accept | event | OnAccept | recv | main | handler | send | sender | caller =>
    show ((s.mClientTcpServer.step _).map _).map _ = _
    rw [hhttp]
    rfl

theorem vnc_move (fuel : Nat) {b : Tcp.Action h (g + 1)} (hown : b.Own) (hparses : ¬ s.back.Parses b)
    (htakes : s.Takes b) {t : Tcp.State h (g + 1)}
    (hstep : s.mClientTcpVNCServer.server.stepAny b = some t) :
    ∃ s', s.step fuel (.vnc b []) = some s' ∧ s'.mClientTcpVNCServer.server = t := by
  obtain ⟨vnc, hvnc, rfl⟩ := Stream.step_own hown hstep
  refine ⟨s.setForward { s.put b with mClientTcpVNCServer := vnc, mpVNCClient := s.observe b }, ?_, rfl⟩
  show (if s.back.Parses b then none else (s.stepVNC b []).map s.setForward) = _
  rw [if_neg hparses]
  unfold Forward.State.stepVNC
  cases b with
  | call => exact hown.elim
  | accept | event | OnAccept | recv | main | handler | send | sender | caller =>
    dsimp only
    rw [if_pos htakes, hvnc]
    rfl

/-- the thread in a callback of the HTTP server is in no system call, and none is one in `SendMessageByQueue`
of the VNC server -/
theorem callback_calls {f : Forward.State g h h} {d : Forward.Action g h h} {c : Tcp.Call}
    (hd : (∃ i found, d = .OnRecvMessage i found) ∨ ∃ found, d = .OnDisconnect found)
    (hstep : s.toState.step d = some f) :
    (s.mClientTcpServer.server.InCall c → f.mClientTcpServer.server.InCall c) ∧
      (s.mClientTcpVNCServer.server.InCall c → f.mClientTcpVNCServer.server.InCall c) := by
  have hcalls : ∀ {b : Tcp.Action g h} {j : Fin (g + 1)} {client : Conn} {task : ITask}
      {http : Stream g h}, s.toState.Calls b j client task → s.mClientTcpServer.Step (b, []) http →
        s.mClientTcpServer.server.InCall c → http.server.InCall c := by
    intro b j client task http hcalls hhttp hs
    cases hcalls with
    | recv i m chunk hm => exact hs.kept (fun he => by cases he) hhttp.server
    | disconnect fd m hmain => exact hs.kept (fun he => by cases he) hhttp.server
  cases Forward.step_cases hstep with
  | drop _ b j client task http hcall hhttp => exact ⟨hcalls hcall hhttp, id⟩
  | send _ b j client task http hcall hhttp hfree v sm idle hidle x hx vnc hvnc =>
    exact ⟨hcalls hcall hhttp, fun hs => hs.kept (fun he => by cases he) hvnc.server⟩
  | http | vnc =>
    rcases hd with ⟨i, found, hd⟩ | ⟨found, hd⟩
    · cases hd
    · cases hd

/-- a step of another part of the program ends no system call of the HTTP server -/
theorem http_other {c : Tcp.Call} (hstep : s.step fuel a = some s') (hother : a.ofHttp = none)
    (hs : s.mClientTcpServer.server.InCall c) : s'.mClientTcpServer.server.InCall c := by
  cases a with
  | http b bytes => cases hother
  | vnc b bytes =>
    obtain ⟨vnc, -, rfl⟩ := vnc_step hstep
    have hput : (s.put b).mClientTcpServer = s.mClientTcpServer := by
      unfold Forward.State.put
      split <;> rfl
    show (s.put b).mClientTcpServer.server.InCall c
    rw [hput]
    exact hs
  | OnRecvMessage i found =>
    obtain ⟨forward, hforward, rfl⟩ := Option.map_eq_some_iff.mp hstep
    exact (callback_calls (.inl ⟨i, found, rfl⟩) hforward).1 hs
  | OnDisconnect found =>
    obtain ⟨forward, hforward, rfl⟩ := Option.map_eq_some_iff.mp hstep
    exact (callback_calls (.inr ⟨found, rfl⟩) hforward).1 hs
  | ParseData i =>
    obtain ⟨back, hback, rfl⟩ := Option.map_eq_some_iff.mp hstep
    cases Return.step_cases (show s.back.step fuel (.ParseData i) = _ from hback) with
    | parse => exact hs
  | OnParseCmd task =>
    obtain ⟨back, hback, rfl⟩ := Option.map_eq_some_iff.mp hstep
    cases Return.step_cases (show s.back.step fuel (.OnParseCmd task) = _ from hback) with
    | skip => exact hs
    | reply i cmd cmds task sm idle http data hmutex hfree hcmdt hidle hdata hhttp =>
      exact hs.kept (fun he => by cases he) hhttp.server
  | unlock =>
    obtain ⟨back, hback, rfl⟩ := Option.map_eq_some_iff.mp hstep
    cases Return.step_cases (show s.back.step fuel .unlock = _ from hback) with
    | unlock => exact hs

theorem vnc_other {c : Tcp.Call} (hstep : s.step fuel a = some s') (hother : a.ofVNC = none)
    (hs : s.mClientTcpVNCServer.server.InCall c) : s'.mClientTcpVNCServer.server.InCall c := by
  cases a with
  | http b bytes =>
    obtain ⟨-, http, -, rfl⟩ := http_step hstep
    exact hs
  | vnc b bytes => cases hother
  | OnRecvMessage i found =>
    obtain ⟨forward, hforward, rfl⟩ := Option.map_eq_some_iff.mp hstep
    exact (callback_calls (.inl ⟨i, found, rfl⟩) hforward).2 hs
  | OnDisconnect found =>
    obtain ⟨forward, hforward, rfl⟩ := Option.map_eq_some_iff.mp hstep
    exact (callback_calls (.inr ⟨found, rfl⟩) hforward).2 hs
  | ParseData i =>
    obtain ⟨back, hback, rfl⟩ := Option.map_eq_some_iff.mp hstep
    cases Return.step_cases (show s.back.step fuel (.ParseData i) = _ from hback) with
    | parse _ m vnc r hmutex hm hlen hvnc hparse => exact hs.kept (fun he => by cases he) hvnc.server
  | OnParseCmd task =>
    obtain ⟨back, hback, rfl⟩ := Option.map_eq_some_iff.mp hstep
    cases Return.step_cases (show s.back.step fuel (.OnParseCmd task) = _ from hback) with
    | skip | reply => exact hs
  | unlock =>
    obtain ⟨back, hback, rfl⟩ := Option.map_eq_some_iff.mp hstep
    cases Return.step_cases (show s.back.step fuel .unlock = _ from hback) with
    | unlock => exact hs

theorem drives_http (fuel g h : Nat) : Tcp.Drives (progress fuel g h)
    (fun s => s.mClientTcpServer.server) Action.ofHttp fun c => .http (.call c) where
  own {a b} hown hb := by
    cases a with
    | http a bytes =>
      obtain rfl := Option.some.inj hb
      exact hown
    | OnRecvMessage | OnDisconnect | vnc | ParseData | OnParseCmd | unlock => cases hb
  step {s a s' b} hstep hb := by
    cases a with
    | http a bytes =>
      obtain rfl := Option.some.inj hb
      obtain ⟨-, http, hhttp, rfl⟩ := http_step (show s.step fuel (.http a bytes) = _ from hstep)
      exact hhttp.server
    | OnRecvMessage | OnDisconnect | vnc | ParseData | OnParseCmd | unlock => cases hb
  other hstep hother hs := http_other hstep hother hs
  party {a c} := by
    cases a <;> simp [progress, Action.party, Action.ofHttp]
  able {s b c t} hown hparty hstep := by
    have hbusy : ¬ s.Busy b := by
      cases b with
      | recv | send | accept | event | OnAccept | sender | call | caller => exact id
      | main | handler => cases hparty
    obtain ⟨s', hmove, -⟩ := http_move fuel hown hbusy hstep
    exact ⟨.http b [], s', rfl, hown, hmove⟩

theorem drives_vnc (fuel g h : Nat) : Tcp.Drives (progress fuel g h)
    (fun s => s.mClientTcpVNCServer.server) Action.ofVNC fun c => .vnc (.call c) where
  own {a b} hown hb := by
    cases a with
    | vnc a bytes =>
      obtain rfl := Option.some.inj hb
      exact hown
    | http | OnRecvMessage | OnDisconnect | ParseData | OnParseCmd | unlock => cases hb
  step {s a s' b} hstep hb := by
    cases a with
    | vnc a bytes =>
      obtain rfl := Option.some.inj hb
      obtain ⟨vnc, hvnc, rfl⟩ := vnc_step (show s.step fuel (.vnc a bytes) = _ from hstep)
      exact hvnc.server
    | http | OnRecvMessage | OnDisconnect | ParseData | OnParseCmd | unlock => cases hb
  other hstep hother hs := vnc_other hstep hother hs
  party {a c} := by
    cases a <;> simp [progress, Action.party, Action.ofVNC]
  able {s b c t} hown hparty hstep := by
    have hparses : ¬ s.back.Parses b := by
      rintro (hhandles | hholder)
      · cases b with
        | handler => cases hparty
        | accept | event | OnAccept | recv | main | send | sender | call | caller => exact hhandles rfl
      · obtain ⟨holder, -, rfl⟩ := Option.map_eq_some_iff.mp hholder
        cases hparty
    have htakes : s.Takes b := by
      cases b with
      | OnAccept => cases hparty
      | accept | event | recv | main | handler | send | sender | call | caller => trivial
    obtain ⟨s', hmove, -⟩ := vnc_move fuel hown hparses htakes hstep
    exact ⟨.vnc b [], s', rfl, hown, hmove⟩

/-! ## at rest -/

theorem same_of_atRest (hrest : (progress fuel g h).AtRest s) (hown : a.Own)
    (hstep : s.step fuel a = some s') : s' = s :=
  (step_work hown hstep).resolve_right fun hlt => hrest a s' ⟨hown, hstep, hlt⟩

theorem http_same (hrest : (progress fuel g h).AtRest s) {b : Tcp.Action g h} (hown : b.Own)
    (hbusy : ¬ s.Busy b) {t : Tcp.State g h} (hstep : s.mClientTcpServer.server.stepAny b = some t) :
    t = s.mClientTcpServer.server := by
  obtain ⟨s', hmove, rfl⟩ := http_move fuel hown hbusy hstep
  exact congrArg (fun s => s.mClientTcpServer.server)
    (same_of_atRest hrest (a := .http b []) hown hmove)

theorem vnc_same (hrest : (progress fuel g h).AtRest s) {b : Tcp.Action h (g + 1)} (hown : b.Own)
    (hparses : ¬ s.back.Parses b) (htakes : s.Takes b) {t : Tcp.State h (g + 1)}
    (hstep : s.mClientTcpVNCServer.server.stepAny b = some t) : t = s.mClientTcpVNCServer.server := by
  obtain ⟨s', hmove, rfl⟩ := vnc_move fuel hown hparses htakes hstep
  exact congrArg (fun s => s.mClientTcpVNCServer.server)
    (same_of_atRest hrest (a := .vnc b []) hown hmove)

theorem http_caller_free (hrest : (progress fuel g h).AtRest s) (j : Fin h) :
    s.mClientTcpServer.server.caller j = .free := by
  by_contra hbusy
  obtain ⟨t, ht⟩ := Tcp.stepCaller_some hbusy
  have hsame := http_same hrest (b := .caller j) trivial id ht
  exact absurd (congrArg Tcp.State.work hsame) (Tcp.work_stepCaller ht).ne

theorem vnc_caller_free (hrest : (progress fuel g h).AtRest s) (j : Fin (g + 1)) :
    s.mClientTcpVNCServer.server.caller j = .free := by
  by_contra hbusy
  obtain ⟨t, ht⟩ := Tcp.stepCaller_some hbusy
  have hparses : ¬ s.back.Parses (.caller j) := by
    rintro (hhandles | hholder)
    · exact hhandles rfl
    · cases hmutex : s.mKMutex with
      | none =>
        rw [show s.back.mKMutex = _ from hmutex] at hholder
        cases hholder
      | some holder =>
        rw [show s.back.mKMutex = _ from hmutex] at hholder
        cases hholder
  have hsame := vnc_same hrest (b := .caller j) trivial hparses trivial ht
  exact absurd (congrArg Tcp.State.work hsame) (Tcp.work_stepCaller ht).ne

theorem mutex_free (hrest : (progress fuel g h).AtRest s) : s.mKMutex = none := by
  cases hmutex : s.mKMutex with
  | none => rfl
  | some holder =>
    obtain ⟨i, cmds⟩ := holder
    have hfree := http_caller_free hrest i
    cases cmds with
    | nil =>
      have hmove : s.step fuel .unlock = some (s.setBack { s.back with mKMutex := none }) := by
        show s.back.unlock.map s.setBack = _
        unfold Return.State.unlock
        rw [show s.back.mKMutex = _ from hmutex]
        exact congrArg (Option.map _) (if_pos hfree)
      have hsame := congrArg State.mKMutex (same_of_atRest hrest (a := .unlock) trivial hmove)
      rw [hmutex] at hsame
      cases hsame
    | cons cmd cmds =>
      have hmove : s.step fuel (.OnParseCmd none) = some (s.setBack
          { s.back with mKMutex := some ⟨i, cmds⟩, passed := s.passed ++ [cmd] }) := by
        show (s.back.dispatch none).map s.setBack = _
        unfold Return.State.dispatch
        rw [show s.back.mKMutex = _ from hmutex]
        dsimp only
        rw [if_pos (show s.back.mClientTcpServer.server.caller i = .free from hfree)]
        unfold Return.State.onParseCmd
        split
        · rfl
        · next htask hcmdt => cases htask
        · rfl
      have hsame := congrArg State.passed (same_of_atRest hrest (a := .OnParseCmd none) trivial hmove)
      exact absurd (congrArg List.length hsame) (by simp [State.setBack])

/-- the chunks of the HTTP server fit a task, and `ParseData` returns for those of the VNC server -/
structure State.Handled (fuel : Nat) (s : State g h) : Prop where
  task : ∀ i m, s.mClientTcpServer.server.handler i = .handle m → 0 < m.len →
    (Forward.SetBuffer (s.mClientTcpServer.buffer m.addr)).isSome
  parse : ∀ i m, s.mClientTcpVNCServer.server.handler i = .handle m → 0 < m.len →
    (ParseData fuel s.client (m.message (s.mClientTcpVNCServer.buffer m.addr))).isSome

theorem handle_of_handles {h k : Nat} {server : Tcp.State h k} {i : Fin h}
    (hhandles : server.handles (.handler i) ≠ []) : ∃ m, server.handler i = .handle m ∧ 0 < m.len := by
  unfold Tcp.State.handles at hhandles
  dsimp only at hhandles
  split at hhandles
  · next m hm =>
    split at hhandles
    · next hlen => exact ⟨m, hm, hlen⟩
    · exact absurd rfl hhandles
  · exact absurd rfl hhandles

theorem http_atRest (hrest : (progress fuel g h).AtRest s) (hhandled : s.Handled fuel) :
    (Tcp.State.progress g h).AtRest s.mClientTcpServer.server := by
  rintro b t ⟨hown, hstep, hlt⟩
  have hne : t ≠ s.mClientTcpServer.server := fun he => hlt.ne (congrArg Tcp.State.work he)
  by_cases hbusy : s.Busy b
  · obtain ⟨http, hhttp, rfl⟩ := Stream.step_own hown hstep
    cases b with
    | handler i =>
      obtain ⟨m, hm, hlen⟩ := handle_of_handles
        (hbusy.resolve_right fun hcaller => hcaller (vnc_caller_free hrest i.castSucc))
      obtain ⟨task, htask⟩ := Option.isSome_iff_exists.mp (hhandled.task i m hm hlen)
      have hmove : s.step fuel (.OnRecvMessage i false) = some (s.setForward
          { s.toState with mClientTcpServer := http, dropped := s.dropped ++ [(m.conn, task)] }) := by
        show (s.HandleRecvMessage i false).map s.setForward = _
        unfold Forward.State.HandleRecvMessage
        rw [hm]
        dsimp only
        rw [if_pos ⟨hlen, vnc_caller_free hrest i.castSucc⟩, hhttp, Option.bind_some, htask]
        rfl
      exact hne (congrArg (fun s => s.mClientTcpServer.server)
        (same_of_atRest hrest (a := .OnRecvMessage i false) trivial hmove))
    | main =>
      obtain ⟨fd, m, hmain⟩ : ∃ fd m, s.mClientTcpServer.server.main = .OnDisconnect fd m := by
        have hcall := hbusy.resolve_right fun hcaller => hcaller (vnc_caller_free hrest (Fin.last g))
        split at hcall
        · next fd m hmain => exact ⟨fd, m, hmain⟩
        · exact hcall.elim
      have hmove : s.step fuel (.OnDisconnect false) = some (s.setForward
          { s.toState with
            mClientTcpServer := http
            dropped := s.dropped ++
              [(s.mClientTcpServer.server.conn fd, .ProxyClientDisconnectTask)] }) := by
        show (s.onDisconnect false).map s.setForward = _
        unfold Forward.State.onDisconnect
        rw [hmain]
        dsimp only
        rw [if_pos (vnc_caller_free hrest (Fin.last g)), hhttp]
        rfl
      exact hne (congrArg (fun s => s.mClientTcpServer.server)
        (same_of_atRest hrest (a := .OnDisconnect false) trivial hmove))
    | accept | event | OnAccept | recv | send | sender | call | caller => exact hbusy
  · exact hne (http_same hrest hown hbusy hstep)

theorem vnc_atRest (hrest : (progress fuel g h).AtRest s) (hhandled : s.Handled fuel) :
    (Tcp.State.progress h (g + 1)).AtRest s.mClientTcpVNCServer.server := by
  rintro b t ⟨hown, hstep, hlt⟩
  have hne : t ≠ s.mClientTcpVNCServer.server := fun he => hlt.ne (congrArg Tcp.State.work he)
  replace hown : b.Own := hown
  have hmutex := mutex_free hrest
  have hhandles : ∀ {b}, s.back.Parses b → s.mClientTcpVNCServer.server.handles b ≠ [] :=
    fun hparses => hparses.resolve_right fun hholder => by
      rw [show s.back.mKMutex = none from hmutex] at hholder
      cases hholder
  by_cases hparses : s.back.Parses b
  · replace hhandles := hhandles hparses
    obtain ⟨vnc, hvnc, rfl⟩ := Stream.step_own hown hstep
    cases b with
    | handler i =>
      obtain ⟨m, hm, hlen⟩ := handle_of_handles hhandles
      obtain ⟨r, hparse⟩ := Option.isSome_iff_exists.mp (hhandled.parse i m hm hlen)
      have hmove : s.step fuel (.ParseData i) = some (s.setBack { s.back with
          mClientTcpVNCServer := vnc
          mpVNCClient := r.1
          mKMutex := some ⟨i, r.1.parsed.drop s.client.parsed.length⟩ }) := by
        show (s.back.parse fuel i).map s.setBack = _
        unfold Return.State.parse
        rw [show s.back.mKMutex = none from hmutex,
          show s.back.mClientTcpVNCServer.server.handler i = .handle m from hm]
        dsimp only
        rw [if_pos hlen, show s.back.mClientTcpVNCServer.step (.handler i, []) = some vnc from hvnc,
          Option.bind_some, show ParseData fuel s.back.mpVNCClient
            (m.message (s.back.mClientTcpVNCServer.buffer m.addr)) = some r from hparse]
        rfl
      exact hne (congrArg (fun s => s.mClientTcpVNCServer.server)
        (same_of_atRest hrest (a := .ParseData i) trivial hmove))
    | accept | event | OnAccept | recv | main | send | sender | call | caller => exact hhandles rfl
  · cases b with
    | OnAccept ret =>
      -- `OnAccept` returns what it returns
      obtain ⟨t', ht'⟩ : ∃ t', s.mClientTcpVNCServer.server.onAccept s.mpVNCClient.isNone = some t' := by
        have honAccept : s.mClientTcpVNCServer.server.onAccept ret = some t := hstep
        unfold Tcp.State.onAccept at honAccept ⊢
        split at honAccept
        · exact ⟨_, rfl⟩
        · cases honAccept
      have hsame := vnc_same hrest (b := .OnAccept s.mpVNCClient.isNone) trivial
        (fun hparses => hhandles hparses rfl) rfl ht'
      exact absurd (congrArg Tcp.State.work hsame) (Tcp.work_onAccept ht').ne
    | accept | event | recv | main | handler | send | sender | call | caller =>
      exact hne (vnc_same hrest hown hparses trivial hstep)

/-- **No thread waits in vain**, neither for the other server nor for `mKMutex` nor for a Message. -/
theorem resting_of_atRest {nh nv : Nat} (hg : 0 < g) (hh : 0 < h) (hnh : 0 < nh) (hnv : 0 < nv)
    (hhttp : s.mClientTcpServer.Sound nh) (hvnc : s.mClientTcpVNCServer.Sound nv)
    (hhandled : s.Handled fuel) (hrest : (progress fuel g h).AtRest s) : s.Resting where
  http := Tcp.resting_of_atRest hg hnh hhttp.objects (http_atRest hrest hhandled)
  vnc := Tcp.resting_of_atRest hh hnv hvnc.objects (vnc_atRest hrest hhandled)
  mutex := mutex_free hrest

theorem State.Resting.atRest (hs : s.Resting) : (progress fuel g h).AtRest s := by
  rintro a s' ⟨-, -, hlt⟩
  have hzero : s.work = toLex (0, toLex (0, toLex (0, 0))) := by
    unfold State.work State.todo State.sendWork
    rw [hs.http.work_zero.1, hs.http.work_zero.2, hs.vnc.work_zero.1, hs.vnc.work_zero.2, hs.mutex]
    rfl
  replace hlt : s'.work < s.work := hlt
  rw [hzero] at hlt
  simp only [State.work, Prod.Lex.toLex_lt_toLex, Nat.not_lt_zero, and_false, or_false] at hlt

/-! ## what the callbacks are called with -/

section
variable {fs : List CMD} {peer : Conn} {pool : List Nat} {nh nv : Nat}

theorem handled_isSome {server : Stream g h} (hcarried : server.Carried) (hmeasured : server.Measured)
    {i : Fin g} {m : Msg} (hm : server.server.handler i = .handle m) :
    (Forward.SetBuffer (server.buffer m.addr)).isSome := by
  have hentry : server.entry m ∈ server.pushed := by
    rw [← Multiset.mem_coe, hcarried.chunks, Multiset.mem_add]
    exact .inr (Multiset.mem_map_of_mem _ (Tcp.mem_chunks.mpr (.inr ⟨i, hm⟩)))
  have hmeasures : m.Measures (server.buffer m.addr) := hmeasured.pushed _ hentry
  unfold Forward.SetBuffer
  rw [dif_pos ⟨hmeasures.length ▸ hmeasures.pos, hmeasures.length ▸ hmeasures.lt⟩]
  rfl

/-- the chunks of the VNC server are those of the connection that alone has brought bytes -/
theorem chunk_peer {server : Stream h (g + 1)} (hvnc : server.InOrder nv) (hcarried : server.Carried)
    (hmeasured : server.Measured) (honly : ∀ c, c ≠ peer → bytesOf server.received c = []) {m : Msg}
    (hm : m ∈ server.server.chunks) : m.conn = peer := by
  have hentry : server.entry m ∈ server.pushed := by
    rw [← Multiset.mem_coe, hcarried.chunks, Multiset.mem_add]
    exact .inr (Multiset.mem_map_of_mem _ hm)
  have hmeasures : m.Measures (server.buffer m.addr) := hmeasured.pushed _ hentry
  by_contra hne
  have hnil : bytesOf (tagged server.pushed) m.conn = [] :=
    List.prefix_nil.mp (honly m.conn hne ▸ hvnc.unbroken.le m.conn)
  unfold bytesOf tagged at hnil
  rw [List.flatMap_eq_nil_iff] at hnil
  have hbuffer := hnil (m.conn, server.buffer m.addr) (List.mem_filter.mpr
    ⟨List.mem_map.mpr ⟨_, hentry, rfl⟩, decide_eq_true rfl⟩)
  have hpos := hmeasures.pos
  rw [← hmeasures.length, show server.buffer m.addr = [] from hbuffer] at hpos
  exact Nat.lt_irrefl 0 hpos

/-- **`ParseData` returns** for the chunk of a handler thread -/
theorem parse_isSome {back : Return.State g h (g + 1)} (hfs : ∀ c ∈ fs, Return.CMD.Replies c)
    (hfuel : MAX_BUFFER_LEN + (fs.flatMap CMD.frame).length ≤ fuel)
    (hi : Return.Inv fs peer pool nv nh back)
    (hpeer : bytesOf back.mClientTcpVNCServer.received peer <+: fs.flatMap CMD.frame)
    (honly : ∀ c, c ≠ peer → bytesOf back.mClientTcpVNCServer.received c = []) {i : Fin h} {m : Msg}
    (hm : back.mClientTcpVNCServer.server.handler i = .handle m) (hlen : 0 < m.len) :
    (ParseData fuel back.mpVNCClient
      (m.message (back.mClientTcpVNCServer.buffer m.addr))).isSome := by
  by_cases hidle : back.mpVNCClient.miDataPacketRecvSeq ≠ m.seq → back.mpVNCClient.mpIdleMessageList ≠ []
  · obtain ⟨hchunk, hhandles⟩ := Return.handler_chunk hm hlen
    obtain ⟨vnc, hvnc, -⟩ := Stream.step_own (s := back.mClientTcpVNCServer) (a := .handler i) trivial
      (t := back.mClientTcpVNCServer.server.setHandler i (.closeIfNeed m)) (by
        show back.mClientTcpVNCServer.server.stepHandler i = _
        unfold Tcp.State.stepHandler
        rw [hm]
        exact congrArg some (congrArg _ (if_pos hlen)))
    have hstep := Stream.step_cases hvnc
    have hmeasured := hi.measured.step hi.vnc.sound.nodup hstep
    have hinOrder := hi.vnc.step (a := (.handler i, [])) trivial hstep
    have hreceived : vnc.received = back.mClientTcpVNCServer.received :=
      hstep.received.trans (List.append_nil _)
    obtain ⟨c', ret, hparse, -⟩ := hi.decoded.handle (fun f hf => (hfs f hf).sendable.toFits) hfuel
      hi.vnc.sound hi.carried hi.measured hstep hmeasured
      (Return.pushedOf_begins hinOrder (hreceived ▸ hpeer)) hchunk hhandles
      (chunk_peer hi.vnc hi.carried hi.measured honly hchunk) hidle
    rw [hparse]
    rfl
  · -- the chunk is early, and there is no Message for it
    obtain ⟨hearly, -⟩ := Classical.not_imp.mp hidle
    unfold ParseData
    dsimp only
    rw [Option.isSome_map]
    split
    · rfl
    · rw [if_pos (show _ ≠ (m.message (back.mClientTcpVNCServer.buffer m.addr)).seq from hearly)]
      rfl

theorem received_own (hown : a.Own) (hstep : s.step fuel a = some s') :
    s'.mClientTcpVNCServer.received = s.mClientTcpVNCServer.received := by
  have hcallback : ∀ {f : Forward.State g h h} {c : Forward.Action g h h},
      (∀ b bytes, c ≠ .vnc b bytes) → s.toState.step c = some f →
        f.mClientTcpVNCServer.received = s.mClientTcpVNCServer.received := by
    intro f c hc hforward
    cases Forward.step_cases hforward with
    | http | drop => rfl
    | send b j i client task http hcalls hhttp hfree v sm idle hidle x hx vnc hvnc =>
      exact hvnc.received.trans (List.append_nil _)
    | vnc b bytes => exact absurd rfl (hc b bytes)
  cases a with
  | http b bytes =>
    obtain ⟨-, http, -, rfl⟩ := http_step hstep
    rfl
  | vnc b bytes =>
    obtain ⟨vnc, hvnc, rfl⟩ := vnc_step hstep
    have hreceived := hvnc.received
    rw [Tcp.Action.Own.receives hown] at hreceived
    exact hreceived.trans (List.append_nil _)
  | OnRecvMessage i found =>
    obtain ⟨forward, hforward, rfl⟩ := Option.map_eq_some_iff.mp hstep
    exact hcallback (c := .OnRecvMessage i found) (fun _ _ he => by cases he) hforward
  | OnDisconnect found =>
    obtain ⟨forward, hforward, rfl⟩ := Option.map_eq_some_iff.mp hstep
    exact hcallback (c := .OnDisconnect found) (fun _ _ he => by cases he) hforward
  | ParseData i =>
    obtain ⟨back, hback, rfl⟩ := Option.map_eq_some_iff.mp hstep
    cases Return.step_cases (show s.back.step fuel (.ParseData i) = _ from hback) with
    | parse _ m vnc r hmutex hm hlen hvnc hparse => exact hvnc.received.trans (List.append_nil _)
  | OnParseCmd task =>
    obtain ⟨back, hback, rfl⟩ := Option.map_eq_some_iff.mp hstep
    cases Return.step_cases (show s.back.step fuel (.OnParseCmd task) = _ from hback) with
    | skip | reply => rfl
  | unlock =>
    obtain ⟨back, hback, rfl⟩ := Option.map_eq_some_iff.mp hstep
    cases Return.step_cases (show s.back.step fuel .unlock = _ from hback) with
    | unlock => rfl

end

/-! ## every fair execution -/

/-- nothing is left to be done, and what has come is on the sockets -/
structure Settled (fs : List CMD) (peer : Conn) (s : State g h) : Prop where
  resting : s.Resting
  /-- every chunk of the HTTP server is in a command that was sent, or its task was dropped -/
  chunks : (Forward.chunksOf s.sent).Subperm (tagged s.mClientTcpServer.pushed) ∧
    (Forward.chunksOf s.sent).length + (Forward.droppedChunks s.dropped).length
      = s.mClientTcpServer.pushed.length
  /-- the commands are on the socket -/
  commands : ∀ c, s.mClientTcpVNCServer.Live c → c ∉ s.mClientTcpVNCServer.abandoned →
    bytesOf s.mClientTcpVNCServer.written c = (s.sentOn c).flatMap CMD.frame
  /-- `OnParseCmd` was called with every command whose frame has come, once and in order -/
  passed : peer ∉ s.mClientTcpVNCServer.refused →
    bytesOf s.mClientTcpVNCServer.received peer = fs.flatMap CMD.frame → s.passed = fs
  /-- the answers are on the sockets of the browsers -/
  answers : ∀ c, s.mClientTcpServer.Live c → c ∉ s.mClientTcpServer.abandoned →
    bytesOf s.mClientTcpServer.written c = bytesOf (s.answered.map fun e => (e.1, e.2.param)) c

theorem settled_of_resting {fs : List CMD} {peer : Conn} {pool : List Nat} {nh nv : Nat}
    (hi : Forward.Inv nh nv s.toState) (hb : Return.Inv fs peer pool nv nh s.back)
    (hrest : s.Resting) : Settled fs peer s := by
  have hrestf : s.toState.Resting := ⟨hrest.http, hrest.vnc⟩
  refine ⟨hrest, ⟨?_, ?_⟩, fun c => hi.written_all hrestf, fun hrefused hreceived => ?_,
    fun c => hb.answers_written hrest.http hrest.mutex⟩
  · exact (hi.sent_subperm.trans hi.passed.sublist.subperm).trans hi.handled_subperm
  · have hsent : (Forward.chunksOf s.sent).Perm (Forward.chunksOf s.begun) :=
      ((hi.lanes.perm (hi.sending_none hrestf)).filter _).map _
    have hhandled := (hi.handled_perm hrestf).length_eq
    have hlength := hi.passed.length
    unfold tagged at hlength
    rw [List.length_map] at hlength
    rw [hsent.length_eq, hlength, hhandled]
  · exact hb.passed_all ⟨hreceived, hrefused, hrest.vnc, hrest.http, hrest.mutex⟩

section
variable {fs : List CMD} {peer : Conn} {nh wh sh nv wv sv : Nat}
  {jh jv : Nat → Int × Bool × Nat × Nat} {idle : List Message} {l : List (Action g h)}
  {state : Nat → State g h} {label : Nat → Action g h}

/-- **Both ways come to rest** for any number of handler threads: after every calm run, when nothing more
comes, every `recv` and every `send` returns and no thread that always has something to do is passed over
for ever, there is a moment from which on no thread of either server waits, and every chunk and every
command that has come has been passed on or dropped and is on its socket. -/
theorem both_settle (hg : 0 < g) (hh : 0 < h) (hnh : 0 < nh) (hnv : 0 < nv)
    (hfs : ∀ c ∈ fs, Return.CMD.Replies c)
    (hfuel : MAX_BUFFER_LEN + (fs.flatMap CMD.frame).length ≤ fuel)
    (hcalm : RunOk (State.step fuel) (State.Calm peer)
      (State.init (Stream.init g h nh wh sh jh) (Stream.init h (g + 1) nv wv sv jv) idle) l)
    (hrun : run (State.step fuel)
      (State.init (Stream.init g h nh wh sh jh) (Stream.init h (g + 1) nv wv sv jv) idle) l
        = some (state 0))
    (hpeer : bytesOf (state 0).mClientTcpVNCServer.received peer <+: fs.flatMap CMD.frame)
    (honly : ∀ c, c ≠ peer → bytesOf (state 0).mClientTcpVNCServer.received c = [])
    (he : (progress fuel g h).Execution state label)
    (hfair : ∀ i : Party g h, i.Runs → (progress fuel g h).FairTo i state label)
    (hhttp : Tcp.Returns (fun n => (state n).mClientTcpServer.server) fun n => (label n).ofHttp)
    (hvnc : Tcp.Returns (fun n => (state n).mClientTcpVNCServer.server) fun n => (label n).ofVNC)
    (hcalm' : ∀ n, (state n).Calm peer (label n)) :
    ∃ n, ∀ m ≥ n, Settled fs peer (state m) := by
  have hfair : (progress fuel g h).Fair state label
    | .http (.call c) => (drives_http fuel g h).fairTo he hhttp c
    | .vnc (.call c) => (drives_vnc fuel g h).fairTo he hvnc c
    | .http (.thread t) => hfair (.http (.thread t)) trivial
    | .vnc (.thread t) => hfair (.vnc (.thread t)) trivial
    | .holder => hfair .holder trivial
  obtain ⟨n, hrest, hsame⟩ := Progress.fair_rests he hfair
  have hreceived : (state n).mClientTcpVNCServer.received = (state 0).mClientTcpVNCServer.received := by
    refine he.inv (p := fun _ a => a.Own) (I := fun s => s.mClientTcpVNCServer.received
      = (state 0).mClientTcpVNCServer.received) (fun s a s' hi hown hstep => ?_) rfl he.own n
    exact (received_own hown hstep).trans hi
  obtain ⟨l', hcalm', hrun'⟩ := he.reached (p := State.Calm peer) hcalm' hcalm hrun n
  obtain ⟨⟨lf, hrunf, hcalmf⟩, lb, hrunb, hcalmb⟩ := run_ways hcalm' hrun'
  have hi := Forward.inv_of_calm hcalmf hrunf
  have hpeer' : bytesOf (state n).back.mClientTcpVNCServer.received peer <+: fs.flatMap CMD.frame :=
    (congrArg (bytesOf · peer) hreceived) ▸ hpeer
  have hb := Return.inv_of_calm hfs hfuel hcalmb hrunb hpeer'
  have hmeasured : (state n).mClientTcpServer.Measured := by
    refine (inv_runOk (I := fun f : Forward.State g h h => Forward.Inv nh nv f ∧ f.mClientTcpServer.Measured)
      (fun f c f' hi hok hstep => ⟨hi.1.step hok hstep, ?_⟩) ⟨?_, .init ..⟩ hcalmf hrunf).2
    · rcases Forward.http_of_step hstep with hsame | ⟨b, hhttp⟩
      · exact hsame ▸ hi.2
      · exact hi.2.step hi.1.http.sound.nodup hhttp
    · exact Forward.inv_of_calm (l := []) trivial rfl
  have hhandled : (state n).Handled fuel :=
    ⟨fun i m hm _ => handled_isSome hi.http.carried hmeasured hm,
      fun i m hm hlen => parse_isSome hfs hfuel hb hpeer' (fun c hc => by
        rw [show (state n).back.mClientTcpVNCServer.received = _ from hreceived]
        exact honly c hc) hm hlen⟩
  have hresting := resting_of_atRest hg hh hnh hnv hi.http.sound hi.vnc hhandled hrest
  refine ⟨n, fun m hm => ?_⟩
  rw [hsame m hm]
  exact settled_of_resting hi hb hresting

/-- the commands of a reply of two bytes and a Disconnect -/
def postReplies : List CMD := (sentBy 0 [.SendProxyBuffer 1 5 [65, 66], .SendProxyDisconnect 5]).flatten

set_option maxRecDepth 20000 in
/-- the frames have come in a chunk, and the threads move -/
theorem both_settle_post : ∃ (state : Nat → State 1 1) (label : Nat → Action 1 1),
    run (State.step 9000) start (request5 0) = some (state 0) ∧
      (progress 9000 1 1).Execution state label ∧
      (∀ i : Party 1 1, i.Runs → (progress 9000 1 1).FairTo i state label) ∧
      (Tcp.Returns (fun n => (state n).mClientTcpServer.server) fun n => (label n).ofHttp) ∧
      (Tcp.Returns (fun n => (state n).mClientTcpVNCServer.server) fun n => (label n).ofVNC) ∧
      ∃ n, ∀ m ≥ n, Settled postReplies (3, 1) (state m) := by
  obtain ⟨s, hs, hcalm, hreceived, t, ht, hcalm', hresting, ⟨t', ht', -⟩⟩ : ∃ s : State 1 1,
      run (State.step 9000) start (request5 0) = some s ∧
        RunOk (State.step 9000) (State.Calm (3, 1)) start (request5 0) ∧
        s.mClientTcpVNCServer.received = [((3, 1), postReplies.flatMap CMD.frame)] ∧
        ∃ t : State 1 1, run (State.step 9000) s (answer5 0 ⟨[1], by decide, by decide⟩) = some t ∧
          RunOk (State.step 9000) (State.Calm (3, 1)) s (answer5 0 ⟨[1], by decide, by decide⟩) ∧
          t.Resting ∧ ∃ t', run (State.step 9000) t [.http .sender []] = some t' ∧ True := by
    decide +kernel
  have hrest : (progress 9000 1 1).AtRest t := hresting.atRest
  obtain ⟨t'', ht'', hnil⟩ := run_cons.mp ht'
  have hsame : t'' = t := same_of_atRest hrest (a := .http .sender []) trivial ht''
  obtain ⟨state, label, rfl, he, hfair, hall⟩ := Progress.follow (P := progress 9000 1 1) ht
    (by simp [answer5, plain, progress, Action.Own, Tcp.Action.Own]) hcalm' hrest
    (show (progress 9000 1 1).own (.http .sender []) from trivial)
    (ht''.trans (congrArg some hsame)) (show t.Calm (3, 1) (.http .sender []) from trivial)
  have hhttp := (drives_http 9000 1 1).returns he fun c => hfair (.http (.call c))
  have hvnc := (drives_vnc 9000 1 1).returns he fun c => hfair (.vnc (.call c))
  have hreplies : ∀ c ∈ postReplies, Return.CMD.Replies c := Return.sentBy_replies 0 _
  refine ⟨state, label, hs, he, fun i _ => hfair i, hhttp, hvnc,
    both_settle Nat.one_pos Nat.one_pos (by decide) (by decide) hreplies (by decide) hcalm hs ?_
      (fun c hc => ?_) he (fun i _ => hfair i) hhttp hvnc hall⟩
  · rw [hreceived, Tcp.bytesOf_self]
  · rw [hreceived, Tcp.bytesOf_other hc.symm]

end

end VncProxy.Ways
