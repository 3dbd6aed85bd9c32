import VncProxy.Proxy.Deref
import VncProxy.Proxy.Relay
import VncProxy.Wire.ParseData

/-!
# A second VNC connection

`Accept_Callback` of the VNC server, from `accept` to its end, where `mpVNCClient` is there already:
`OnAccept` refuses, and `Disconnect`, `OnDisconnect`, `OnClose` and `close` follow.

* `State`            the VNC server with `mpVNCClient`, and what the HTTP server keeps of its clients;
* `State.Accept_Callback`  the main thread goes on until it is back in its loop;
* `Untouched`        the new descriptor is closed once and all else is as it was;
* `Placed`           in its loop the main thread is in no callback;
* `Accept_Callback_refuses`, `Accept_Callback_deletes`  the way through the callback;
* `second_untouched_iff`.
-/

namespace VncProxy.Second

open Peer (Closer ClosePc AcceptPc)

variable {h k : Nat}

/-! ## the state and its steps -/

/-- `client` are the fields of the `Client` behind `mpVNCClient` that `ParseData` uses; `shut` are the
descriptors that `mClientTcpServer.Disconnect` was called with -/
structure State (h k : Nat) where
  peer : Peer.State h k
  client : VncProxy.Client
  mClientMap : List (CInt × Relay.Client)
  mClient2SessionMap : List (CInt × Relay.Session)
  shut : List CInt

def State.init (h k pool watchers handleSize : Nat) (junk : Nat → Int × Bool × Nat × Nat) :
    State h k where
  peer := .init h k pool watchers handleSize junk
  client := .fresh []
  mClientMap := []
  mClient2SessionMap := []
  shut := []

inductive Action (h k : Nat) where
  /-- a step of the VNC server or in `SendClient2VNC` -/
  | peer (a : Peer.Action h k)
  /-- what `ParseData` has made of the client -/
  | parseData (client : VncProxy.Client)
  /-- what the callbacks of the HTTP server and `SendClient2VNC` have made of the maps -/
  | http (mClientMap : List (CInt × Relay.Client)) (mClient2SessionMap : List (CInt × Relay.Session))

namespace State

/-- `new Client()` in `OnAccept` -/
def newClient (s : State h k) : Peer.Action h k → VncProxy.Client
  | .OnAccept => if s.peer.accept = .new then .fresh [] else s.client
  | _ => s.client

/-- `CloseSessionByVNC()` in `OnClose`, before `delete mpVNCClient` -/
def CloseSessionByVNC (s : State h k) : Peer.Action h k → List CInt
  | .OnClose x => if s.peer.close x = .delete then s.mClientMap.map fun e => e.2.fd else []
  | _ => []

def step (s : State h k) : Action h k → Option (State h k)
  | .peer a => (s.peer.step a).map fun peer =>
      { s with peer := peer, client := s.newClient a, shut := s.shut ++ s.CloseSessionByVNC a }
  | .parseData client => some { s with client := client }
  | .http mClientMap mClient2SessionMap =>
    some { s with mClientMap := mClientMap, mClient2SessionMap := mClient2SessionMap }

/-- the next step of the main thread in `Accept_Callback` -/
def mainNext (s : State h k) : Option (State h k) :=
  match s.peer.server.main with
  | .OnAccept _ => s.step (.peer .OnAccept)
  | .OnClose .. => s.step (.peer (.OnClose .main))
  | _ => s.step (.peer (.server .main))

/-- the main thread goes on until it is in its loop, for `n` steps at most -/
def toEnd : Nat → State h k → Option (State h k)
  | 0, s => if s.peer.server.main = .loop then some s else none
  | n + 1, s => if s.peer.server.main = .loop then some s else s.mainNext.bind (toEnd n)

/-- `Accept_Callback`, where `accept` returns `fd` -/
def Accept_Callback (s : State h k) (fd : Nat) : Option (State h k) :=
  (s.step (.peer (.server (.accept fd)))).bind (toEnd 16)

end State

/-- the new descriptor was closed once, and all else is as it was -/
structure Untouched (fd : Nat) (s s' : State h k) : Prop where
  closes : (s'.peer.server.slot fd).closes = 1
  isOpen : (s'.peer.server.slot fd).isOpen = false
  slots : ∀ fd', fd' ≠ fd → s'.peer.server.slot fd' = s.peer.server.slot fd'
  mpVNCClient : s'.peer.mpVNCClient = s.peer.mpVNCClient
  client : s'.client = s.client
  mClientMap : s'.mClientMap = s.mClientMap
  mClient2SessionMap : s'.mClient2SessionMap = s.mClient2SessionMap
  shut : s'.shut = s.shut
  mWatcherList : s'.peer.server.mWatcherList = s.peer.server.mWatcherList
  mIdleMessageList : s'.peer.server.mIdleMessageList = s.peer.server.mIdleMessageList
  mHandleMessageList : s'.peer.server.mHandleMessageList = s.peer.server.mHandleMessageList
  mSendImmediatelyMessageList :
    s'.peer.server.mSendImmediatelyMessageList = s.peer.server.mSendImmediatelyMessageList

/-! ## where the main thread is -/

variable {s s' : State h k}

/-- the main thread is in `OnAccept` or in `OnClose` of `TcpProxyServer` only where `TcpServer` has called
it -/
structure Placed (p : Peer.State h k) : Prop where
  accept : p.accept ≠ .check → ∃ fd, p.server.main = .OnAccept fd
  close : p.close .main ≠ .check → ∃ fd m, p.server.main = .OnClose fd m

theorem Placed.of_main {p q : Peer.State h k} (hp : Placed p) (hmain : q.server.main = p.server.main)
    (haccept : q.accept = p.accept) (hclose : q.close .main = p.close .main) : Placed q :=
  ⟨fun h => hmain ▸ hp.accept (haccept ▸ h), fun h => hmain ▸ hp.close (hclose ▸ h)⟩

/-- a step of the server finds the main thread in neither, or it is of another thread -/
theorem Placed.stepServer {p q : Peer.State h k} (hp : Placed p) {a : Tcp.Action h k}
    (hstep : p.stepServer a = some q) : Placed q := by
  unfold Peer.State.stepServer at hstep
  split at hstep
  · next hown =>
    obtain ⟨t, ht, rfl⟩ := Option.map_eq_some_iff.mp hstep
    by_cases ha : a.OfMain
    · have hnot : (∀ fd, p.server.main ≠ .OnAccept fd) ∧ ∀ fd m, p.server.main ≠ .OnClose fd m := by
        constructor
        · rintro fd hfd
          cases a with
          | accept fd' => simp [Tcp.State.step, Tcp.State.accept, hfd] at ht
          | event fd' error => simp [Tcp.State.step, Tcp.State.event, hfd] at ht
          | OnAccept ret => exact hown
          | recv ret => simp [Tcp.State.step, Tcp.State.recv, hfd] at ht
          | main => simp [Tcp.State.step, Tcp.State.stepMain, hfd] at ht
          | handler | send | sender | call | caller => exact ha
        · rintro fd m hfd
          cases a with
          | accept fd' => simp [Tcp.State.step, Tcp.State.accept, hfd] at ht
          | event fd' error => simp [Tcp.State.step, Tcp.State.event, hfd] at ht
          | OnAccept ret => exact hown
          | recv ret => simp [Tcp.State.step, Tcp.State.recv, hfd] at ht
          | main => simp [Peer.State.Own, Closer.closing, hfd] at hown
          | handler | send | sender | call | caller => exact ha
      refine ⟨fun h => ?_, fun h => ?_⟩
      · obtain ⟨fd, hfd⟩ := hp.accept h
        exact absurd hfd (hnot.1 fd)
      · obtain ⟨fd, m, hfd⟩ := hp.close h
        exact absurd hfd (hnot.2 fd m)
    · have hany : p.server.stepAny a = some t := by
        cases a with
        | call => exact hown.elim
        | _ => exact ht
      exact hp.of_main (Tcp.main_others ha hany) rfl rfl
  · cases hstep

theorem Placed.OnAccept {p q : Peer.State h k} (hp : Placed p) (hstep : p.OnAccept = some q) :
    Placed q := by
  unfold Peer.State.OnAccept at hstep
  split at hstep
  · next fd hmain =>
    have hclose : p.close .main = .check := by
      by_contra hne
      obtain ⟨fd', m, hpc⟩ := hp.close hne
      rw [hmain] at hpc
      cases hpc
    have hret : ∀ {r : Peer.State h k} {ret : Bool}, r.accept = .check → r.close = p.close →
        r.accepted ret = some q → Placed q := by
      intro r ret haccept hc hr
      obtain ⟨t, _, rfl⟩ := Option.map_eq_some_iff.mp hr
      refine ⟨fun h => absurd haccept h, fun h => absurd ?_ h⟩
      show r.close .main = .check
      rw [hc, hclose]
    have hstay : ∀ {r : Peer.State h k}, r.server = p.server → r.close = p.close → Placed r := by
      intro r hs hc
      refine ⟨fun _ => ⟨fd, by rw [hs, hmain]⟩, fun h => absurd ?_ h⟩
      rw [hc, hclose]
    split at hstep
    · next haccept =>
      split at hstep
      · exact Option.some.inj hstep ▸ hstay rfl rfl
      · exact hret haccept rfl hstep
    · exact Option.some.inj hstep ▸ hstay rfl rfl
    · exact Option.some.inj hstep ▸ hstay rfl rfl
    · exact hret (by rfl) (by rfl) hstep
  · cases hstep

theorem Placed.OnClose {p q : Peer.State h k} (hp : Placed p) {x : Closer h}
    (hstep : p.OnClose x = some q) : Placed q := by
  unfold Peer.State.OnClose at hstep
  split at hstep
  · next fd hclosing =>
    -- the step of the server behind the callback
    have hclosed : ∀ {r : Peer.State h k}, r.server = p.server → r.accept = p.accept →
        (∀ y, y ≠ x → r.close y = p.close y) → r.close x = .check → r.closed x = some q → Placed q := by
      intro r hs ha hothers hx hr
      obtain ⟨t, ht, rfl⟩ := Option.map_eq_some_iff.mp hr
      rw [hs] at ht
      cases x with
      | main =>
        obtain ⟨m, hmain⟩ := Closer.main_pc hclosing
        refine ⟨fun h => ?_, fun h => absurd hx h⟩
        obtain ⟨fd', hfd'⟩ := hp.accept (ha ▸ h)
        rw [hmain] at hfd'
        cases hfd'
      | handler i => exact hp.of_main (Tcp.main_others (a := .handler i) id ht) ha (hothers _ nofun)
      | sender => exact hp.of_main (Tcp.main_others (a := .sender) id ht) ha (hothers _ nofun)
    have hstay : ∀ {r : Peer.State h k}, r.server = p.server → r.accept = p.accept →
        (∀ y, y ≠ x → r.close y = p.close y) → Placed r := by
      intro r hs ha hothers
      refine ⟨fun h => hs ▸ hp.accept (ha ▸ h), fun h => ?_⟩
      by_cases hx : Closer.main = x
      · subst hx
        obtain ⟨m, hmain⟩ := Closer.main_pc hclosing
        exact ⟨fd, m, hs ▸ hmain⟩
      · rw [hothers _ hx] at h
        exact hs ▸ hp.close h
    split at hstep
    · next hcheck =>
      split at hstep
      · obtain rfl := Option.some.inj hstep
        exact hstay rfl rfl fun y hy => p.setClose_other _ hy
      · exact hclosed rfl rfl (fun _ _ => rfl) hcheck hstep
    · obtain rfl := Option.some.inj hstep
      exact hstay rfl rfl fun y hy => Peer.State.setClose_other _ _ hy
    · refine hclosed ?_ ?_ ?_ ?_ hstep
      · rfl
      · rfl
      · exact fun y hy => Peer.State.setClose_other _ _ hy
      · exact Peer.State.setClose_self _ x _
  · cases hstep

theorem Placed.SendClient2VNC {p q : Peer.State h k} (hp : Placed p) {j : Fin k} {len : Nat}
    (hstep : p.SendClient2VNC j len = some q) : Placed q := by
  unfold Peer.State.SendClient2VNC at hstep
  split at hstep
  · exact Option.some.inj hstep ▸ hp.of_main rfl rfl rfl
  · exact Option.some.inj hstep ▸ hp.of_main rfl rfl rfl
  · exact Option.some.inj hstep ▸ hp.of_main rfl rfl rfl
  · split at hstep <;> exact Option.some.inj hstep ▸ hp.of_main rfl rfl rfl
  · exact Option.some.inj hstep ▸ hp.of_main rfl rfl rfl
  · split at hstep
    · exact Option.some.inj hstep ▸ hp.of_main rfl rfl rfl
    · cases hstep
  · split at hstep <;> exact Option.some.inj hstep ▸ hp.of_main rfl rfl rfl
  · split at hstep
    · exact Option.some.inj hstep ▸ hp.of_main rfl rfl rfl
    · cases hstep
  · exact Option.some.inj hstep ▸ hp.of_main rfl rfl rfl

theorem Placed.step {p q : Peer.State h k} (hp : Placed p) {a : Peer.Action h k}
    (hstep : p.step a = some q) : Placed q := by
  cases a with
  | server a => exact hp.stepServer hstep
  | OnAccept => exact hp.OnAccept hstep
  | OnClose x => exact hp.OnClose hstep
  | SendClient2VNC j len => exact hp.SendClient2VNC hstep
  | openOther fd =>
    change p.openOther fd = some q at hstep
    unfold Peer.State.openOther at hstep
    split at hstep
    · exact Option.some.inj hstep ▸ hp.of_main rfl rfl rfl
    · cases hstep
  | closeOther fd => exact Option.some.inj hstep ▸ hp.of_main rfl rfl rfl

/-! ## the way through `Accept_Callback` -/

/-- the main thread is at `pc`, the entry of `fd` is `sl`, and `mpVNCClient` is `mp` -/
def State.atPc (s : State h k) (fd : Nat) (sl : Tcp.Slot) (pc : Tcp.MainPc) (mp : Option Peer.Client) :
    State h k :=
  { s with peer := { s.peer with
    server := (s.peer.server.setSlot fd sl).setMain pc
    mpVNCClient := mp } }

/-- the main thread is at `close` in `OnClose` of `TcpProxyServer` -/
def State.inClose (s : State h k) (close : ClosePc) (shut : List CInt) : State h k :=
  { s with peer := s.peer.setClose .main close, shut := s.shut ++ shut }

section
variable (s : State h k) (fd : Nat) (sl : Tcp.Slot) (mp : Option Peer.Client) (c : Peer.Client)

theorem toEnd_next {s t : State h k} {fd : Nat} {sl : Tcp.Slot} {pc : Tcp.MainPc}
    {mp : Option Peer.Client} (hnext : (s.atPc fd sl pc mp).mainNext = some t) (hpc : pc ≠ .loop)
    (n : Nat) : State.toEnd (n + 1) (s.atPc fd sl pc mp) = State.toEnd n t := by
  show (if pc = .loop then _ else (s.atPc fd sl pc mp).mainNext.bind (State.toEnd n)) = _
  rw [if_neg hpc, hnext]
  rfl

theorem next_server {pc pc' : Tcp.MainPc} {sl' : Tcp.Slot} (hpc : ∀ fd', pc ≠ .OnAccept fd')
    (hclose : ∀ fd' m, pc ≠ .OnClose fd' m) (hdisconnect : ∀ fd' m, pc ≠ .OnDisconnect fd' m)
    (hstep : ((s.peer.server.setSlot fd sl).setMain pc).stepMain
      = some ((s.peer.server.setSlot fd sl').setMain pc')) :
    (s.atPc fd sl pc mp).mainNext = some (s.atPc fd sl' pc' mp) := by
  have hnext : (s.atPc fd sl pc mp).mainNext = (s.atPc fd sl pc mp).step (.peer (.server .main)) := by
    unfold State.mainNext
    split
    · next fd' h => exact absurd h (hpc fd')
    · next fd' m h => exact absurd h (hclose fd' m)
    · rfl
  have hown : Closer.main.closing ((s.peer.server.setSlot fd sl).setMain pc) = none := by
    unfold Closer.closing
    dsimp only
    split
    · next fd' m h => exact absurd h (hclose fd' m)
    · rfl
  have hmp : (s.atPc fd sl pc mp).peer.OnDisconnect .main = mp := by
    unfold Peer.State.OnDisconnect
    dsimp only
    split
    · next fd' m h => exact absurd h (hdisconnect fd' m)
    · rfl
  have hpeer : (s.atPc fd sl pc mp).peer.step (.server .main) = some (s.atPc fd sl' pc' mp).peer := by
    show (if Closer.main.closing ((s.peer.server.setSlot fd sl).setMain pc) = none then
      (((s.peer.server.setSlot fd sl).setMain pc).stepMain).map _ else none) = _
    rw [if_pos hown, hstep, Option.map_some, hmp]
    simp [State.atPc, Peer.State.writes]
  rw [hnext]
  show ((s.atPc fd sl pc mp).peer.step (.server .main)).map _ = _
  rw [hpeer]
  simp [State.atPc, State.newClient, State.CloseSessionByVNC]

theorem next_resetCount : (s.atPc fd sl (.resetCount fd) mp).mainNext
    = some (s.atPc fd sl.resetCount (.resetSeqRecv fd) mp) :=
  next_server s fd sl mp nofun nofun nofun
    (by simp [Tcp.State.stepMain, Tcp.State.setSlot, Tcp.State.setMain])

theorem next_resetSeqRecv : (s.atPc fd sl (.resetSeqRecv fd) mp).mainNext
    = some (s.atPc fd { sl with mpPacketSeqRecv := 0 } (.resetSeqSend fd) mp) :=
  next_server s fd sl mp nofun nofun nofun
    (by simp [Tcp.State.stepMain, Tcp.State.setSlot, Tcp.State.setMain])

theorem next_resetSeqSend : (s.atPc fd sl (.resetSeqSend fd) mp).mainNext
    = some (s.atPc fd { sl with mpPacketSeqSend := 0, known := true } (.OnAccept fd) mp) :=
  next_server s fd sl mp nofun nofun nofun
    (by simp [Tcp.State.stepMain, Tcp.State.setSlot, Tcp.State.setMain])

theorem next_refuse : (s.atPc fd sl (.refuse fd) mp).mainNext
    = some (s.atPc fd sl (.OnDisconnect fd none) mp) :=
  next_server s fd sl mp nofun nofun nofun
    (by simp [Tcp.State.stepMain, Tcp.State.setSlot, Tcp.State.setMain])

theorem next_closeIfNeed (hcount : sl.mpHandlingMessageCount = 0) :
    (s.atPc fd sl (.closeIfNeed fd none) mp).mainNext
      = some (s.atPc fd { sl with disconnected := true, decided := true } (.OnClose fd none) mp) :=
  next_server s fd sl mp nofun nofun nofun
    (by simp [Tcp.State.stepMain, Tcp.State.setSlot, Tcp.State.setMain, Tcp.Slot.OnDisconnect, hcount])

theorem next_close : (s.atPc fd sl (.close fd none) mp).mainNext
    = some (s.atPc fd sl.close (.idle none) mp) :=
  next_server s fd sl mp nofun nofun nofun
    (by simp [Tcp.State.stepMain, Tcp.State.setSlot, Tcp.State.setMain])

theorem next_idle : (s.atPc fd sl (.idle none) mp).mainNext = some (s.atPc fd sl .loop mp) :=
  next_server s fd sl mp nofun nofun nofun
    (by simp [Tcp.State.stepMain, Tcp.State.setSlot, Tcp.State.setMain])

theorem start {fd : Nat} (hfd : fd ≠ 0) (hloop : s.peer.server.main = .loop)
    (hfree : s.peer.socket fd = none) :
    s.step (.peer (.server (.accept fd)))
      = some (s.atPc fd (s.peer.server.slot fd).accept (.resetCount fd) s.peer.mpVNCClient) := by
  unfold Peer.State.socket at hfree
  split at hfree
  · cases hfree
  · next hopen =>
    have hother : s.peer.other fd = none := Option.map_eq_none_iff.mp hfree
    simp [State.step, State.atPc, Peer.State.step, Peer.State.stepServer, Peer.State.Own, hother,
      Tcp.State.step, Tcp.State.accept, hloop, hopen, hfd, Peer.State.writes, Peer.State.OnDisconnect,
      State.newClient, State.CloseSessionByVNC]

theorem start_zero (hloop : s.peer.server.main = .loop) (hfree : s.peer.socket 0 = none) :
    ∃ s', s.step (.peer (.server (.accept 0))) = some s' ∧ s'.peer.server.main = .loop ∧
      (s'.peer.server.slot 0).closes = 0 := by
  unfold Peer.State.socket at hfree
  split at hfree
  · cases hfree
  · next hopen =>
    have hother : s.peer.other 0 = none := Option.map_eq_none_iff.mp hfree
    simp [State.step, Peer.State.step, Peer.State.stepServer, Peer.State.Own, hother,
      Tcp.State.step, Tcp.State.accept, hloop, hopen, Tcp.State.setSlot, Tcp.Slot.accept]

theorem next_OnAccept (haccept : s.peer.accept = .check) :
    (s.atPc fd sl (.OnAccept fd) (some c)).mainNext = some (s.atPc fd sl (.refuse fd) (some c)) := by
  simp [State.mainNext, State.step, State.atPc, Peer.State.step, Peer.State.OnAccept, haccept,
    Peer.State.accepted, Tcp.State.step, Tcp.State.onAccept, Tcp.State.setMain, State.newClient,
    State.CloseSessionByVNC, Tcp.State.setSlot]

theorem next_OnDisconnect :
    (s.atPc fd sl (.OnDisconnect fd none) (some c)).mainNext
      = some (s.atPc fd sl (.closeIfNeed fd none)
        (some (if c.fd = some fd then { c with isOnline := false } else c))) := by
  simp [State.mainNext, State.step, State.atPc, Peer.State.step, Peer.State.stepServer, Peer.State.Own,
    Closer.closing, Tcp.State.step, Tcp.State.stepMain, Tcp.State.setSlot, Tcp.State.setMain,
    Peer.State.writes, Peer.State.OnDisconnect, State.newClient, State.CloseSessionByVNC]

theorem next_OnClose (hclose : s.peer.close .main = .check) (hne : c.fd ≠ some fd) :
    (s.atPc fd sl (.OnClose fd none) (some c)).mainNext
      = some (s.atPc fd sl.OnClose (.close fd none) (some c)) := by
  simp [State.mainNext, State.step, State.atPc, Peer.State.step, Peer.State.OnClose,
    Closer.closing, Closer.action, Peer.State.closed, hclose, hne, Tcp.State.step, Tcp.State.stepMain,
    Tcp.State.setSlot, Tcp.State.setMain, State.newClient, State.CloseSessionByVNC]

theorem next_check (hclose : s.peer.close .main = .check) (heq : c.fd = some fd) :
    (s.atPc fd sl (.OnClose fd none) (some c)).mainNext
      = some ((s.inClose .delete []).atPc fd sl (.OnClose fd none) (some c)) := by
  simp [State.mainNext, State.step, State.atPc, State.inClose, Peer.State.step, Peer.State.OnClose,
    Closer.closing, hclose, heq, Peer.State.setClose, Tcp.State.setSlot, Tcp.State.setMain,
    State.newClient, State.CloseSessionByVNC]

theorem next_delete (hclose : s.peer.close .main = .delete) :
    (s.atPc fd sl (.OnClose fd none) (some c)).mainNext
      = some ((s.inClose .setNull (s.mClientMap.map fun e => e.2.fd)).atPc fd sl (.OnClose fd none)
        (some { c with deleted := true })) := by
  simp [State.mainNext, State.step, State.atPc, State.inClose, Peer.State.step, Peer.State.OnClose,
    Closer.closing, hclose, Peer.State.setClose, Tcp.State.setSlot, Tcp.State.setMain,
    State.newClient, State.CloseSessionByVNC]

theorem next_setNull (hclose : s.peer.close .main = .setNull) :
    (s.atPc fd sl (.OnClose fd none) (some c)).mainNext
      = some ((s.inClose .check []).atPc fd sl.OnClose (.close fd none) none) := by
  simp [State.mainNext, State.step, State.atPc, State.inClose, Peer.State.step, Peer.State.OnClose,
    Closer.closing, Closer.action, Peer.State.closed, hclose, Peer.State.setClose, Tcp.State.step,
    Tcp.State.stepMain, Tcp.State.setSlot, Tcp.State.setMain, State.newClient, State.CloseSessionByVNC]

end

/-- the entry of `fd` when the callback has run -/
def refused (sl : Tcp.Slot) : Tcp.Slot :=
  { sl.accept.resetCount with
    mpPacketSeqRecv := 0
    mpPacketSeqSend := 0
    known := true
    disconnected := true
    decided := true
    onCloses := 1
    closes := 1
    isOpen := false }

section
variable {s : State h k} {fd : Nat} {c : Peer.Client}

theorem toEnd_OnClose (fd : Nat) (c : Peer.Client) (haccept : s.peer.accept = .check) (n : Nat) :
    ∃ sl : Tcp.Slot, sl.OnClose.close = refused (s.peer.server.slot fd) ∧
      State.toEnd (n + 7) (s.atPc fd (s.peer.server.slot fd).accept (.resetCount fd) (some c))
        = State.toEnd n (s.atPc fd sl (.OnClose fd none)
          (some (if c.fd = some fd then { c with isOnline := false } else c))) := by
  refine ⟨{ (s.peer.server.slot fd).accept.resetCount with
    mpPacketSeqRecv := 0
    mpPacketSeqSend := 0
    known := true
    disconnected := true
    decided := true }, rfl, ?_⟩
  rw [toEnd_next (next_resetCount ..) nofun, toEnd_next (next_resetSeqRecv ..) nofun,
    toEnd_next (next_resetSeqSend ..) nofun, toEnd_next (next_OnAccept _ _ _ _ haccept) nofun,
    toEnd_next (next_refuse ..) nofun, toEnd_next (next_OnDisconnect ..) nofun,
    toEnd_next (next_closeIfNeed _ _ _ _ rfl) nofun]

theorem toEnd_close {sl : Tcp.Slot} {mp : Option Peer.Client} (n : Nat) :
    State.toEnd (n + 2) (s.atPc fd sl (.close fd none) mp) = some (s.atPc fd sl.close .loop mp) := by
  rw [toEnd_next (next_close ..) nofun, toEnd_next (next_idle ..) nofun]
  unfold State.toEnd
  split <;> exact if_pos rfl

theorem Accept_Callback_refuses (haccept : s.peer.accept = .check) (hclose : s.peer.close .main = .check)
    (hloop : s.peer.server.main = .loop) (hc : s.peer.mpVNCClient = some c) (hfd : fd ≠ 0)
    (hfree : s.peer.socket fd = none) (hne : c.fd ≠ some fd) :
    s.Accept_Callback fd = some (s.atPc fd (refused (s.peer.server.slot fd)) .loop (some c)) := by
  obtain ⟨sl, hsl, hto⟩ := toEnd_OnClose fd c haccept 9
  unfold State.Accept_Callback
  rw [start s hfd hloop hfree, Option.bind_some, hc, hto, if_neg hne,
    toEnd_next (next_OnClose _ _ _ _ hclose hne) nofun, toEnd_close, hsl]

theorem toEnd_delete (sl : Tcp.Slot) (hclose : s.peer.close .main = .check) (heq : c.fd = some fd)
    (n : Nat) : ∃ t : State h k, State.toEnd (n + 3) (s.atPc fd sl (.OnClose fd none) (some c))
      = State.toEnd n (t.atPc fd sl.OnClose (.close fd none) none) := by
  let s₁ := s.inClose .delete []
  let s₂ := s₁.inClose .setNull (s₁.mClientMap.map fun e => e.2.fd)
  have h₁ : s₁.peer.close .main = .delete := Peer.State.setClose_self ..
  have h₂ : s₂.peer.close .main = .setNull := Peer.State.setClose_self ..
  refine ⟨s₂.inClose .check [], ?_⟩
  rw [toEnd_next (next_check s fd sl c hclose heq) nofun, toEnd_next (next_delete s₁ fd sl c h₁) nofun,
    toEnd_next (next_setNull s₂ fd sl _ h₂) nofun]

/-- the number is that of `mpVNCClient`, which is deleted -/
theorem Accept_Callback_deletes (haccept : s.peer.accept = .check)
    (hclose : s.peer.close .main = .check) (hloop : s.peer.server.main = .loop)
    (hc : s.peer.mpVNCClient = some c) (hfd : fd ≠ 0) (hfree : s.peer.socket fd = none)
    (heq : c.fd = some fd) : ∃ s', s.Accept_Callback fd = some s' ∧ s'.peer.mpVNCClient = none := by
  obtain ⟨sl, _, hto⟩ := toEnd_OnClose fd c haccept 9
  have hoff : Peer.Client.fd { c with isOnline := false } = some fd := heq
  obtain ⟨t, ht⟩ := toEnd_delete sl hclose hoff 6
  refine ⟨t.atPc fd sl.OnClose.close .loop none, ?_, rfl⟩
  unfold State.Accept_Callback
  rw [start s hfd hloop hfree, Option.bind_some, hc, hto, if_pos heq, ht, toEnd_close]

end

/-! ## the property -/

theorem placed_run {pool watchers handleSize : Nat} {junk : Nat → Int × Bool × Nat × Nat}
    {l : List (Action h k)} {s : State h k}
    (hrun : run State.step (State.init h k pool watchers handleSize junk) l = some s) :
    Placed s.peer := by
  have hstep : ∀ (s : State h k) a s', Placed s.peer → s.step a = some s' → Placed s'.peer := by
    intro s a s' hs h
    cases a with
    | peer a =>
      obtain ⟨p, hp, rfl⟩ := Option.map_eq_some_iff.mp h
      exact hs.step hp
    | parseData | http => exact Option.some.inj h ▸ hs
  exact inv_run (I := fun s => Placed s.peer) hstep ⟨fun h => absurd rfl h, fun h => absurd rfl h⟩ hrun

/-- **A second connection is refused and closed, and changes nothing, just when its descriptor is neither
0 nor that of `mpVNCClient`**, in every reachable state in which there is a `Client` behind
`mpVNCClient`. -/
theorem second_untouched_iff (pool watchers handleSize : Nat) (junk : Nat → Int × Bool × Nat × Nat)
    (l : List (Action h k)) (s : State h k)
    (hrun : run State.step (State.init h k pool watchers handleSize junk) l = some s)
    (hloop : s.peer.server.main = .loop) (c : Peer.Client) (hc : s.peer.mpVNCClient = some c)
    (fd : Nat) (hfree : s.peer.socket fd = none) :
    ∃ s', s.Accept_Callback fd = some s' ∧ (Untouched fd s s' ↔ fd ≠ 0 ∧ c.fd ≠ some fd) := by
  have hplaced := placed_run hrun
  have haccept : s.peer.accept = .check := by
    by_contra hne
    obtain ⟨fd', hpc⟩ := hplaced.accept hne
    rw [hloop] at hpc
    cases hpc
  have hclose : s.peer.close .main = .check := by
    by_contra hne
    obtain ⟨fd', m, hpc⟩ := hplaced.close hne
    rw [hloop] at hpc
    cases hpc
  by_cases hfd : fd = 0
  · subst hfd
    obtain ⟨s', hs', hend, hcloses⟩ := start_zero s hloop hfree
    refine ⟨s', ?_, iff_of_false (fun hu => ?_) fun h => h.1 rfl⟩
    · unfold State.Accept_Callback
      rw [hs', Option.bind_some]
      exact if_pos hend
    · rw [hu.closes] at hcloses
      cases hcloses
  · by_cases heq : c.fd = some fd
    · obtain ⟨s', hs', hnull⟩ := Accept_Callback_deletes haccept hclose hloop hc hfd hfree heq
      refine ⟨s', hs', iff_of_false (fun hu => ?_) fun h => h.2 heq⟩
      rw [hu.mpVNCClient, hc] at hnull
      cases hnull
    · refine ⟨_, Accept_Callback_refuses haccept hclose hloop hc hfd hfree heq,
        iff_of_true ?_ ⟨hfd, heq⟩⟩
      have hslot : (s.atPc fd (refused (s.peer.server.slot fd)) .loop (some c)).peer.server.slot fd
          = refused (s.peer.server.slot fd) := Function.update_self ..
      constructor
      case closes => rw [hslot]; rfl
      case isOpen => rw [hslot]; rfl
      case slots => exact fun fd' hne => Function.update_of_ne hne ..
      case mpVNCClient => exact hc.symm
      all_goals rfl

/-- HttpProxyServer has connected as 5, and someone else connects as 9 -/
theorem second_untouched_nine :
    ∃ s s' : State 1 1, run State.step (State.init 1 1 3 4 9 fun _ => (7, true, 3, 3))
        (Peer.connect5.map .peer) = some s ∧
      s.peer.mpVNCClient = some ⟨some (5, 1), true, 0, false⟩ ∧ s.Accept_Callback 9 = some s' ∧
      Untouched 9 s s' := by
  have hrun : ∃ s : State 1 1, run State.step (State.init 1 1 3 4 9 fun _ => (7, true, 3, 3))
      (Peer.connect5.map .peer) = some s ∧ s.peer.server.main = .loop ∧
      s.peer.mpVNCClient = some ⟨some (5, 1), true, 0, false⟩ ∧ s.peer.socket 9 = none :=
    ⟨_, rfl, rfl, rfl, rfl⟩
  obtain ⟨s, hs, hloop, hc, hfree⟩ := hrun
  obtain ⟨s', hs', hiff⟩ := second_untouched_iff 3 4 9 _ _ s hs hloop _ hc 9 hfree
  exact ⟨s, s', hs, hc, hs', hiff.mpr (by decide)⟩

/-- the second connection gets the descriptor 0, which is not closed -/
theorem not_second_untouched :
    ¬ ∀ (pool watchers handleSize : Nat) (junk : Nat → Int × Bool × Nat × Nat) (l : List (Action 1 1))
      (s : State 1 1), run State.step (State.init 1 1 pool watchers handleSize junk) l = some s →
        s.peer.server.main = .loop → ∀ c, s.peer.mpVNCClient = some c → ∀ fd, s.peer.socket fd = none →
        ∃ s', s.Accept_Callback fd = some s' ∧ Untouched fd s s' := by
  intro hall
  have hrun : ∃ s s' : State 1 1, run State.step (State.init 1 1 3 4 9 fun _ => (7, true, 3, 3))
      (Peer.connect5.map .peer) = some s ∧ s.peer.server.main = .loop ∧
      s.peer.mpVNCClient = some ⟨some (5, 1), true, 0, false⟩ ∧ s.peer.socket 0 = none ∧
      s.Accept_Callback 0 = some s' ∧ (s'.peer.server.slot 0).closes = 0 :=
    ⟨_, _, rfl, rfl, rfl, rfl, rfl, rfl⟩
  obtain ⟨s, s', hs, hloop, hc, hfree, hs', hcloses⟩ := hrun
  obtain ⟨s'', hs'', hu⟩ := hall 3 4 9 _ _ s hs hloop _ hc 0 hfree
  obtain rfl := Option.some.inj (hs'.symm.trans hs'')
  rw [hu.closes] at hcloses
  cases hcloses

end VncProxy.Second
