import Mathlib.Data.Fintype.Card
import Mathlib.Data.Fintype.EquivFin
import VncProxy.Lib.Locks

/-!
# The mutexes of `TcpProxyServer`

Which mutexes the functions of `TcpServer`, `TcpProxyServer` and `Client` lock and what they call
while they hold them; what a branch depends on is left out, so every branch may be taken.  The lists
have locks of their own, under which nothing is called, and are left out.

* `Mutex`, `rank`      `mClientMap` before the mutex of a `Client` before `mClient2SessionMap` before
                       the others;
* the functions, under the names of the source, each with the lemma that it keeps to this order;
* `Op`, `deadlock_free`  any number of threads that make any calls of them never deadlock.
-/

namespace VncProxy.Locks

/-- `mClientTcpServer` and `mClientTcpVNCServer` -/
inductive Server where
  | client
  | vnc
deriving DecidableEq

inductive Mutex where
  | mClientMap
  /-- of the `Client` at an address -/
  | mKMutex (client : Nat)
  | mClient2SessionMap
  | mCountMutex
  | mCloseMutex (ts : Server)
  | mpPacketSeqRecvMutex (ts : Server)
  | mpPacketSeqSendMutex (ts : Server)
  | mWatcherListMutex (ts : Server)
deriving DecidableEq

def rank : Mutex → Fin 4
  | .mClientMap => 0
  | .mKMutex _ => 1
  | .mClient2SessionMap => 2
  | _ => 3

abbrev Code := Prog Mutex

/-- `if( .. ) { p }` -/
def Prog.maybe (p : Code) : Code := .alt p .skip

/-- nothing is held that is not below the rank `r` -/
def Below (r : Fin 4) (h : List Mutex) : Prop := ∀ x ∈ h, rank x < r

theorem Below.nil (r : Fin 4) : Below r [] := fun _ h => absurd h List.not_mem_nil

theorem Below.cons {r r' : Fin 4} {h : List Mutex} (hh : Below r h) (hr : r < r') {m : Mutex}
    (hm : rank m < r') : Below r' (m :: h) :=
  List.forall_mem_cons.mpr ⟨hm, fun x hx => lt_trans (hh x hx) hr⟩

theorem Below.mono {r r' : Fin 4} {h : List Mutex} (hh : Below r h) (hr : r ≤ r') : Below r' h :=
  fun x hx => lt_of_lt_of_le (hh x hx) hr

theorem Ordered.maybe {h : List Mutex} {p : Code} (hp : Ordered rank h p h) :
    Ordered rank h (Prog.maybe p) h :=
  .alt hp (.skip h)

/-- a mutex under which nothing is called -/
theorem Ordered.leaf {h : List Mutex} {m : Mutex} (hh : Below (rank m) h) :
    Ordered rank h (.under m .skip) h :=
  .under hh (.skip _)

/-! ## `TcpServer`, as far as callbacks use it -/

namespace TcpServer

def SendMessageByQueue (ts : Server) : Code :=
  .seq (.under (.mCloseMutex ts) .skip) (.under (.mpPacketSeqSendMutex ts) .skip)

theorem SendMessageByQueue_ordered (ts : Server) {h : List Mutex} (hh : Below 3 h) :
    Ordered rank h (SendMessageByQueue ts) h :=
  .seq (.leaf hh) (.leaf hh)

/-- `shutdown(fd, SHUT_RD)` -/
def Disconnect : Code := .skip

end TcpServer

/-! ## `Client::AddSeq` and `TcpProxyServer` -/

def Client.AddSeq (client : Nat) : Code := .under (.mKMutex client) .skip

theorem Client.AddSeq_ordered (client : Nat) {h : List Mutex} (hh : Below 1 h) :
    Ordered rank h (Client.AddSeq client) h :=
  .leaf hh

namespace TcpProxyServer

/-- VNC may be offline and the idle list empty -/
def SendClient2VNC : Code :=
  .maybe (.maybe (.seq (.pick Client.AddSeq)
    (.under .mClient2SessionMap (TcpServer.SendMessageByQueue .vnc))))

theorem SendClient2VNC_ordered {h : List Mutex} (hh : Below 1 h) :
    Ordered rank h SendClient2VNC h :=
  .maybe (.maybe (.seq (.pick fun c => Client.AddSeq_ordered c hh)
    (.under (hh.mono (by decide))
      (TcpServer.SendMessageByQueue_ordered .vnc (hh.cons (by decide) (by decide))))))

/-- with or without a session, a task and an idle Message -/
def ReturnVNC2Client : Code :=
  .under .mClient2SessionMap (.maybe (.maybe (.maybe (.maybe
    (TcpServer.SendMessageByQueue .client)))))

theorem ReturnVNC2Client_ordered {h : List Mutex} (hh : Below 2 h) :
    Ordered rank h ReturnVNC2Client h :=
  .under hh (.maybe (.maybe (.maybe (.maybe
    (TcpServer.SendMessageByQueue_ordered .client (hh.cons (by decide) (by decide)))))))

def CloseSessionByVNC : Code := .under .mClientMap (.rep (.maybe TcpServer.Disconnect))

theorem CloseSessionByVNC_ordered : Ordered rank [] CloseSessionByVNC [] :=
  .under (Below.nil 0) (.rep (.maybe (.skip _)))

def CloseSessionByClient : Code := .under .mClient2SessionMap .skip

theorem CloseSessionByClient_ordered {h : List Mutex} (hh : Below 2 h) :
    Ordered rank h CloseSessionByClient h :=
  .leaf hh

/-- a client other than `mpVNCClient` is ignored -/
def OnParseCmd : Code := .maybe (.alt (.maybe TcpServer.Disconnect) ReturnVNC2Client)

theorem OnParseCmd_ordered {h : List Mutex} (hh : Below 2 h) : Ordered rank h OnParseCmd h :=
  .maybe (.alt (.maybe (.skip h)) (ReturnVNC2Client_ordered hh))

end TcpProxyServer

namespace Client

/-- the outer loop and the loop over the commands -/
def ParseDataNoCache : Code := .rep (.rep (.maybe TcpProxyServer.OnParseCmd))

/-- the chunk and the cached ones behind it -/
def ParseData (client : Nat) : Code :=
  .under (.mKMutex client) (.maybe (.seq ParseDataNoCache (.rep ParseDataNoCache)))

theorem ParseDataNoCache_ordered {h : List Mutex} (hh : Below 2 h) :
    Ordered rank h ParseDataNoCache h :=
  .rep (.rep (.maybe (TcpProxyServer.OnParseCmd_ordered hh)))

theorem ParseData_ordered (client : Nat) {h : List Mutex} (hh : Below 1 h) :
    Ordered rank h (ParseData client) h :=
  have hin : Below 2 (.mKMutex client :: h) := hh.cons (by decide) (show (1 : Fin 4) < 2 by decide)
  .under hh (.maybe (.seq (ParseDataNoCache_ordered hin) (.rep (ParseDataNoCache_ordered hin))))

end Client

namespace TcpProxyServer

/-- both branches of the lookup unlock `mClientMap` themselves -/
def HandleRecvMessage : Code :=
  .seq (.lock .mClientMap) (.seq (.alt (.unlock .mClientMap) (.unlock .mClientMap))
    (.seq (.maybe SendClient2VNC) (.maybe TcpServer.Disconnect)))

theorem HandleRecvMessage_ordered : Ordered rank [] HandleRecvMessage [] :=
  .seq (.lock (Below.nil 0)) (.seq (.alt (.unlock _ _) (.unlock _ _))
    (.seq (.maybe (SendClient2VNC_ordered (Below.nil 1))) (.maybe (.skip _))))

def HandleRecvVNCMessage : Code := .seq (.pick Client.ParseData) (.maybe TcpServer.Disconnect)

theorem HandleRecvVNCMessage_ordered : Ordered rank [] HandleRecvVNCMessage [] :=
  .seq (.pick fun c => Client.ParseData_ordered c (Below.nil 1)) (.maybe (.skip _))

def OnAccept : Server → Code
  | .client => .seq (.under .mClientMap .skip) (.under .mCountMutex .skip)
  | .vnc => .skip

theorem OnAccept_ordered (ts : Server) : Ordered rank [] (OnAccept ts) [] := by
  cases ts with
  | client => exact .seq (.leaf (Below.nil 0)) (.leaf (Below.nil 3))
  | vnc => exact .skip _

/-- `SendClient2VNC` is called under `mClientMap` -/
def OnDisconnect : Server → Code
  | .client => .under .mClientMap (.maybe SendClient2VNC)
  | .vnc => .skip

theorem OnDisconnect_ordered (ts : Server) : Ordered rank [] (OnDisconnect ts) [] := by
  cases ts with
  | client =>
    exact .under (Below.nil 0)
      (.maybe (SendClient2VNC_ordered ((Below.nil 0).cons (by decide) (by decide))))
  | vnc => exact .skip _

def OnClose : Server → Code
  | .client => .under .mClientMap (.maybe CloseSessionByClient)
  | .vnc => .maybe CloseSessionByVNC

theorem OnClose_ordered (ts : Server) : Ordered rank [] (OnClose ts) [] := by
  cases ts with
  | client =>
    exact .under (Below.nil 0)
      (.maybe (CloseSessionByClient_ordered ((Below.nil 0).cons (by decide) (by decide))))
  | vnc => exact .maybe CloseSessionByVNC_ordered

def OnRecvMessage : Server → Code
  | .client => HandleRecvMessage
  | .vnc => HandleRecvVNCMessage

theorem OnRecvMessage_ordered (ts : Server) : Ordered rank [] (OnRecvMessage ts) [] := by
  cases ts with
  | client => exact HandleRecvMessage_ordered
  | vnc => exact HandleRecvVNCMessage_ordered

end TcpProxyServer

/-! ## the threads of `TcpServer` -/

namespace TcpServer

def StopEvio (ts : Server) : Code := .maybe (.under (.mWatcherListMutex ts) .skip)

theorem StopEvio_ordered (ts : Server) : Ordered rank [] (StopEvio ts) [] :=
  .maybe (.leaf (Below.nil 3))

/-- `OnClose` is called when `mCloseMutex` has been given back -/
def CloseSocketIfNeedByHandleThread (ts : Server) : Code :=
  .seq (.under (.mCloseMutex ts) .skip) (.maybe (TcpProxyServer.OnClose ts))

theorem CloseSocketIfNeedByHandleThread_ordered (ts : Server) :
    Ordered rank [] (CloseSocketIfNeedByHandleThread ts) [] :=
  .seq (.leaf (Below.nil 3)) (.maybe (TcpProxyServer.OnClose_ordered ts))

def OnDisconnect (ts : Server) : Code :=
  .seq (.maybe (.seq (StopEvio ts) (StopEvio ts))) (.seq (TcpProxyServer.OnDisconnect ts)
    (.seq (.under (.mCloseMutex ts) .skip) (.maybe (TcpProxyServer.OnClose ts))))

theorem OnDisconnect_ordered (ts : Server) : Ordered rank [] (OnDisconnect ts) [] :=
  .seq (.maybe (.seq (StopEvio_ordered ts) (StopEvio_ordered ts)))
    (.seq (TcpProxyServer.OnDisconnect_ordered ts)
      (.seq (.leaf (Below.nil 3)) (.maybe (TcpProxyServer.OnClose_ordered ts))))

def Accept_Callback (ts : Server) : Code :=
  .maybe (.seq (.under (.mCloseMutex ts) .skip) (.seq (.under (.mpPacketSeqRecvMutex ts) .skip)
    (.seq (.under (.mpPacketSeqSendMutex ts) .skip) (.seq (TcpProxyServer.OnAccept ts)
      (.alt (.under (.mWatcherListMutex ts) .skip) (.seq Disconnect (OnDisconnect ts)))))))

theorem Accept_Callback_ordered (ts : Server) : Ordered rank [] (Accept_Callback ts) [] :=
  .maybe (.seq (.leaf (Below.nil 3)) (.seq (.leaf (Below.nil 3)) (.seq (.leaf (Below.nil 3))
    (.seq (TcpProxyServer.OnAccept_ordered ts)
      (.alt (.leaf (Below.nil 3)) (.seq (.skip _) (OnDisconnect_ordered ts)))))))

/-- each round disconnects, refuses the chunk, or counts and numbers it -/
def Recv_Callback (ts : Server) : Code :=
  .rep (.alt (OnDisconnect ts) (.alt Disconnect
    (.seq (.under (.mCloseMutex ts) .skip) (.under (.mpPacketSeqRecvMutex ts) .skip))))

theorem Recv_Callback_ordered (ts : Server) : Ordered rank [] (Recv_Callback ts) [] :=
  .rep (.alt (OnDisconnect_ordered ts) (.alt (.skip _)
    (.seq (.leaf (Below.nil 3)) (.leaf (Below.nil 3)))))

def OnRecvMessage (ts : Server) : Code :=
  .seq (TcpProxyServer.OnRecvMessage ts) (CloseSocketIfNeedByHandleThread ts)

theorem OnRecvMessage_ordered (ts : Server) : Ordered rank [] (OnRecvMessage ts) [] :=
  .seq (TcpProxyServer.OnRecvMessage_ordered ts) (CloseSocketIfNeedByHandleThread_ordered ts)

def SendMessageImmediately (ts : Server) : Code :=
  .seq (.maybe Disconnect) (CloseSocketIfNeedByHandleThread ts)

theorem SendMessageImmediately_ordered (ts : Server) :
    Ordered rank [] (SendMessageImmediately ts) [] :=
  .seq (.maybe (.skip _)) (CloseSocketIfNeedByHandleThread_ordered ts)

end TcpServer

/-- the calls that a thread can make -/
inductive Op where
  | OnAccept (ts : Server)
  | OnDisconnect (ts : Server)
  | OnClose (ts : Server)
  | HandleRecvMessage
  | HandleRecvVNCMessage
  | SendMessageByQueue (ts : Server)
  | CloseSocketIfNeedByHandleThread (ts : Server)
  | Accept_Callback (ts : Server)
  | Recv_Callback (ts : Server)
  | OnRecvMessage (ts : Server)
  | SendMessageImmediately (ts : Server)

def Op.code : Op → Code
  | .OnAccept ts => TcpProxyServer.OnAccept ts
  | .OnDisconnect ts => TcpProxyServer.OnDisconnect ts
  | .OnClose ts => TcpProxyServer.OnClose ts
  | .HandleRecvMessage => TcpProxyServer.HandleRecvMessage
  | .HandleRecvVNCMessage => TcpProxyServer.HandleRecvVNCMessage
  | .SendMessageByQueue ts => TcpServer.SendMessageByQueue ts
  | .CloseSocketIfNeedByHandleThread ts => TcpServer.CloseSocketIfNeedByHandleThread ts
  | .Accept_Callback ts => TcpServer.Accept_Callback ts
  | .Recv_Callback ts => TcpServer.Recv_Callback ts
  | .OnRecvMessage ts => TcpServer.OnRecvMessage ts
  | .SendMessageImmediately ts => TcpServer.SendMessageImmediately ts

theorem Op.code_ordered (op : Op) : Ordered rank [] op.code [] := by
  cases op with
  | OnAccept ts => exact TcpProxyServer.OnAccept_ordered ts
  | OnDisconnect ts => exact TcpProxyServer.OnDisconnect_ordered ts
  | OnClose ts => exact TcpProxyServer.OnClose_ordered ts
  | HandleRecvMessage => exact TcpProxyServer.HandleRecvMessage_ordered
  | HandleRecvVNCMessage => exact TcpProxyServer.HandleRecvVNCMessage_ordered
  | SendMessageByQueue ts => exact TcpServer.SendMessageByQueue_ordered ts (Below.nil 3)
  | CloseSocketIfNeedByHandleThread ts => exact TcpServer.CloseSocketIfNeedByHandleThread_ordered ts
  | Accept_Callback ts => exact TcpServer.Accept_Callback_ordered ts
  | Recv_Callback ts => exact TcpServer.Recv_Callback_ordered ts
  | OnRecvMessage ts => exact TcpServer.OnRecvMessage_ordered ts
  | SendMessageImmediately ts => exact TcpServer.SendMessageImmediately_ordered ts

/-- **Whatever calls the threads make, and in whatever order their steps come, no threads wait for
each other.** -/
theorem deadlock_free {ι : Type} [DecidableEq ι] (ops : ι → List Op) {l : List (ι × Nat)}
    {c : Conf ι Mutex}
    (h : run Conf.step (Conf.start fun i => (ops i).map Op.code) l = some c) : ¬ Deadlock c := by
  have hstart : (Conf.start fun i => (ops i).map Op.code).Inv rank := by
    refine .start fun i p hp => ?_
    obtain ⟨op, _, rfl⟩ := List.mem_map.mp hp
    exact op.code_ordered
  have hinv : c.Inv rank :=
    inv_run (I := fun c : Conf ι Mutex => c.Inv rank) (fun _ _ _ hc hs => hc.step hs) hstart h
  exact hinv.not_deadlocked

/-- `OnDisconnect` holds `mClientMap` and a handler waits for it in `HandleRecvMessage` -/
theorem deadlock_free_two : ∃ c : Conf Bool Mutex,
    run Conf.step (Conf.start fun i => (bif i then [Op.OnDisconnect .client]
      else [Op.HandleRecvMessage]).map Op.code) [(true, 0), (true, 0), (false, 0)] = some c ∧
      c.owner .mClientMap = some true ∧ c.WaitsFor false .mClientMap ∧ ¬ Deadlock c :=
  ⟨_, rfl, rfl, ⟨_, rfl⟩, deadlock_free (fun i : Bool => bif i then [Op.OnDisconnect .client]
    else [Op.HandleRecvMessage]) (l := [(true, 0), (true, 0), (false, 0)]) rfl⟩

end VncProxy.Locks
