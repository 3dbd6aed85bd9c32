import VncProxy.Proxy.Delivered
import VncProxy.Proxy.Net
import VncProxy.Proxy.Order
import VncProxy.Proxy.Tunnel

/-!
# The connection as two queues

`Proxy.State` takes the connection of the two programs for two queues of commands.  The threads and the
bytes make it these two as long as no frame is torn and none are mixed.

* `down_read`          the frames that wait in `down` are what `RecvCommand` returns for their bytes;
* `read_in_order`      what it returns is the beginning of the commands that TcpProxyServer has sent;
* `passed_in_order`    what `OnParseCmd` is called with is the beginning of those that HttpProxyServer has
                       written.
-/

namespace VncProxy

open Tcp (Stream Conn bytesOf)

/-! ## to HttpProxyServer -/

namespace Proxy

theorem Frame.cmd_fits {x : Frame} (hx : x.fits = true) : ∀ i ∈ x.cmd.writes, i < MAX_PARAM_LEN := by
  refine HttpProxyServer.writes_fit ?_
  unfold Frame.fits at hx
  unfold Frame.cmd
  cases htask : x.task with
  | ProxyClientTask chunk =>
    rw [htask] at hx
    exact of_decide_eq_true hx
  | ProxyClientDisconnectTask => exact (show 0 < MAX_PARAM_LEN by decide)

/-- **The frames that have not been read** are what `RecvCommand` returns, one by one and in whatever
segments their bytes come, and none of them is written behind `cmd.param`. -/
theorem Net.Sound.down_read {n : Nat} {s : Net n} (hs : s.Sound) {segs : Segments}
    (hne : ∀ seg ∈ segs, seg ≠ []) (hsegs : segs.flatten = s.down.flatMap fun x => x.cmd.frame) :
    RecvCommands s.down.length segs = some (s.down.map fun x => ⟨true, x.cmd, x.cmd.writes⟩, []) ∧
      ∀ x ∈ s.down, ∀ i ∈ x.cmd.writes, i < MAX_PARAM_LEN := by
  have hsized : ∀ c ∈ s.down.map Frame.cmd, c.Sized := by
    intro c hc
    obtain ⟨x, -, rfl⟩ := List.mem_map.mp hc
    exact x.task.cmd_sized ..
  have hflat : segs.flatten = (s.down.map Frame.cmd).flatMap CMD.frame := by
    rw [hsegs, List.flatMap_map]
  obtain ⟨rest, hrecv, hrest, hne'⟩ := RecvCommands_frames _ hsized hne hflat
  rw [segments_nil hne' hrest, List.length_map, List.map_map] at hrecv
  exact ⟨hrecv, fun x hx => Frame.cmd_fits (hs.fits x hx)⟩

end Proxy

/-- **What `RecvCommand` returns** is the beginning of the commands sent on the connection, in every run of
the threads of TcpProxyServer in which `send` writes on own sockets and nothing behind a Message given up. -/
theorem Forward.read_in_order {g h k nh wh sh nv wv sv : Nat} {jh jv : Nat → Int × Bool × Nat × Nat}
    {s : Forward.State g h k} {l : List (Forward.Action g h k)}
    (hcalm : RunOk Forward.State.step Forward.State.Calm
      (Forward.State.init (Stream.init g k nh wh sh jh) (Stream.init h (g + 1) nv wv sv jv)) l)
    (hrun : run Forward.State.step
      (Forward.State.init (Stream.init g k nh wh sh jh) (Stream.init h (g + 1) nv wv sv jv)) l = some s) :
    s.ReceivedInOrder :=
  (Forward.inv_of_calm hcalm hrun).receivedInOrder

/-! ## to TcpProxyServer -/

/-- **What `OnParseCmd` is called with** is the beginning of the commands that HttpProxyServer has written,
in every run of its threads in which no frame is begun inside of another one, and of those of
TcpProxyServer in which no chunk is taken behind a dropped one and there is an idle Message for one that
is early. -/
theorem Respond.passed_in_order {n N g h k nv wv sv nh wh sh fuel : Nat}
    {jv jh : Nat → Int × Bool × Nat × Nat} {idle : List Message} {peer : Conn} {s : Respond.State n}
    {l : List (Respond.Action n)} {r : Return.State g h k} {lr : List (Return.Action g h k)}
    (hcalm : RunOk (Respond.State.step N) Respond.State.Calm (Respond.State.init n) l)
    (hrun : run (Respond.State.step N) (Respond.State.init n) l = some s)
    (hfuel : MAX_BUFFER_LEN + ((s.mTcpProxyClient.done.map Prod.snd).flatMap CMD.frame).length ≤ fuel)
    (hcalm' : RunOk (Return.State.step fuel) (Return.State.Calm peer)
      (Return.State.init g h k (Stream.init h k nv wv sv jv) (Stream.init g h nh wh sh jh) idle) lr)
    (hrun' : run (Return.State.step fuel)
      (Return.State.init g h k (Stream.init h k nv wv sv jv) (Stream.init g h nh wh sh jh) idle) lr
        = some r)
    (hpeer : bytesOf r.mClientTcpVNCServer.received peer
      <+: (s.mTcpProxyClient.done.map Prod.snd).flatMap CMD.frame) :
    r.passed <+: s.mTcpProxyClient.done.map Prod.snd :=
  (Return.inv_of_calm (Respond.full_of_calm hcalm hrun) hfuel hcalm' hrun' hpeer).passed_le

end VncProxy
