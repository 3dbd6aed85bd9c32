import VncProxy.Proxy.Delivered
import VncProxy.Proxy.Tunnel
import VncProxy.Proxy.Ways

/-!
# A browser and its answer

Both programs at once: TcpProxyServer with both ways through it, HttpProxyServer with its threads, and
the connection between them.

* `Intact`   a connection that nothing was lost on;
* `Linked`   what either program has written on the connection has come to the other;
* `served`   a browser gets what libcurl has written for the request that it has sent.
-/

namespace VncProxy.Ways

open Tcp (Stream Conn bytesOf)
open HttpProxyServer (Serves postTwo postTwo_wellFormed)
open Respond (bytesFor)

variable {h n N : Nat}

/-- the connection is open, no Message for it was given up and no chunk of it dropped -/
structure Intact {h k : Nat} (server : Stream h k) (c : Conn) : Prop where
  live : server.Live c
  abandoned : c ∉ server.abandoned
  refused : c ∉ server.refused

instance {h k : Nat} (server : Stream h k) (c : Conn) : Decidable (Intact server c) :=
  decidable_of_iff (server.Live c ∧ c ∉ server.abandoned ∧ c ∉ server.refused)
    ⟨fun ⟨h1, h2, h3⟩ => ⟨h1, h2, h3⟩, fun ⟨h1, h2, h3⟩ => ⟨h1, h2, h3⟩⟩

/-- `recv` has given HttpProxyServer the bytes written on the connection in these segments, and
`OnRecvCommand` was called for each command in them, none of which was too long for `cmd.param`; the
frames of HttpProxyServer have come to TcpProxyServer -/
structure Linked {g : Nat} (s : State g h) (t : Respond.State n) (peer : Conn) (segs : Segments) : Prop where
  nonempty : ∀ seg ∈ segs, seg ≠ []
  written : segs.flatten = bytesOf s.mClientTcpVNCServer.written peer
  received : RecvCommands t.received.length segs
    = some (t.received.map fun x => ⟨true, x.1, x.1.writes⟩, [])
  fits : ∀ x ∈ t.received, x.1.param.length < MAX_PARAM_LEN
  wire : bytesOf s.mClientTcpVNCServer.received peer = t.mTcpProxyClient.wire

/-- a browser alone has its descriptor, no chunk of it was dropped, and no Disconnect was sent for it;
every reply has found its session and an idle Message -/
structure Undisturbed (s : State 1 h) (b peer : Conn) (fd : CInt) : Prop where
  alone : s.Alone b peer fd
  dropped : b ∉ Forward.droppedChunks s.dropped
  replies : ∀ e ∈ s.answered, e.1 = b ↔ e.2.header.fd = fd
  answered : s.answered.map Prod.snd
    = s.passed.filter fun c => c.header.cmdt ≠ .CommandTypeProxyDisconnect

instance (s : State 1 h) (b peer : Conn) (fd : CInt) : Decidable (Undisturbed s b peer fd) :=
  decidable_of_iff (s.Alone b peer fd ∧ b ∉ Forward.droppedChunks s.dropped ∧
      (∀ e ∈ s.answered, e.1 = b ↔ e.2.header.fd = fd) ∧ s.answered.map Prod.snd
        = s.passed.filter fun c => c.header.cmdt ≠ .CommandTypeProxyDisconnect)
    ⟨fun ⟨h1, h2, h3, h4⟩ => ⟨h1, h2, h3, h4⟩, fun ⟨h1, h2, h3, h4⟩ => ⟨h1, h2, h3, h4⟩⟩

theorem Linked.commands {g nh nv : Nat} {s : State g h} {t : Respond.State n} {peer : Conn}
    {segs : Segments} (hlinked : Linked s t peer segs) (hi : Forward.Inv nh nv s.toState)
    (hrest : s.toState.Resting) (hpeer : Intact s.mClientTcpVNCServer peer) :
    t.received.map Prod.fst = s.sentOn peer := by
  have hall := RecvCommands_all (hi.sized peer) hlinked.received
    (fun r hr => by obtain ⟨x, -, rfl⟩ := List.mem_map.mp hr; rfl) hlinked.nonempty
    (hlinked.written.trans (hi.written_all hrest hpeer.live hpeer.abandoned))
  rw [List.map_map] at hall
  exact hall

section
variable {nh wh sh nv wv sv fuel : Nat} {jh jv : Nat → Int × Bool × Nat × Nat} {idle : List Message}
  {peer b : Conn} {fd : CInt} {s : State 1 h} {t : Respond.State n} {l : List (Action 1 h)}
  {lt : List (Respond.Action n)} {segs : Segments}

/-- **A browser is served**, with one handler thread of the HTTP server and any of the VNC server, for any
number of HttpRequests at once, any chunks, any segments and every interleaving of the threads of each
program: when nothing is left to be done, nothing was lost on the way and the thread of the HttpRequest
could be made, HttpProxyServer has started one HttpRequest for the request that the browser has sent,
libcurl gets its body, and the socket of the browser has been given what libcurl has written for it. -/
theorem served {a : Asked} (ha : a.WellFormed) (hN : 30 ≤ N)
    (hcalm : RunOk (State.step fuel) (State.Calm peer)
      (State.init (Stream.init 1 h nh wh sh jh) (Stream.init h 2 nv wv sv jv) idle) l)
    (hrun : run (State.step fuel)
      (State.init (Stream.init 1 h nh wh sh jh) (Stream.init h 2 nv wv sv jv) idle) l = some s)
    (hcalm' : RunOk (Respond.State.step N) Respond.State.Calm (Respond.State.init n) lt)
    (hrun' : run (Respond.State.step N) (Respond.State.init n) lt = some t)
    (hcreated : ∀ x ∈ t.received, x.1.header.fd = fd → x.2.created = true)
    (hlinked : Linked s t peer segs) (hrest : s.Resting) (hrest' : t.Resting)
    (hfuel : MAX_BUFFER_LEN + t.mTcpProxyClient.wire.length ≤ fuel)
    (hpeer : Intact s.mClientTcpVNCServer peer) (hb : Intact s.mClientTcpServer b)
    (hclear : Undisturbed s b peer fd) (hbytes : bytesOf s.mClientTcpServer.received b = a.bytes) :
    Serves a fd (t.server.outcomesOf fd) ∧
      bytesOf s.mClientTcpServer.written b = bytesFor t.downloaded fd := by
  obtain ⟨⟨lf, hrunf, hcalmf⟩, lb, hrunb, hcalmb⟩ := run_ways hcalm hrun
  obtain ⟨hi, hserial⟩ := Forward.inv_serial hcalmf hrunf
  have hrestf : s.toState.Resting := ⟨hrest.http, hrest.vnc⟩
  have hcommands := hlinked.commands hi hrestf hpeer
  obtain ⟨hown, hparams⟩ := Forward.request_of hi hserial hrestf hclear.alone hb.refused hclear.dropped
  -- the commands for the descriptor are the request
  have hreceived : (t.received.filter (·.1.header.fd = fd)).flatMap (·.1.param) = a.bytes := by
    rw [← hbytes, ← hparams, ← hcommands, List.filter_map, List.flatMap_map]
    rfl
  obtain ⟨hserves, hti⟩ := Respond.inv_of_asked ha hN hcalm' hrun'
    (fun x hx => hown x.1 (hcommands ▸ List.mem_map_of_mem hx)) hcreated hreceived
  refine ⟨hserves, Respond.written_of hcalm' hrun' hti (Respond.starts_ne_nil hserves) hrest' hfuel
    hcalmb hrunb ?_ hclear.answered hclear.replies hb.live hb.abandoned⟩
  exact {
    received := hlinked.wire
    notRefused := hpeer.refused
    vnc := hrest.vnc
    http := hrest.http
    mutex := hrest.mutex }

/-! ### a request in two chunks, and its answer -/

abbrev start : State 1 1 :=
  State.init (Stream.init 1 1 3 1 0 fun _ => (7, true, 7, 7)) (Stream.init 1 2 3 1 0 fun _ => (7, true, 7, 7)) []

def ofForward : Forward.Action 1 1 1 → Action 1 1
  | .http a bytes => .http a bytes
  | .OnRecvMessage i found => .OnRecvMessage i found
  | .OnDisconnect found => .OnDisconnect found
  | .vnc a bytes => .vnc a bytes

def plain {α : Type} (f : α → List Byte → Action 1 1) (l : List α) : List (Action 1 1) :=
  l.map fun a => f a []

def comes5 (stream : List Byte) : List (Action 1 1) :=
  plain .vnc [.event 3 false, .main] ++ [.vnc (.recv (.data stream.length)) stream]

/-- the chunk is parsed, and the reply is written -/
def answer5 (i : Fin 1) (task : Chunk) : List (Action 1 1) :=
  plain .vnc [.main, .main, .main, .main, .handler i] ++ [.ParseData i, .OnParseCmd (some task)] ++
    plain .http [.caller i, .caller i, .caller i] ++ [.OnParseCmd none, .unlock] ++
    plain .vnc [.handler i, .handler i] ++
    plain .http [.sender, .send (.sent 2), .sender, .sender, .sender, .sender]

def request5 (i : Fin 1) : List (Action 1 1) :=
  (Forward.tunnel5 i).map ofForward ++ comes5 (Respond.postFrames 1)

def serve5 (i : Fin 1) (task : Chunk) : List (Action 1 1) := request5 i ++ answer5 i task

/-- the commands that the request is sent on in -/
def postCommands : List CMD :=
  [⟨⟨.CommandTypeProxy, 20, 0, 5, true⟩, postTwo.bytes.take 20⟩,
    ⟨⟨.CommandTypeProxy, BitVec.ofNat 32 (postTwo.bytes.length - 20), 1, 5, true⟩,
      postTwo.bytes.drop 20⟩]

set_option maxRecDepth 20000 in
/-- the browser has the two bytes that libcurl has written -/
theorem served_post : ∃ (s : State 1 1) (t : Respond.State 1),
    run (State.step 9000) start (serve5 0 ⟨[1], by decide, by decide⟩) = some s ∧
      run (Respond.State.step 30) (Respond.State.init 1) (Respond.servePost postCommands 0) = some t ∧
      Serves postTwo 5 (t.server.outcomesOf 5) ∧
      bytesOf s.mClientTcpServer.written (5, 1) = [65, 66] := by
  obtain ⟨s, hs, hcalm, hrest, hpeer, hb, hclear, hbytes, hwritten, hup⟩ : ∃ s : State 1 1,
      run (State.step 9000) start (serve5 0 ⟨[1], by decide, by decide⟩) = some s ∧
        RunOk (State.step 9000) (State.Calm (3, 1)) start (serve5 0 ⟨[1], by decide, by decide⟩) ∧
        s.Resting ∧ Intact s.mClientTcpVNCServer (3, 1) ∧ Intact s.mClientTcpServer (5, 1) ∧
        Undisturbed s (5, 1) (3, 1) 5 ∧ bytesOf s.mClientTcpServer.received (5, 1) = postTwo.bytes ∧
        bytesOf s.mClientTcpVNCServer.written (3, 1) = postCommands.flatMap CMD.frame ∧
        bytesOf s.mClientTcpVNCServer.received (3, 1) = Respond.postFrames 1 := by
    decide +kernel
  obtain ⟨t, ht, hcalm', hrest', hcmds, hcreated, hfits, hwire, hdownloaded⟩ : ∃ t : Respond.State 1,
      run (Respond.State.step 30) (Respond.State.init 1) (Respond.servePost postCommands 0) = some t ∧
        RunOk (Respond.State.step 30) Respond.State.Calm (Respond.State.init 1)
          (Respond.servePost postCommands 0) ∧
        t.Resting ∧ t.received.map Prod.fst = postCommands ∧
        (∀ x ∈ t.received, x.1.header.fd = 5 → x.2.created = true) ∧
        (∀ x ∈ t.received, x.1.param.length < MAX_PARAM_LEN) ∧
        t.mTcpProxyClient.wire = Respond.postFrames 1 ∧ bytesFor t.downloaded 5 = [65, 66] := by
    decide +kernel
  let stream := postCommands.flatMap CMD.frame
  have hne : ∀ seg ∈ [stream], seg ≠ [] := by decide
  have hsized : ∀ c ∈ postCommands, c.header.len.toInt = c.param.length := by decide
  obtain ⟨rest, hrecv, hflat, hne'⟩ := RecvCommands_frames postCommands hsized hne
    (List.append_nil stream)
  rw [segments_nil hne' hflat, ← hcmds, List.length_map, List.map_map] at hrecv
  have hlinked : Linked s t (3, 1) [stream] :=
    ⟨hne, (List.append_nil stream).trans hwritten.symm, hrecv, hfits, hup.trans hwire.symm⟩
  obtain ⟨hserves, hanswer⟩ := served postTwo_wellFormed (Nat.le_refl 30) hcalm hs hcalm' ht hcreated
    hlinked hrest hrest' (hwire ▸ by decide) hpeer hb hclear hbytes
  exact ⟨s, t, hs, ht, hserves, hanswer.trans hdownloaded⟩

end

end VncProxy.Ways
