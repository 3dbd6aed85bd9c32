import VncProxy.Http.Responded
import VncProxy.Proxy.Returned

/-!
# From libcurl through both programs to a browser

The bytes that libcurl writes go through the threads of HttpProxyServer, the socket of TcpProxyClient
and the two servers of TcpProxyServer.

* `full_of_calm`  the frames on the connection are those that TcpProxyServer answers;
* `written_of`    what it writes for a client is what libcurl has written;
* `delivered`     a browser gets what libcurl has written for its request.
-/

namespace VncProxy.Respond

open HttpProxyServer (Serves postAmong postTwo postTwo_wellFormed)
open Tcp (Stream Conn bytesOf)

variable {n N : Nat} {s s' : State n} {fd : CInt} {a : Action n} {l : List (Action n)}

theorem full_step (hfull : s.mTcpProxyClient.Full) (hcalm : s.Calm a) (hstep : s.Step N a s') :
    s'.mTcpProxyClient.Full := by
  cases hstep with
  | recv | start | read | gone | unlock => exact hfull
  | reject cmd x t server client hmutex hserver hout hcall => exact hfull.call hcall
  | write t buffer size nmemb q client hq hlen hcall => exact hfull.call hcall
  | finish t q client hmutex hq hcall => exact hfull.call hcall
  | send m client hmove => exact hfull.inner (Sender.inner_of_step hcalm.1 hmove).1

theorem full_of_calm (hcalm : RunOk (State.step N) State.Calm (State.init n) l)
    (hrun : run (State.step N) (State.init n) l = some s) :
    ∀ c ∈ s.mTcpProxyClient.done.map Prod.snd, Return.CMD.Replies c := by
  have hinv := sender_of_calm hcalm hrun
  have hfull := inv_runOk (I := fun s : State n => s.mTcpProxyClient.Full)
    (fun _ _ _ hfull hok hstep => full_step hfull hok (step_cases hstep)) (Sender.Full.init (n + 1))
    hcalm hrun
  intro c hc
  obtain ⟨e, he, rfl⟩ := List.mem_map.mp hc
  exact ⟨hinv.sendable e.2 (List.mem_of_getElem? (hinv.done e he)), hfull.done e.2 hc⟩

section
variable {g h k nv wv sv nh wh sh fuel : Nat} {jv jh : Nat → Int × Bool × Nat × Nat}
  {idle : List Message} {peer : Conn} {r : Return.State g h k} {lr : List (Return.Action g h k)}

theorem written_of (hcalm : RunOk (State.step N) State.Calm (State.init n) l)
    (hrun : run (State.step N) (State.init n) l = some s) (hi : Inv fd s)
    (hne : starts (s.server.outcomesOf fd) ≠ []) (hrest : s.Resting)
    (hfuel : MAX_BUFFER_LEN + s.mTcpProxyClient.wire.length ≤ fuel)
    (hcalm' : RunOk (Return.State.step fuel) (Return.State.Calm peer)
      (Return.State.init g h k (Stream.init h k nv wv sv jv) (Stream.init g h nh wh sh jh) idle) lr)
    (hrun' : run (Return.State.step fuel)
      (Return.State.init g h k (Stream.init h k nv wv sv jv) (Stream.init g h nh wh sh jh) idle) lr
        = some r)
    (hdone : r.Done peer s.mTcpProxyClient.wire)
    (hanswered : r.answered.map Prod.snd
      = r.passed.filter fun c => c.header.cmdt ≠ .CommandTypeProxyDisconnect) {c : Conn}
    (halone : ∀ e ∈ r.answered, e.1 = c ↔ e.2.header.fd = fd)
    (hlive : r.mClientTcpServer.Live c) (habandoned : c ∉ r.mClientTcpServer.abandoned) :
    bytesOf r.mClientTcpServer.written c = bytesFor s.downloaded fd := by
  have hwire := (sender_of_calm hcalm hrun).wire_idle hrest.live hrest.thread
  rw [hwire] at hfuel hdone
  have hreturn := Return.inv_of_calm (full_of_calm hcalm hrun) hfuel hcalm' hrun'
    (hdone.received ▸ List.prefix_rfl)
  rw [hreturn.written_all hdone hanswered halone hlive habandoned, ← wordsFor_bytes]
  have htold := hi.told_all hrest hne
  unfold Sender.told at htold
  rw [htold, List.filterMap_append, List.filterMap_map]
  exact (List.append_nil _).trans List.filterMap_some

/-- **The answer to a browser**, in every interleaving of the HttpRequests and of both servers and in
any chunks: when the commands for its descriptor are a request, nothing is left to be done in either
program and every reply found its session and an idle Message, the socket of the browser has been given
what libcurl has written for the one HttpRequest of it, whatever is written for others. -/
theorem delivered {a : Asked} (ha : a.WellFormed) (hN : 30 ≤ N)
    (hcalm : RunOk (State.step N) State.Calm (State.init n) l)
    (hrun : run (State.step N) (State.init n) l = some s)
    (hown : ∀ x ∈ s.received, x.1.header.fd = fd →
      x.1.header.cmdt = .CommandTypeProxy ∧ x.1.param ≠ [])
    (hcreated : ∀ x ∈ s.received, x.1.header.fd = fd → x.2.created = true)
    (hbytes : (s.received.filter (·.1.header.fd = fd)).flatMap (·.1.param) = a.bytes)
    (hrest : s.Resting) (hfuel : MAX_BUFFER_LEN + s.mTcpProxyClient.wire.length ≤ fuel)
    (hcalm' : RunOk (Return.State.step fuel) (Return.State.Calm peer)
      (Return.State.init g h k (Stream.init h k nv wv sv jv) (Stream.init g h nh wh sh jh) idle) lr)
    (hrun' : run (Return.State.step fuel)
      (Return.State.init g h k (Stream.init h k nv wv sv jv) (Stream.init g h nh wh sh jh) idle) lr
        = some r)
    (hdone : r.Done peer s.mTcpProxyClient.wire)
    (hanswered : r.answered.map Prod.snd
      = r.passed.filter fun c => c.header.cmdt ≠ .CommandTypeProxyDisconnect) {c : Conn}
    (halone : ∀ e ∈ r.answered, e.1 = c ↔ e.2.header.fd = fd)
    (hlive : r.mClientTcpServer.Live c) (habandoned : c ∉ r.mClientTcpServer.abandoned) :
    Serves a fd (s.server.outcomesOf fd) ∧
      bytesOf r.mClientTcpServer.written c = bytesFor s.downloaded fd := by
  obtain ⟨hserves, hi⟩ := inv_of_asked ha hN hcalm hrun hown hcreated hbytes
  exact ⟨hserves, written_of hcalm hrun hi (starts_ne_nil hserves) hrest hfuel hcalm' hrun' hdone
    hanswered halone hlive habandoned⟩

def postFrames (seq : CInt) : List Byte :=
  (SendProxyBuffer seq 5 [65, 66] ++ [SendProxyDisconnect 0 5]).flatMap CMD.frame

def deliver5 (i : Fin 1) (task : Chunk) : List (Return.Action 1 1 1) :=
  Return.accepts ++ Return.chunkOf i (postFrames 9) ++ [.ParseData i, .OnParseCmd (some task)] ++
    Return.plain .http [.caller i, .caller i, .caller i] ++ [.OnParseCmd none, .unlock] ++
    Return.plain .vnc [.handler i, .handler i] ++
    Return.plain .http [.sender, .send (.sent 2), .sender, .sender, .sender, .sender]

set_option maxRecDepth 20000 in
/-- libcurl has written two bytes, and the browser has them -/
theorem delivered_post :
    ∃ (s : State 1) (r : Return.State 1 1 1), run (State.step 30) (State.init 1) (servePost postAmong 0) = some s ∧
      run (Return.State.step 9000) Return.start (deliver5 0 ⟨[1], by decide, by decide⟩) = some r ∧
      Serves postTwo 5 (s.server.outcomesOf 5) ∧
      bytesOf r.mClientTcpServer.written (5, 1) = [65, 66] := by
  obtain ⟨s, hs, hcalm, hown, hcreated, hbytes, hrest, hwire, hdownloaded⟩ : ∃ s : State 1,
      run (State.step 30) (State.init 1) (servePost postAmong 0) = some s ∧
        RunOk (State.step 30) State.Calm (State.init 1) (servePost postAmong 0) ∧
        (∀ x ∈ s.received, x.1.header.fd = 5 → x.1.header.cmdt = .CommandTypeProxy ∧ x.1.param ≠ []) ∧
        (∀ x ∈ s.received, x.1.header.fd = 5 → x.2.created = true) ∧
        (s.received.filter (·.1.header.fd = 5)).flatMap (·.1.param) = postTwo.bytes ∧
        s.Resting ∧ s.mTcpProxyClient.wire = postFrames 9 ∧ bytesFor s.downloaded 5 = [65, 66] := by
    decide +kernel
  obtain ⟨r, hr, hcalm', hdone, hanswered, halone, hlive, habandoned⟩ : ∃ r : Return.State 1 1 1,
      run (Return.State.step 9000) Return.start (deliver5 0 ⟨[1], by decide, by decide⟩) = some r ∧
        RunOk (Return.State.step 9000) (Return.State.Calm (3, 1)) Return.start
          (deliver5 0 ⟨[1], by decide, by decide⟩) ∧
        r.Done (3, 1) (postFrames 9) ∧
        r.answered.map Prod.snd
          = r.passed.filter (fun c => c.header.cmdt ≠ .CommandTypeProxyDisconnect) ∧
        (∀ e ∈ r.answered, e.1 = (5, 1) ↔ e.2.header.fd = 5) ∧
        r.mClientTcpServer.Live (5, 1) ∧ (5, 1) ∉ r.mClientTcpServer.abandoned := by
    decide +kernel
  obtain ⟨hserves, hwritten⟩ := delivered postTwo_wellFormed (Nat.le_refl 30) hcalm hs hown hcreated
    hbytes hrest (hwire ▸ by decide) hcalm' hr (hwire ▸ hdone) hanswered halone hlive habandoned
  exact ⟨s, r, hs, hr, hserves, hwritten.trans hdownloaded⟩

end

end VncProxy.Respond
