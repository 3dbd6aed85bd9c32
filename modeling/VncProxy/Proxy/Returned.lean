import VncProxy.Proxy.Return
import VncProxy.Tcp.Pending
import VncProxy.Tcp.Rest

/-!
# What the HTTP clients get back

* `Inv`                what holds while the connection `peer` of the VNC server brings the frames `fs`;
* `Inv.step`           every step that is `Calm` keeps it;
* `returned_in_order`  the answers written on the socket of a client are the beginning of the parameters
                       of the commands answered for it, which HttpProxyServer has sent in this order;
* `returned_all`       and all of them when both servers are at rest.
-/

namespace VncProxy.Return

open Tcp (Stream Conn Msg bytesOf tagged pendingOf pendingOf_free queued_step queued_call)

variable {g h k : Nat} {s s' : State g h k}

/-! ## the invariant -/

/-- the commands that the thread in `ParseData` has still to pass on -/
def State.todo (s : State g h k) : List CMD := (s.mKMutex.map Holder.cmds).getD []

/-- the answer that it has not queued yet -/
def State.pending (s : State g h k) : List (Conn × List Byte) :=
  (s.mKMutex.map fun holder => pendingOf s.mClientTcpServer holder.thread).getD []

/-- a frame of `SendProxyBuffer` has bytes, one of `SendProxyDisconnect` has none -/
structure CMD.Replies (c : CMD) : Prop where
  sendable : c.Sendable
  bytes : c.header.cmdt ≠ .CommandTypeProxyDisconnect → 0 < c.param.length

structure Inv (fs : List CMD) (peer : Conn) (pool : List Nat) (nv nh : Nat) (s : State g h k) : Prop where
  vnc : s.mClientTcpVNCServer.InOrder nv
  carried : s.mClientTcpVNCServer.Carried
  measured : s.mClientTcpVNCServer.Measured
  decoded : Decoded fs peer pool s.mClientTcpVNCServer s.mpVNCClient
  http : s.mClientTcpServer.Sound nh
  sending : s.mClientTcpServer.Sending
  parsed : s.mpVNCClient.parsed = s.passed ++ s.todo
  /-- only the thread in `ParseData` is in `SendMessageByQueue` -/
  callers : ∀ j, s.mKMutex.map Holder.thread ≠ some j → s.mClientTcpServer.server.caller j = .free
  answered : (s.answered.map Prod.snd).Sublist s.passed
  queued : tagged s.mClientTcpServer.queued ++ s.pending = s.answered.map fun e => (e.1, e.2.param)

/-- the condition on a step: no chunk of the VNC connection is put in the handle list behind a dropped
one; the chunks are those of `peer`, and there is an idle Message for one that is early; `send` writes on
own sockets, and nothing behind a Message given up -/
def State.Calm (peer : Conn) (s : State g h k) : Action g h k → Prop
  | .vnc a bytes => s.mClientTcpVNCServer.NoGap (a, bytes)
  | .ParseData i => ∀ m, s.mClientTcpVNCServer.server.handler i = .handle m → m.conn = peer ∧
      (s.mpVNCClient.miDataPacketRecvSeq ≠ m.seq → s.mpVNCClient.mpIdleMessageList ≠ [])
  | .http a bytes => s.mClientTcpServer.SendsOwn (a, bytes)
  | .OnParseCmd _ | .unlock => True

instance (peer : Conn) (s : State g h k) : DecidablePred (s.Calm peer)
  | .vnc a bytes => inferInstanceAs (Decidable (s.mClientTcpVNCServer.NoGap (a, bytes)))
  | .ParseData i =>
    match hm : s.mClientTcpVNCServer.server.handler i with
    | .handle m => decidable_of_iff (m.conn = peer ∧
        (s.mpVNCClient.miDataPacketRecvSeq ≠ m.seq → s.mpVNCClient.mpIdleMessageList ≠ []))
        ⟨fun hcalm m' hm' => by cases hm.symm.trans hm'; exact hcalm, fun hcalm => hcalm m hm⟩
    | .popFront | .closeIfNeed _ | .OnClose _ _ | .close _ _ | .idle _ =>
      .isTrue fun m' hm' => by cases hm.symm.trans hm'
  | .http a bytes => inferInstanceAs (Decidable (s.mClientTcpServer.SendsOwn (a, bytes)))
  | .OnParseCmd _ | .unlock => .isTrue trivial

section
variable {fs : List CMD} {peer : Conn} {pool : List Nat} {nv nh fuel : Nat}

theorem handles_nil {s : State g h k} {a : Tcp.Action h k} (hparses : ¬ s.Parses a) :
    s.mClientTcpVNCServer.server.handles a = [] := by
  by_contra hne
  exact hparses (.inl hne)

theorem pushedOf_begins {vnc : Stream h k} (hvnc : vnc.InOrder nv)
    (hpeer : bytesOf vnc.received peer <+: fs.flatMap CMD.frame) :
    (vnc.pushedOf peer).flatten <+: fs.flatMap CMD.frame :=
  Tcp.flatten_pushedOf vnc peer ▸ (hvnc.unbroken.le peer).trans hpeer

theorem Inv.vncStep (hi : Inv fs peer pool nv nh s) {a : Tcp.Action h k} {bytes : List Byte}
    {vnc : Stream h k} (hgap : s.mClientTcpVNCServer.NoGap (a, bytes)) (hparses : ¬ s.Parses a)
    (hstep : s.mClientTcpVNCServer.Step (a, bytes) vnc)
    (hpeer : bytesOf vnc.received peer <+: fs.flatMap CMD.frame) :
    Inv fs peer pool nv nh { s with mClientTcpVNCServer := vnc } := by
  have hvnc := hi.vnc.step hgap hstep
  have hmeasured := hi.measured.step hi.vnc.sound.nodup hstep
  exact { hi with
    vnc := hvnc
    carried := hi.carried.step hi.vnc.sound.nodup hstep
    measured := hmeasured
    decoded := hi.decoded.quiet hi.vnc.sound hi.carried hstep hmeasured
      (pushedOf_begins hvnc hpeer) (handles_nil hparses) }

theorem handler_chunk {vnc : Stream h k} {i : Fin h} {m : Msg} (hm : vnc.server.handler i = .handle m)
    (hlen : 0 < m.len) : m ∈ vnc.server.chunks ∧ vnc.server.handles (.handler i) = [m] := by
  refine ⟨Tcp.mem_chunks.mpr (.inr ⟨i, hm⟩), ?_⟩
  unfold Tcp.State.handles
  dsimp only
  rw [hm]
  exact if_pos hlen

theorem Inv.parseStep (hfs : ∀ c ∈ fs, CMD.Replies c)
    (hfuel : MAX_BUFFER_LEN + (fs.flatMap CMD.frame).length ≤ fuel) (hi : Inv fs peer pool nv nh s)
    {i : Fin h} {m : Msg} {vnc : Stream h k} {r : Client × Int} (hmutex : s.mKMutex = none)
    (hm : s.mClientTcpVNCServer.server.handler i = .handle m) (hlen : 0 < m.len)
    (hcalm : s.Calm peer (.ParseData i)) (hstep : s.mClientTcpVNCServer.Step (.handler i, []) vnc)
    (hparse : VncProxy.ParseData fuel s.mpVNCClient
      (m.message (s.mClientTcpVNCServer.buffer m.addr)) = some r)
    (hpeer : bytesOf vnc.received peer <+: fs.flatMap CMD.frame) :
    Inv fs peer pool nv nh { s with
      mClientTcpVNCServer := vnc
      mpVNCClient := r.1
      mKMutex := some ⟨i, r.1.parsed.drop s.mpVNCClient.parsed.length⟩ } := by
  have hvnc := hi.vnc.step (a := (.handler i, [])) trivial hstep
  have hmeasured := hi.measured.step hi.vnc.sound.nodup hstep
  obtain ⟨hchunk, hhandles⟩ := handler_chunk hm hlen
  obtain ⟨hown, hidle⟩ := hcalm m hm
  obtain ⟨c', ret, hparse', -, hdecoded⟩ := hi.decoded.handle (fun f hf => (hfs f hf).sendable.toFits)
    hfuel hi.vnc.sound hi.carried hi.measured hstep hmeasured (pushedOf_begins hvnc hpeer) hchunk
    hhandles hown hidle
  obtain rfl : (c', ret) = r := Option.some.inj (hparse'.symm.trans hparse)
  have hfree : ∀ j, s.mClientTcpServer.server.caller j = .free := fun j =>
    hi.callers j (by rw [hmutex]; exact nofun)
  have hqueued := hi.queued
  unfold State.pending at hqueued
  rw [hmutex] at hqueued
  have hparsed := hi.parsed
  unfold State.todo at hparsed
  rw [hmutex] at hparsed
  refine ⟨hvnc, hi.carried.step hi.vnc.sound.nodup hstep, hmeasured, hdecoded, hi.http, hi.sending, ?_,
    fun j _ => hfree j, hi.answered, ?_⟩
  · obtain ⟨new, hnew⟩ := ParseData_grows hparse'
    show c'.parsed = s.passed ++ c'.parsed.drop s.mpVNCClient.parsed.length
    rw [← hnew, List.drop_left, hparsed]
    exact congrArg (· ++ new) (List.append_nil s.passed)
  · show _ ++ pendingOf s.mClientTcpServer i = _
    rw [pendingOf_free (hfree i)]
    exact hqueued

theorem Inv.todo_cons (hi : Inv fs peer pool nv nh s) {i : Fin h} {cmd : CMD} {cmds : List CMD}
    (hmutex : s.mKMutex = some ⟨i, cmd :: cmds⟩)
    (hfree : s.mClientTcpServer.server.caller i = .free) :
    s.mpVNCClient.parsed = s.passed ++ [cmd] ++ cmds ∧ cmd ∈ fs ∧
      (∀ j, s.mClientTcpServer.server.caller j = .free) ∧
      tagged s.mClientTcpServer.queued = s.answered.map fun e => (e.1, e.2.param) := by
  have hparsed := hi.parsed
  unfold State.todo at hparsed
  rw [hmutex] at hparsed
  replace hparsed : s.mpVNCClient.parsed = s.passed ++ [cmd] ++ cmds := by
    rw [hparsed, List.append_assoc]
    rfl
  have hmem : cmd ∈ s.mpVNCClient.parsed := by
    rw [hparsed]
    simp
  have hqueued := hi.queued
  unfold State.pending at hqueued
  rw [hmutex] at hqueued
  replace hqueued : tagged s.mClientTcpServer.queued ++ pendingOf s.mClientTcpServer i = _ := hqueued
  rw [pendingOf_free hfree, List.append_nil] at hqueued
  refine ⟨hparsed, hi.decoded.parsed.subset hmem, fun j => ?_, hqueued⟩
  by_cases hj : j = i
  · exact hj ▸ hfree
  · exact hi.callers j (by rw [hmutex]; exact fun he => hj (Option.some.inj he).symm)

theorem Inv.skipStep (hi : Inv fs peer pool nv nh s) {i : Fin h} {cmd : CMD} {cmds : List CMD}
    (hmutex : s.mKMutex = some ⟨i, cmd :: cmds⟩)
    (hfree : s.mClientTcpServer.server.caller i = .free) :
    Inv fs peer pool nv nh { s with mKMutex := some ⟨i, cmds⟩, passed := s.passed ++ [cmd] } := by
  obtain ⟨hparsed, -, hcallers, hqueued⟩ := hi.todo_cons hmutex hfree
  refine { hi with
    parsed := hparsed
    callers := fun j _ => hcallers j
    answered := hi.answered.trans (List.sublist_append_left ..)
    queued := ?_ }
  show _ ++ pendingOf s.mClientTcpServer i = _
  rw [pendingOf_free hfree, List.append_nil]
  exact hqueued

theorem Inv.replyStep (hfs : ∀ c ∈ fs, CMD.Replies c) (hi : Inv fs peer pool nv nh s) {i : Fin h}
    {cmd : CMD} {cmds : List CMD} {sm : Msg} {idle : List Msg} {http : Stream g h} {data : List Byte}
    (hmutex : s.mKMutex = some ⟨i, cmd :: cmds⟩)
    (hfree : s.mClientTcpServer.server.caller i = .free)
    (hcmdt : cmd.header.cmdt ≠ .CommandTypeProxyDisconnect)
    (hidle : s.mClientTcpServer.server.mIdleMessageList = sm :: idle)
    (hdata : cmd.Sized → 0 < cmd.param.length → data = cmd.param)
    (hstep : s.mClientTcpServer.Step (.call i cmd.header.fd.toNat data.length, data) http) :
    Inv fs peer pool nv nh { s with
      mKMutex := some ⟨i, cmds⟩
      mClientTcpServer := http
      passed := s.passed ++ [cmd]
      answered := s.answered ++ [(s.mClientTcpServer.server.conn cmd.header.fd.toNat, cmd)] } := by
  obtain ⟨hparsed, hmem, hcallers, hqueued⟩ := hi.todo_cons hmutex hfree
  obtain ⟨hsame, hpending, hothers⟩ := queued_call hidle hfree hstep
  have hparam : data = cmd.param :=
    hdata (hfs cmd hmem).sendable.sized ((hfs cmd hmem).bytes hcmdt)
  refine { hi with
    http := hi.http.step hstep
    sending := hi.sending.step hi.http.nodup
      (show s.mClientTcpServer.SendsOwn (.call i cmd.header.fd.toNat data.length, data) from trivial) hstep
    parsed := hparsed
    callers := fun j hj => (hothers j fun he => hj (congrArg some he.symm)).trans (hcallers j)
    answered := ?_
    queued := ?_ }
  · rw [List.map_append]
    exact hi.answered.append (List.Sublist.refl _)
  · show tagged http.queued ++ pendingOf http i = _
    rw [hsame, hqueued, hpending, hparam, List.map_append]
    rfl

theorem Inv.httpStep (hi : Inv fs peer pool nv nh s) {a : Tcp.Action g h} {bytes : List Byte}
    {http : Stream g h} (hcall : ∀ j fd len, a ≠ .call j fd len)
    (hown : s.mClientTcpServer.SendsOwn (a, bytes))
    (hstep : s.mClientTcpServer.Step (a, bytes) http) :
    Inv fs peer pool nv nh { s with mClientTcpServer := http } := by
  have hhttp := hi.http.step hstep
  have hsending := hi.sending.step hi.http.nodup hown hstep
  have hqueued := hi.queued
  unfold State.pending at hqueued
  obtain hmutex | ⟨holder, hmutex⟩ : s.mKMutex = none ∨ ∃ holder, s.mKMutex = some holder := by
    cases s.mKMutex with
    | none => exact .inl rfl
    | some holder => exact .inr ⟨holder, rfl⟩
  · rw [hmutex] at hqueued
    have hfree : ∀ j, s.mClientTcpServer.server.caller j = .free := fun j =>
      hi.callers j (by rw [hmutex]; exact nofun)
    -- nobody queues, so nothing is queued
    have hsame : tagged http.queued = tagged s.mClientTcpServer.queued ∧
        ∀ j, http.server.caller j = .free := by
      have hqueues : s.mClientTcpServer.server.queues a = [] := by
        cases a with
        | caller j =>
          unfold Tcp.State.queues
          dsimp only
          rw [hfree j]
        | accept | event | OnAccept | recv | main | handler | send | sender | call => rfl
      refine ⟨by rw [hstep.queued, hqueues]; exact congrArg tagged (List.append_nil _), fun j => ?_⟩
      have hnot : ¬ a.OfCaller j := by
        cases a with
        | caller j' =>
          have hserver : s.mClientTcpServer.server.stepCaller j' = some http.server := hstep.server
          unfold Tcp.State.stepCaller at hserver
          rw [hfree j'] at hserver
          cases hserver
        | call j' fd len => exact absurd rfl (hcall j' fd len)
        | accept | event | OnAccept | recv | main | handler | send | sender => exact id
      exact (Tcp.caller_others hnot hstep.server).trans (hfree j)
    refine { hi with
      http := hhttp
      sending := hsending
      callers := fun j _ => hsame.2 j
      queued := ?_ }
    show tagged http.queued ++ ((s.mKMutex.map _).getD []) = _
    rw [hmutex, hsame.1]
    exact hqueued
  · rw [hmutex] at hqueued
    have hothers : ∀ j, j ≠ holder.thread → s.mClientTcpServer.server.caller j = .free := fun j hj =>
      hi.callers j (by rw [hmutex]; exact fun he => hj (Option.some.inj he).symm)
    obtain ⟨hsame, hfree⟩ := queued_step hi.http.nodup hstep hcall hothers
    refine { hi with
      http := hhttp
      sending := hsending
      callers := fun j hj => hfree j (hi.callers j hj)
      queued := ?_ }
    show tagged http.queued ++ ((s.mKMutex.map _).getD []) = _
    rw [hmutex]
    exact hsame.trans hqueued

/-- **Every step that is `Calm` keeps it**, as long as what comes from `peer` is the beginning of the
frames. -/
theorem Inv.step (hfs : ∀ c ∈ fs, CMD.Replies c)
    (hfuel : MAX_BUFFER_LEN + (fs.flatMap CMD.frame).length ≤ fuel) (hi : Inv fs peer pool nv nh s)
    {a : Action g h k} (hcalm : s.Calm peer a) (hmove : s.step fuel a = some s')
    (hpeer : bytesOf s'.mClientTcpVNCServer.received peer <+: fs.flatMap CMD.frame) :
    Inv fs peer pool nv nh s' := by
  cases step_cases hmove with
  | vnc a bytes vnc hparses hstep => exact hi.vncStep hcalm hparses hstep hpeer
  | parse i m vnc r hmutex hm hlen hstep hparse =>
    exact hi.parseStep hfs hfuel hmutex hm hlen hcalm hstep hparse hpeer
  | skip i cmd cmds task hmutex hfree => exact hi.skipStep hmutex hfree
  | reply i cmd cmds task sm idle http data hmutex hfree hcmdt hidle hdata hstep =>
    exact hi.replyStep hfs hmutex hfree hcmdt hidle hdata hstep
  | unlock i hmutex hfree =>
    have hparsed := hi.parsed
    have hqueued := hi.queued
    unfold State.todo at hparsed
    unfold State.pending at hqueued
    rw [hmutex] at hparsed hqueued
    refine { hi with
      parsed := hparsed
      callers := fun j _ => ?_
      queued := ?_ }
    · by_cases hj : j = i
      · exact hj ▸ hfree
      · exact hi.callers j (by rw [hmutex]; exact fun he => hj (Option.some.inj he).symm)
    · replace hqueued : _ ++ pendingOf s.mClientTcpServer i = _ := hqueued
      rw [pendingOf_free hfree] at hqueued
      exact hqueued
  | http a bytes http hcall hstep => exact hi.httpStep hcall hcalm hstep

end

/-! ## the frames of HttpProxyServer -/

theorem SendProxyBuffer_bytes (seq fd : CInt) (buffer : List Byte) :
    ∀ c ∈ SendProxyBuffer seq fd buffer, 0 < c.param.length := by
  obtain ⟨s, hs, -, -⟩ := sendLoop_exits seq fd buffer
  have hinv : ∀ s : SendLoop, (∀ c ∈ s.sent, 0 < c.param.length) → s.cond = true →
      ∀ c ∈ (s.body seq fd).sent, 0 < c.param.length := by
    intro s hs hcond c hc
    have hpos : 0 < s.rest.length := of_decide_eq_true hcond
    rcases List.mem_append.mp hc with hc | hc
    · exact hs c hc
    · rw [List.mem_singleton.mp hc, SendLoop.cmd_param_length]
      exact Nat.lt_min.mpr ⟨hpos, by decide⟩
  have hall := (loop_inv (I := fun s : SendLoop => ∀ c ∈ s.sent, 0 < c.param.length) hinv
    (fun c hc => absurd hc List.not_mem_nil) hs).1
  unfold SendProxyBuffer
  rw [hs]
  exact hall

theorem sentBy_replies (q : CInt) (calls : List Call) :
    ∀ c ∈ (sentBy q calls).flatten, CMD.Replies c := by
  intro c hc
  refine ⟨sentBy_sendable q calls c hc, fun hcmdt => ?_⟩
  induction calls generalizing q with
  | nil => exact absurd hc List.not_mem_nil
  | cons call l ih =>
    cases call with
    | SendProxyBuffer seq fd buffer =>
      rcases List.mem_append.mp hc with hc | hc
      · exact SendProxyBuffer_bytes seq fd buffer c hc
      · exact ih q hc
    | SendProxyDisconnect fd =>
      rcases List.mem_append.mp hc with hc | hc
      · rw [List.mem_singleton.mp hc] at hcmdt
        exact absurd rfl hcmdt
      · exact ih (q + 1) hc

/-- what one call gives the client that has the descriptor -/
def Call.bytesFor (fd : CInt) : Call → List Byte
  | .SendProxyBuffer _ fd' buffer => if fd' = fd then buffer else []
  | .SendProxyDisconnect _ => []

theorem sentBy_bytesFor (q : CInt) (calls : List Call) (fd : CInt) :
    ((sentBy q calls).flatten.filter fun c =>
        c.header.cmdt ≠ .CommandTypeProxyDisconnect ∧ c.header.fd = fd).flatMap CMD.param
      = calls.flatMap (Call.bytesFor fd) := by
  induction calls generalizing q with
  | nil => rfl
  | cons call l ih =>
    cases call with
    | SendProxyBuffer seq fd' buffer =>
      have hinv := (SendProxyBuffer_inv seq fd' buffer).2
      show ((SendProxyBuffer seq fd' buffer ++ (sentBy q l).flatten).filter _).flatMap _ = _
      rw [List.filter_append, List.flatMap_append, ih, List.flatMap_cons]
      congr 1
      show _ = if fd' = fd then buffer else []
      by_cases hfd : fd' = fd
      · rw [if_pos hfd, List.filter_eq_self.mpr, SendProxyBuffer_params]
        intro c hc
        obtain ⟨-, hcmdt, -, hcfd, -⟩ := hinv c hc
        simp [hcmdt, hcfd, hfd]
      · rw [if_neg hfd, List.filter_eq_nil_iff.mpr]
        · rfl
        · intro c hc
          obtain ⟨-, hcmdt, -, hcfd, -⟩ := hinv c hc
          simp [hcfd, hfd]
    | SendProxyDisconnect fd' =>
      show (([SendProxyDisconnect q fd'] ++ (sentBy (q + 1) l).flatten).filter _).flatMap _ = _
      rw [List.filter_append, List.flatMap_append, ih, List.flatMap_cons]
      rfl

/-! ## every run -/

def State.init (g h k : Nat) (vnc : Stream h k) (http : Stream g h) (idle : List Message) : State g h k where
  mClientTcpVNCServer := vnc
  mpVNCClient := Client.fresh idle
  mKMutex := none
  mClientTcpServer := http
  passed := []
  answered := []

theorem received_step {fuel : Nat} {a : Action g h k} (hmove : s.step fuel a = some s') :
    ∃ l, s'.mClientTcpVNCServer.received = s.mClientTcpVNCServer.received ++ l := by
  cases step_cases hmove with
  | vnc a bytes vnc hparses hstep => exact ⟨_, hstep.received⟩
  | parse i m vnc r hmutex hm hlen hstep hparse => exact ⟨_, hstep.received⟩
  | skip | reply | unlock | http => exact ⟨[], (List.append_nil _).symm⟩

section
variable {nv wv sv nh wh sh fuel : Nat} {jv jh : Nat → Int × Bool × Nat × Nat} {idle : List Message}
  {peer : Conn} {q : CInt} {calls : List Call} {l : List (Action g h k)}

theorem inv_of_calm {fs : List CMD} (hfs : ∀ c ∈ fs, CMD.Replies c)
    (hfuel : MAX_BUFFER_LEN + (fs.flatMap CMD.frame).length ≤ fuel)
    (hcalm : RunOk (State.step fuel) (State.Calm peer) (State.init g h k (Stream.init h k nv wv sv jv)
      (Stream.init g h nh wh sh jh) idle) l)
    (hrun : run (State.step fuel) (State.init g h k (Stream.init h k nv wv sv jv)
      (Stream.init g h nh wh sh jh) idle) l = some s)
    (hpeer : bytesOf s.mClientTcpVNCServer.received peer <+: fs.flatMap CMD.frame) :
    Inv fs peer (idle.map Message.addr) nv nh s := by
  refine inv_runOk (I := fun s => bytesOf s.mClientTcpVNCServer.received peer
      <+: fs.flatMap CMD.frame → Inv fs peer (idle.map Message.addr) nv nh s)
    (fun s a s' hi hok hstep hpeer => ?_) (fun _ => ?_) hcalm hrun hpeer
  · -- what had come before the step is a beginning too
    obtain ⟨new, hnew⟩ := received_step hstep
    refine (hi ?_).step hfs hfuel hok hstep hpeer
    refine List.IsPrefix.trans ?_ hpeer
    rw [hnew, Tcp.bytesOf_append]
    exact List.prefix_append ..
  · exact {
      vnc := .init ..
      carried := .init ..
      measured := .init ..
      decoded := Decoded.fresh rfl rfl
      http := .init ..
      sending := .init ..
      parsed := rfl
      callers := fun _ _ => rfl
      answered := List.Sublist.refl _
      queued := rfl }

theorem Inv.passed_le {fs : List CMD} {pool : List Nat} (hi : Inv fs peer pool nv nh s) : s.passed <+: fs :=
  List.IsPrefix.trans ⟨s.todo, hi.parsed.symm⟩ hi.decoded.parsed

/-- **The replies in order**, for any number of handler threads of both servers, any cutting of the
frames of `calls` into chunks and every interleaving: in every run of steps that are `Calm` the commands
reach `OnParseCmd` once each and in the order of the calls, and what is written on the socket of a client
is the beginning of the parameters of those that were answered for it. -/
theorem returned_in_order
    (hfuel : MAX_BUFFER_LEN + ((sentBy q calls).flatten.flatMap CMD.frame).length ≤ fuel)
    (hcalm : RunOk (State.step fuel) (State.Calm peer) (State.init g h k (Stream.init h k nv wv sv jv)
      (Stream.init g h nh wh sh jh) idle) l)
    (hrun : run (State.step fuel) (State.init g h k (Stream.init h k nv wv sv jv)
      (Stream.init g h nh wh sh jh) idle) l = some s)
    (hpeer : bytesOf s.mClientTcpVNCServer.received peer
      <+: (sentBy q calls).flatten.flatMap CMD.frame) :
    s.passed <+: (sentBy q calls).flatten ∧ (s.answered.map Prod.snd).Sublist s.passed ∧
      ∀ c, bytesOf s.mClientTcpServer.written c
        <+: bytesOf (s.answered.map fun e => (e.1, e.2.param)) c := by
  have hi := inv_of_calm (sentBy_replies q calls) hfuel hcalm hrun hpeer
  refine ⟨hi.passed_le, hi.answered, fun c => (hi.sending.le c).trans ?_⟩
  rw [← hi.queued, Tcp.bytesOf_append]
  exact List.prefix_append ..

/-! ### one reply in two chunks -/

def freshServer : Stream 1 1 := Stream.init 1 1 3 1 0 fun _ => (7, true, 7, 7)

abbrev start : State 1 1 1 := State.init 1 1 1 freshServer freshServer []

def plain {α : Type} (f : α → List Byte → Action 1 1 1) (l : List α) : List (Action 1 1 1) :=
  l.map fun a => f a []

def accepts : List (Action 1 1 1) :=
  plain .vnc [.accept 3, .main, .main, .main, .OnAccept true, .main] ++
    plain .http [.accept 5, .main, .main, .main, .OnAccept true, .main]

def chunkOf (i : Fin 1) (bytes : List Byte) : List (Action 1 1 1) :=
  plain .vnc [.event 3 false, .main] ++ [.vnc (.recv (.data bytes.length)) bytes] ++
    plain .vnc [.main, .main, .main, .main, .handler i]

def twoBytes : List Call := [.SendProxyBuffer 0 5 [65, 66]]

/-- the reply comes cut behind its ninth byte, and is answered -/
def answered5 (i : Fin 1) (task : Chunk) : List (Action 1 1 1) :=
  let stream := (sentBy 7 twoBytes).flatten.flatMap CMD.frame
  accepts ++ chunkOf i (stream.take 9) ++ [.ParseData i, .unlock] ++
    plain .vnc [.handler i, .handler i] ++ chunkOf i (stream.drop 9) ++
    [.ParseData i, .OnParseCmd (some task)] ++ plain .http [.caller i, .caller i, .caller i] ++
    [.unlock] ++ plain .vnc [.handler i, .handler i] ++ plain .http [.sender, .send (.sent 1)]

def written5 (i : Fin 1) (task : Chunk) : List (Action 1 1 1) :=
  answered5 i task ++ plain .http [.send (.sent 1), .sender, .sender, .sender, .sender]

set_option maxRecDepth 20000 in
/-- the first of two bytes is written -/
theorem returned_in_order_one :
    ∃ s : State 1 1 1, run (State.step 9000) start (answered5 0 ⟨[1], by decide, by decide⟩) = some s ∧
      s.passed.length = 1 ∧ bytesOf s.mClientTcpServer.written (5, 1) = [65] ∧
      s.passed <+: (sentBy 7 twoBytes).flatten ∧ (s.answered.map Prod.snd).Sublist s.passed ∧
      ∀ c, bytesOf s.mClientTcpServer.written c
        <+: bytesOf (s.answered.map fun e => (e.1, e.2.param)) c := by
  obtain ⟨s, hs, hcalm, hpeer, hpassed, hwritten⟩ : ∃ s : State 1 1 1,
      run (State.step 9000) start (answered5 0 ⟨[1], by decide, by decide⟩) = some s ∧
        RunOk (State.step 9000) (State.Calm (3, 1)) start (answered5 0 ⟨[1], by decide, by decide⟩) ∧
        bytesOf s.mClientTcpVNCServer.received (3, 1) <+: (sentBy 7 twoBytes).flatten.flatMap CMD.frame ∧
        s.passed.length = 1 ∧ bytesOf s.mClientTcpServer.written (5, 1) = [65] := by
    decide
  exact ⟨s, hs, hpassed, hwritten, returned_in_order (by decide) hcalm hs hpeer⟩

/-- every frame has come, and no thread has anything left to do -/
structure State.Done (peer : Conn) (stream : List Byte) (s : State g h k) : Prop where
  received : bytesOf s.mClientTcpVNCServer.received peer = stream
  notRefused : peer ∉ s.mClientTcpVNCServer.refused
  vnc : s.mClientTcpVNCServer.server.Resting
  http : s.mClientTcpServer.server.Resting
  mutex : s.mKMutex = none

instance (peer : Conn) (stream : List Byte) (s : State g h k) : Decidable (s.Done peer stream) :=
  have : Decidable (s.mKMutex = none) :=
    decidable_of_iff (s.mKMutex.isNone = true) Option.isNone_iff_eq_none
  decidable_of_iff (bytesOf s.mClientTcpVNCServer.received peer = stream ∧
      peer ∉ s.mClientTcpVNCServer.refused ∧ s.mClientTcpVNCServer.server.Resting ∧
      s.mClientTcpServer.server.Resting ∧ s.mKMutex = none)
    ⟨fun ⟨h1, h2, h3, h4, h5⟩ => ⟨h1, h2, h3, h4, h5⟩,
      fun ⟨h1, h2, h3, h4, h5⟩ => ⟨h1, h2, h3, h4, h5⟩⟩

theorem Inv.passed_all {fs : List CMD} {pool : List Nat} (hi : Inv fs peer pool nv nh s)
    (hdone : s.Done peer (fs.flatMap CMD.frame)) : s.passed = fs := by
  have hchunks : s.mClientTcpVNCServer.server.chunks = 0 := by
    unfold Tcp.State.chunks
    rw [hdone.vnc.handleList]
    simp [hdone.vnc.handler, Tcp.HandlerPc.chunk]
  have hstream : (s.mClientTcpVNCServer.pushedOf peer).flatten = fs.flatMap CMD.frame := by
    have hall := hi.vnc.unbroken.all peer hdone.notRefused
    rw [hdone.vnc.main, hdone.received] at hall
    rw [Tcp.flatten_pushedOf]
    exact (hall.trans (List.append_nil _)).symm
  have hparsed := hi.parsed
  unfold State.todo at hparsed
  rw [hdone.mutex, hi.decoded.all hi.vnc.sound hi.carried hchunks hstream] at hparsed
  exact (hparsed.trans (List.append_nil _)).symm

theorem Inv.answers_written {fs : List CMD} {pool : List Nat} (hi : Inv fs peer pool nv nh s)
    (hhttp : s.mClientTcpServer.server.Resting) (hmutex : s.mKMutex = none) {c : Conn}
    (hlive : s.mClientTcpServer.Live c) (habandoned : c ∉ s.mClientTcpServer.abandoned) :
    bytesOf s.mClientTcpServer.written c = bytesOf (s.answered.map fun e => (e.1, e.2.param)) c := by
  have hunsent : s.mClientTcpServer.unsent = [] := by
    unfold Stream.unsent Tcp.unsent
    rw [hhttp.sender, hhttp.sendList]
    rfl
  have hqueued := hi.queued
  unfold State.pending at hqueued
  rw [hmutex] at hqueued
  have hwhole := hi.sending.whole c hlive habandoned
  rw [hunsent, (List.append_nil _).symm.trans hqueued] at hwhole
  exact (List.append_nil _).symm.trans hwhole

/-- what the socket of a client has been given then: the parameters of the replies for its descriptor -/
theorem Inv.written_all {fs : List CMD} {pool : List Nat} (hi : Inv fs peer pool nv nh s)
    (hdone : s.Done peer (fs.flatMap CMD.frame))
    (hanswered : s.answered.map Prod.snd
      = s.passed.filter fun c => c.header.cmdt ≠ .CommandTypeProxyDisconnect) {c : Conn} {fd : CInt}
    (hown : ∀ e ∈ s.answered, e.1 = c ↔ e.2.header.fd = fd)
    (hlive : s.mClientTcpServer.Live c) (habandoned : c ∉ s.mClientTcpServer.abandoned) :
    bytesOf s.mClientTcpServer.written c
      = (fs.filter fun c => c.header.cmdt ≠ .CommandTypeProxyDisconnect ∧ c.header.fd = fd).flatMap
          CMD.param := by
  rw [hi.passed_all hdone] at hanswered
  rw [hi.answers_written hdone.http hdone.mutex hlive habandoned]
  calc bytesOf (s.answered.map fun e => (e.1, e.2.param)) c
      = ((s.answered.filter fun e => e.2.header.fd = fd).map Prod.snd).flatMap CMD.param := by
        unfold bytesOf
        rw [List.filter_map, List.flatMap_map, List.flatMap_map]
        refine congrArg (List.flatMap _) (List.filter_congr fun e he => ?_)
        exact decide_eq_decide.mpr (hown e he)
    _ = ((s.answered.map Prod.snd).filter fun c => c.header.fd = fd).flatMap CMD.param := by
        rw [List.filter_map]
        rfl
    _ = _ := by
        rw [hanswered, List.filter_filter]
        refine congrArg (List.flatMap _) (List.filter_congr fun c _ => ?_)
        simp [Bool.and_comm]

/-- **The whole reply**: when every frame has come, nothing is left to be done and every reply found its
session and an idle Message, the socket of a client that alone had its descriptor has been given the
buffers of the calls of `SendProxyBuffer` for it, one behind the other. -/
theorem returned_all
    (hfuel : MAX_BUFFER_LEN + ((sentBy q calls).flatten.flatMap CMD.frame).length ≤ fuel)
    (hcalm : RunOk (State.step fuel) (State.Calm peer) (State.init g h k (Stream.init h k nv wv sv jv)
      (Stream.init g h nh wh sh jh) idle) l)
    (hrun : run (State.step fuel) (State.init g h k (Stream.init h k nv wv sv jv)
      (Stream.init g h nh wh sh jh) idle) l = some s)
    (hdone : s.Done peer ((sentBy q calls).flatten.flatMap CMD.frame))
    (hanswered : s.answered.map Prod.snd
      = s.passed.filter fun c => c.header.cmdt ≠ .CommandTypeProxyDisconnect) {c : Conn} {fd : CInt}
    (hown : ∀ e ∈ s.answered, e.1 = c ↔ e.2.header.fd = fd)
    (hlive : s.mClientTcpServer.Live c) (habandoned : c ∉ s.mClientTcpServer.abandoned) :
    bytesOf s.mClientTcpServer.written c = calls.flatMap (Call.bytesFor fd) := by
  have hi := inv_of_calm (sentBy_replies q calls) hfuel hcalm hrun (hdone.received ▸ List.prefix_rfl)
  rw [hi.written_all hdone hanswered hown hlive habandoned]
  exact sentBy_bytesFor q calls fd

set_option maxRecDepth 20000 in
/-- both bytes are written -/
theorem returned_all_one :
    ∃ s : State 1 1 1, run (State.step 9000) start (written5 0 ⟨[1], by decide, by decide⟩) = some s ∧
      bytesOf s.mClientTcpServer.written (5, 1) = twoBytes.flatMap (Call.bytesFor 5) := by
  obtain ⟨s, hs, hcalm, hdone, hanswered, hown, hlive, habandoned⟩ : ∃ s : State 1 1 1,
      run (State.step 9000) start (written5 0 ⟨[1], by decide, by decide⟩) = some s ∧
        RunOk (State.step 9000) (State.Calm (3, 1)) start (written5 0 ⟨[1], by decide, by decide⟩) ∧
        s.Done (3, 1) ((sentBy 7 twoBytes).flatten.flatMap CMD.frame) ∧
        s.answered.map Prod.snd
          = s.passed.filter (fun c => c.header.cmdt ≠ .CommandTypeProxyDisconnect) ∧
        (∀ e ∈ s.answered, e.1 = (5, 1) ↔ e.2.header.fd = 5) ∧
        s.mClientTcpServer.Live (5, 1) ∧ (5, 1) ∉ s.mClientTcpServer.abandoned := by
    decide
  exact ⟨s, hs, returned_all (by decide) hcalm hs hdone hanswered hown hlive habandoned⟩

end

end VncProxy.Return
