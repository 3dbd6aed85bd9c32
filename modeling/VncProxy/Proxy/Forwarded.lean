import VncProxy.Lib.Lanes
import VncProxy.Proxy.Decode
import VncProxy.Proxy.Forward
import VncProxy.Tcp.Rest
import VncProxy.Tcp.Serial
import VncProxy.Wire.RecvPrefix

/-!
# What TcpProxyClient gets of the requests

* `Inv`                 what holds in every run in which `send` writes on own sockets and nothing behind a
                        Message given up;
* `forwarded_sound`     what TcpProxyClient receives is the beginning of what was sent to it, and what
                        was sent are chunks from the handle list, each at most once;
* `forwarded_in_order`  with one handler thread, the parameters for a browser are the beginning of what
                        it has sent, unless a chunk of it was dropped;
* `forwarded_all`       and all of it when both servers are at rest.
-/

namespace VncProxy.Forward

open Tcp (Stream Conn Msg bytesOf tagged pendingOf)

variable {g h k : Nat} {s s' : State g h k}

/-! ## the commands -/

/-- what is in the Message for the command -/
def Item.wire (x : Item g) : Conn × List Byte := (x.peer, x.cmd.frame)

/-- a chunk is passed on -/
def Item.Proxies (x : Item g) : Bool := x.cmd.header.cmdt = .CommandTypeProxy

/-- the chunk with the connection it came from -/
def Item.entry (x : Item g) : Conn × List Byte := (x.client, x.cmd.param)

/-- the chunks that were passed on -/
def chunksOf (l : List (Item g)) : List (Conn × List Byte) := (l.filter Item.Proxies).map Item.entry

theorem chunksOf_append (l l' : List (Item g)) : chunksOf (l ++ l') = chunksOf l ++ chunksOf l' := by
  unfold chunksOf
  rw [List.filter_append, List.map_append]

/-- the chunk of a task for a connection -/
def taskChunk (client : Conn) : ITask → List (Conn × List Byte)
  | .ProxyClientTask chunk => [(client, chunk.bytes)]
  | .ProxyClientDisconnectTask => []

/-- the connections of the chunks whose tasks were dropped -/
def droppedChunks (l : List (Conn × ITask)) : List Conn :=
  l.flatMap fun e => (taskChunk e.1 e.2).map Prod.fst

/-- the main thread sends the Disconnects, the handler threads the rest -/
structure Item.Fits (x : Item g) : Prop where
  sized : x.cmd.Sized
  proxies : x.Proxies = true ↔ x.thread ≠ Fin.last g
  bytes : x.Proxies = true → x.cmd.param ≠ []

/-! ## the invariant -/

/-- a chunk that `OnRecvMessage` was called with was passed on or its task was dropped -/
structure Passed (begun : List (Item g)) (dropped : List (Conn × ITask))
    (handled : List (Conn × List Byte)) : Prop where
  sublist : (chunksOf begun).Sublist handled
  length : (chunksOf begun).length + (droppedChunks dropped).length = handled.length
  bytes : ∀ b, b ∉ droppedChunks dropped → bytesOf (chunksOf begun) b = bytesOf handled b

structure Inv (nh nv : Nat) (s : State g h k) : Prop where
  http : s.mClientTcpServer.Received nh
  vnc : s.mClientTcpVNCServer.Sound nv
  sending : s.mClientTcpVNCServer.Sending
  lanes : InLanes Item.thread s.begun s.sent s.sending
  fits : ∀ x ∈ s.begun, x.Fits
  queued : tagged s.mClientTcpVNCServer.queued = s.sent.map Item.wire
  pending : ∀ j, pendingOf s.mClientTcpVNCServer j = (s.sending j).toList.map Item.wire
  passed : Passed s.begun s.dropped (tagged s.mClientTcpServer.handled)

/-- `send` writes on own sockets, and nothing behind a Message given up -/
def State.Calm (s : State g h k) : Action g h k → Prop
  | .vnc a bytes => s.mClientTcpVNCServer.SendsOwn (a, bytes)
  | _ => True

instance (s : State g h k) : DecidablePred s.Calm
  | .vnc a bytes => inferInstanceAs (Decidable (s.mClientTcpVNCServer.SendsOwn (a, bytes)))
  | .http .. | .OnRecvMessage .. | .OnDisconnect _ => .isTrue trivial

/-! ## a step -/

section
variable {nh nv : Nat}

/-- a thread that has nothing in its Message is not in `SendMessageByQueue` -/
theorem Inv.sending_free (hi : Inv nh nv s) {j : Fin (g + 1)}
    (hfree : s.mClientTcpVNCServer.server.caller j = .free) : s.sending j = none := by
  have hpending := hi.pending j
  rw [Tcp.pendingOf_free hfree] at hpending
  cases hs : s.sending j with
  | none => rfl
  | some x =>
    rw [hs] at hpending
    cases hpending

theorem handled_step {http : Stream g k} {a : Tcp.Action g k} {b : List Byte}
    (hstep : s.mClientTcpServer.Step (a, b) http) : tagged http.handled
      = tagged s.mClientTcpServer.handled ++
        (s.mClientTcpServer.server.handles a).map fun m => (m.conn, s.mClientTcpServer.buffer m.addr) := by
  rw [hstep.handled]
  unfold tagged
  rw [List.map_append, List.map_map]
  rfl

theorem State.Calls.handles {a : Tcp.Action g k} {j : Fin (g + 1)} {client : Conn} {task : ITask}
    (hcalls : s.Calls a j client task) :
    (s.mClientTcpServer.server.handles a).map (fun m => (m.conn, s.mClientTcpServer.buffer m.addr))
      = taskChunk client task := by
  cases hcalls with
  | recv i m chunk hm hlen hchunk =>
    have hhandles : s.mClientTcpServer.server.handles (.handler i) = [m] := by
      unfold Tcp.State.handles
      dsimp only
      rw [hm]
      exact if_pos hlen
    rw [hhandles, List.map_singleton, hchunk]
    rfl
  | disconnect fd m hmain => rfl

theorem Passed.drop {begun : List (Item g)} {dropped : List (Conn × ITask)}
    {handled : List (Conn × List Byte)} (hi : Passed begun dropped handled) (client : Conn)
    (task : ITask) : Passed begun (dropped ++ [(client, task)]) (handled ++ taskChunk client task) := by
  have hdropped : droppedChunks (dropped ++ [(client, task)])
      = droppedChunks dropped ++ (taskChunk client task).map Prod.fst := by
    unfold droppedChunks
    rw [List.flatMap_append, List.flatMap_singleton]
  refine ⟨hi.sublist.trans (List.sublist_append_left ..), ?_, fun b hb => ?_⟩
  · rw [hdropped, List.length_append, List.length_append, List.length_map, ← hi.length, Nat.add_assoc]
  rw [hdropped] at hb
  have hold := hi.bytes b fun hmem => hb (List.mem_append_left _ hmem)
  rw [Tcp.bytesOf_append, hold]
  cases task with
  | ProxyClientTask chunk =>
    have hne : client ≠ b := by
      rintro rfl
      exact hb (List.mem_append_right _ (List.mem_singleton_self _))
    rw [taskChunk, Tcp.bytesOf_other hne, List.append_nil]
  | ProxyClientDisconnectTask => exact (List.append_nil _).symm

theorem chunksOf_cmd (thread : Fin (g + 1)) (client peer : Conn) (task : ITask) (seq fd : CInt) :
    chunksOf [⟨thread, client, peer, task.cmd seq fd⟩] = taskChunk client task := by
  cases task with
  | ProxyClientTask chunk => rfl
  | ProxyClientDisconnectTask => rfl

theorem Passed.begin {begun : List (Item g)} {dropped : List (Conn × ITask)}
    {handled l : List (Conn × List Byte)} (hi : Passed begun dropped handled) {x : Item g}
    (hx : chunksOf [x] = l) : Passed (begun ++ [x]) dropped (handled ++ l) := by
  rw [← hx]
  refine ⟨?_, ?_, fun b hb => ?_⟩
  · rw [chunksOf_append]
    exact hi.sublist.append (List.Sublist.refl _)
  · rw [chunksOf_append, List.length_append, List.length_append, ← hi.length, Nat.add_right_comm]
  · rw [chunksOf_append, Tcp.bytesOf_append, Tcp.bytesOf_append, hi.bytes b hb]

theorem State.Calls.fits {a : Tcp.Action g k} {j : Fin (g + 1)} {client peer : Conn} {task : ITask}
    (hcalls : s.Calls a j client task) (seq fd : CInt) :
    Item.Fits ⟨j, client, peer, task.cmd seq fd⟩ := by
  cases hcalls with
  | recv i m chunk =>
    refine ⟨ITask.cmd_sized _ seq fd, ⟨fun _ he => ?_, fun _ => rfl⟩,
      fun _ => List.ne_nil_of_length_pos chunk.pos⟩
    have hval := congrArg Fin.val he
    simp only [Fin.val_castSucc, Fin.val_last] at hval
    omega
  | disconnect fd' m hmain =>
    have hnot : ¬ Item.Proxies ⟨Fin.last g, s.mClientTcpServer.server.conn fd', peer,
        ITask.cmd .ProxyClientDisconnectTask seq fd⟩ = true := fun hproxies =>
      CMDT.noConfusion (of_decide_eq_true hproxies)
    exact ⟨ITask.cmd_sized _ seq fd, ⟨fun h => absurd h hnot, fun hne => absurd rfl hne⟩,
      fun h => absurd h hnot⟩

theorem Inv.httpStep (hi : Inv nh nv s) {a : Tcp.Action g k} {b : List Byte} {http : Stream g k}
    (hstep : s.mClientTcpServer.Step (a, b) http) (hquiet : s.mClientTcpServer.server.handles a = []) :
    Inv nh nv { s with mClientTcpServer := http } := by
  refine { hi with http := hi.http.step hstep, passed := ?_ }
  show Passed s.begun s.dropped (tagged http.handled)
  rw [handled_step hstep, hquiet, List.map_nil, List.append_nil]
  exact hi.passed

theorem Inv.dropStep (hi : Inv nh nv s) {a : Tcp.Action g k} {j : Fin (g + 1)} {client : Conn}
    {task : ITask} {http : Stream g k} (hcalls : s.Calls a j client task)
    (hstep : s.mClientTcpServer.Step (a, []) http) :
    Inv nh nv { s with mClientTcpServer := http, dropped := s.dropped ++ [(client, task)] } := by
  refine { hi with http := hi.http.step hstep, passed := ?_ }
  show Passed s.begun (s.dropped ++ [(client, task)]) (tagged http.handled)
  rw [handled_step hstep, hcalls.handles]
  exact hi.passed.drop client task

theorem Inv.sendStep (hi : Inv nh nv s) {a : Tcp.Action g k} {j : Fin (g + 1)} {client : Conn}
    {task : ITask} {http : Stream g k} (hcalls : s.Calls a j client task)
    (hstep : s.mClientTcpServer.Step (a, []) http)
    (hfree : s.mClientTcpVNCServer.server.caller j = .free) {v : Relay.VNCClient}
    {v' : Option Relay.VNCClient} {sm : Msg} {idle : List Msg}
    (hidle : s.mClientTcpVNCServer.server.mIdleMessageList = sm :: idle) {x : Item g}
    (hx : x = ⟨j, client, s.mClientTcpVNCServer.server.conn v.fd.toNat,
      task.cmd v.miPacketSendSeq (BitVec.ofNat 32 client.1)⟩) {vnc : Stream h (g + 1)}
    (hvnc : s.mClientTcpVNCServer.Step (.call j v.fd.toNat x.cmd.frame.length, x.cmd.frame) vnc) :
    Inv nh nv { s with
      mClientTcpServer := http
      mClientTcpVNCServer := vnc
      mpVNCClient := v'
      sending := Function.update s.sending j (some x)
      begun := s.begun ++ [x] } := by
  obtain ⟨hqueued, hpending, hothers⟩ := Tcp.queued_call hidle hfree hvnc
  have hthread : x.thread = j := by rw [hx]
  have hlanes := hi.lanes.begin (x := x) (by rw [hthread]; exact hi.sending_free hfree)
  rw [hthread] at hlanes
  refine ⟨hi.http.step hstep, hi.vnc.step hvnc, hi.sending.step hi.vnc.nodup (a := (.call j _ _, _)) trivial hvnc, hlanes,
    fun y hy => ?_, hqueued.trans hi.queued, fun i => ?_, ?_⟩
  · rcases List.mem_append.mp hy with hy | hy
    · exact hi.fits y hy
    · rw [List.mem_singleton.mp hy, hx]
      exact hcalls.fits _ _
  · by_cases hij : i = j
    · subst hij
      show pendingOf vnc i = (Function.update s.sending i (some x) i).toList.map Item.wire
      rw [hpending, Function.update_self, hx]
      rfl
    · show pendingOf vnc i = (Function.update s.sending j (some x) i).toList.map Item.wire
      rw [Function.update_of_ne hij, ← hi.pending i]
      exact Tcp.pendingOf_same hi.vnc.nodup hvnc (hothers i hij)
  · show Passed (s.begun ++ [x]) s.dropped (tagged http.handled)
    rw [handled_step hstep, hcalls.handles]
    exact hi.passed.begin (hx ▸ chunksOf_cmd ..)

theorem Inv.vncStep (hi : Inv nh nv s) {a : Tcp.Action h (g + 1)} {bytes : List Byte}
    {vnc : Stream h (g + 1)} {v' : Option Relay.VNCClient} (hcall : ∀ j fd len, a ≠ .call j fd len)
    (hcalm : s.mClientTcpVNCServer.SendsOwn (a, bytes))
    (hstep : s.mClientTcpVNCServer.Step (a, bytes) vnc) :
    Inv nh nv { s.put a with mClientTcpVNCServer := vnc, mpVNCClient := v' } := by
  have hvnc := hi.vnc.step hstep
  have hsending := hi.sending.step hi.vnc.nodup hcalm hstep
  rcases Tcp.pending_step hi.vnc.nodup hstep hcall with ⟨hqueues, hhold⟩ | ⟨j, m, ha, hpush, hpushing⟩
  · have hput : s.put a = s := by
      unfold State.put
      split
      · next hq => rw [hqueues] at hq; cases hq
      · rfl
    rw [hput]
    exact { hi with
      vnc := hvnc
      sending := hsending
      queued := hhold.queued.trans hi.queued
      pending := fun j => (hhold.pending j).trans (hi.pending j) }
  · obtain rfl : a = .caller j := ha
    have hput : s.put (.caller j) = { s with
        sending := Function.update s.sending j none
        sent := s.sent ++ (s.sending j).toList } := by
      unfold State.put Tcp.State.queues
      dsimp only
      rw [hpush]
    obtain ⟨x, hx⟩ : ∃ x, s.sending j = some x := by
      cases hs : s.sending j with
      | some x => exact ⟨x, rfl⟩
      | none =>
        have hpending := hi.pending j
        rw [hs] at hpending
        exact absurd hpending hpushing.busy
    rw [hput, hx]
    refine { hi with
      vnc := hvnc
      sending := hsending
      lanes := hi.lanes.finish hx
      queued := ?_
      pending := fun i => ?_ }
    · show tagged vnc.queued = (s.sent ++ [x]).map Item.wire
      rw [hpushing.queued, hi.queued, hi.pending j, hx, List.map_append]
      rfl
    · by_cases hij : i = j
      · subst hij
        show pendingOf vnc i = (Function.update s.sending i none i).toList.map Item.wire
        rw [Function.update_self, Tcp.pendingOf_free hpushing.free]
        rfl
      · show pendingOf vnc i = (Function.update s.sending j none i).toList.map Item.wire
        rw [Function.update_of_ne hij, hpushing.pending i hij]
        exact hi.pending i

theorem handles_nil {a : Tcp.Action g k} (hbusy : ¬ s.Busy a) :
    s.mClientTcpServer.server.handles a = [] := by
  cases a with
  | handler i =>
    by_contra hne
    exact hbusy (.inl hne)
  | accept | event | OnAccept | recv | main | send | sender | call | caller => rfl

/-- **Every calm step keeps the invariant.** -/
theorem Inv.step (hi : Inv nh nv s) {a : Action g h k} (hcalm : s.Calm a) (hmove : s.step a = some s') :
    Inv nh nv s' := by
  cases step_cases hmove with
  | http a bytes http hbusy hstep => exact hi.httpStep hstep (handles_nil hbusy)
  | drop b a j client task http hcalls hstep => exact hi.dropStep hcalls hstep
  | send b a j client task http hcalls hstep hfree v sm idle hidle x hx vnc hvnc =>
    exact hi.sendStep hcalls hstep hfree hidle hx hvnc
  | vnc a bytes vnc hcall hstep => exact hi.vncStep hcall hcalm hstep

end

/-! ## every run -/

/-- both servers after `Start` -/
def State.init (http : Stream g k) (vnc : Stream h (g + 1)) : State g h k where
  mClientTcpServer := http
  mClientTcpVNCServer := vnc
  mpVNCClient := none
  sending := fun _ => none
  begun := []
  sent := []
  dropped := []

def State.sentOn (s : State g h k) (c : Conn) : List CMD := (s.sent.filter (·.peer = c)).map Item.cmd

structure State.Resting (s : State g h k) : Prop where
  http : s.mClientTcpServer.server.Resting
  vnc : s.mClientTcpVNCServer.server.Resting

instance (s : State g h k) : Decidable s.Resting :=
  decidable_of_iff (s.mClientTcpServer.server.Resting ∧ s.mClientTcpVNCServer.server.Resting)
    ⟨fun ⟨h1, h2⟩ => ⟨h1, h2⟩, fun ⟨h1, h2⟩ => ⟨h1, h2⟩⟩

section
variable {nh wh sh nv wv sv : Nat} {jh jv : Nat → Int × Bool × Nat × Nat} {l : List (Action g h k)}

theorem inv_of_calm
    (hcalm : RunOk State.step State.Calm
      (State.init (Stream.init g k nh wh sh jh) (Stream.init h (g + 1) nv wv sv jv)) l)
    (hrun : run State.step
      (State.init (Stream.init g k nh wh sh jh) (Stream.init h (g + 1) nv wv sv jv)) l = some s) :
    Inv nh nv s := by
  refine inv_runOk (fun s a s' hi hok hstep => hi.step hok hstep) ?_ hcalm hrun
  exact {
    http := .init ..
    vnc := .init ..
    sending := .init ..
    lanes := .nil _
    fits := fun x hx => absurd hx List.not_mem_nil
    queued := rfl
    pending := fun _ => rfl
    passed := ⟨List.Sublist.refl _, rfl, fun _ _ => rfl⟩ }

theorem Inv.queued_on (hi : Inv nh nv s) (c : Conn) :
    bytesOf (tagged s.mClientTcpVNCServer.queued) c = (s.sentOn c).flatMap CMD.frame := by
  rw [hi.queued]
  unfold bytesOf State.sentOn
  rw [List.filter_map, List.flatMap_map, List.flatMap_map]
  rfl

theorem Inv.sized (hi : Inv nh nv s) (c : Conn) : ∀ cmd ∈ s.sentOn c, cmd.Sized := by
  intro cmd hcmd
  obtain ⟨x, hx, rfl⟩ := List.mem_map.mp hcmd
  exact (hi.fits x (hi.lanes.mem_begun (.inl (List.mem_filter.mp hx).1))).sized

theorem Inv.sent_subperm (hi : Inv nh nv s) :
    (chunksOf s.sent).Subperm (chunksOf s.begun) := by
  have hle := Multiset.coe_le.mpr (hi.lanes.subperm.filter Item.Proxies)
  exact Multiset.coe_le.mp (Multiset.map_le_map (f := Item.entry) hle)

theorem Inv.handled_subperm (hi : Inv nh nv s) :
    (tagged s.mClientTcpServer.handled).Subperm (tagged s.mClientTcpServer.pushed) := by
  have hle : (s.mClientTcpServer.handled : Multiset (Msg × List Byte)) ≤ s.mClientTcpServer.pushed := by
    rw [hi.http.carried.chunks]
    exact Multiset.le_add_right _ _
  exact Multiset.coe_le.mp (Multiset.map_le_map (f := fun e : Msg × List Byte => (e.1.conn, e.2)) hle)

/-- the parameters fit `CMD.param`, with the NUL that `RecvCommand` puts behind them -/
def State.FitsParam (s : State g h k) (c : Conn) : Prop :=
  ∀ cmd ∈ s.sentOn c, cmd.param.length < MAX_PARAM_LEN

/-- the commands that `RecvCommand` returns from the socket of a connection, in whatever segments it
gives the bytes, are the beginning of those sent on the connection -/
def State.ReceivedInOrder (s : State g h k) : Prop :=
  ∀ c, s.FitsParam c → ∀ segs : Segments, (∀ seg ∈ segs, seg ≠ []) →
    segs.flatten = bytesOf s.mClientTcpVNCServer.written c → ∀ n rs rest,
      RecvCommands n segs = some (rs, rest) → (∀ r ∈ rs, r.bFlag = true) →
        rs.map Recved.cmd <+: s.sentOn c

theorem Inv.receivedInOrder (hi : Inv nh nv s) : s.ReceivedInOrder := by
  intro c _ segs hne hs n rs rest hrecv hflag
  have hwritten : segs.flatten <+: (s.sentOn c).flatMap CMD.frame := by
    rw [hs, ← hi.queued_on]
    exact hi.sending.le c
  exact RecvCommands_begins (hi.sized c) hrecv hflag hne hwritten

/-- they are all of those, where the connection is open and no Message of it was given up -/
def State.ReceivedAll (s : State g h k) : Prop :=
  ∀ c, s.FitsParam c → s.mClientTcpVNCServer.Live c → c ∉ s.mClientTcpVNCServer.abandoned →
    ∀ segs : Segments, (∀ seg ∈ segs, seg ≠ []) →
      segs.flatten = bytesOf s.mClientTcpVNCServer.written c →
        RecvCommands (s.sentOn c).length segs
          = some ((s.sentOn c).map fun cmd => ⟨true, cmd, cmd.writes⟩, [])

/-- **What TcpProxyClient receives**, for any number of handler threads of both servers and every
interleaving: the commands that `RecvCommand` returns are the beginning of those sent on the connection,
and the chunks in the commands sent are chunks of the handle list, each at most once. -/
theorem forwarded_sound
    (hcalm : RunOk State.step State.Calm
      (State.init (Stream.init g k nh wh sh jh) (Stream.init h (g + 1) nv wv sv jv)) l)
    (hrun : run State.step
      (State.init (Stream.init g k nh wh sh jh) (Stream.init h (g + 1) nv wv sv jv)) l = some s) :
    s.ReceivedInOrder ∧ (chunksOf s.sent).Subperm (tagged s.mClientTcpServer.pushed) := by
  have hi := inv_of_calm hcalm hrun
  refine ⟨hi.receivedInOrder, ?_⟩
  exact (hi.sent_subperm.trans hi.passed.sublist.subperm).trans hi.handled_subperm

/-! ### one request in two chunks -/

abbrev start : State 1 1 1 :=
  State.init (Stream.init 1 1 3 1 0 fun _ => (7, true, 7, 7)) (Stream.init 1 2 3 1 0 fun _ => (7, true, 7, 7))

def plain {α : Type} (f : α → List Byte → Action 1 1 1) (l : List α) : List (Action 1 1 1) :=
  l.map fun a => f a []

/-- TcpProxyClient connects as 3, a browser as 5 -/
def accepts : List (Action 1 1 1) :=
  plain .vnc [.accept 3, .main, .main, .main, .OnAccept true, .main] ++
    plain .http [.accept 5, .main, .main, .main, .OnAccept true, .main]

/-- a chunk comes from the browser and is put in the send list for TcpProxyClient -/
def chunkOf (i : Fin 1) (bytes : List Byte) : List (Action 1 1 1) :=
  plain .http [.event 5 false, .main] ++ [.http (.recv (.data bytes.length)) bytes] ++
    plain .http [.main, .main, .main, .main, .handler i] ++ [.OnRecvMessage i true] ++
    plain .vnc [.caller i.castSucc, .caller i.castSucc, .caller i.castSucc] ++
    plain .http [.handler i, .handler i]

def write (n : Nat) : List (Action 1 1 1) :=
  plain .vnc [.sender, .send (.sent 4), .send (.sent (n - 4)), .sender, .sender, .sender, .sender]

def forward5 (i : Fin 1) : List (Action 1 1 1) :=
  accepts ++ chunkOf i [71, 69] ++ chunkOf i [84] ++ write 19 ++ plain .vnc [.sender, .send (.sent 4)]

def forwardAll5 (i : Fin 1) : List (Action 1 1 1) :=
  accepts ++ chunkOf i [71, 69] ++ chunkOf i [84] ++ write 19 ++ write 18

set_option maxRecDepth 20000 in
/-- the first command has been written, and four bytes of the second -/
theorem forwarded_sound_part :
    ∃ s : State 1 1 1, run State.step start (forward5 0) = some s ∧ (s.sentOn (3, 1)).length = 2 ∧
      (bytesOf s.mClientTcpVNCServer.written (3, 1)).length = 23 ∧ s.ReceivedInOrder ∧
      (chunksOf s.sent).Subperm (tagged s.mClientTcpServer.pushed) := by
  obtain ⟨s, hs, hsent, hwritten, hcalm⟩ : ∃ s : State 1 1 1, run State.step start (forward5 0) = some s ∧
      (s.sentOn (3, 1)).length = 2 ∧ (bytesOf s.mClientTcpVNCServer.written (3, 1)).length = 23 ∧
      RunOk State.step State.Calm start (forward5 0) := by
    decide
  exact ⟨s, hs, hsent, hwritten, forwarded_sound hcalm hs⟩

/-! ## at rest -/

theorem Inv.sending_none (hi : Inv nh nv s) (hrest : s.Resting) (j : Fin (g + 1)) : s.sending j = none :=
  hi.sending_free (hrest.vnc.caller j)

theorem Inv.handled_perm (hi : Inv nh nv s) (hrest : s.Resting) :
    s.mClientTcpServer.handled.Perm s.mClientTcpServer.pushed :=
  (hi.http.sound.settled hi.http.carried hi.http.kept hrest.http).handled

theorem Inv.written_all (hi : Inv nh nv s) (hrest : s.Resting) {c : Conn}
    (hlive : s.mClientTcpVNCServer.Live c) (habandoned : c ∉ s.mClientTcpVNCServer.abandoned) :
    bytesOf s.mClientTcpVNCServer.written c = (s.sentOn c).flatMap CMD.frame := by
  have hwhole := hi.sending.whole c hlive habandoned
  have hunsent : s.mClientTcpVNCServer.unsent = [] := by
    unfold Stream.unsent Tcp.unsent
    rw [hrest.vnc.sender, hrest.vnc.sendList]
    rfl
  rw [hunsent, hi.queued_on] at hwhole
  exact (List.append_nil _).symm.trans hwhole

/-- where nothing was dropped all chunks were passed on, in the order of `OnRecvMessage` -/
theorem Passed.all {begun : List (Item g)} {dropped : List (Conn × ITask)}
    {handled : List (Conn × List Byte)} (hi : Passed begun dropped handled)
    (hnone : droppedChunks dropped = []) : chunksOf begun = handled := by
  have hlength := hi.length
  rw [hnone] at hlength
  exact hi.sublist.eq_of_length hlength

/-- **All of it**: when both servers have nothing left to do, TcpProxyClient reads from the socket of an
open connection of which no Message was given up just the commands sent on it, and when no task was
dropped the chunks in the commands sent are those of the handle list. -/
theorem forwarded_all
    (hcalm : RunOk State.step State.Calm
      (State.init (Stream.init g k nh wh sh jh) (Stream.init h (g + 1) nv wv sv jv)) l)
    (hrun : run State.step
      (State.init (Stream.init g k nh wh sh jh) (Stream.init h (g + 1) nv wv sv jv)) l = some s)
    (hrest : s.Resting) :
    s.ReceivedAll ∧ (droppedChunks s.dropped = [] →
      (chunksOf s.sent).Perm (tagged s.mClientTcpServer.pushed)) := by
  have hi := inv_of_calm hcalm hrun
  refine ⟨fun c _ hlive habandoned segs hne hs => ?_, fun hnone => ?_⟩
  · obtain ⟨rest, hrecv, hrest', hne'⟩ := RecvCommands_frames (s.sentOn c) (hi.sized c) hne
      (hs.trans (hi.written_all hrest hlive habandoned))
    rw [hrecv, segments_nil hne' hrest']
  · have hsent : (chunksOf s.sent).Perm (chunksOf s.begun) :=
      ((hi.lanes.perm (hi.sending_none hrest)).filter _).map _
    rw [hi.passed.all hnone] at hsent
    exact hsent.trans ((hi.handled_perm hrest).map _)

set_option maxRecDepth 20000 in
theorem forwarded_all_two :
    ∃ s : State 1 1 1, run State.step start (forwardAll5 0) = some s ∧ s.Resting ∧
      (s.sentOn (3, 1)).length = 2 ∧ s.ReceivedAll ∧
      (chunksOf s.sent).Perm (tagged s.mClientTcpServer.pushed) := by
  obtain ⟨s, hs, hrest, hsent, hnone, hcalm⟩ : ∃ s : State 1 1 1,
      run State.step start (forwardAll5 0) = some s ∧ s.Resting ∧ (s.sentOn (3, 1)).length = 2 ∧
        droppedChunks s.dropped = [] ∧ RunOk State.step State.Calm start (forwardAll5 0) := by
    decide
  have hall := forwarded_all hcalm hs hrest
  exact ⟨s, hs, hrest, hsent, hall.1, hall.2 hnone⟩

end

/-! ## one handler thread -/

section
variable {s : State 1 h k} {nh wh sh nv wv sv : Nat} {jh jv : Nat → Int × Bool × Nat × Nat}
  {l : List (Action 1 h k)}

theorem serial_step {s' : State 1 h k} {a : Action 1 h k} (hi : Inv nh nv s)
    (hserial : s.mClientTcpServer.Serial) (hmove : s.step a = some s') : s'.mClientTcpServer.Serial := by
  rcases http_of_step hmove with hsame | ⟨b, hstep⟩
  · exact hsame ▸ hserial
  · exact hserial.step hi.http.carried hi.http.sound.nodup hstep

theorem Inv.thread_zero (hi : Inv nh nv s) : ∀ x ∈ s.begun, x.Proxies = true → x.thread = 0 := by
  intro x hx hproxies
  have hne := (hi.fits x hx).proxies.mp hproxies
  by_contra hzero
  exact hne (Fin.eq_one_of_ne_zero x.thread hzero)

theorem bytesOf_mono {l l' : List (Conn × List Byte)} (h : l <+: l') (c : Conn) :
    bytesOf l c <+: bytesOf l' c := by
  obtain ⟨t, rfl⟩ := h
  rw [Tcp.bytesOf_append]
  exact List.prefix_append ..

theorem inv_serial
    (hcalm : RunOk State.step State.Calm
      (State.init (Stream.init 1 k nh wh sh jh) (Stream.init h 2 nv wv sv jv)) l)
    (hrun : run State.step
      (State.init (Stream.init 1 k nh wh sh jh) (Stream.init h 2 nv wv sv jv)) l = some s) :
    Inv nh nv s ∧ s.mClientTcpServer.Serial :=
  inv_runOk (I := fun s => Inv nh nv s ∧ s.mClientTcpServer.Serial)
    (fun _ _ _ hi hok hstep => ⟨hi.1.step hok hstep, serial_step hi.1 hi.2 hstep⟩)
    ⟨inv_of_calm (l := []) trivial rfl, .init ..⟩ hcalm hrun

theorem Inv.sent_begins (hi : Inv nh nv s) (hserial : s.mClientTcpServer.Serial) {b : Conn}
    (hrefused : b ∉ s.mClientTcpServer.refused) (hdropped : b ∉ droppedChunks s.dropped) :
    bytesOf (chunksOf s.sent) b <+: bytesOf s.mClientTcpServer.received b := by
  have hsent : chunksOf s.sent <+: chunksOf s.begun :=
    (hi.lanes.isPrefix hi.thread_zero).map Item.entry
  calc bytesOf (chunksOf s.sent) b <+: bytesOf (chunksOf s.begun) b := bytesOf_mono hsent b
    _ = bytesOf (tagged s.mClientTcpServer.handled) b := hi.passed.bytes b hdropped
    _ <+: bytesOf (tagged s.mClientTcpServer.pushed) b := hserial.isPrefix b
    _ <+: bytesOf s.mClientTcpServer.received b := ⟨_, (hi.http.kept b hrefused).symm⟩

theorem Inv.sent_all (hi : Inv nh nv s) (hserial : s.mClientTcpServer.Serial) (hrest : s.Resting)
    {b : Conn} (hrefused : b ∉ s.mClientTcpServer.refused) (hdropped : b ∉ droppedChunks s.dropped) :
    bytesOf (chunksOf s.sent) b = bytesOf s.mClientTcpServer.received b := by
  have hsent : chunksOf s.sent = chunksOf s.begun := by
    have hordered := hi.lanes.ordered hi.thread_zero
    rw [hi.sending_none hrest] at hordered
    exact congrArg (List.map Item.entry) ((List.append_nil _).symm.trans hordered)
  have hsettled := hi.http.sound.settled hi.http.carried hi.http.kept hrest.http
  have hhandled : s.mClientTcpServer.handled = s.mClientTcpServer.pushed := by
    rw [Stream.Serial, Tcp.State.waiting_eq, hrest.http.handler, hrest.http.handleList] at hserial
    exact (List.append_nil _).symm.trans hserial
  rw [hsent, hi.passed.bytes b hdropped, hhandled, hsettled.received b hrefused]

/-- **The requests in order**, with one handler thread of the HTTP server: for a browser of which no
chunk was dropped, the parameters of the commands sent for it are the beginning of what it has sent, and
all of it when both servers have nothing left to do. -/
theorem forwarded_in_order
    (hcalm : RunOk State.step State.Calm
      (State.init (Stream.init 1 k nh wh sh jh) (Stream.init h 2 nv wv sv jv)) l)
    (hrun : run State.step
      (State.init (Stream.init 1 k nh wh sh jh) (Stream.init h 2 nv wv sv jv)) l = some s)
    {b : Conn} (hrefused : b ∉ s.mClientTcpServer.refused) (hdropped : b ∉ droppedChunks s.dropped) :
    bytesOf (chunksOf s.sent) b <+: bytesOf s.mClientTcpServer.received b ∧
      (s.Resting → bytesOf (chunksOf s.sent) b = bytesOf s.mClientTcpServer.received b) := by
  obtain ⟨hi, hserial⟩ := inv_serial hcalm hrun
  exact ⟨hi.sent_begins hserial hrefused hdropped,
    fun hrest => hi.sent_all hserial hrest hrefused hdropped⟩

set_option maxRecDepth 20000 in
theorem forwarded_in_order_two :
    ∃ s : State 1 1 1, run State.step start (forwardAll5 0) = some s ∧
      bytesOf s.mClientTcpServer.received (5, 1) = [71, 69, 84] ∧
      bytesOf (chunksOf s.sent) (5, 1) = bytesOf s.mClientTcpServer.received (5, 1) := by
  obtain ⟨s, hs, hreceived, hrest, hrefused, hdropped, hcalm⟩ : ∃ s : State 1 1 1,
      run State.step start (forwardAll5 0) = some s ∧
        bytesOf s.mClientTcpServer.received (5, 1) = [71, 69, 84] ∧ s.Resting ∧
        (5, 1) ∉ s.mClientTcpServer.refused ∧ (5, 1) ∉ droppedChunks s.dropped ∧
        RunOk State.step State.Calm start (forwardAll5 0) := by
    decide
  exact ⟨s, hs, hreceived, (forwarded_in_order hcalm hs hrefused hdropped).2 hrest⟩

end

end VncProxy.Forward
