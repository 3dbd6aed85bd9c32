import VncProxy.Lib.Workers
import VncProxy.Proxy.System

/-!
# What is queued to VNC for one client

* `Front.stream`          the chunks of one connection, its handlers and what they have queued, as
                          workers on one queue;
* `stream_step`           a move of the clients is a step of these workers, or none;
* `queued_in_order`       the parameters queued for a connection are a prefix of what it sent, if a
                          handler queues only in its turn (`State.InTurn`);
* `disconnect_last`       the Disconnect of a connection is its last command, if no chunk of it is
                          left when it is queued (`State.Settled`).
-/

namespace VncProxy.Proxy

/-- the command `SendClient2VNC` queues -/
def Frame.cmd (x : Frame) : CMD := x.task.cmd x.seq (BitVec.ofNat 32 x.client.fd)

/-- the chunk a frame carries for the connection `c` -/
def Frame.chunk (c : Nat) (x : Frame) : Option Chunk :=
  if x.client.conn = c then
    match x.task with
    | .ProxyClientTask mpBuffer => some mpBuffer
    | .ProxyClientDisconnectTask => none
  else none

variable {n : Nat}

namespace Front

/-- the commands queued to VNC for a connection -/
def commands (f : Front n) (c : Nat) : List CMD :=
  (f.queued.filter fun x => x.client.conn = c).map Frame.cmd

/-! ## the workers on one connection -/

def stream (f : Front n) (c : Nat) : Workers Chunk n where
  input := (f.conn c).received
  lost := (f.conn c).lost
  waiting := (f.mHandleMessageList.filter fun m => m.conn = c).map Item.seq
  held := fun i => ((f.handler i).item.filter fun m => m.conn = c).map Item.seq
  output := f.queued.filterMap (Frame.chunk c)

theorem stream_congr {f g : Front n} {c : Nat} (hreceived : (g.conn c).received = (f.conn c).received)
    (hlost : (g.conn c).lost = (f.conn c).lost)
    (hlist : g.mHandleMessageList.filter (fun m => m.conn = c)
      = f.mHandleMessageList.filter fun m => m.conn = c)
    (hhandler : ∀ i, ((g.handler i).item.filter fun m => m.conn = c)
      = (f.handler i).item.filter fun m => m.conn = c)
    (hqueued : g.queued.filterMap (Frame.chunk c) = f.queued.filterMap (Frame.chunk c)) :
    g.stream c = f.stream c := by
  unfold stream
  rw [hreceived, hlost, hlist, hqueued]
  simp only [hhandler]

/-- the Messages are the chunks they are numbered after -/
def Numbered (f : Front n) : Prop :=
  ∀ m ∈ f.pending, (f.conn m.conn).received[m.seq]? = some m.chunk

theorem received_setConn {f g : Front n} {d : Nat} {x : Conn}
    (hg : g.conn = Function.update f.conn d x) (hx : (f.conn d).received <+: x.received) (c : Nat) :
    (f.conn c).received <+: (g.conn c).received := by
  rw [hg]
  by_cases hc : c = d
  · subst hc
    rwa [Function.update_self]
  · rw [Function.update_of_ne hc]

theorem received_step {f f' : Front n} {mv : Move n} (h : f.step mv = some f') {c : Nat}
    (hc : c < f.count) : (f.conn c).received <+: (f'.conn c).received := by
  cases mv with
  | accept fd =>
    obtain ⟨_, _, rfl⟩ := accept_eq h
    rw [show (f.opened fd).conn c = f.conn c from f.setConn_other _ (Nat.ne_of_lt hc)]
  | recv fd chunk =>
    obtain ⟨d, _, _, _, rfl | rfl⟩ := recv_eq h
    · exact received_setConn (by rfl) (List.prefix_append _ [chunk]) c
    · exact received_setConn (by rfl) (List.prefix_append _ [chunk]) c
  | disconnect fd =>
    obtain ⟨_, _, _, _, _, _, rfl⟩ := disconnect_eq h
    exact received_setConn (by rfl) (by rfl) c
  | main r =>
    obtain ⟨_, _, _, ⟨_, _, rfl⟩ | ⟨_, _, rfl⟩⟩ := mainStep_eq h
    · exact List.prefix_rfl
    · exact received_setConn (by rfl) (by rfl) c
  | pop i =>
    obtain ⟨_, _, _, _, rfl⟩ := pop_eq h
    exact List.prefix_rfl
  | find i =>
    obtain ⟨_, _, _, ⟨_, _, rfl⟩ | ⟨_, rfl⟩⟩ := find_eq h
    · exact List.prefix_rfl
    · exact received_setConn (by rfl) (by rfl) c
  | send i r =>
    obtain ⟨_, _, _, _, ⟨_, _, rfl⟩ | ⟨_, rfl⟩ | ⟨_, _, rfl⟩⟩ := send_eq h
    · exact List.prefix_rfl
    · exact received_setConn (by rfl) (by rfl) c
    · exact List.prefix_rfl
  | close fd =>
    obtain ⟨_, _, rfl⟩ := close_eq h
    exact List.prefix_rfl

theorem Numbered.init (n mHandleSize : Nat) : (Front.init n mHandleSize).Numbered := by
  intro m hm
  have h := (Inv.init n mHandleSize).pending m hm
  exact absurd h (by simp [Front.init])

theorem Numbered.step {f f' : Front n} {mv : Move n} (hf : f.Inv) (hn : f.Numbered)
    (h : f.step mv = some f') : f'.Numbered := by
  intro m hm
  rcases mem_pending_step h hm with hm | ⟨fd, c, chunk, _, _, rfl, rfl⟩
  · have hlt := (hf.holder _ _ (hf.pending m hm)).2
    obtain ⟨l, hl⟩ := received_step h hlt
    have hseq := (List.getElem?_eq_some_iff.mp (hn m hm)).1
    rw [← hl, List.getElem?_append_left hseq]
    exact hn m hm
  · show ((f.pushed fd c chunk).conn c).received[(f.conn c).received.length]? = some chunk
    rw [show (f.pushed fd c chunk).conn c = _ from f.setConn_self ..]
    exact List.getElem?_concat_length

/-! ## moves are steps of the workers -/

/-- the handler's chunk is the first one taken of its connection, and none was lost -/
def InTurn (f : Front n) (i : Fin n) (m : Item) : Prop :=
  (f.conn m.conn).lost = false ∧
    ∀ j, j ≠ i → ∀ m' ∈ (f.handler j).item, m'.conn = m.conn → m.seq < m'.seq

instance (f : Front n) (i : Fin n) (m : Item) : Decidable (f.InTurn i m) :=
  inferInstanceAs (Decidable (_ ∧ ∀ j, j ≠ i → ∀ m' ∈ (f.handler j).item, _ → _))

theorem InTurn.stream {f : Front n} {i : Fin n} {m : Item} (h : f.InTurn i m) :
    (f.stream m.conn).InTurn i m.seq := by
  refine ⟨h.1, fun j hj k hk => ?_⟩
  obtain ⟨m', hm', rfl⟩ := Option.map_eq_some_iff.mp hk
  obtain ⟨h1, h2⟩ := Option.filter_eq_some_iff.mp hm'
  exact h.2 j hj m' h1 (of_decide_eq_true h2)

theorem stream_goto_other {f g : Front n} (i : Fin n) (pc : HandlerPc) {c : Nat}
    (hconn : (g.conn c).received = (f.conn c).received ∧ (g.conn c).lost = (f.conn c).lost)
    (hlist : g.mHandleMessageList.filter (fun m => m.conn = c)
      = f.mHandleMessageList.filter fun m => m.conn = c)
    (hhandler : g.handler = (f.goto i pc).handler)
    (hi : (pc.item.filter fun m => m.conn = c) = (f.handler i).item.filter fun m => m.conn = c)
    (hqueued : g.queued.filterMap (Frame.chunk c) = f.queued.filterMap (Frame.chunk c)) :
    g.stream c = f.stream c := by
  refine stream_congr hconn.1 hconn.2 hlist (fun j => ?_) hqueued
  rw [hhandler]
  by_cases hji : j = i
  · subst hji
    rw [goto_self, hi]
  · rw [goto_other _ _ hji]

theorem held_goto (f : Front n) (i : Fin n) (pc : HandlerPc) (c : Nat) :
    (fun j => (((f.goto i pc).handler j).item.filter fun m => m.conn = c).map Item.seq)
      = Function.update (f.stream c).held i ((pc.item.filter fun m => m.conn = c).map Item.seq) := by
  funext j
  by_cases hji : j = i
  · subst hji
    rw [goto_self, Function.update_self]
  · rw [goto_other _ _ hji, Function.update_of_ne hji]
    rfl

theorem filter_conn_self (m : Item) : (some m).filter (fun x => x.conn = m.conn) = some m := by
  simp

theorem filter_conn_other {m : Item} {c : Nat} (h : m.conn ≠ c) :
    (some m).filter (fun x => x.conn = c) = none := by
  simp [h]

theorem stream_drop (f : Front n) {i : Fin n} {m : Item} (hi : (f.handler i).item = some m)
    (c : Nat) : (f.drop i m).stream c = f.stream c ∨
      Workers.Step (f.stream c) ((f.drop i m).stream c) := by
  by_cases hc : m.conn = c
  · right
    subst hc
    have he : (f.drop i m).stream m.conn = { f.stream m.conn with
        held := Function.update (f.stream m.conn).held i none, lost := true } := by
      unfold stream
      rw [show (f.drop i m).conn m.conn = _ from f.setConn_self ..]
      congr 1
      exact held_goto f i .popFront m.conn
    rw [he]
    exact .drop _ i
  · left
    refine stream_goto_other i .popFront ?_ rfl rfl ?_ rfl
    · rw [show (f.drop i m).conn c = f.conn c from f.setConn_other _ (Ne.symm hc)]
      exact ⟨rfl, rfl⟩
    · rw [hi, filter_conn_other hc]
      rfl

theorem stream_forwarded {f : Front n} (hn : f.Numbered) {i : Fin n} {m : Item} {client : Client}
    {pc : SendPc} (hi : f.handler i = .send m client pc) (hclient : client.conn = m.conn)
    (hturn : f.InTurn i m) (seq : CInt) (c : Nat) :
    (f.forwarded i m client seq).stream c = f.stream c ∨
      Workers.Step (f.stream c) ((f.forwarded i m client seq).stream c) := by
  have hitem : (f.handler i).item = some m := by rw [hi]; rfl
  have hqueued : (f.forwarded i m client seq).queued.filterMap (Frame.chunk c)
      = f.queued.filterMap (Frame.chunk c) ++ if m.conn = c then [m.chunk] else [] := by
    show List.filterMap _ (f.queued ++ [_]) = _
    rw [List.filterMap_append]
    congr 1
    rw [List.filterMap_cons, List.filterMap_nil]
    unfold Frame.chunk
    dsimp only
    rw [hclient]
    by_cases hc : m.conn = c
    · rw [if_pos hc, if_pos hc]
    · rw [if_neg hc, if_neg hc]
  by_cases hc : m.conn = c
  · right
    subst hc
    have he : (f.forwarded i m client seq).stream m.conn = { f.stream m.conn with
        held := Function.update (f.stream m.conn).held i none
        output := (f.stream m.conn).output ++ [m.chunk] } := by
      unfold stream
      rw [hqueued, if_pos rfl]
      congr 1
      exact held_goto f i .popFront m.conn
    rw [he]
    refine .give _ i m.seq m.chunk ?_ ?_ hturn.stream
    · show ((f.handler i).item.filter _).map Item.seq = _
      rw [hitem, filter_conn_self]
      rfl
    · exact hn m (mem_pending.mpr (Or.inr ⟨i, hitem⟩))
  · left
    refine stream_goto_other i .popFront ⟨rfl, rfl⟩ rfl rfl ?_ ?_
    · rw [hitem, filter_conn_other hc]
      rfl
    · rw [hqueued, if_neg hc, List.append_nil]

theorem stream_popped {f : Front n} {i : Fin n} {m : Item} {l : List Item}
    (hi : f.handler i = .popFront) (hl : f.mHandleMessageList = m :: l) (c : Nat) :
    (f.popped i m l).stream c = f.stream c ∨
      Workers.Step (f.stream c) ((f.popped i m l).stream c) := by
  by_cases hc : m.conn = c
  · right
    subst hc
    have he : (f.popped i m l).stream m.conn = { f.stream m.conn with
        waiting := (l.filter fun x => x.conn = m.conn).map Item.seq
        held := Function.update (f.stream m.conn).held i (some m.seq) } := by
      unfold stream
      congr 1
      refine (held_goto f i (.find m) m.conn).trans ?_
      rw [show (HandlerPc.find m).item = some m from rfl, filter_conn_self]
      rfl
    rw [he]
    refine .take _ i m.seq _ ?_ ?_
    · show ((f.handler i).item.filter _).map Item.seq = none
      rw [hi]
      rfl
    · show (f.mHandleMessageList.filter _).map Item.seq = _
      rw [hl, List.filter_cons_of_pos (by simp)]
      rfl
  · left
    refine stream_goto_other i (.find m) ⟨rfl, rfl⟩ ?_ rfl ?_ rfl
    · show l.filter _ = _
      rw [hl, List.filter_cons_of_neg (by simpa using hc)]
    · rw [hi, show (HandlerPc.find m).item = some m from rfl, filter_conn_other hc]
      rfl

theorem stream_received (f : Front n) (fd d : Nat) (chunk : Chunk) (c : Nat) {g : Front n}
    (hg : g = f.refused d chunk ∨ g = f.pushed fd d chunk) :
    g.stream c = f.stream c ∨ Workers.Step (f.stream c) (g.stream c) := by
  by_cases hc : c = d
  · right
    subst hc
    rcases hg with rfl | rfl
    · have he : (f.refused c chunk).stream c = { f.stream c with
          input := (f.stream c).input ++ [chunk], lost := true } := by
        unfold stream
        rw [show (f.refused c chunk).conn c = _ from f.setConn_self ..]
        rfl
      rw [he]
      exact .lose _ chunk
    · have he : (f.pushed fd c chunk).stream c = { f.stream c with
          input := (f.stream c).input ++ [chunk]
          waiting := (f.stream c).waiting ++ [(f.stream c).input.length] } := by
        unfold stream
        rw [show (f.pushed fd c chunk).conn c = _ from f.setConn_self ..]
        congr 1
        show ((f.mHandleMessageList ++ [_]).filter _).map Item.seq = _
        rw [List.filter_append, List.map_append, List.filter_cons_of_pos (by simp)]
        rfl
      rw [he]
      exact .put _ chunk
  · left
    rcases hg with rfl | rfl
    · refine stream_congr ?_ ?_ rfl (fun _ => rfl) rfl <;>
        rw [show (f.refused d chunk).conn c = f.conn c from f.setConn_other _ hc]
    · refine stream_congr ?_ ?_ ?_ (fun _ => rfl) rfl
      · rw [show (f.pushed fd d chunk).conn c = f.conn c from f.setConn_other _ hc]
      · rw [show (f.pushed fd d chunk).conn c = f.conn c from f.setConn_other _ hc]
      · show (f.mHandleMessageList ++ [_]).filter _ = _
        rw [List.filter_append, List.filter_cons_of_neg (by simpa using Ne.symm hc)]
        exact List.append_nil _

theorem stream_opened {f : Front n} (hf : f.Inv) (fd c : Nat) :
    (f.opened fd).stream c = f.stream c ∨ (f.opened fd).stream c = Workers.new := by
  by_cases hc : c = f.count
  · right
    subst hc
    have hpending : ∀ m ∈ f.pending, m.conn ≠ f.count := fun m hm =>
      Nat.ne_of_lt (hf.holder _ _ (hf.pending m hm)).2
    unfold stream Workers.new
    rw [show (f.opened fd).conn f.count = _ from f.setConn_self ..]
    congr 1
    · show (f.mHandleMessageList.filter _).map Item.seq = []
      rw [List.filter_eq_nil_iff.mpr, List.map_nil]
      intro m hm
      exact decide_eq_true_iff.not.mpr (hpending m (mem_pending.mpr (Or.inl hm)))
    · funext i
      show ((f.handler i).item.filter _).map Item.seq = none
      cases hi : (f.handler i).item with
      | none => rfl
      | some m =>
        rw [filter_conn_other (hpending m (mem_pending.mpr (Or.inr ⟨i, hi⟩)))]
        rfl
    · show f.queued.filterMap _ = []
      rw [List.filterMap_eq_nil_iff]
      intro x hx
      exact if_neg (Nat.ne_of_lt (hf.queued x hx).1)
  · left
    refine stream_congr ?_ ?_ rfl (fun _ => rfl) rfl <;>
      rw [show (f.opened fd).conn c = f.conn c from f.setConn_other _ hc]

/-- the condition on a move -/
def Move.InTurn (f : Front n) : Move n → Prop
  | .send i (.ret (some _)) => ∀ m client pc, f.handler i = .send m client pc → f.InTurn i m
  | _ => True

/-- **For the chunks of a connection, a move made in turn is a step of the workers, or none.** -/
theorem stream_step {f f' : Front n} {mv : Move n} (hf : f.Inv) (hn : f.Numbered)
    (hturn : mv.InTurn f) (h : f.step mv = some f') (c : Nat) :
    f'.stream c = f.stream c ∨ f'.stream c = Workers.new ∨
      Workers.Step (f.stream c) (f'.stream c) := by
  -- moves that do not touch what `stream` reads of a connection
  have hset : ∀ {g : Front n} {d : Nat} {x : Conn}, g.conn = Function.update f.conn d x →
      x.received = (f.conn d).received → x.lost = (f.conn d).lost →
      (g.conn c).received = (f.conn c).received ∧ (g.conn c).lost = (f.conn c).lost := by
    intro g d x hg h1 h2
    rw [hg]
    by_cases hc : c = d
    · subst hc
      rw [Function.update_self]
      exact ⟨h1, h2⟩
    · rw [Function.update_of_ne hc]
      exact ⟨rfl, rfl⟩
  cases mv with
  | accept fd =>
    obtain ⟨_, _, rfl⟩ := accept_eq h
    exact (stream_opened hf fd c).imp id Or.inl
  | recv fd chunk =>
    obtain ⟨d, _, _, _, hg⟩ := recv_eq h
    exact (stream_received f fd d chunk c hg).imp id Or.inr
  | disconnect fd =>
    obtain ⟨d, client, _, _, _, _, rfl⟩ := disconnect_eq h
    obtain ⟨h1, h2⟩ := hset (g := f.leaving d client) (by rfl) (by rfl) (by rfl)
    exact Or.inl (stream_congr h1 h2 rfl (fun _ => rfl) rfl)
  | main r =>
    obtain ⟨client, pc, _, ⟨_, _, rfl⟩ | ⟨queued, _, rfl⟩⟩ := mainStep_eq h
    · exact Or.inl rfl
    · obtain ⟨h1, h2⟩ := hset (g := f.left client queued) (by rfl) (by rfl) (by rfl)
      refine Or.inl (stream_congr h1 h2 rfl (fun _ => rfl) ?_)
      show List.filterMap _ (f.queued ++ _) = _
      rw [List.filterMap_append]
      refine (congrArg _ (List.filterMap_eq_nil_iff.mpr fun x hx => ?_)).trans (List.append_nil _)
      obtain ⟨seq, _, rfl⟩ := Option.map_eq_some_iff.mp (Option.mem_toList.mp hx)
      unfold Frame.chunk
      split <;> rfl
  | pop i =>
    obtain ⟨m, l, hi, hl, rfl⟩ := pop_eq h
    exact (stream_popped hi hl c).imp id Or.inr
  | find i =>
    obtain ⟨m, hi, _, ⟨client, _, rfl⟩ | ⟨_, rfl⟩⟩ := find_eq h
    · exact Or.inl (stream_goto_other i (.send m client .check) ⟨rfl, rfl⟩ rfl rfl
        (by rw [hi]; rfl) rfl)
    · exact (stream_drop f (by rw [hi]; rfl) c).imp id Or.inr
  | send i r =>
    obtain ⟨m, client, pc, hi, ⟨pc', _, rfl⟩ | ⟨_, rfl⟩ | ⟨seq, rfl, rfl⟩⟩ := send_eq h
    · exact Or.inl (stream_goto_other i (.send m client pc') ⟨rfl, rfl⟩ rfl rfl
        (by rw [hi]; rfl) rfl)
    · exact (stream_drop f (by rw [hi]; rfl) c).imp id Or.inr
    · have hclient := congrArg Client.conn (hf.send hi).1
      exact (stream_forwarded hn hi hclient (hturn m client pc hi) seq c).imp id Or.inr
  | close fd =>
    obtain ⟨_, _, rfl⟩ := close_eq h
    exact Or.inl rfl

theorem commands_append (f g : Front n) (l : List Frame) (h : g.queued = f.queued ++ l) (c : Nat) :
    g.commands c = f.commands c ++ (l.filter fun x => x.client.conn = c).map Frame.cmd := by
  unfold commands
  rw [h, List.filter_append, List.map_append]

theorem proxy_params (l : List Frame) (c : Nat) :
    (((l.filter fun x => x.client.conn = c).map Frame.cmd).filter fun cmd =>
        cmd.header.cmdt = .CommandTypeProxy).flatMap CMD.param
      = (l.filterMap (Frame.chunk c)).flatMap Chunk.bytes := by
  induction l with
  | nil => rfl
  | cons x l ih =>
    by_cases hc : x.client.conn = c
    · rw [List.filter_cons_of_pos (by simpa using hc), List.map_cons]
      cases ht : x.task with
      | ProxyClientTask mpBuffer =>
        have hchunk : x.chunk c = some mpBuffer := by
          unfold Frame.chunk
          rw [if_pos hc, ht]
        have hcmd : x.cmd = (ITask.ProxyClientTask mpBuffer).cmd x.seq
            (BitVec.ofNat 32 x.client.fd) := by
          unfold Frame.cmd
          rw [ht]
        rw [List.filterMap_cons_some hchunk, List.flatMap_cons, hcmd,
          List.filter_cons_of_pos (by rfl), List.flatMap_cons, ih]
        rfl
      | ProxyClientDisconnectTask =>
        have hchunk : x.chunk c = none := by
          unfold Frame.chunk
          rw [if_pos hc, ht]
        have hcmd : x.cmd = ITask.ProxyClientDisconnectTask.cmd x.seq
            (BitVec.ofNat 32 x.client.fd) := by
          unfold Frame.cmd
          rw [ht]
        rw [List.filterMap_cons_none hchunk, hcmd, List.filter_cons_of_neg (by
          show ¬ decide (CMDT.CommandTypeProxyDisconnect = CMDT.CommandTypeProxy) = true
          decide), ih]
    · have hchunk : x.chunk c = none := if_neg hc
      rw [List.filter_cons_of_neg (by simpa using hc), List.filterMap_cons_none hchunk, ih]

end Front

namespace State

/-! ## the order of the chunks -/

/-- what is queued for a connection is a prefix of what was received from it -/
def InOrder (s : State n) : Prop :=
  ∀ c, ((s.front.commands c).filter fun cmd => cmd.header.cmdt = .CommandTypeProxy).flatMap CMD.param
    <+: (s.front.conn c).received.flatMap Chunk.bytes

/-- a handler in `SendClient2VNC` queues its chunk only in its turn -/
def TurnOf (f : Front n) (i : Fin n) : HandlerPc → Prop
  | .send m _ (.queue _) => f.InTurn i m
  | _ => True

/-- chunks are queued in turn, and `TcpServer` closes a connection when it is `Free` -/
def InTurn (s : State n) : Action n → Prop
  | .handler i _ => TurnOf s.front i (s.front.handler i)
  | .close fd => s.front.Free fd
  | _ => True

instance (f : Front n) (i : Fin n) : ∀ pc, Decidable (TurnOf f i pc)
  | .send m _ (.queue _) => inferInstanceAs (Decidable (f.InTurn i m))
  | .popFront | .find _ | .send _ _ .check | .send _ _ .popIdle | .send _ _ .addSeq =>
    .isTrue trivial

instance (s : State n) : ∀ a, Decidable (s.InTurn a)
  | .handler i _ => inferInstanceAs (Decidable (TurnOf s.front i _))
  | .close fd => inferInstanceAs (Decidable (s.front.Free fd))
  | .accept _ | .recv .. | .disconnect _ | .main _ | .connect | .linkLost | .vncAccept
  | .vncDisconnect | .vncClose | .recvCommand _ | .reject _ | .receiveBody .. | .finish ..
  | .parseCmd _ => .isTrue trivial

theorem InTurn.move {s : State n} {a : Action n} (h : s.InTurn a) {mv : Front.Move n}
    (hmv : s.Moves a mv) : mv.Orderly s.front ∧ mv.InTurn s.front := by
  cases hmv with
  | close fd => exact ⟨h, trivial⟩
  | @send i m client pc idle r hi hr =>
    refine ⟨trivial, ?_⟩
    rcases r with pc' | _ | seq
    · exact trivial
    · exact trivial
    · intro m' client' pc' hi'
      obtain rfl := result_queued hr
      have h' : TurnOf s.front i (s.front.handler i) := h
      rw [hi] at hi' h'
      obtain ⟨rfl, _, _⟩ := HandlerPc.send.inj hi'
      exact h'
  | accept fd => exact ⟨trivial, trivial⟩
  | recv fd chunk => exact ⟨trivial, trivial⟩
  | disconnect fd => exact ⟨trivial, trivial⟩
  | main hm hr => exact ⟨trivial, trivial⟩
  | pop i idle => exact ⟨trivial, trivial⟩
  | find i idle => exact ⟨trivial, trivial⟩

end State

/-- the invariant of runs that keep to the turns -/
structure Front.Ordered (f : Front n) : Prop where
  inv : f.Inv
  numbered : f.Numbered
  stream : ∀ c, (f.stream c).Ok

theorem Front.Ordered.init (n mHandleSize : Nat) : (Front.init n mHandleSize).Ordered :=
  ⟨Front.Inv.init .., Front.Numbered.init n mHandleSize, fun _ => Workers.Ok.new⟩

theorem Front.Ordered.step {f f' : Front n} {mv : Front.Move n} (hf : f.Ordered)
    (hclose : mv.Orderly f) (hturn : mv.InTurn f) (h : f.step mv = some f') : f'.Ordered := by
  refine ⟨hf.inv.step hclose h, hf.numbered.step hf.inv h, fun c => ?_⟩
  rcases Front.stream_step hf.inv hf.numbered hturn h c with he | he | hstep
  · rw [he]
    exact hf.stream c
  · rw [he]
    exact Workers.Ok.new
  · exact (hf.stream c).step hstep

theorem Front.Ordered.inOrder {s : State n} (h : s.front.Ordered) : s.InOrder := by
  intro c
  rw [show s.front.commands c = (s.front.queued.filter fun x => x.client.conn = c).map Frame.cmd
    from rfl, Front.proxy_params]
  obtain ⟨l, hl⟩ := (h.stream c).isPrefix
  refine ⟨l.flatMap Chunk.bytes, ?_⟩
  rw [← List.flatMap_append]
  exact congrArg (List.flatMap Chunk.bytes) hl

/-- **What is queued to VNC for a connection is a prefix of what it has sent**, for any number of
handler threads, as long as they queue its chunks in turn. -/
theorem queued_in_order {mHandleSize : Nat} {l : List (Action n)} {s : State n}
    (hturn : RunOk State.step State.InTurn (State.init n mHandleSize) l)
    (hrun : run State.step (State.init n mHandleSize) l = some s) : s.InOrder := by
  have hinv : s.front.Ordered := inv_runOk (I := fun s : State n => s.front.Ordered)
    (fun s a s' hs hok hstep => State.front_inv (I := Front.Ordered)
      (P := fun f mv => mv.Orderly f ∧ mv.InTurn f)
      (fun mv f hf hok => hs.step hok.1 hok.2 hf) hs (fun mv hmv => hok.move hmv) hstep)
    (Front.Ordered.init n mHandleSize) hturn hrun
  exact hinv.inOrder

/-! ## runs with two handler threads -/

def chunkA : Chunk := ⟨[65], by decide, by decide⟩

def chunkB : Chunk := ⟨[66], by decide, by decide⟩

def start : State 2 := State.init 2 0

def open5 : List (Action 2) := [.connect, .vncAccept, .accept 5]

def take (i : Fin 2) : List (Action 2) := [.handler i true, .handler i true]

def forward (i : Fin 2) : List (Action 2) := List.replicate 4 (.handler i true)

def leave5 : List (Action 2) := .disconnect 5 :: List.replicate 4 (.main true)

/-- two chunks are taken by two handlers, the first one queues first -/
theorem queued_in_order_two :
    ∃ s, run State.step start (open5 ++ [.recv 5 chunkA, .recv 5 chunkB] ++ take 0 ++ take 1 ++
      forward 0 ++ forward 1) = some s ∧ s.InOrder := by
  have hturn : RunOk State.step State.InTurn start (open5 ++ [.recv 5 chunkA, .recv 5 chunkB] ++
      take 0 ++ take 1 ++ forward 0 ++ forward 1) := by
    decide
  exact ⟨_, rfl, queued_in_order hturn rfl⟩

/-- **The second one queues first.** -/
theorem not_queued_in_order :
    ∃ s, run State.step start (open5 ++ [.recv 5 chunkA, .recv 5 chunkB] ++ take 0 ++ take 1 ++
      forward 1 ++ forward 0) = some s ∧ ¬ s.InOrder := by
  obtain ⟨s, hrun, hbad⟩ : ∃ s, run State.step start (open5 ++ [.recv 5 chunkA, .recv 5 chunkB] ++
      take 0 ++ take 1 ++ forward 1 ++ forward 0) = some s ∧
      ¬ ((s.front.commands 0).filter fun cmd => cmd.header.cmdt = .CommandTypeProxy).flatMap CMD.param
        <+: (s.front.conn 0).received.flatMap Chunk.bytes := by
    decide
  exact ⟨s, hrun, fun h => hbad (h 0)⟩

/-! ## the Disconnect -/

namespace Front

def cmdts (f : Front n) (c : Nat) : List CMDT := (f.commands c).map fun cmd => cmd.header.cmdt

/-- chunks, and behind `OnDisconnect` one Disconnect -/
def Word (f : Front n) : Prop :=
  ∀ c, ∃ k, f.cmdts c = List.replicate k .CommandTypeProxy ++
    if (f.conn c).returned then [.CommandTypeProxyDisconnect] else []

theorem Word.congr {f g : Front n} (hf : f.Word) (hq : g.queued = f.queued)
    (hr : ∀ c, (g.conn c).returned = (f.conn c).returned) : g.Word := by
  intro c
  obtain ⟨k, hk⟩ := hf c
  refine ⟨k, ?_⟩
  rw [hr c, ← hk]
  unfold cmdts commands
  rw [hq]

theorem cmdts_append {f g : Front n} {x : Frame} (h : g.queued = f.queued ++ [x]) (c : Nat) :
    g.cmdts c = f.cmdts c ++ if x.client.conn = c then [x.cmd.header.cmdt] else [] := by
  unfold cmdts
  rw [commands_append f g [x] h, List.map_append]
  by_cases hc : x.client.conn = c
  · rw [List.filter_cons_of_pos (by simpa using hc), if_pos hc]
    rfl
  · rw [List.filter_cons_of_neg (by simpa using hc), if_neg hc]
    rfl

theorem Word.opened {f : Front n} (hf : f.Inv) (hw : f.Word) (fd : Nat) : (f.opened fd).Word := by
  intro c
  by_cases hc : c = f.count
  · subst hc
    refine ⟨0, ?_⟩
    rw [show (f.opened fd).conn f.count = _ from f.setConn_self ..]
    have hnil : f.queued.filter (fun x => x.client.conn = f.count) = [] :=
      List.filter_eq_nil_iff.mpr fun x hx =>
        decide_eq_true_iff.not.mpr (Nat.ne_of_lt (hf.queued x hx).1)
    show (((f.queued.filter _).map _).map _ : List CMDT) = []
    rw [hnil]
    rfl
  · obtain ⟨k, hk⟩ := hw c
    refine ⟨k, ?_⟩
    rw [show (f.opened fd).conn c = f.conn c from f.setConn_other _ hc]
    exact hk

/-- `OnDisconnect` comes to its Disconnect, and nothing of the connection is left then -/
def Move.Settled (f : Front n) (mv : Move n) : Prop :=
  mv.Orderly f ∧ mv.Last f ∧ mv ≠ .main (.ret none)

theorem Word.step {f f' : Front n} {mv : Move n} (hf : f.Inv) (hdone : f.Done) (hw : f.Word)
    (hok : mv.Settled f) (h : f.step mv = some f') : f'.Word := by
  cases mv with
  | accept fd =>
    obtain ⟨_, _, rfl⟩ := accept_eq h
    exact hw.opened hf fd
  | recv fd chunk =>
    obtain ⟨_, _, _, _, rfl | rfl⟩ := recv_eq h
    · exact hw.congr rfl (returned_setConn (by rfl) (by rfl))
    · exact hw.congr rfl (returned_setConn (by rfl) (by rfl))
  | disconnect fd =>
    obtain ⟨_, _, _, _, _, _, rfl⟩ := disconnect_eq h
    exact hw.congr rfl (returned_setConn (by rfl) (by rfl))
  | main r =>
    obtain ⟨client, pc, hm, ⟨_, _, rfl⟩ | ⟨queued, rfl, rfl⟩⟩ := mainStep_eq h
    · exact hw
    · rcases queued with _ | seq
      · exact absurd rfl hok.2.2
      · intro c
        obtain ⟨k, hk⟩ := hw c
        refine ⟨k, ?_⟩
        rw [cmdts_append (f := f) (by rfl) c, hk]
        by_cases hc : client.conn = c
        · subst hc
          rw [if_pos rfl, (hf.main client pc hm).2.2,
            show (f.left client (some seq)).conn client.conn = _ from f.setConn_self ..]
          exact congrArg (· ++ _) (List.append_nil _)
        · rw [if_neg hc, List.append_nil,
            show (f.left client (some seq)).conn c = _ from f.setConn_other _ (Ne.symm hc)]
  | pop i =>
    obtain ⟨_, _, _, _, rfl⟩ := pop_eq h
    exact hw
  | find i =>
    obtain ⟨_, _, _, ⟨_, _, rfl⟩ | ⟨_, rfl⟩⟩ := find_eq h
    · exact hw
    · exact hw.congr rfl (returned_setConn (by rfl) (by rfl))
  | send i r =>
    obtain ⟨m, client, pc, hi, ⟨_, _, rfl⟩ | ⟨_, rfl⟩ | ⟨seq, _, rfl⟩⟩ := send_eq h
    · exact hw
    · exact hw.congr rfl (returned_setConn (by rfl) (by rfl))
    · have hclient : client.conn = m.conn := congrArg Client.conn (hf.send hi).1
      intro c
      obtain ⟨k, hk⟩ := hw c
      rw [cmdts_append (f := f) (by rfl) c, hk]
      by_cases hc : client.conn = c
      · -- the handler's Message is on its way, so `OnDisconnect` has not returned
        have hret : (f.conn c).returned = false := by
          rw [← Bool.not_eq_true]
          intro hr
          apply hdone c hr m (mem_pending.mpr (Or.inr ⟨i, by rw [hi]; rfl⟩))
          rw [← hc, hclient]
        refine ⟨k + 1, ?_⟩
        rw [if_pos hc, show (f.forwarded i m client seq).conn c = f.conn c from rfl, hret,
          List.replicate_succ', if_neg (by simp), List.append_nil, List.append_nil]
        rfl
      · refine ⟨k, ?_⟩
        rw [if_neg hc, List.append_nil]
        rfl
  | close fd =>
    obtain ⟨_, _, rfl⟩ := close_eq h
    exact hw

theorem Word.init (n mHandleSize : Nat) : (Front.init n mHandleSize).Word := fun _ => ⟨0, rfl⟩

/-- the invariant of runs that are settled -/
structure Lasting (f : Front n) : Prop where
  inv : f.Inv
  done : f.Done
  word : f.Word

theorem Lasting.init (n mHandleSize : Nat) : (Front.init n mHandleSize).Lasting :=
  ⟨Inv.init .., Done.init n mHandleSize, Word.init n mHandleSize⟩

theorem Lasting.step {f f' : Front n} {mv : Move n} (hf : f.Lasting) (hok : mv.Settled f)
    (h : f.step mv = some f') : f'.Lasting :=
  ⟨hf.inv.step hok.1 h, hf.done.step hf.inv hok.2.1 h, hf.word.step hf.inv hf.done hok h⟩

end Front

namespace State

/-- a connection's commands are Proxy commands and at most one Disconnect behind them, which is
there when `OnDisconnect` has returned -/
def DisconnectLast (s : State n) : Prop :=
  ∀ c, ∃ k d, ((s.front.commands c).map fun cmd => cmd.header.cmdt)
      = List.replicate k .CommandTypeProxy ++ List.replicate d .CommandTypeProxyDisconnect ∧
    d ≤ 1 ∧ ((s.front.conn c).returned = true → d = 1)

/-- the main thread in `OnDisconnect`: VNC is online, the idle list is not empty, and nothing of the
connection is left when its Disconnect is queued -/
def SettledMain (s : State n) (idle : Bool) : MainPc → Prop
  | .loop => True
  | .OnDisconnect _ .check => s.online = true
  | .OnDisconnect _ .popIdle => idle = true
  | .OnDisconnect _ .addSeq => True
  | .OnDisconnect client (.queue _) => s.front.Drained client.conn

def Settled (s : State n) : Action n → Prop
  | .main idle => s.SettledMain idle s.front.main
  | .close fd => s.front.Free fd
  | _ => True

instance (s : State n) (idle : Bool) : ∀ pc, Decidable (s.SettledMain idle pc)
  | .loop | .OnDisconnect _ .addSeq => .isTrue trivial
  | .OnDisconnect _ .check => inferInstanceAs (Decidable (s.online = true))
  | .OnDisconnect _ .popIdle => inferInstanceAs (Decidable (idle = true))
  | .OnDisconnect client (.queue _) => inferInstanceAs (Decidable (s.front.Drained client.conn))

instance (s : State n) : ∀ a, Decidable (s.Settled a)
  | .main idle => inferInstanceAs (Decidable (s.SettledMain idle _))
  | .close fd => inferInstanceAs (Decidable (s.front.Free fd))
  | .accept _ | .recv .. | .disconnect _ | .handler .. | .connect | .linkLost | .vncAccept
  | .vncDisconnect | .vncClose | .recvCommand _ | .reject _ | .receiveBody .. | .finish ..
  | .parseCmd _ => .isTrue trivial

theorem Settled.move {s : State n} {a : Action n} (h : s.Settled a) {mv : Front.Move n}
    (hmv : s.Moves a mv) : mv.Settled s.front := by
  cases hmv with
  | close fd => exact ⟨h, trivial, by simp⟩
  | @main client pc idle r hm hr =>
    have h' : s.SettledMain idle s.front.main := h
    rw [hm] at h'
    have hqueued : r ≠ .ret none := by
      rintro rfl
      rcases result_failed hr with ⟨rfl, hoff⟩ | ⟨rfl, hempty⟩
      · rw [show s.online = true from h'] at hoff
        exact absurd hoff (by simp)
      · rw [show idle = true from h'] at hempty
        exact absurd hempty (by simp)
    refine ⟨trivial, ?_, fun he => hqueued (Front.Move.main.inj he)⟩
    rcases r with pc' | _ | seq
    · exact trivial
    · exact absurd rfl hqueued
    · intro client' pc' hm'
      obtain rfl := result_queued hr
      obtain ⟨rfl, _⟩ := MainPc.OnDisconnect.inj (hm.symm.trans hm')
      exact h'
  | send hi hr => exact ⟨trivial, trivial, by simp⟩
  | accept fd => exact ⟨trivial, trivial, by simp⟩
  | recv fd chunk => exact ⟨trivial, trivial, by simp⟩
  | disconnect fd => exact ⟨trivial, trivial, by simp⟩
  | pop i idle => exact ⟨trivial, trivial, by simp⟩
  | find i idle => exact ⟨trivial, trivial, by simp⟩

end State

theorem Front.Word.disconnectLast {s : State n} (h : s.front.Word) : s.DisconnectLast := by
  intro c
  obtain ⟨k, hk⟩ := h c
  cases hr : (s.front.conn c).returned with
  | true =>
    rw [hr] at hk
    exact ⟨k, 1, hk, Nat.le_refl _, fun _ => rfl⟩
  | false =>
    rw [hr] at hk
    exact ⟨k, 0, hk, Nat.zero_le _, fun h => absurd h (by simp)⟩

/-- **The Disconnect is the last word** for every connection, as long as no chunk of it is left when
the Disconnect is queued. -/
theorem disconnect_last {mHandleSize : Nat} {l : List (Action n)} {s : State n}
    (hsettled : RunOk State.step State.Settled (State.init n mHandleSize) l)
    (hrun : run State.step (State.init n mHandleSize) l = some s) : s.DisconnectLast := by
  have hinv : s.front.Lasting := inv_runOk (I := fun s : State n => s.front.Lasting)
    (fun s a s' hs hok hstep => State.front_inv (I := Front.Lasting)
      (P := fun f mv => mv.Settled f)
      (fun mv f hf hok => hs.step hok hf) hs (fun mv hmv => hok.move hmv) hstep)
    (Front.Lasting.init n mHandleSize) hsettled hrun
  exact hinv.word.disconnectLast

/-- a handler has queued the chunk before the client closes -/
theorem disconnect_last_one :
    ∃ s, run State.step start (open5 ++ [.recv 5 chunkA] ++ take 0 ++ forward 0 ++ leave5) = some s ∧
      s.DisconnectLast := by
  have hsettled : RunOk State.step State.Settled start
      (open5 ++ [.recv 5 chunkA] ++ take 0 ++ forward 0 ++ leave5) := by
    decide
  exact ⟨_, rfl, disconnect_last hsettled rfl⟩

/-- **A chunk still in the list**: `OnDisconnect` queues its Disconnect before it. -/
theorem not_disconnect_last :
    ∃ s, run State.step start (open5 ++ [.recv 5 chunkA] ++ leave5 ++ take 0 ++ forward 0) = some s ∧
      ¬ s.DisconnectLast := by
  obtain ⟨s, hrun, hcmds⟩ : ∃ s, run State.step start
      (open5 ++ [.recv 5 chunkA] ++ leave5 ++ take 0 ++ forward 0) = some s ∧
      ((s.front.commands 0).map fun cmd => cmd.header.cmdt)
        = [.CommandTypeProxyDisconnect, .CommandTypeProxy] := by
    decide
  refine ⟨s, hrun, fun h => ?_⟩
  obtain ⟨k, d, hk, hd, _⟩ := h 0
  rw [hcmds] at hk
  have hlen := congrArg List.length hk
  rw [List.length_append, List.length_replicate, List.length_replicate] at hlen
  have hk1 : 1 ≤ k := by
    have h2 : 2 = k + d := hlen
    omega
  obtain ⟨j, rfl⟩ := Nat.exists_eq_add_of_le hk1
  rw [Nat.add_comm, List.replicate_succ, List.cons_append] at hk
  exact absurd (List.cons.inj hk).1 (by decide)

end VncProxy.Proxy
