import Mathlib.Algebra.Order.BigOperators.Group.Finset
import VncProxy.Lib.Threads
import VncProxy.Proxy.Net

/-!
# Nothing is delivered twice

What holds in every run of the two servers, with any reuse of descriptors, any loss of the link and any
idle Messages.

* `Front.Once`        a chunk is held by the handlers and queued to VNC at most as often as it was received;
* `State.InQueueOrder`  a parser has been given frames of its descriptor in the order they were queued;
* `fed_once`          over all parsers, a chunk is fed at most as often as it was received.
-/

namespace VncProxy.Proxy

variable {n : Nat}

/-! ## chunks at the first server -/

/-- a chunk with its connection -/
def Item.entry (m : Item) : Nat × Chunk := (m.conn, m.chunk)

/-- the chunk that a frame carries, with the connection it was received from -/
def Frame.entry (x : Frame) : Option (Nat × Chunk) :=
  match x.task with
  | .ProxyClientTask chunk => some (x.src, chunk)
  | .ProxyClientDisconnectTask => none

namespace Front

/-- how often a handler has a chunk -/
def holds (e : Nat × Chunk) (pc : HandlerPc) : Nat := (pc.item.map Item.entry).toList.count e

/-- how often a chunk waits in the handle list or at a handler -/
def waits (f : Front n) (e : Nat × Chunk) : Nat :=
  (f.mHandleMessageList.map Item.entry).count e + ∑ i, holds e (f.handler i)

structure Once (f : Front n) : Prop where
  numbered : ∀ fd c, f.holder fd = some c → c < f.count
  fresh : ∀ c, f.count ≤ c → (f.conn c).received = []
  once : ∀ e, f.waits e + (f.queued.filterMap Frame.entry).count e ≤ (f.conn e.1).received.count e.2

theorem Once.init (n mHandleSize : Nat) : (Front.init n mHandleSize).Once where
  numbered := fun _ _ h => by cases h
  fresh := fun _ _ => rfl
  once := fun e => by
    have hholds : ∀ i, holds e ((Front.init n mHandleSize).handler i) = 0 := fun _ => rfl
    unfold waits
    rw [Finset.sum_eq_zero fun i _ => hholds i]
    exact Nat.le_refl 0

theorem waits_goto (f : Front n) (i : Fin n) (pc : HandlerPc) (e : Nat × Chunk) :
    (f.goto i pc).waits e + holds e (f.handler i) = f.waits e + holds e pc := by
  have hold := sum_threads (holds e) f.handler i
  have hnew := sum_threads_update (holds e) f.handler i pc
  unfold waits
  show ((f.mHandleMessageList.map Item.entry).count e + ∑ j, holds e (Function.update f.handler i pc j)) + _ = _
  omega

theorem received_set (f : Front n) {c d : Nat} {x : Conn} (hx : x.received = (f.conn c).received) :
    ((f.setConn c x).conn d).received = (f.conn d).received := by
  by_cases hd : d = c
  · rw [hd, setConn_self, hx]
  · rw [setConn_other f x hd]

theorem Once.drop {f : Front n} (hf : f.Once) (i : Fin n) (m : Item) : (f.drop i m).Once := by
  have hreceived : ∀ d, ((f.drop i m).conn d).received = (f.conn d).received := fun d =>
    f.received_set rfl
  refine ⟨hf.numbered, fun d hd => (hreceived d).trans (hf.fresh d hd), fun e => ?_⟩
  rw [hreceived]
  have hgoto := (f.setConn m.conn { f.conn m.conn with lost := true }).waits_goto i .popFront e
  have hfree : holds e .popFront = 0 := rfl
  have hle : (f.drop i m).waits e ≤ f.waits e := by
    rw [hfree, Nat.add_zero] at hgoto
    exact Nat.le_of_add_right_le (Nat.le_of_eq hgoto)
  exact (Nat.add_le_add_right hle _).trans (hf.once e)

/-- **No chunk is doubled** by a move of the first server. -/
theorem Once.step {f f' : Front n} {mv : Move n} (hf : f.Once) (h : f.step mv = some f') : f'.Once := by
  cases mv with
  | accept fd =>
    obtain ⟨-, -, rfl⟩ := accept_eq h
    have hreceived : ∀ d, ((f.opened fd).conn d).received = (f.conn d).received := fun d =>
      f.received_set (hf.fresh f.count (Nat.le_refl _)).symm
    refine ⟨fun fd' c hc => ?_, fun c hc => ?_, fun e => ?_⟩
    · by_cases hfd : fd' = fd
      · subst hfd
        obtain rfl := Option.some.inj (hc.symm.trans (Function.update_self ..)).symm
        exact Nat.lt_succ_self _
      · exact Nat.lt_succ_of_lt (hf.numbered fd' c ((Function.update_of_ne hfd ..).symm.trans hc))
    · rw [hreceived]
      exact hf.fresh c (Nat.le_of_succ_le hc)
    · rw [hreceived]
      exact hf.once e
  | recv fd chunk =>
    obtain ⟨c, hc, -, -, hcases⟩ := recv_eq h
    have hlt := hf.numbered fd c hc
    -- the chunk is received, and waits at most
    have hconn : f'.conn = Function.update f.conn c (f'.conn c) ∧
        (f'.conn c).received = (f.conn c).received ++ [chunk] ∧ f'.count = f.count ∧
        f'.holder = f.holder ∧ f'.queued = f.queued ∧ f'.handler = f.handler ∧
        (f'.mHandleMessageList = f.mHandleMessageList ∨ ∃ m : Item, m.entry = (c, chunk) ∧
          f'.mHandleMessageList = f.mHandleMessageList ++ [m]) := by
      rcases hcases with rfl | rfl
      · unfold refused setConn
        dsimp only
        rw [Function.update_self]
        exact ⟨rfl, rfl, rfl, rfl, rfl, rfl, .inl rfl⟩
      · unfold pushed setConn
        dsimp only
        rw [Function.update_self]
        exact ⟨rfl, rfl, rfl, rfl, rfl, rfl, .inr ⟨_, rfl, rfl⟩⟩
    obtain ⟨hupdate, hreceived, hcount, hholder, hqueued, hhandler, hlist⟩ := hconn
    refine ⟨?_, fun d hd => ?_, fun e => ?_⟩
    · rw [hholder, hcount]
      exact hf.numbered
    · rw [hcount] at hd
      rw [hupdate, Function.update_of_ne (by omega)]
      exact hf.fresh d hd
    · have honce := hf.once e
      have hwaits : f'.waits e ≤ f.waits e + [(c, chunk)].count e := by
        unfold waits
        rw [hhandler]
        rcases hlist with hlist | ⟨m, hm, hlist⟩
        · rw [hlist]
          exact Nat.le_add_right _ _
        · rw [hlist, List.map_append, List.count_append, List.map_singleton, hm]
          omega
      rw [hqueued]
      by_cases hec : e.1 = c
      · rw [hec, hreceived, List.count_append]
        rw [hec] at honce
        have hone : [(c, chunk)].count e = [chunk].count e.2 := by
          rw [← hec, List.count_singleton, List.count_singleton]
          refine if_congr ?_ rfl rfl
          simp [Prod.ext_iff]
        omega
      · have hnone : [(c, chunk)].count e = 0 := by
          rw [List.count_eq_zero, List.mem_singleton]
          exact fun he => hec (congrArg Prod.fst he)
        rw [hupdate, Function.update_of_ne hec]
        omega
  | disconnect fd =>
    obtain ⟨c, client, -, -, -, -, rfl⟩ := disconnect_eq h
    have hreceived : ∀ d, ((f.leaving c client).conn d).received = (f.conn d).received := fun d =>
      f.received_set rfl
    exact ⟨hf.numbered, fun d hd => (hreceived d).trans (hf.fresh d hd),
      fun e => (hf.once e).trans_eq (congrArg _ (hreceived e.1).symm)⟩
  | main r =>
    obtain ⟨client, pc, -, ⟨pc', -, rfl⟩ | ⟨queued, -, rfl⟩⟩ := mainStep_eq h
    · exact ⟨hf.numbered, hf.fresh, hf.once⟩
    · have hreceived : ∀ d, ((f.left client queued).conn d).received = (f.conn d).received := fun d =>
        f.received_set rfl
      -- a Disconnect carries no chunk
      have hqueued : (f.left client queued).queued.filterMap Frame.entry
          = f.queued.filterMap Frame.entry := by
        show (f.queued ++ _).filterMap _ = _
        rw [List.filterMap_append]
        cases queued <;> exact List.append_nil _
      refine ⟨hf.numbered, fun d hd => (hreceived d).trans (hf.fresh d hd), fun e => ?_⟩
      rw [hqueued, hreceived]
      exact hf.once e
  | pop i =>
    obtain ⟨m, l, hi, hl, rfl⟩ := pop_eq h
    refine ⟨hf.numbered, hf.fresh, fun e => le_trans (Nat.le_of_eq ?_) (hf.once e)⟩
    show (f.popped i m l).waits e + _ = f.waits e + _
    congr 1
    have hgoto := f.waits_goto i (.find m) e
    rw [hi] at hgoto
    have hfind : holds e (.find m) = [m.entry].count e := rfl
    have hfree : holds e .popFront = 0 := rfl
    unfold waits at hgoto ⊢
    show (l.map Item.entry).count e + ∑ j, holds e ((f.goto i (.find m)).handler j) = _
    rw [show (f.goto i (.find m)).mHandleMessageList = f.mHandleMessageList from rfl] at hgoto
    rw [hl, List.map_cons, ← List.singleton_append, List.count_append] at hgoto ⊢
    omega
  | find i =>
    obtain ⟨m, hi, -, ⟨client, -, rfl⟩ | ⟨-, rfl⟩⟩ := find_eq h
    · refine ⟨hf.numbered, hf.fresh, fun e => le_trans (Nat.le_of_eq ?_) (hf.once e)⟩
      have hgoto := f.waits_goto i (.send m client .check) e
      rw [hi] at hgoto
      exact congrArg (· + _) (Nat.add_right_cancel hgoto)
    · exact hf.drop i m
  | send i r =>
    obtain ⟨m, client, pc, hi, ⟨pc', -, rfl⟩ | ⟨-, rfl⟩ | ⟨seq, -, rfl⟩⟩ := send_eq h
    · refine ⟨hf.numbered, hf.fresh, fun e => le_trans (Nat.le_of_eq ?_) (hf.once e)⟩
      have hgoto := f.waits_goto i (.send m client pc') e
      rw [hi] at hgoto
      exact congrArg (· + _) (Nat.add_right_cancel hgoto)
    · exact hf.drop i m
    · refine ⟨hf.numbered, hf.fresh, fun e => le_trans (Nat.le_of_eq ?_) (hf.once e)⟩
      have hgoto := f.waits_goto i .popFront e
      rw [hi] at hgoto
      have hsend : holds e (.send m client pc) = [m.entry].count e := rfl
      have hfree : holds e .popFront = 0 := rfl
      show (f.goto i .popFront).waits e + ((f.queued ++ [_]).filterMap Frame.entry).count e = _
      rw [List.filterMap_append, List.count_append]
      show _ + (_ + [m.entry].count e) = _
      omega
  | close fd =>
    obtain ⟨-, -, rfl⟩ := close_eq h
    refine ⟨fun fd' c hc => ?_, hf.fresh, hf.once⟩
    by_cases hfd : fd' = fd
    · subst hfd
      cases hc.symm.trans (Function.update_self ..)
    · exact hf.numbered fd' c ((Function.update_of_ne hfd ..).symm.trans hc)

theorem queued_grows {f f' : Front n} {mv : Move n} (h : f.step mv = some f') :
    ∃ l, f'.queued = f.queued ++ l := by
  cases mv with
  | accept fd =>
    obtain ⟨-, -, rfl⟩ := accept_eq h
    exact ⟨[], (List.append_nil _).symm⟩
  | recv fd chunk =>
    obtain ⟨c, -, -, -, rfl | rfl⟩ := recv_eq h <;> exact ⟨[], (List.append_nil _).symm⟩
  | disconnect fd =>
    obtain ⟨c, client, -, -, -, -, rfl⟩ := disconnect_eq h
    exact ⟨[], (List.append_nil _).symm⟩
  | main r =>
    obtain ⟨client, pc, -, ⟨pc', -, rfl⟩ | ⟨queued, -, rfl⟩⟩ := mainStep_eq h
    · exact ⟨[], (List.append_nil _).symm⟩
    · exact ⟨_, rfl⟩
  | pop i =>
    obtain ⟨m, l, -, -, rfl⟩ := pop_eq h
    exact ⟨[], (List.append_nil _).symm⟩
  | find i =>
    obtain ⟨m, -, -, ⟨client, -, rfl⟩ | ⟨-, rfl⟩⟩ := find_eq h <;> exact ⟨[], (List.append_nil _).symm⟩
  | send i r =>
    obtain ⟨m, client, pc, -, ⟨pc', -, rfl⟩ | ⟨-, rfl⟩ | ⟨seq, -, rfl⟩⟩ := send_eq h
    · exact ⟨[], (List.append_nil _).symm⟩
    · exact ⟨[], (List.append_nil _).symm⟩
    · exact ⟨_, rfl⟩
  | close fd =>
    obtain ⟨-, -, rfl⟩ := close_eq h
    exact ⟨[], (List.append_nil _).symm⟩

end Front

/-! ## chunks at the parsers -/

/-- the chunk that a frame carries for the parser of a descriptor -/
def Frame.feeds (fd : Nat) (x : Frame) : Option (Nat × Chunk) := if x.client.fd = fd then x.entry else none

theorem count_feeds (fds : Finset Nat) (l : List Frame) (e : Nat × Chunk) :
    ∑ fd ∈ fds, (l.filterMap (Frame.feeds fd)).count e ≤ (l.filterMap Frame.entry).count e := by
  have hcons : ∀ (f : Frame → Option (Nat × Chunk)) (x : Frame) (l : List Frame),
      ((x :: l).filterMap f).count e = (f x).toList.count e + (l.filterMap f).count e := by
    intro f x l
    rw [List.filterMap_cons]
    cases hx : f x with
    | none => exact (Nat.zero_add _).symm
    | some e' => exact @List.count_append _ _ e [e'] (l.filterMap f)
  induction l with
  | nil => exact Nat.le_of_eq (Finset.sum_const_zero)
  | cons x l ih =>
    have hone : ∑ fd ∈ fds, (Frame.feeds fd x).toList.count e ≤ x.entry.toList.count e := by
      have hfeeds : ∀ fd ∈ fds, (Frame.feeds fd x).toList.count e
          = if x.client.fd = fd then x.entry.toList.count e else 0 := by
        intro fd _
        unfold Frame.feeds
        split <;> rfl
      rw [Finset.sum_congr rfl hfeeds, Finset.sum_ite_eq]
      split
      · exact Nat.le_refl _
      · exact Nat.zero_le _
    calc ∑ fd ∈ fds, ((x :: l).filterMap (Frame.feeds fd)).count e
        = ∑ fd ∈ fds, (Frame.feeds fd x).toList.count e
          + ∑ fd ∈ fds, (l.filterMap (Frame.feeds fd)).count e := by
          simp only [hcons]
          exact Finset.sum_add_distrib
      _ ≤ x.entry.toList.count e + (l.filterMap Frame.entry).count e := Nat.add_le_add hone ih
      _ = ((x :: l).filterMap Frame.entry).count e := (hcons Frame.entry x l).symm

namespace State

/-- what the parser of a descriptor has been given -/
def fed (s : State n) (fd : Nat) : List (Nat × Chunk) := ((s.mDataHttpParserMap fd).map Parser.fed).getD []

/-- the parser of each descriptor has been given frames for it in the order they were queued, and those on
the link come behind them -/
def InQueueOrder (s : State n) : Prop := ∀ fd,
  (s.fed fd ++ s.down.filterMap (Frame.feeds fd)).Sublist (s.front.queued.filterMap (Frame.feeds fd))

theorem InQueueOrder.init (n mHandleSize : Nat) : (State.init n mHandleSize).InQueueOrder := fun _ =>
  List.Sublist.refl _

theorem InQueueOrder.grows {s s' : State n} (hs : s.InQueueOrder)
    (hmap : s'.mDataHttpParserMap = s.mDataHttpParserMap) (hdown : s'.down = s.down)
    (hqueued : ∃ l, s'.front.queued = s.front.queued ++ l) : s'.InQueueOrder := by
  intro fd
  obtain ⟨l, hl⟩ := hqueued
  unfold fed
  rw [hmap, hdown, hl, List.filterMap_append]
  exact (hs fd).trans (List.sublist_append_left _ _)

theorem InQueueOrder.queue {s s' : State n} (hs : s.InQueueOrder) {x : Frame}
    (hmap : s'.mDataHttpParserMap = s.mDataHttpParserMap)
    (hdown : s'.down = s.down ++ [x] ∨ s'.down = s.down)
    (hqueued : s'.front.queued = s.front.queued ++ [x]) : s'.InQueueOrder := by
  rcases hdown with hdown | hdown
  · intro fd
    unfold fed
    rw [hmap, hdown, hqueued, List.filterMap_append, List.filterMap_append, ← List.append_assoc]
    exact List.Sublist.append (hs fd) (List.Sublist.refl _)
  · exact hs.grows hmap hdown ⟨_, hqueued⟩

theorem fed_update (s : State n) (fd fd' : Nat) (p : Option Parser) :
    ((Function.update s.mDataHttpParserMap fd p fd').map Parser.fed).getD []
      = if fd' = fd then (p.map Parser.fed).getD [] else s.fed fd' := by
  by_cases hfd : fd' = fd
  · subst hfd
    rw [Function.update_self, if_pos rfl]
  · rw [Function.update_of_ne hfd, if_neg hfd]
    rfl

/-- **A step keeps the order.** -/
theorem InQueueOrder.step {s s' : State n} {a : Action n} (hs : s.InQueueOrder) (h : s.step a = some s') :
    s'.InQueueOrder := by
  cases step_cases h with
  | move v hmv hplain hf => exact hs.grows rfl rfl (Front.queued_grows hf)
  | queueChunk hi hv | queueDisconnect hm hv =>
    refine hs.queue rfl ?_ rfl
    unfold State.queue
    dsimp only
    split
    · exact .inl rfl
    · exact .inr rfl
  | close hf => exact hs.grows rfl rfl (Front.queued_grows hf)
  | linkLost hreject =>
    intro fd
    have hbefore := (List.sublist_append_left _ _).trans (hs fd)
    rwa [← List.append_nil (s.fed fd)] at hbefore
  | feed hl ht hp hrequests hreject =>
    rename_i frame l chunk p requests reject
    intro fd
    have hbefore := hs fd
    have hfed := fed_update s frame.client.fd fd (some p)
    unfold fed
    show (_ ++ l.filterMap _).Sublist _
    rw [hl, List.filterMap_cons] at hbefore
    rw [hfed]
    by_cases hfd : fd = frame.client.fd
    · subst hfd
      have hfeeds : Frame.feeds frame.client.fd frame = some (frame.src, chunk) := by
        unfold Frame.feeds Frame.entry
        rw [if_pos rfl, ht]
      have hfedp : p.fed = s.fed frame.client.fd ++ [(frame.src, chunk)] := by
        rw [hp]
        unfold fed
        cases s.mDataHttpParserMap frame.client.fd <;> rfl
      rw [hfeeds] at hbefore
      rw [if_pos rfl, Option.map_some, Option.getD_some, hfedp, List.append_assoc]
      exact hbefore
    · have hfeeds : Frame.feeds fd frame = none := if_neg fun he => hfd he.symm
      rw [hfeeds] at hbefore
      rw [if_neg hfd]
      exact hbefore
  | forget hl ht =>
    rename_i frame l
    intro fd
    have hbefore := hs fd
    have hfed := fed_update s frame.client.fd fd none
    unfold fed
    show (_ ++ l.filterMap _).Sublist _
    have hfeeds : Frame.feeds fd frame = none := by
      unfold Frame.feeds Frame.entry
      rw [ht]
      exact ite_self _
    rw [hl, List.filterMap_cons, hfeeds] at hbefore
    rw [hfed]
    split
    · exact (List.sublist_append_right _ _).trans hbefore
    · exact hbefore
  | connect | vnc | reject | body | finish | cut | reply | skip =>
    exact hs.grows rfl rfl ⟨[], (List.append_nil _).symm⟩

end State

theorem fed_of_run {mHandleSize : Nat} {l : List (Action n)} {s : State n}
    (hrun : run State.step (State.init n mHandleSize) l = some s) :
    (∀ (fds : Finset Nat) (c : Nat) (chunk : Chunk),
      ∑ fd ∈ fds, (s.fed fd).count (c, chunk) ≤ (s.front.conn c).received.count chunk) ∧
      ∀ fd, (s.fed fd).Sublist (s.front.queued.filterMap (Frame.feeds fd)) := by
  have hstep : ∀ s (a : Action n) s', s.front.Once ∧ s.InQueueOrder → State.step s a = some s' →
      s'.front.Once ∧ s'.InQueueOrder := fun s a s' hi h =>
    ⟨State.front_inv (P := fun _ _ => True) (fun _ _ hmv _ => hi.1.step hmv) hi.1 (fun _ _ => trivial) h,
      hi.2.step h⟩
  obtain ⟨honce, horder⟩ := inv_run (I := fun s : State n => s.front.Once ∧ s.InQueueOrder) hstep
    ⟨.init n mHandleSize, .init n mHandleSize⟩ hrun
  have hsub : ∀ fd, (s.fed fd).Sublist (s.front.queued.filterMap (Frame.feeds fd)) := fun fd =>
    (List.sublist_append_left _ _).trans (horder fd)
  refine ⟨fun fds c chunk => ?_, hsub⟩
  calc ∑ fd ∈ fds, (s.fed fd).count (c, chunk)
      ≤ ∑ fd ∈ fds, (s.front.queued.filterMap (Frame.feeds fd)).count (c, chunk) :=
        Finset.sum_le_sum fun fd _ => (hsub fd).count_le _
    _ ≤ (s.front.queued.filterMap Frame.entry).count (c, chunk) := count_feeds fds _ _
    _ ≤ s.front.waits (c, chunk) + (s.front.queued.filterMap Frame.entry).count (c, chunk) :=
        Nat.le_add_left _ _
    _ ≤ (s.front.conn c).received.count chunk := honce.once (c, chunk)

/-- **No chunk is fed twice**, in every run whose frames are whole: over any descriptors, a chunk of a
connection is in the parsers at most as often as it was received from this connection, and each parser
has been given its chunks in the order in which they were queued. -/
theorem fed_once {mHandleSize : Nat} {l : List (Event n)} {s : Net n}
    (hwhole : RunOk Net.step (Net.Whole fun _ _ => True) (Net.init n mHandleSize) l)
    (hrun : run Net.step (Net.init n mHandleSize) l = some s) :
    (∀ (fds : Finset Nat) (c : Nat) (chunk : Chunk),
      ∑ fd ∈ fds, (s.fed fd).count (c, chunk) ≤ (s.front.conn c).received.count chunk) ∧
      ∀ fd, (s.fed fd).Sublist (s.front.queued.filterMap (Frame.feeds fd)) := by
  obtain ⟨l', hrun', -⟩ := run_whole hwhole hrun
  exact fed_of_run hrun'

def oneByte : Chunk := ⟨[88], by decide, by decide⟩

/-- a browser sends the same byte twice, and both chunks get to its parser -/
def twice (i : Fin 1) : List (Action 1) :=
  [.connect, .vncAccept, .accept 5, .recv 5 oneByte, .recv 5 oneByte] ++
    List.replicate 12 (.handler i true) ++ [.recvCommand true, .recvCommand true]

theorem fed_once_two : ∃ s : Net 1, run Net.step (Net.init 1 0) ((twice 0).map .step) = some s ∧
    (s.fed 5).count (0, oneByte) = 2 ∧
    ∑ fd ∈ {5}, (s.fed fd).count (0, oneByte) ≤ (s.front.conn 0).received.count oneByte := by
  obtain ⟨s, hs, hwhole, hfed⟩ : ∃ s : Net 1,
      run Net.step (Net.init 1 0) ((twice 0).map .step) = some s ∧
      RunOk Net.step (Net.Whole fun _ _ => True) (Net.init 1 0) ((twice 0).map .step) ∧
      (s.fed 5).count (0, oneByte) = 2 := by
    decide
  exact ⟨s, hs, hfed, (fed_once hwhole hs).1 {5} 0 oneByte⟩

end VncProxy.Proxy
