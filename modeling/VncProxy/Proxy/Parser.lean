import VncProxy.Lib.Keyed
import VncProxy.Proxy.Net
import VncProxy.Proxy.Order

/-!
# The parsers of `HttpProxyServer`

`mDataHttpParserMap` has the descriptors of the other process as its keys.

* `State.openBy`        the connection that the parser of a descriptor belongs to when all unread
                        frames have been read;
* `State.Tidy`          the condition on a step: the parser of a connection is gone, or its
                        Disconnect on its way, when `OnDisconnect` returns;
* `State.Clean`         a parser is only open for the connection that has the descriptor;
* `parser_of_one`       all bytes given to one parser come from one connection.
-/

namespace VncProxy.Proxy

/-- what a frame is for the parsers -/
def Frame.event (x : Frame) : KeyEvent Nat Nat :=
  match x.task with
  | .ProxyClientTask _ => .use x.client.fd x.src
  | .ProxyClientDisconnectTask => .drop x.client.fd

/-- the connection of a parser's first bytes -/
def Parser.owner (p : Parser) : Option Nat := p.src.head?

variable {n : Nat}

/-- who holds a descriptor and has not left goes on doing so, up to the end of `OnDisconnect` -/
theorem Front.stays {f f' : Front n} (mv : Front.Move n) (hok : mv.Orderly f)
    (h : f.step mv = some f') {fd c : Nat} (hc : f.holder fd = some c)
    (hr : (f.conn c).returned = false) :
    f'.holder fd = some c ∧ ((f'.conn c).returned = false ∨ ∃ queued client pc,
      mv = .main (.ret queued) ∧ f.main = .OnDisconnect client pc ∧ c = client.conn) := by
  refine ⟨Front.holder_step h ?_ hc, ?_⟩
  · rintro rfl
    rw [(hok c hc).1] at hr
    exact absurd hr (by simp)
  · cases hr' : (f'.conn c).returned with
    | false => exact Or.inl rfl
    | true =>
      rcases Front.returned_step h hr' with h1 | h1
      · rw [hr] at h1
        exact absurd h1 (by simp)
      · exact Or.inr h1

namespace State

/-- the owner of the parser of a descriptor -/
def parserOwner (s : State n) (fd : Nat) : Option Nat := (s.mDataHttpParserMap fd).bind Parser.owner

/-- its owner when the unread frames have been read -/
def openBy (s : State n) (fd : Nat) : Option Nat :=
  ownerAfter fd (s.parserOwner fd) (s.down.map Frame.event)

theorem parserOwner_congr {s t : State n} (hp : t.mDataHttpParserMap = s.mDataHttpParserMap)
    (fd : Nat) : t.parserOwner fd = s.parserOwner fd := by
  unfold parserOwner
  rw [hp]

theorem openBy_congr {s t : State n} (hp : t.mDataHttpParserMap = s.mDataHttpParserMap)
    (hd : t.down = s.down) (fd : Nat) : t.openBy fd = s.openBy fd := by
  unfold openBy
  rw [parserOwner_congr hp, hd]

/-- the main thread in `OnDisconnect`: when it returns, nothing of the connection is left, and
neither is a parser, or its Disconnect is queued for the connection `HttpProxyServer` reads -/
def TidyMain (s : State n) (idle : Bool) : MainPc → Prop
  | .loop => True
  | .OnDisconnect client .check =>
    s.online = true ∨ (s.front.Drained client.conn ∧ s.openBy client.fd = none)
  | .OnDisconnect client .popIdle =>
    idle = true ∨ (s.front.Drained client.conn ∧ s.openBy client.fd = none)
  | .OnDisconnect _ .addSeq => True
  | .OnDisconnect client (.queue _) => s.front.Drained client.conn ∧
      (s.openBy client.fd = none ∨ s.mpVNCClient.map VNCClient.link = s.link)

/-- also, `TcpServer` closes a connection when it is `Free`, and no unread Disconnect of a parser is
lost with the link -/
def Tidy (s : State n) : Action n → Prop
  | .main idle => s.TidyMain idle s.front.main
  | .close fd => s.front.Free fd
  | .linkLost => ∀ x ∈ s.down, x.task = .ProxyClientDisconnectTask →
      (s.mDataHttpParserMap x.client.fd).isNone = true
  | _ => True

instance (s : State n) (idle : Bool) : ∀ pc, Decidable (s.TidyMain idle pc)
  | .loop | .OnDisconnect _ .addSeq => .isTrue trivial
  | .OnDisconnect client .check =>
    inferInstanceAs (Decidable (_ ∨ (s.front.Drained client.conn ∧ s.openBy client.fd = none)))
  | .OnDisconnect client .popIdle =>
    inferInstanceAs (Decidable (_ ∨ (s.front.Drained client.conn ∧ s.openBy client.fd = none)))
  | .OnDisconnect client (.queue _) =>
    inferInstanceAs (Decidable (s.front.Drained client.conn ∧ (s.openBy client.fd = none ∨ _ = _)))

instance (s : State n) : ∀ a, Decidable (s.Tidy a)
  | .main idle => inferInstanceAs (Decidable (s.TidyMain idle _))
  | .close fd => inferInstanceAs (Decidable (s.front.Free fd))
  | .linkLost => inferInstanceAs (Decidable (∀ x ∈ s.down, _ → _))
  | .accept _ | .recv .. | .disconnect _ | .handler .. | .connect | .vncAccept | .vncDisconnect
  | .vncClose | .recvCommand _ | .reject _ | .receiveBody .. | .finish .. | .parseCmd _ =>
    .isTrue trivial

/-- all bytes a parser was given come from one connection -/
def OneConnection (s : State n) : Prop :=
  ∀ fd p, s.mDataHttpParserMap fd = some p → ∃ c, ∀ d ∈ p.src, d = c

structure Clean (s : State n) : Prop where
  front : s.front.Inv
  done : s.front.Done
  parser : ∀ fd p, s.mDataHttpParserMap fd = some p → ∃ c, p.owner = some c ∧ ∀ d ∈ p.src, d = c
  down : ∀ fd, Unmixed fd (s.parserOwner fd) (s.down.map Frame.event)
  openBy : ∀ fd c, s.openBy fd = some c →
    s.front.holder fd = some c ∧ (s.front.conn c).returned = false

theorem Clean.init (n mHandleSize : Nat) : (State.init n mHandleSize).Clean where
  front := Front.Inv.init ..
  done := Front.Done.init n mHandleSize
  parser _ _ h := absurd h (by simp [State.init])
  down _ := trivial
  openBy _ _ h := absurd (show none = some _ from h) (by simp)

theorem Clean.oneConnection {s : State n} (h : s.Clean) : s.OneConnection := by
  intro fd p hp
  obtain ⟨c, _, hc⟩ := h.parser fd p hp
  exact ⟨c, hc⟩

theorem Clean.congr {s t : State n} (hs : s.Clean) (hf : t.front = s.front)
    (hp : t.mDataHttpParserMap = s.mDataHttpParserMap) (hd : t.down = s.down) : t.Clean := by
  refine ⟨hf ▸ hs.front, hf ▸ hs.done, hp ▸ hs.parser, fun fd => ?_, fun fd c h => ?_⟩
  · rw [parserOwner_congr hp, hd]
    exact hs.down fd
  · rw [openBy_congr hp hd] at h
    rw [hf]
    exact hs.openBy fd c h

/-- a move of the clients that queues nothing and is not the end of `OnDisconnect` -/
theorem Clean.move {s : State n} (hs : s.Clean) (mv : Front.Move n) {f : Front n}
    (hok : mv.Orderly s.front) (hlast : ∀ queued, mv ≠ .main (.ret queued))
    (h : s.front.step mv = some f) {t : State n} (hf : t.front = f)
    (hp : t.mDataHttpParserMap = s.mDataHttpParserMap) (hd : t.down = s.down) : t.Clean := by
  have hmvlast : mv.Last s.front := by
    unfold Front.Move.Last
    split
    · exact absurd rfl (hlast _)
    · exact trivial
  refine ⟨hf ▸ hs.front.step hok h, hf ▸ hs.done.step hs.front hmvlast h, hp ▸ hs.parser,
    fun fd => ?_, fun fd c ho => ?_⟩
  · rw [parserOwner_congr hp, hd]
    exact hs.down fd
  · rw [openBy_congr hp hd] at ho
    obtain ⟨h1, h2⟩ := hs.openBy fd c ho
    obtain ⟨h3, h4 | ⟨queued, _, _, he, _⟩⟩ := Front.stays mv hok h h1 h2
    · rw [hf]
      exact ⟨h3, h4⟩
    · exact absurd he (hlast queued)

/-! ## a frame is queued -/

theorem openBy_concat {s t : State n} {x : Frame}
    (hp : t.mDataHttpParserMap = s.mDataHttpParserMap) (hd : t.down = s.down ++ [x]) (fd : Nat) :
    t.openBy fd = x.event.next fd (s.openBy fd) := by
  unfold openBy parserOwner
  rw [hp, hd, List.map_append]
  exact ownerAfter_concat ..

theorem unmixed_down_concat {s t : State n} {x : Frame} {fd : Nat}
    (hp : t.mDataHttpParserMap = s.mDataHttpParserMap) (hd : t.down = s.down ++ [x])
    (h : Unmixed fd (s.parserOwner fd) (s.down.map Frame.event))
    (hx : ∀ o, x.event = .use fd o → ∀ o' ∈ s.openBy fd, o' = o) :
    Unmixed fd (t.parserOwner fd) (t.down.map Frame.event) := by
  unfold parserOwner
  rw [hp, hd, List.map_append]
  exact unmixed_concat.mpr ⟨h, hx⟩

theorem Clean.forwarded {s t : State n} (hs : s.Clean) {i : Fin n} {m : Item} {client : Client}
    {pc : SendPc} {seq : CInt} (hi : s.front.handler i = .send m client pc)
    (hf : t.front = s.front.forwarded i m client seq)
    (hp : t.mDataHttpParserMap = s.mDataHttpParserMap)
    (hd : t.down = s.down ∨ t.down = s.down ++ [⟨client, m.conn, seq, .ProxyClientTask m.chunk⟩]) :
    t.Clean := by
  have hstep : s.front.step (.send i (.ret (some seq))) = some t.front := by
    rw [Front.step_forwarded hi, hf]
  obtain ⟨rfl, hc⟩ := hs.front.send hi
  have hret : (s.front.conn m.conn).returned = false := by
    rw [← Bool.not_eq_true]
    intro hr
    exact hs.done m.conn hr m (Front.mem_pending.mpr (Or.inr ⟨i, by rw [hi]; rfl⟩)) rfl
  rcases hd with hd | hd
  · exact hs.move (.send i (.ret (some seq))) trivial (fun _ => by simp) hstep rfl hp hd
  · have hopen : ∀ fd c, s.openBy fd = some c → s.front.holder fd = some c := fun fd c h =>
      (hs.openBy fd c h).1
    refine ⟨hs.front.step (by trivial) hstep,
      hs.done.step hs.front (by trivial) hstep, hp ▸ hs.parser,
      fun fd => ?_, fun fd c ho => ?_⟩
    · refine unmixed_down_concat hp hd (hs.down fd) fun o ho o' ho' => ?_
      obtain ⟨rfl, rfl⟩ : m.fd = fd ∧ m.conn = o := by
        injection ho with h1 h2
        exact ⟨h1, h2⟩
      exact Option.some.inj ((hopen _ _ ho').symm.trans hc)
    · rw [openBy_concat hp hd fd] at ho
      have hgoal : s.front.holder fd = some c ∧ (s.front.conn c).returned = false := by
        by_cases hfd : m.fd = fd
        · have ho' : (if m.fd = fd then some m.conn else s.openBy fd) = some c := ho
          rw [if_pos hfd] at ho'
          obtain rfl := Option.some.inj ho'
          exact ⟨hfd ▸ hc, hret⟩
        · have ho' : (if m.fd = fd then some m.conn else s.openBy fd) = some c := ho
          rw [if_neg hfd] at ho'
          exact hs.openBy fd c ho'
      rw [hf]
      exact hgoal

/-- `OnDisconnect` returns: its Disconnect is queued, or no parser is left -/
theorem Clean.left {s t : State n} (hs : s.Clean) {client : Client} {pc : SendPc}
    {queued : Option CInt} (hm : s.front.main = .OnDisconnect client pc)
    (hf : t.front = s.front.left client queued) (hdrained : s.front.Drained client.conn)
    (hp : t.mDataHttpParserMap = s.mDataHttpParserMap)
    (hd : (t.down = s.down ∧ s.openBy client.fd = none) ∨
      ∃ seq, t.down = s.down ++ [⟨client, client.conn, seq, .ProxyClientDisconnectTask⟩]) :
    t.Clean := by
  have hstep : s.front.step (.main (.ret queued)) = some t.front := by
    rw [Front.step_left hm, hf]
  have hlast : Front.Move.Last s.front (.main (.ret queued)) := by
    intro client' pc' hm'
    obtain ⟨rfl, _⟩ := MainPc.OnDisconnect.inj (hm.symm.trans hm')
    exact hdrained
  have hnone : t.openBy client.fd = none := by
    rcases hd with ⟨hd, ho⟩ | ⟨seq, hd⟩
    · rw [openBy_congr hp hd]
      exact ho
    · rw [openBy_concat hp hd]
      exact if_pos rfl
  have hother : ∀ fd, fd ≠ client.fd → t.openBy fd = s.openBy fd := by
    intro fd hfd
    rcases hd with ⟨hd, _⟩ | ⟨seq, hd⟩
    · exact openBy_congr hp hd fd
    · rw [openBy_concat hp hd]
      exact if_neg (Ne.symm hfd)
  refine ⟨hs.front.step (by trivial) hstep,
    hs.done.step hs.front hlast hstep, hp ▸ hs.parser, fun fd => ?_, fun fd c ho => ?_⟩
  · rcases hd with ⟨hd, _⟩ | ⟨seq, hd⟩
    · rw [parserOwner_congr hp, hd]
      exact hs.down fd
    · exact unmixed_down_concat hp hd (hs.down fd) fun o ho => absurd ho (by simp [Frame.event])
  · have hfd : fd ≠ client.fd := by
      rintro rfl
      rw [hnone] at ho
      exact absurd ho (by simp)
    rw [hother fd hfd] at ho
    obtain ⟨h1, h2⟩ := hs.openBy fd c ho
    obtain ⟨h3, h4 | ⟨_, client', pc', _, hm', rfl⟩⟩ := Front.stays
      (.main (.ret queued)) trivial hstep h1 h2
    · exact ⟨h3, h4⟩
    · obtain ⟨rfl, _⟩ := MainPc.OnDisconnect.inj (hm.symm.trans hm')
      refine absurd ?_ hfd
      rw [← (hs.front.holder _ _ h1).1, (hs.front.holder _ _ (hs.front.main _ _ hm).1).1]

/-! ## a frame is read -/

theorem Clean.head {s : State n} (hs : s.Clean) {frame : Frame} {l : List Frame}
    (hl : s.down = frame :: l) (fd : Nat) :
    (∀ o, frame.event = .use fd o → ∀ o' ∈ s.parserOwner fd, o' = o) ∧
      Unmixed fd (frame.event.next fd (s.parserOwner fd)) (l.map Frame.event) := by
  have h := hs.down fd
  rw [hl] at h
  exact h

theorem Clean.feed {s : State n} (hs : s.Clean) {frame : Frame} {l : List Frame} {chunk : Chunk}
    (hl : s.down = frame :: l) (ht : frame.task = .ProxyClientTask chunk) {p : Parser}
    (hp : p.fed = ((s.mDataHttpParserMap frame.client.fd).getD ⟨.new, []⟩).fed
      ++ [(frame.src, chunk)]) :
    p.owner = some frame.src ∧ ∀ d ∈ p.src, d = frame.src := by
  have hevent : frame.event = .use frame.client.fd frame.src := by
    unfold Frame.event
    rw [ht]
  unfold Parser.owner Parser.src
  rw [hp, List.map_append]
  cases hfd : s.mDataHttpParserMap frame.client.fd with
  | none => exact ⟨rfl, fun d hd => List.mem_singleton.mp hd⟩
  | some q =>
    obtain ⟨c, hc, hall⟩ := hs.parser _ q hfd
    obtain rfl : c = frame.src := (hs.head hl _).1 _ hevent c (by
      unfold parserOwner
      rw [hfd]
      exact hc)
    refine ⟨?_, fun d hd => ?_⟩
    · show (q.src ++ [frame.src]).head? = some frame.src
      rw [List.head?_append, show q.src.head? = some frame.src from hc]
      rfl
    · rcases List.mem_append.mp hd with hd | hd
      · exact hall d hd
      · exact List.mem_singleton.mp hd

theorem parserOwner_update {s t : State n} {fd : Nat} {p : Option Parser}
    (hmap : t.mDataHttpParserMap = Function.update s.mDataHttpParserMap fd p) (fd' : Nat) :
    t.parserOwner fd' = if fd = fd' then p.bind Parser.owner else s.parserOwner fd' := by
  unfold parserOwner
  rw [hmap]
  by_cases hfd : fd' = fd
  · subst hfd
    rw [Function.update_self, if_pos rfl]
  · rw [Function.update_of_ne hfd, if_neg (Ne.symm hfd)]

theorem Clean.recv {s t : State n} (hs : s.Clean) {frame : Frame} {l : List Frame}
    {o : Option Parser} (hl : s.down = frame :: l) (hf : t.front = s.front) (hd : t.down = l)
    (hmap : t.mDataHttpParserMap = Function.update s.mDataHttpParserMap frame.client.fd o)
    (ho : ∀ p ∈ o, ∃ c, p.owner = some c ∧ ∀ d ∈ p.src, d = c)
    (hevent : ∀ fd cur, frame.event.next fd cur
      = if frame.client.fd = fd then o.bind Parser.owner else cur) : t.Clean := by
  have howner : ∀ fd, t.parserOwner fd = frame.event.next fd (s.parserOwner fd) := fun fd => by
    rw [parserOwner_update hmap, hevent]
  refine ⟨hf ▸ hs.front, hf ▸ hs.done, fun fd p hp => ?_, fun fd => ?_, fun fd c h => ?_⟩
  · rw [hmap] at hp
    by_cases hfd : fd = frame.client.fd
    · subst hfd
      rw [Function.update_self] at hp
      exact ho p hp
    · rw [Function.update_of_ne hfd] at hp
      exact hs.parser fd p hp
  · rw [howner, hd]
    exact (hs.head hl fd).2
  · have hopen : t.openBy fd = s.openBy fd := by
      unfold State.openBy
      rw [howner, hd, hl]
      rfl
    rw [hf]
    exact hs.openBy fd c (hopen ▸ h)

theorem Clean.linkLost {s : State n} (hs : s.Clean)
    (htidy : ∀ x ∈ s.down, x.task = .ProxyClientDisconnectTask →
      (s.mDataHttpParserMap x.client.fd).isNone = true) :
    { s with link := none, down := [] }.Clean := by
  refine ⟨hs.front, hs.done, hs.parser, fun _ => trivial, fun fd c h => ?_⟩
  have hc : s.parserOwner fd = some c := h
  have hdrop : ∀ e ∈ s.down.map Frame.event, e ≠ .drop fd := by
    rintro e he rfl
    obtain ⟨x, hx, hxe⟩ := List.mem_map.mp he
    unfold Frame.event at hxe
    split at hxe
    · exact absurd hxe (by simp)
    · injection hxe with hfd
      have hnone := htidy x hx ‹_›
      rw [hfd, Option.isNone_iff_eq_none] at hnone
      unfold parserOwner at hc
      rw [hnone] at hc
      exact absurd hc (by simp)
  apply hs.openBy fd c
  have hd := hs.down fd
  unfold State.openBy
  rw [hc] at hd ⊢
  exact ownerAfter_of_no_drop hdrop hd

/-! ## all steps -/

/-- a move that queues nothing; when `SendClient2VNC` has returned false, no parser is left -/
theorem Clean.plain {s : State n} (hs : s.Clean) {a : Action n} (hok : s.Tidy a)
    {mv : Front.Move n} {f : Front n} (v : Option VNCClient) (hmv : s.Moves a mv)
    (hplain : Plain mv) (hf : s.front.step mv = some f) :
    { s with front := f, mpVNCClient := v }.Clean := by
  cases hmv with
  | accept | recv | disconnect | pop | find | send =>
    exact hs.move _ (by trivial) (fun _ => by simp) hf rfl rfl rfl
  | close fd => exact absurd hplain id
  | @main client pc idle r hm hr =>
    rcases r with pc' | _ | seq
    · exact hs.move _ (by trivial) (fun _ => by simp) hf rfl rfl rfl
    · have hok' : s.TidyMain idle s.front.main := hok
      rw [hm] at hok'
      have hnone : s.front.Drained client.conn ∧ s.openBy client.fd = none := by
        rcases result_failed hr with ⟨rfl, hoff⟩ | ⟨rfl, hempty⟩
        · apply Or.resolve_left (show _ ∨ _ from hok')
          rw [hoff]
          exact Bool.false_ne_true
        · apply Or.resolve_left (show _ ∨ _ from hok')
          rw [hempty]
          exact Bool.false_ne_true
      rw [Front.step_left hm] at hf
      obtain rfl := Option.some.inj hf
      exact hs.left hm rfl hnone.1 rfl (Or.inl ⟨rfl, hnone.2⟩)
    · exact absurd hplain id

/-- **A step that is `Tidy` keeps every parser to the connection that has its descriptor.** -/
theorem Clean.step {s s' : State n} {a : Action n} (hs : s.Clean) (hok : s.Tidy a)
    (h : s.step a = some s') : s'.Clean := by
  cases step_cases h with
  | move v hmv hplain hf => exact hs.plain hok v hmv hplain hf
  | @queueChunk i idle m client seq v hi hv =>
    refine hs.forwarded hi rfl rfl ?_
    by_cases hlink : s.link = some v.link
    · exact Or.inr (if_pos hlink)
    · exact Or.inl (if_neg hlink)
  | @queueDisconnect idle client seq v hm hv =>
    have hok' : s.TidyMain idle s.front.main := hok
    rw [hm] at hok'
    obtain ⟨hdrained, hopen⟩ : s.front.Drained client.conn ∧ (s.openBy client.fd = none ∨
      s.mpVNCClient.map VNCClient.link = s.link) := hok'
    refine hs.left hm rfl hdrained rfl ?_
    by_cases hlink : s.link = some v.link
    · exact Or.inr ⟨seq, if_pos hlink⟩
    · refine Or.inl ⟨if_neg hlink, hopen.resolve_right ?_⟩
      rw [hv]
      exact fun h => hlink h.symm
  | @close fd f hf => exact hs.move (.close fd) hok (fun _ => by simp) hf rfl rfl rfl
  | linkLost => exact hs.linkLost hok
  | @feed started frame l chunk p requests reject hl ht hp =>
    obtain ⟨howner, hsrc⟩ := hs.feed hl ht hp
    refine hs.recv (o := some p) hl rfl rfl rfl (fun q hq => ?_) fun fd cur => ?_
    · obtain rfl := Option.some.inj hq
      exact ⟨_, howner, hsrc⟩
    · unfold Frame.event
      rw [ht, Option.bind_some, howner]
      rfl
  | forget hl ht =>
    refine hs.recv (o := none) hl rfl rfl rfl (fun q hq => absurd hq (by simp)) fun fd cur => ?_
    unfold Frame.event
    rw [ht]
    rfl
  | connect | vnc | reject | body | finish | cut | reply | skip => exact hs.congr rfl rfl rfl

end State

theorem oneConnection_of_tidy {mHandleSize : Nat} {l : List (Action n)} {s : State n}
    (htidy : RunOk State.step State.Tidy (State.init n mHandleSize) l)
    (hrun : run State.step (State.init n mHandleSize) l = some s) : s.OneConnection :=
  State.Clean.oneConnection (inv_runOk (I := State.Clean) (fun _ _ _ hs hok hstep => hs.step hok hstep)
    (State.Clean.init n mHandleSize) htidy hrun)

/-- **One parser, one connection**, in every run whose steps are `Tidy` and whose frames are whole. -/
theorem parser_of_one {mHandleSize : Nat} {l : List (Event n)} {s : Net n}
    (htidy : RunOk Net.step (Net.Whole State.Tidy) (Net.init n mHandleSize) l)
    (hrun : run Net.step (Net.init n mHandleSize) l = some s) : s.OneConnection := by
  obtain ⟨l', hrun', htidy'⟩ := run_whole htidy hrun
  exact oneConnection_of_tidy htidy' hrun'

def chunkGet : Chunk := ⟨ascii "GET / HTTP/1.1\r\n\r\n", by decide, by decide⟩

/-- a client sends a chunk, which `HttpProxyServer` reads -/
def request5 (chunk : Chunk) : List (Action 2) :=
  [.recv 5 chunk] ++ take 0 ++ forward 0 ++ [.recvCommand true]

/-- two clients with descriptor 5, one after the other -/
def each5 : List (Action 2) :=
  open5 ++ request5 chunkA ++ leave5 ++ [.recvCommand true, .close 5, .accept 5] ++
    request5 chunkB

theorem parser_of_one_each :
    ∃ s, run Net.step (Net.init 2 0) (each5.map .step) = some s ∧ s.OneConnection := by
  have htidy : RunOk Net.step (Net.Whole State.Tidy) (Net.init 2 0) (each5.map .step) := by
    decide
  obtain ⟨s, hrun⟩ := Option.isSome_iff_exists.mp
    (show (run Net.step (Net.init 2 0) (each5.map .step)).isSome = true by decide)
  exact ⟨s, hrun, parser_of_one htidy hrun⟩

/-- the idle list is empty in `OnDisconnect` -/
def left5 : List (Action 2) :=
  open5 ++ request5 chunkA ++ [.disconnect 5, .main true, .main false, .close 5, .accept 5] ++
    request5 chunkB

/-- **The idle list is empty in `OnDisconnect`**: the next client with descriptor 5 gets the parser
of the first one. -/
theorem not_parser_of_one :
    ∃ s, run Net.step (Net.init 2 0) (left5.map .step) = some s ∧ ¬ s.OneConnection := by
  obtain ⟨s, hrun, hsrc⟩ : ∃ s, run Net.step (Net.init 2 0) (left5.map .step) = some s ∧
      (s.mDataHttpParserMap 5).map Parser.src = some [0, 1] := by
    decide
  refine ⟨s, hrun, fun h => ?_⟩
  obtain ⟨p, hp, hpsrc⟩ := Option.map_eq_some_iff.mp hsrc
  obtain ⟨c, hc⟩ := h 5 p hp
  rw [hpsrc] at hc
  have h0 : 0 = c := hc 0 (by decide)
  have h1 : 1 = c := hc 1 (by decide)
  omega

end VncProxy.Proxy
