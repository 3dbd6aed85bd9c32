import VncProxy.Proxy.Parser

/-!
# Replies

`ReturnVNC2Client` finds the client of a reply by the descriptor and the seq in its header.

* `Tag`, `State.tags`     these two for all that is on its way to become a reply: unread chunks,
                          HttpRequests and replies not yet parsed;
* `State.Distinct`        the condition on a step: a chunk is not queued under a tag that bytes of
                          another connection are on their way with;
* `State.Isolated`        the tags that a session knows are those of its own connection;
* `reply_own`             a reply goes to the connection whose bytes started its HttpRequest.
-/

namespace VncProxy.Proxy

structure Tag where
  fd : Nat
  seq : CInt
  src : List Nat
deriving DecidableEq

def Frame.tag (x : Frame) : Option Tag :=
  match x.task with
  | .ProxyClientTask _ => some ⟨x.client.fd, x.seq, [x.src]⟩
  | .ProxyClientDisconnectTask => none

theorem Frame.tag_eq {x : Frame} {t : Tag} (h : x.tag = some t) :
    t = ⟨x.client.fd, x.seq, [x.src]⟩ := by
  unfold Frame.tag at h
  split at h
  · exact (Option.some.inj h).symm
  · exact absurd h (by simp)

def Request.tag (r : Request) : Tag := ⟨r.fd, r.seq, r.src⟩

def Command.tag : Command → Option Tag
  | .proxy fd seq src _ => some ⟨fd, seq, src⟩
  | .disconnect _ _ => none

/-- the reply was queued for the connection whose bytes started its HttpRequest -/
def Reply.Own (r : Reply) : Prop := ∃ c, r.holder = some c ∧ r.src ≠ [] ∧ ∀ d ∈ r.src, d = c

variable {n : Nat}

namespace State

/-- what is on its way to become a reply -/
def tags (s : State n) : List Tag :=
  s.down.filterMap Frame.tag ++ s.requests.map Request.tag ++
    (List.range s.links).flatMap fun g => (s.up g).filterMap Command.tag

def Carries (s : State n) (t : Tag) : Prop :=
  (∃ x ∈ s.down, x.tag = some t) ∨ (∃ r ∈ s.requests, r.tag = t) ∨
    ∃ g, ∃ cmd ∈ s.up g, cmd.tag = some t

theorem mem_tags {s : State n} (hs : s.Linked) {t : Tag} : t ∈ s.tags ↔ s.Carries t := by
  unfold tags Carries
  rw [List.mem_append, List.mem_append, List.mem_filterMap, List.mem_map, List.mem_flatMap, or_assoc]
  constructor
  · rintro (h | h | ⟨g, _, h⟩)
    · exact Or.inl h
    · exact Or.inr (Or.inl h)
    · exact Or.inr (Or.inr ⟨g, List.mem_filterMap.mp h⟩)
  · rintro (h | h | ⟨g, cmd, hcmd, h⟩)
    · exact Or.inl h
    · exact Or.inr (Or.inl h)
    · exact Or.inr (Or.inr ⟨g, List.mem_range.mpr (hs.up g cmd hcmd),
        List.mem_filterMap.mpr ⟨cmd, hcmd, h⟩⟩)

/-- nothing of another connection is on its way with this descriptor and seq -/
def Fresh (s : State n) (client : Client) (seq : CInt) : Prop :=
  ∀ t ∈ s.tags, t.fd = client.fd → t.seq = seq → ∀ c ∈ t.src, c = client.conn

def FreshOf (s : State n) : HandlerPc → Prop
  | .send _ client (.queue seq) => s.Fresh client seq
  | _ => True

/-- a handler queues a chunk under a fresh tag -/
def Tagged (s : State n) : Action n → Prop
  | .handler i _ => s.FreshOf (s.front.handler i)
  | _ => True

def Distinct (s : State n) (a : Action n) : Prop := s.Tidy a ∧ s.Tagged a

instance (s : State n) (client : Client) (seq : CInt) : Decidable (s.Fresh client seq) :=
  inferInstanceAs (Decidable (∀ t ∈ s.tags, t.fd = client.fd → t.seq = seq →
    ∀ c ∈ t.src, c = client.conn))

instance (s : State n) : ∀ pc, Decidable (s.FreshOf pc)
  | .send _ client (.queue seq) => inferInstanceAs (Decidable (s.Fresh client seq))
  | .popFront | .find _ | .send _ _ .check | .send _ _ .popIdle | .send _ _ .addSeq =>
    .isTrue trivial

instance (s : State n) : ∀ a, Decidable (s.Tagged a)
  | .handler _ _ => inferInstanceAs (Decidable (s.FreshOf _))
  | .accept _ | .recv .. | .disconnect _ | .main _ | .close _ | .connect | .linkLost | .vncAccept
  | .vncDisconnect | .vncClose | .recvCommand _ | .reject _ | .receiveBody .. | .finish ..
  | .parseCmd _ => .isTrue trivial

instance (s : State n) (a : Action n) : Decidable (s.Distinct a) :=
  inferInstanceAs (Decidable (_ ∧ _))

/-- if the session of the descriptor knows the seq, the tag is the session's connection's -/
def Owned (s : State n) (t : Tag) : Prop :=
  t.src ≠ [] ∧ ∀ ss, s.mClient2SessionMap t.fd = some ss → t.seq ∈ ss.mRequestTaskMap →
    ∀ c ∈ t.src, c = ss.client.conn

structure Isolated (s : State n) : Prop where
  clean : s.Clean
  linked : s.Linked
  session : ∀ fd ss, s.mClient2SessionMap fd = some ss →
    ss.client.fd = fd ∧ s.front.holder fd = some ss.client.conn
  owned : ∀ t, s.Carries t → s.Owned t
  replied : ∀ r ∈ s.replied, r.Own

theorem Isolated.init (n mHandleSize : Nat) : (State.init n mHandleSize).Isolated where
  clean := Clean.init ..
  linked := Linked.init ..
  session _ _ h := absurd h (by simp [State.init])
  owned t h := by
    rcases h with ⟨_, h, _⟩ | ⟨_, h, _⟩ | ⟨_, _, h, _⟩ <;> exact absurd h List.not_mem_nil
  replied _ h := absurd h List.not_mem_nil

/-- steps that leave the sessions and bring no tag of another connection -/
theorem Isolated.congr {s t : State n} (hs : s.Isolated) (hclean : t.Clean) (hlinked : t.Linked)
    (hmap : t.mClient2SessionMap = s.mClient2SessionMap)
    (hholder : ∀ fd c, s.front.holder fd = some c → t.front.holder fd = some c)
    (howned : ∀ x, t.Carries x → s.Carries x ∨ s.Owned x) (hreplied : t.replied = s.replied) :
    t.Isolated := by
  refine ⟨hclean, hlinked, fun fd ss h => ?_, fun x hx => ?_, hreplied ▸ hs.replied⟩
  · obtain ⟨h1, h2⟩ := hs.session fd ss (hmap ▸ h)
    exact ⟨h1, hholder _ _ h2⟩
  · unfold Owned
    rw [hmap]
    rcases howned x hx with hx | hx
    · exact hs.owned x hx
    · exact hx

/-- the tags where at most the unread frames, the requests and the connections have shrunk -/
theorem Carries.mono {s t : State n} {x : Tag} (h : t.Carries x) (hd : ∀ y ∈ t.down, y ∈ s.down)
    (hr : ∀ r ∈ t.requests, r ∈ s.requests) (hu : ∀ g, ∀ cmd ∈ t.up g, cmd ∈ s.up g) :
    s.Carries x := by
  rcases h with ⟨y, hy, h⟩ | ⟨r, hr', h⟩ | ⟨g, cmd, hcmd, h⟩
  · exact Or.inl ⟨y, hd y hy, h⟩
  · exact Or.inr (Or.inl ⟨r, hr r hr', h⟩)
  · exact Or.inr (Or.inr ⟨g, cmd, hu g cmd hcmd, h⟩)

theorem Carries.written {s t : State n} {up : Nat → List Command} {cmd : Command} {x : Tag}
    (h : t.Carries x) (hup : s.Written up cmd) (hu : t.up = up) (hd : t.down = s.down)
    (hr : ∀ r ∈ t.requests, r ∈ s.requests) : s.Carries x ∨ cmd.tag = some x := by
  subst hu
  rcases h with ⟨y, hy, h⟩ | ⟨r, hr', h⟩ | ⟨g, cmd', hcmd, h⟩
  · exact Or.inl (Or.inl ⟨y, hd ▸ hy, h⟩)
  · exact Or.inl (Or.inr (Or.inl ⟨r, hr r hr', h⟩))
  · rcases hup g cmd' hcmd with hcmd | ⟨rfl, _⟩
    · exact Or.inl (Or.inr (Or.inr ⟨g, cmd', hcmd, h⟩))
    · exact Or.inr h

theorem carries_queue {s : State n} {v : VNCClient} {frame : Frame} {needReturn : Bool} {x : Tag}
    (h : (s.queue v frame needReturn).Carries x) : s.Carries x ∨ frame.tag = some x := by
  rcases h with ⟨y, hy, h⟩ | h
  · have hy' : y ∈ if s.link = some v.link then s.down ++ [frame] else s.down := hy
    split at hy'
    · rcases List.mem_append.mp hy' with hy' | hy'
      · exact Or.inl (Or.inl ⟨y, hy', h⟩)
      · exact Or.inr (List.mem_singleton.mp hy' ▸ h)
    · exact Or.inl (Or.inl ⟨y, hy', h⟩)
  · exact Or.inl (Or.inr h)

theorem Isolated.queued_session {s : State n} (hs : s.Isolated) {frame : Frame} {needReturn : Bool}
    (hclient : s.front.holder frame.client.fd = some frame.client.conn) {v : VNCClient}
    {ss : Session}
    (h : (s.queue v frame needReturn).mClient2SessionMap frame.client.fd = some ss) :
    ss.client = frame.client ∧ ∀ seq ∈ ss.mRequestTaskMap,
      (needReturn = true ∧ seq = frame.seq) ∨
        ∃ old, s.mClient2SessionMap frame.client.fd = some old ∧ seq ∈ old.mRequestTaskMap ∧
          old.client = frame.client := by
  have hupdate : (s.queue v frame needReturn).mClient2SessionMap frame.client.fd
      = some (if needReturn then
          ((s.mClient2SessionMap frame.client.fd).getD ⟨frame.client, []⟩).InsertRequestTask
            frame.seq
        else (s.mClient2SessionMap frame.client.fd).getD ⟨frame.client, []⟩) :=
    Function.update_self ..
  rw [hupdate] at h
  obtain rfl := Option.some.inj h
  -- the session found or made
  have hold : ((s.mClient2SessionMap frame.client.fd).getD ⟨frame.client, []⟩).client = frame.client ∧
      ∀ seq ∈ ((s.mClient2SessionMap frame.client.fd).getD ⟨frame.client, []⟩).mRequestTaskMap,
        ∃ old, s.mClient2SessionMap frame.client.fd = some old ∧ seq ∈ old.mRequestTaskMap ∧
          old.client = frame.client := by
    cases hmap : s.mClient2SessionMap frame.client.fd with
    | none => exact ⟨rfl, fun _ hseq => absurd hseq List.not_mem_nil⟩
    | some old =>
      obtain ⟨h1, h2⟩ := hs.session _ _ hmap
      have hc : old.client = frame.client := by
        rw [hclient] at h2
        obtain ⟨⟨fd, conn⟩, tasks⟩ := old
        obtain ⟨⟨fd', conn'⟩, src, seq, task⟩ := frame
        have h1' : fd = fd' := h1
        have h2' : conn' = conn := Option.some.inj h2
        rw [h1', h2']
      exact ⟨hc, fun seq hseq => ⟨old, rfl, hseq, hc⟩⟩
  cases needReturn with
  | false => exact ⟨hold.1, fun seq hseq => Or.inr (hold.2 seq hseq)⟩
  | true =>
    refine ⟨(Session.InsertRequestTask_client ..).trans hold.1, fun seq hseq => ?_⟩
    rcases Session.mem_InsertRequestTask hseq with hseq | hseq
    · exact Or.inr (hold.2 seq hseq)
    · exact Or.inl ⟨rfl, hseq⟩

/-- **`SendClient2VNC` queues a frame.** -/
theorem Isolated.queue {s t : State n} (hs : s.Isolated) (v : VNCClient) (frame : Frame)
    (needReturn : Bool) (hclean : t.Clean) (hlinked : t.Linked)
    (hclient : s.front.holder frame.client.fd = some frame.client.conn)
    (hsrc : frame.src = frame.client.conn)
    (hfresh : needReturn = true → s.Fresh frame.client frame.seq)
    (hmap : t.mClient2SessionMap = (s.queue v frame needReturn).mClient2SessionMap)
    (hholder : ∀ fd c, s.front.holder fd = some c → t.front.holder fd = some c)
    (hcarries : ∀ x, t.Carries x → (s.queue v frame needReturn).Carries x)
    (hreplied : t.replied = s.replied) : t.Isolated := by
  have hother : ∀ fd, fd ≠ frame.client.fd →
      t.mClient2SessionMap fd = s.mClient2SessionMap fd := fun fd hfd => by
    rw [hmap]
    exact Function.update_of_ne hfd ..
  refine ⟨hclean, hlinked, fun fd ss h => ?_, fun x hx => ⟨?_, fun ss h hseq c hc => ?_⟩,
    hreplied ▸ hs.replied⟩
  · by_cases hfd : fd = frame.client.fd
    · subst hfd
      rw [hmap] at h
      rw [(hs.queued_session hclient h).1]
      exact ⟨rfl, hholder _ _ hclient⟩
    · rw [hother fd hfd] at h
      obtain ⟨h1, h2⟩ := hs.session fd ss h
      exact ⟨h1, hholder _ _ h2⟩
  · rcases carries_queue (hcarries x hx) with hx | hx
    · exact (hs.owned x hx).1
    · rw [Frame.tag_eq hx]
      exact List.cons_ne_nil _ _
  · by_cases hfd : x.fd = frame.client.fd
    · rw [hmap, hfd] at h
      obtain ⟨hss, htasks⟩ := hs.queued_session hclient h
      rw [hss]
      rcases carries_queue (hcarries x hx) with hx | hx
      · rcases htasks _ hseq with ⟨hreturn, hseq⟩ | ⟨old, hold, hseq, hc'⟩
        · exact hfresh hreturn x ((mem_tags hs.linked).mpr hx) hfd hseq c hc
        · rw [← hc']
          exact (hs.owned x hx).2 old (hfd ▸ hold) hseq c hc
      · rw [Frame.tag_eq hx] at hc
        rw [List.mem_singleton.mp hc, hsrc]
    · rw [hother x.fd hfd] at h
      rcases carries_queue (hcarries x hx) with hx | hx
      · exact (hs.owned x hx).2 ss h hseq c hc
      · exact absurd (congrArg Tag.fd (Frame.tag_eq hx)) hfd

theorem Isolated.feed {s : State n} (hs : s.Isolated) {frame : Frame} {l : List Frame}
    {chunk : Chunk} {p : Parser} (hl : s.down = frame :: l)
    (ht : frame.task = .ProxyClientTask chunk)
    (hp : p.fed = ((s.mDataHttpParserMap frame.client.fd).getD ⟨.new, []⟩).fed
      ++ [(frame.src, chunk)]) : s.Owned ⟨frame.client.fd, frame.seq, p.src⟩ := by
  have hsrc := (hs.clean.feed hl ht hp).2
  -- the frame had this tag, and its connection is that of the whole parser
  have htag : frame.tag = some ⟨frame.client.fd, frame.seq, [frame.src]⟩ := by
    unfold Frame.tag
    rw [ht]
  have hframe := hs.owned _ (Or.inl ⟨frame, hl ▸ List.mem_cons_self, htag⟩)
  refine ⟨Parser.src_ne_nil hp, fun ss hss hseq c hc => ?_⟩
  rw [hsrc c hc]
  exact hframe.2 ss hss hseq _ (List.mem_singleton_self _)

/-- **A step that is `Distinct` keeps the tags of a session to its connection.** -/
theorem Isolated.step {s s' : State n} {a : Action n} (hs : s.Isolated) (hok : s.Distinct a)
    (h : s.step a = some s') : s'.Isolated := by
  have hclean := hs.clean.step hok.1 h
  have hlinked := hs.linked.step h
  cases step_cases h with
  | move v hmv hplain hf =>
    exact hs.congr hclean hlinked rfl (fun fd _ => Front.holder_step hf (hplain.ne_close fd))
      (fun _ => Or.inl) rfl
  | @queueChunk i idle m client seq v hi hv =>
    have htagged : s.FreshOf (s.front.handler i) := hok.2
    rw [hi] at htagged
    obtain ⟨rfl, hc⟩ := hs.clean.front.send hi
    exact hs.queue v ⟨_, m.conn, seq, _⟩ true hclean hlinked hc rfl (fun _ => htagged) rfl
      (fun _ _ => id) (fun _ => id) rfl
  | @queueDisconnect idle client seq v hm hv =>
    exact hs.queue v _ false hclean hlinked (hs.clean.front.main client _ hm).1 rfl
      (fun h => absurd h (by simp)) rfl (fun _ _ => id) (fun _ => id) rfl
  | @close fd f hf =>
    have hkeep : ∀ fd' ss, Function.update s.mClient2SessionMap fd none fd' = some ss →
        fd' ≠ fd ∧ s.mClient2SessionMap fd' = some ss := by
      intro fd' ss hss
      by_cases hfd : fd' = fd
      · subst hfd
        rw [Function.update_self] at hss
        exact absurd hss (by simp)
      · rw [Function.update_of_ne hfd] at hss
        exact ⟨hfd, hss⟩
    refine ⟨hclean, hlinked, fun fd' ss hss => ?_, fun x hx => ?_, hs.replied⟩
    · obtain ⟨hfd, hss⟩ := hkeep fd' ss hss
      obtain ⟨h1, h2⟩ := hs.session fd' ss hss
      exact ⟨h1, Front.holder_step hf (fun he => hfd (Front.Move.close.inj he).symm) h2⟩
    · obtain ⟨h1, h2⟩ := hs.owned x hx
      exact ⟨h1, fun ss hss => h2 ss (hkeep x.fd ss hss).2⟩
  | connect =>
    exact hs.congr hclean hlinked rfl (fun _ _ => id) (fun _ => Or.inl) rfl
  | linkLost =>
    refine hs.congr hclean hlinked rfl (fun _ _ => id) (fun x hx => Or.inl (hx.mono ?_ ?_ ?_)) rfl
    · exact fun _ hy => absurd hy List.not_mem_nil
    · exact fun _ => id
    · exact fun _ _ => id
  | vnc v accepted ha hup =>
    exact hs.congr hclean hlinked rfl (fun _ _ => id)
      (fun x hx => Or.inl (hx.mono (fun _ => id) (fun _ => id) hup)) rfl
  | @feed started frame l chunk p requests reject hl ht hp hrequests =>
    refine hs.congr hclean hlinked rfl (fun _ _ => id) (fun x hx => ?_) rfl
    rcases hx with ⟨y, hy, htag⟩ | ⟨q, hq, htag⟩ | hx
    · exact Or.inl (Or.inl ⟨y, hl ▸ List.mem_cons_of_mem _ hy, htag⟩)
    · rcases hrequests with rfl | rfl
      · exact Or.inl (Or.inr (Or.inl ⟨q, hq, htag⟩))
      · rcases List.mem_append.mp hq with hq | hq
        · exact Or.inl (Or.inr (Or.inl ⟨q, hq, htag⟩))
        · obtain rfl := List.mem_singleton.mp hq
          exact Or.inr (htag ▸ hs.feed hl ht hp)
    · exact Or.inl (Or.inr (Or.inr hx))
  | forget hl =>
    refine hs.congr hclean hlinked rfl (fun _ _ => id) (fun x hx => Or.inl (hx.mono ?_ ?_ ?_)) rfl
    · exact fun y hy => hl ▸ List.mem_cons_of_mem _ hy
    · exact fun _ => id
    · exact fun _ _ => id
  | reject hx hup =>
    refine hs.congr hclean hlinked rfl (fun _ _ => id) (fun x hx => ?_) rfl
    exact (hx.written hup rfl rfl fun _ => id).imp id fun h => absurd h (by simp [Command.tag])
  | @body i param sent r up hr hup =>
    refine hs.congr hclean hlinked rfl (fun _ _ => id) (fun x hx => Or.inl ?_) rfl
    rcases hx.written hup rfl rfl fun _ => id with hx | hx
    · exact hx
    · exact Or.inr (Or.inl ⟨r, hr, Option.some.inj hx⟩)
  | finish hr hup =>
    refine hs.congr hclean hlinked rfl (fun _ _ => id) (fun x hx => ?_) rfl
    exact (hx.written hup rfl rfl fun _ => List.mem_of_mem_eraseIdx).imp id
      fun h => absurd h (by simp [Command.tag])
  | cut hl =>
    exact hs.congr hclean hlinked rfl (fun _ _ => id)
      (fun x hx => Or.inl (hx.mono (fun _ => id) (fun _ => id) fun _ _ => mem_up_tail hl)) rfl
  | @reply idle g fd seq src param l ss hl hss hseq =>
    -- the session that knows the tag of the reply is that of its own connection
    obtain ⟨h1, h2⟩ := hs.session fd ss hss
    obtain ⟨hne, hown⟩ := hs.owned ⟨fd, seq, src⟩
      (Or.inr (Or.inr ⟨g, _, hl ▸ List.mem_cons_self, rfl⟩))
    have hsame := hs.congr (t := { s with up := Function.update s.up g l })
      (hclean.congr rfl rfl rfl) ⟨hlinked.link, hlinked.up⟩ rfl (fun _ _ => id)
      (fun x hx => Or.inl (hx.mono (fun _ => id) (fun _ => id) fun _ _ => mem_up_tail hl)) rfl
    refine ⟨hclean, hlinked, hsame.session, hsame.owned, fun r hr => ?_⟩
    rcases List.mem_append.mp hr with hr | hr
    · exact hs.replied r hr
    · obtain rfl := List.mem_singleton.mp hr
      refine ⟨ss.client.conn, ?_, hne, hown ss hss hseq⟩
      show s.front.holder ss.client.fd = _
      rw [h1]
      exact h2
  | skip hl =>
    exact hs.congr hclean hlinked rfl (fun _ _ => id)
      (fun x hx => Or.inl (hx.mono (fun _ => id) (fun _ => id) fun _ _ => mem_up_tail hl)) rfl

end State

def reply : List (Action 2) := [.receiveBody 0 [1] true, .parseCmd true]

/-- the link drops and is made again -/
def reconnect : List (Action 2) := [.linkLost, .vncDisconnect, .vncClose, .connect, .vncAccept]

/-- a client has closed when the link drops, and the next one has its descriptor and seq 0 again -/
def late5 : List (Action 2) :=
  open5 ++ request5 chunkGet ++ leave5 ++ [.recvCommand true, .close 5] ++ reconnect ++
    [.accept 5] ++ request5 chunkGet ++ reply

end VncProxy.Proxy
