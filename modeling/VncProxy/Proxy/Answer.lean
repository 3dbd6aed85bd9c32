import VncProxy.Proxy.Relay

/-!
# What a reply carries

`ReturnVNC2Client` writes the parameter of a command over a Message of the idle list, which still has
the `len` and the bytes of its last use, and gives up where the list is empty.

* `State.Requests`        the tasks of the sessions are `ProxyClientTask`s;
* `State.OwnBytes`        the queued Message has the bytes of the command, whatever was recycled;
* `reply_own_bytes_iff`   it does just when the command has at least one.
-/

namespace VncProxy.Relay

variable {s s' : State}

/-! ## the tasks of the sessions -/

/-- only `ProxyClientTask`s are stored -/
def State.Requests (s : State) : Prop :=
  ∀ fd seq t, s.Stores fd seq t → ∃ chunk, t.task = .ProxyClientTask chunk

theorem State.Requests.step {a : Action} (hs : s.Requests) (h : s.step a = some s') :
    s'.Requests := by
  intro fd seq t ht
  rcases (step_effect h).stores fd seq t ht with ht | hchunk
  · exact hs fd seq t ht
  · exact hchunk

theorem State.Requests.init (http vnc : Server) : (State.init http vnc).Requests :=
  fun _ _ _ ⟨_, hss, _⟩ => by cases hss

/-! ## a reply carries only its own bytes -/

/-- the idle list of the HTTP server with another Message in front -/
def State.withIdle (s : State) (m : Message) (idle : List Message) : State :=
  { s with mClientTcpServer := s.mClientTcpServer.pop (m :: idle) }

/-- the Messages that a command adds to the send queue of the HTTP server -/
def State.queuedBy (s : State) (cmd : CMD) : List Message :=
  (s.OnParseCmd cmd).mClientTcpServer.mSendImmediatelyMessageList.drop
    s.mClientTcpServer.mSendImmediatelyMessageList.length

/-- one Message is queued, with the length and the bytes of the command, and it is the same for any two
contents of the recycled one -/
def State.OwnBytes (s : State) (cmd : CMD) : Prop :=
  ∀ (m₁ m₂ : Message) (idle : List Message), m₁.Full → m₂.Full →
    ∃ q₁ q₂, (s.withIdle m₁ idle).queuedBy cmd = [q₁] ∧ (s.withIdle m₂ idle).queuedBy cmd = [q₂] ∧
      q₁.fd = q₂.fd ∧ q₁.len = q₂.len ∧ q₁.data = q₂.data ∧
      (q₁.len : Int) = cmd.header.len.toInt ∧ q₁.data = cmd.param

theorem answer_data (session : Session) {task : Task} {chunk : Chunk}
    (ht : task.task = .ProxyClientTask chunk) {cmd : CMD} (hcmd : cmd.Sendable) (sm : Message) :
    (session.answer task cmd sm).fd = session.client.fd ∧
      (session.answer task cmd sm).len = (if 0 < cmd.header.len.toInt then cmd.param.length else sm.len) ∧
      (session.answer task cmd sm).data
        = if 0 < cmd.header.len.toInt then cmd.param else sm.data := by
  have hn : cmd.header.len.toInt.toNat = cmd.param.length := by
    rw [hcmd.sized, Int.toNat_natCast]
  unfold Session.answer
  rw [ht]
  unfold ITask.GetReturnData
  dsimp only
  split
  · refine ⟨rfl, hn, ?_⟩
    show (memcpy sm.buffer 0 (cmd.param.take _)).take _ = cmd.param
    rw [hn, List.take_length, memcpy_take_self]
  · exact ⟨rfl, rfl, rfl⟩

theorem State.queuedBy_reply {cmd : CMD} (hcmd : cmd.header.cmdt ≠ .CommandTypeProxyDisconnect)
    {session : Session} (hss : s.mClient2SessionMap cmd.header.fd = some session) {task : Task}
    (ht : session.FindRequestTask cmd.header.seq = some task) (m : Message) (idle : List Message) :
    ∃ q, (s.withIdle m idle).queuedBy cmd = [q] ∧ q.fd = (session.answer task cmd m).fd ∧
      q.len = (session.answer task cmd m).len ∧ q.data = (session.answer task cmd m).data := by
  have hret : (s.withIdle m idle).ReturnVNC2Client cmd
      = (s.withIdle m idle).reply session task cmd := by
    unfold State.ReturnVNC2Client
    rw [show (s.withIdle m idle).mClient2SessionMap cmd.header.fd = some session from hss]
    dsimp only
    rw [ht]
  unfold State.queuedBy
  rw [State.OnParseCmd_eq _ hcmd, hret]
  refine ⟨{ session.answer task cmd m with
    seq := s.mClientTcpServer.mpPacketSeqSend (session.answer task cmd m).fd }, ?_, rfl, rfl, rfl⟩
  show (s.mClientTcpServer.mSendImmediatelyMessageList ++ [_]).drop _ = _
  exact List.drop_left

/-- a command without a parameter leaves the recycled Message as it is -/
theorem State.not_ownBytes {cmd : CMD} (hsend : cmd.Sendable)
    (hcmd : cmd.header.cmdt ≠ .CommandTypeProxyDisconnect) {session : Session}
    (hss : s.mClient2SessionMap cmd.header.fd = some session) {task : Task} {chunk : Chunk}
    (ht : session.FindRequestTask cmd.header.seq = some task)
    (hchunk : task.task = .ProxyClientTask chunk) (hpos : ¬ 0 < cmd.header.len.toInt) :
    ¬ s.OwnBytes cmd := by
  intro hown
  -- a recycled Message of one byte
  let m : Message := ⟨0, 0, 1, 0, List.replicate MAX_LOG_BUFFER_LEN 0⟩
  have hfull : m.Full := List.length_replicate
  obtain ⟨q₁, _, hq₁, _, _, _, _, hlen, _⟩ := hown m m [] hfull hfull
  obtain ⟨q, hq, _, hqlen, _⟩ := State.queuedBy_reply hcmd hss ht m []
  obtain rfl : q₁ = q := List.singleton_injective (hq₁.symm.trans hq)
  have hans := (answer_data session hchunk hsend m).2.1
  rw [if_neg hpos] at hans
  rw [hqlen, hans] at hlen
  have : m.len = 1 := rfl
  omega

/-- **The Message queued for a command of `n` bytes is the same for any two contents of the recycled
Message, and carries the bytes of the command, just when `n` is not 0.** -/
theorem reply_own_bytes_iff (http vnc : Server) (l : List Action) (s : State)
    (hrun : run State.step (State.init http vnc) l = some s) (cmd : CMD) (hsend : cmd.Sendable)
    (hcmd : cmd.header.cmdt ≠ .CommandTypeProxyDisconnect) (session : Session)
    (hss : s.mClient2SessionMap cmd.header.fd = some session)
    (hseq : session.FindRequestTask cmd.header.seq ≠ none) :
    s.OwnBytes cmd ↔ 0 < cmd.header.len.toInt := by
  obtain ⟨task, ht⟩ := Option.ne_none_iff_exists'.mp hseq
  have hreq : s.Requests := inv_run (fun _ _ _ hs h => State.Requests.step hs h) (.init http vnc) hrun
  obtain ⟨chunk, hchunk⟩ := hreq _ _ task ⟨session, hss, Session.mem_of_find ht⟩
  constructor
  · intro hown
    by_contra hpos
    exact State.not_ownBytes hsend hcmd hss ht hchunk hpos hown
  · intro hpos m₁ m₂ idle _ _
    obtain ⟨q₁, hq₁, hf₁, hl₁, hd₁⟩ := State.queuedBy_reply hcmd hss ht m₁ idle
    obtain ⟨q₂, hq₂, hf₂, hl₂, hd₂⟩ := State.queuedBy_reply hcmd hss ht m₂ idle
    obtain ⟨ha₁, hb₁, hc₁⟩ := answer_data session hchunk hsend m₁
    obtain ⟨ha₂, hb₂, hc₂⟩ := answer_data session hchunk hsend m₂
    rw [if_pos hpos] at hb₁ hc₁ hb₂ hc₂
    refine ⟨q₁, q₂, hq₁, hq₂, ?_, ?_, ?_, ?_, ?_⟩
    · rw [hf₁, hf₂, ha₁, ha₂]
    · rw [hl₁, hl₂, hb₁, hb₂]
    · rw [hd₁, hd₂, hc₁, hc₂]
    · rw [hl₁, hb₁, hsend.sized]
    · rw [hd₁, hc₁]

/-- a client has sent one byte, and the answer to it has two -/
theorem reply_own_bytes_two :
    ∃ (http vnc : Server) (l : List Action) (s : State) (cmd : CMD),
      run State.step (State.init http vnc) l = some s ∧ cmd.param = [72, 73] ∧ s.OwnBytes cmd := by
  let vnc : Server :=
    ⟨[⟨0, 0, 0, 0, List.replicate MAX_LOG_BUFFER_LEN 0⟩], [], fun _ => 0⟩
  let chunk : Chunk := ⟨[71], by decide, by decide⟩
  let cmd : CMD := ⟨⟨.CommandTypeProxy, 2, 0, 5, false⟩, [72, 73]⟩
  have hrun : ∃ s, run State.step (State.init ⟨[], [], fun _ => 0⟩ vnc)
      [.accept 5, .vncAccept 7, .recv 5 chunk] = some s ∧
      s.mClient2SessionMap 5 = some ⟨⟨5, 0, true⟩, [(0, ⟨0, .ProxyClientTask chunk⟩)]⟩ :=
    ⟨_, rfl, rfl⟩
  obtain ⟨s, hs, hss⟩ := hrun
  exact ⟨_, vnc, _, s, cmd, hs, rfl, (reply_own_bytes_iff _ vnc _ s hs cmd (by decide) (by decide) _ hss
    (by decide)).mpr (by decide)⟩

/-- the answer to the byte is a command with no parameter -/
theorem not_reply_own_bytes :
    ¬ ∀ (http vnc : Server) (l : List Action) (s : State),
      run State.step (State.init http vnc) l = some s → ∀ cmd : CMD, cmd.Sendable →
        cmd.header.cmdt ≠ .CommandTypeProxyDisconnect → ∀ session,
        s.mClient2SessionMap cmd.header.fd = some session →
        session.FindRequestTask cmd.header.seq ≠ none → s.OwnBytes cmd := by
  intro hall
  let vnc : Server :=
    ⟨[⟨0, 0, 0, 0, List.replicate MAX_LOG_BUFFER_LEN 0⟩], [], fun _ => 0⟩
  let chunk : Chunk := ⟨[71], by decide, by decide⟩
  let cmd : CMD := ⟨⟨.CommandTypeProxy, 0, 0, 5, false⟩, []⟩
  have hrun : ∃ s, run State.step (State.init ⟨[], [], fun _ => 0⟩ vnc)
      [.accept 5, .vncAccept 7, .recv 5 chunk] = some s ∧
      s.mClient2SessionMap 5 = some ⟨⟨5, 0, true⟩, [(0, ⟨0, .ProxyClientTask chunk⟩)]⟩ :=
    ⟨_, rfl, rfl⟩
  obtain ⟨s, hs, hss⟩ := hrun
  have hsend : cmd.Sendable := by decide
  have hcmd : cmd.header.cmdt ≠ .CommandTypeProxyDisconnect := by decide
  let task : Task := ⟨0, .ProxyClientTask chunk⟩
  have ht : Session.FindRequestTask ⟨⟨5, 0, true⟩, [(0, task)]⟩ cmd.header.seq = some task := rfl
  exact State.not_ownBytes hsend hcmd hss ht rfl (by decide)
    (hall _ vnc _ s hs cmd hsend hcmd _ hss (by decide))

end VncProxy.Relay
