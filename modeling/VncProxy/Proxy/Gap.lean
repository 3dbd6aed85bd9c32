import Mathlib.Data.List.Induction
import VncProxy.Proxy.Answer

/-!
# No gap in a response

`ReturnVNC2Client` gives up where the idle list of the HTTP server is empty, and `OnParseCmd` does not
look at its result.  So a later command for the same client is answered as if nothing had happened.

* `payloads`, `queuedPayloads`  what has come and what was queued, each with its place;
* `State.NoGap`           the payloads queued for a connection are a prefix of those that have come;
* `prefix_concat_iff`     what one more arrival does;
* `State.Steady`          the condition on a step;
* `replies_no_gap_iff`    a run has no gap just when its steps keep to the condition.
-/

namespace VncProxy.Relay

variable {s s' : State}

/-! ## the payloads of a connection -/

/-- the payloads that have come, each with its place in the order of arrival -/
def payloads (l : List Arrival) : List (Nat × List Byte) := l.mapIdx fun i x => (i, x.cmd.param)

/-- those that were queued: what the client is sent, under the place of its command -/
def queuedPayloads (l : List Arrival) : List (Nat × List Byte) :=
  (l.mapIdx fun i x => x.queued.map fun m => (i, m.data)).filterMap id

/-- what has come for a connection -/
def State.arrivals (s : State) (conn : Nat) : List Arrival := s.arrived.filter (·.conn == conn)

/-- the payloads queued for a connection are a prefix of those that have come -/
def State.NoGap (s : State) : Prop :=
  ∀ conn, queuedPayloads (s.arrivals conn) <+: payloads (s.arrivals conn)

theorem payloads_concat (l : List Arrival) (x : Arrival) :
    payloads (l ++ [x]) = payloads l ++ [(l.length, x.cmd.param)] := by
  unfold payloads
  rw [List.mapIdx_concat]

theorem queuedPayloads_concat (l : List Arrival) (x : Arrival) :
    queuedPayloads (l ++ [x])
      = queuedPayloads l ++ (x.queued.map fun m => (l.length, m.data)).toList := by
  unfold queuedPayloads
  rw [List.mapIdx_concat, List.filterMap_append]
  cases x.queued <;> rfl

theorem payloads_length (l : List Arrival) : (payloads l).length = l.length := List.length_mapIdx

theorem payloads_lt {l : List Arrival} {e : Nat × List Byte} (he : e ∈ payloads l) :
    e.1 < l.length := by
  obtain ⟨i, hi, rfl⟩ := List.mem_mapIdx.mp he
  exact hi

theorem queuedPayloads_length (l : List Arrival) :
    (queuedPayloads l).length = (l.filter fun x => x.queued.isSome).length := by
  induction l using List.reverseRecOn with
  | nil => rfl
  | append_singleton l x ih =>
    rw [queuedPayloads_concat, List.length_append, List.filter_append, List.length_append, ih]
    congr 1
    cases hx : x.queued <;> simp [hx]

theorem queuedPayloads_length_le (l : List Arrival) : (queuedPayloads l).length ≤ l.length := by
  rw [queuedPayloads_length]
  exact List.length_filter_le _ l

theorem queuedPayloads_length_eq {l : List Arrival} :
    (queuedPayloads l).length = l.length ↔ ∀ x ∈ l, x.queued.isSome = true := by
  rw [queuedPayloads_length, List.length_filter_eq_length_iff]

/-- **One more arrival**: there is no gap behind it just when there was none before, and nothing is
queued or nothing was dropped before and what is queued are the bytes of the command. -/
theorem prefix_concat_iff (l : List Arrival) (x : Arrival) :
    queuedPayloads (l ++ [x]) <+: payloads (l ++ [x]) ↔ queuedPayloads l <+: payloads l ∧
      ∀ m ∈ x.queued, (∀ y ∈ l, y.queued.isSome = true) ∧ m.data = x.cmd.param := by
  rw [queuedPayloads_concat, payloads_concat]
  constructor
  · intro hpre
    have hl : queuedPayloads l <+: payloads l := by
      refine List.prefix_of_prefix_length_le ((List.prefix_append _ _).trans hpre)
        (List.prefix_append _ _) ?_
      rw [payloads_length]
      exact queuedPayloads_length_le l
    refine ⟨hl, fun m hm => ?_⟩
    rw [Option.mem_def.mp hm] at hpre
    obtain ⟨r, hr⟩ := hpre
    obtain ⟨t, ht⟩ := hl
    rw [← ht, List.append_assoc, List.append_assoc] at hr
    have hcancel := List.append_cancel_left hr
    cases t with
    | nil =>
      obtain ⟨h1, _⟩ := List.cons.inj hcancel
      refine ⟨queuedPayloads_length_eq.mp ?_, (Prod.mk.inj h1).2⟩
      rw [← payloads_length l, ← ht, List.append_nil]
    | cons e t =>
      -- the place of the new payload would be that of an earlier one
      obtain ⟨h1, _⟩ := List.cons.inj hcancel
      have hlt : e.1 < l.length := payloads_lt (ht ▸ List.mem_append_right _ List.mem_cons_self)
      rw [← h1] at hlt
      exact absurd hlt (Nat.lt_irrefl _)
  · rintro ⟨hl, hx⟩
    cases hq : x.queued with
    | none =>
      show queuedPayloads l ++ [] <+: _
      rw [List.append_nil]
      exact hl.trans (List.prefix_append _ _)
    | some m =>
      obtain ⟨hall, hdata⟩ := hx m hq
      have heq : queuedPayloads l = payloads l := by
        apply hl.eq_of_length
        rw [queuedPayloads_length_eq.mpr hall, payloads_length]
      rw [heq, ← hdata]
      exact List.prefix_rfl

/-! ## a step -/

/-- if there is an idle Message for the answer, there was one for every earlier one on the connection,
and the answer has a byte or the Message is as good as new -/
def State.SteadyFor (s : State) (cmd : CMD) (session : Session) : Prop :=
  ∀ sm ∈ s.mClientTcpServer.mIdleMessageList.head?,
    (∀ x ∈ s.arrivals session.client.conn, x.idle ≠ none) ∧ (0 < cmd.header.len.toInt ∨ sm.len = 0)

def State.Steady (s : State) : Action → Prop
  | .parseCmd cmd => cmd.header.cmdt ≠ .CommandTypeProxyDisconnect →
      ∀ session ∈ s.mClient2SessionMap cmd.header.fd,
        session.FindRequestTask cmd.header.seq ≠ none → s.SteadyFor cmd session
  | _ => True

instance : DecidableRel State.Steady := fun s a =>
  match a with
  | .parseCmd cmd => inferInstanceAs (Decidable (cmd.header.cmdt ≠ .CommandTypeProxyDisconnect →
      ∀ session ∈ s.mClient2SessionMap cmd.header.fd, session.FindRequestTask cmd.header.seq ≠ none →
        ∀ sm ∈ s.mClientTcpServer.mIdleMessageList.head?,
          (∀ x ∈ s.arrivals session.client.conn, x.idle ≠ none) ∧
            (0 < cmd.header.len.toInt ∨ sm.len = 0)))
  | .accept _ | .disconnect _ | .close _ | .recv .. | .vncAccept _ | .vncDisconnect _ | .vncClose _
  | .servers .. => .isTrue trivial

/-- the entry that `ReturnVNC2Client` leaves -/
def arrival (s : State) (session : Session) (task : Task) (cmd : CMD) : Arrival :=
  ⟨session.client.conn, cmd, s.mClientTcpServer.mIdleMessageList.head?,
    s.mClientTcpServer.mIdleMessageList.head?.map (session.answer task cmd)⟩

theorem State.reply_arrived (s : State) (session : Session) (task : Task) (cmd : CMD) :
    (s.reply session task cmd).2.arrived = s.arrived ++ [arrival s session task cmd] := by
  unfold State.reply arrival
  cases s.mClientTcpServer.mIdleMessageList <;> rfl

theorem step_parseCmd {cmd : CMD} (h : s.step (.parseCmd cmd) = some s') :
    cmd.Sendable ∧ s' = s.OnParseCmd cmd := by
  change (if _ then _ else _) = some s' at h
  split at h
  · next hc => exact ⟨hc.2, (Option.some.inj h).symm⟩
  · cases h

theorem step_servers (s : State) {http vnc : Server} (hhttp : http.Full) (hvnc : vnc.Full) :
    s.step (.servers http vnc)
      = some { s with mClientTcpServer := http, mClientTcpVNCServer := vnc } := if_pos ⟨hhttp, hvnc⟩

/-! ## what the runs keep -/

structure State.Kept (s : State) : Prop where
  requests : s.Requests
  full : ∀ m ∈ s.mClientTcpServer.mIdleMessageList, m.Full
  queued : ∀ x ∈ s.arrived, x.queued.isSome = true ↔ x.idle ≠ none

theorem State.Kept.init {http : Server} (hfull : http.Full) (vnc : Server) :
    (State.init http vnc).Kept := ⟨.init http vnc, hfull.idle, nofun⟩

theorem State.Kept.step {a : Action} (hs : s.Kept) (h : s.step a = some s') : s'.Kept := by
  have he := step_effect h
  refine ⟨hs.requests.step h, he.http.elim (fun hm m h => hs.full m (hm m h)) Server.Full.idle, ?_⟩
  rcases he.arrived with harrived | ⟨cmd, rfl⟩
  · rw [harrived]
    exact hs.queued
  · obtain ⟨_, rfl⟩ := step_parseCmd h
    rcases s.OnParseCmd_cases cmd with ⟨he, _⟩ | ⟨session, task, _, _, _, he⟩
    · rw [he]
      exact hs.queued
    · intro x hx
      rw [he, State.reply_arrived] at hx
      rcases List.mem_append.mp hx with hx | hx
      · exact hs.queued x hx
      · rw [List.mem_singleton.mp hx]
        unfold arrival
        cases s.mClientTcpServer.mIdleMessageList <;> simp

/-- the answer has the bytes of the command just when it has one, or the Message is as good as new -/
theorem answer_data_eq_iff (session : Session) {task : Task} {chunk : Chunk}
    (ht : task.task = .ProxyClientTask chunk) {cmd : CMD} (hcmd : cmd.Sendable) {sm : Message}
    (hfull : sm.Full) :
    (session.answer task cmd sm).data = cmd.param ↔ 0 < cmd.header.len.toInt ∨ sm.len = 0 := by
  rw [(answer_data session ht hcmd sm).2.2]
  by_cases hpos : 0 < cmd.header.len.toInt
  · rw [if_pos hpos]
    exact iff_of_true rfl (.inl hpos)
  · have hnil : cmd.param = [] := by
      have hpos' := hpos
      rw [hcmd.sized] at hpos'
      exact List.length_eq_zero_iff.mp (by omega)
    have hmax : sm.buffer.length = MAX_LOG_BUFFER_LEN := hfull
    rw [if_neg hpos, hnil, or_iff_right hpos]
    unfold Message.data
    rw [List.take_eq_nil_iff, or_iff_left]
    intro h
    rw [h] at hmax
    exact absurd hmax (by decide)

theorem State.arrivals_reply (s : State) (session : Session) (task : Task) (cmd : CMD) (conn : Nat) :
    (s.reply session task cmd).2.arrivals conn = if session.client.conn = conn
      then s.arrivals conn ++ [arrival s session task cmd] else s.arrivals conn := by
  unfold State.arrivals
  rw [State.reply_arrived, List.filter_append]
  split
  · next h => rw [List.filter_cons_of_pos (by simpa [arrival] using h), List.filter_nil]
  · next h => rw [List.filter_cons_of_neg (by simpa [arrival] using h), List.filter_nil,
      List.append_nil]

/-- **A step leaves no gap just when there was none and it keeps to the condition.** -/
theorem State.Kept.noGap_step {a : Action} (hs : s.Kept) (h : s.step a = some s') :
    s'.NoGap ↔ s.NoGap ∧ s.Steady a := by
  by_cases ha : ∃ cmd, a = .parseCmd cmd
  · obtain ⟨cmd, rfl⟩ := ha
    obtain ⟨hsend, rfl⟩ := step_parseCmd h
    rcases s.OnParseCmd_cases cmd with ⟨he, hnone⟩ | ⟨session, task, hcmd, hss, ht, he⟩
    · rw [he]
      exact (and_iff_left fun hcmd session hss hsome => absurd (hnone hcmd session hss) hsome).symm
    · obtain ⟨chunk, hchunk⟩ := hs.requests _ _ task ⟨session, hss, Session.mem_of_find ht⟩
      have hsteady : s.Steady (.parseCmd cmd) ↔ s.SteadyFor cmd session := by
        constructor
        · intro h
          exact h hcmd session hss (by rw [ht]; exact Option.some_ne_none task)
        · intro h _ session' hss' _
          obtain rfl := Option.some.inj (hss.symm.trans hss')
          exact h
      -- the entry that is made meets the condition of `prefix_concat_iff` just when the step is steady
      have hentry : (∀ m ∈ (arrival s session task cmd).queued,
          (∀ y ∈ s.arrivals session.client.conn, y.queued.isSome = true) ∧ m.data = cmd.param) ↔
            s.SteadyFor cmd session := by
        have hidle : (∀ y ∈ s.arrivals session.client.conn, y.queued.isSome = true) ↔
            ∀ y ∈ s.arrivals session.client.conn, y.idle ≠ none :=
          forall₂_congr fun y hy => hs.queued y (List.mem_of_mem_filter hy)
        rw [hidle]
        unfold State.SteadyFor arrival
        cases hl : s.mClientTcpServer.mIdleMessageList with
        | nil => simp
        | cons sm idle =>
          have hfull : sm.Full := hs.full sm (hl ▸ List.mem_cons_self)
          simp only [List.head?_cons, Option.map_some, Option.mem_def, Option.some.injEq, forall_eq']
          rw [answer_data_eq_iff session hchunk hsend hfull]
      rw [he, hsteady, ← hentry]
      unfold State.NoGap
      constructor
      · intro hgap
        have hconn := hgap session.client.conn
        rw [State.arrivals_reply, if_pos rfl, prefix_concat_iff] at hconn
        refine ⟨fun conn => ?_, hconn.2⟩
        by_cases hc : session.client.conn = conn
        · exact hc ▸ hconn.1
        · have := hgap conn
          rwa [State.arrivals_reply, if_neg hc] at this
      · rintro ⟨hgap, hx⟩ conn
        rw [State.arrivals_reply]
        split
        · next hc =>
          subst hc
          exact (prefix_concat_iff _ _).mpr ⟨hgap _, hx⟩
        · exact hgap conn
  · have h1 := (step_effect h).arrived.resolve_right ha
    have hsteady : s.Steady a := by
      cases a with
      | parseCmd cmd => exact absurd ⟨cmd, rfl⟩ ha
      | _ => exact trivial
    unfold State.NoGap State.arrivals
    rw [h1, and_iff_left hsteady]

/-! ## the runs -/

/-- **The payloads queued for every connection are a prefix of those that have come for it, just when no
command is answered behind one for the same connection that found the idle list empty, and none without a
byte over a Message that still has some.** -/
theorem replies_no_gap_iff (http vnc : Server) (hfull : http.Full) (l : List Action) (s : State)
    (hrun : run State.step (State.init http vnc) l = some s) :
    s.NoGap ↔ RunOk State.step State.Steady (State.init http vnc) l := by
  have hinit : (State.init http vnc).NoGap := fun conn => List.prefix_rfl
  rw [runOk_iff (fun _ _ _ => State.Kept.step) (fun _ _ _ => State.Kept.noGap_step) (.init hfull vnc)
    hrun, and_iff_right hinit]

/-- two answers to one byte -/
theorem replies_no_gap_two :
    ∃ (http vnc : Server) (l : List Action) (s : State), http.Full ∧
      run State.step (State.init http vnc) l = some s ∧
      payloads (s.arrivals 0) = [(0, [72]), (1, [73])] ∧ s.NoGap := by
  let m : Message := ⟨0, 0, 0, 0, List.replicate MAX_LOG_BUFFER_LEN 0⟩
  let http : Server := ⟨[m, m], [], fun _ => 0⟩
  let vnc : Server := ⟨[m], [], fun _ => 0⟩
  let l : List Action := [.accept 5, .vncAccept 7, .recv 5 ⟨[71], by decide, by decide⟩,
    .parseCmd ⟨⟨.CommandTypeProxy, 1, 0, 5, false⟩, [72]⟩,
    .parseCmd ⟨⟨.CommandTypeProxy, 1, 0, 5, false⟩, [73]⟩]
  have hfull : http.Full := by
    have hm : m.Full := List.length_replicate
    exact ⟨by simp [http, hm], nofun⟩
  have hrun : ∃ s, run State.step (State.init http vnc) l = some s ∧
      payloads (s.arrivals 0) = [(0, [72]), (1, [73])] := ⟨_, rfl, rfl⟩
  obtain ⟨s, hs, hpay⟩ := hrun
  exact ⟨http, vnc, l, s, hfull, hs, hpay, (replies_no_gap_iff http vnc hfull l s hs).mpr (by decide)⟩

/-- the first answer finds no idle Message, the second one does -/
theorem not_replies_no_gap :
    ¬ ∀ (http vnc : Server), http.Full → ∀ (l : List Action) (s : State),
      run State.step (State.init http vnc) l = some s → s.NoGap := by
  intro hall
  let m : Message := ⟨0, 0, 0, 0, List.replicate MAX_LOG_BUFFER_LEN 0⟩
  let vnc : Server := ⟨[m], [], fun _ => 0⟩
  have hm : m.Full := List.length_replicate
  have hfull : (⟨[m], [], fun _ => 0⟩ : Server).Full := ⟨by simp [hm], nofun⟩
  have hrun : ∃ s, run State.step (State.init ⟨[], [], fun _ => 0⟩ vnc)
      [.accept 5, .vncAccept 7, .recv 5 ⟨[71], by decide, by decide⟩,
        .parseCmd ⟨⟨.CommandTypeProxy, 1, 0, 5, false⟩, [72]⟩,
        .servers ⟨[m], [], fun _ => 0⟩ ⟨[m], [], fun _ => 0⟩,
        .parseCmd ⟨⟨.CommandTypeProxy, 1, 0, 5, false⟩, [73]⟩] = some s ∧
      payloads (s.arrivals 0) = [(0, [72]), (1, [73])] ∧
      queuedPayloads (s.arrivals 0) = [(1, [73])] := by
    refine ⟨_, run_cons.mpr ⟨_, rfl, run_cons.mpr ⟨_, rfl, run_cons.mpr ⟨_, rfl, run_cons.mpr ⟨_, rfl,
      run_cons.mpr ⟨_, step_servers _ hfull hfull, rfl⟩⟩⟩⟩⟩, rfl, rfl⟩
  obtain ⟨s, hs, hpay, hq⟩ := hrun
  have hgap := hall _ vnc ⟨by simp, by simp⟩ _ s hs 0
  rw [hpay, hq] at hgap
  exact absurd hgap (by decide)

end VncProxy.Relay
