import VncProxy.Tcp.Received

/-!
# The bytes of a connection on its socket

* `unsent`          the rest of the Message in `SendMessageImmediately` and the Messages in the send
                    list;
* `Stream.Sending`  while a connection is open and no Message of it has been given up, what has been
                    written and what is unsent are together what was queued;
* `sent_in_order`   in a run in which `send` writes only for connections of which no Message has been
                    given up, and on their own sockets, what is written is the beginning of what was
                    queued;
* `not_sent_in_order`  a Message behind one that was given up is written.
-/

namespace VncProxy.Tcp

variable {h k : Nat} {s s' : Stream h k} {a : Action h k × List Byte}

/-! ## what is unsent -/

def SenderPc.current : SenderPc → Option (Msg × Nat)
  | .send m index => some (m, index)
  | _ => none

def unsent (buffer : Nat → List Byte) (current : Option (Msg × Nat)) (l : List Msg) :
    List (Conn × List Byte) :=
  (current.toList.map fun e => (e.1.conn, (buffer e.1.addr).drop e.2)) ++
    l.map fun m => (m.conn, buffer m.addr)

def Stream.unsent (s : Stream h k) : List (Conn × List Byte) :=
  Tcp.unsent s.buffer s.server.sender.current s.server.mSendImmediatelyMessageList

theorem unsent_congr {buffer buffer' : Nat → List Byte} {current : Option (Msg × Nat)} {l : List Msg}
    (hcurrent : ∀ e ∈ current, buffer' e.1.addr = buffer e.1.addr)
    (hlist : ∀ m ∈ l, buffer' m.addr = buffer m.addr) :
    unsent buffer' current l = unsent buffer current l := by
  unfold unsent
  congr 1
  · apply List.map_congr_left
    intro e he
    rw [hcurrent e (Option.mem_toList.mp he)]
  · exact List.map_congr_left fun m hm => by rw [hlist m hm]

def Stream.Sends (s : Stream h k) (m : Msg) : Prop :=
  (∃ index, s.server.sender = .send m index) ∨ m ∈ s.server.mSendImmediatelyMessageList ∨
    ∃ j, m ∈ (s.server.caller j).holds

/-- the connection has its descriptor, or has not been accepted yet -/
def Stream.Live (s : Stream h k) (c : Conn) : Prop :=
  (s.server.slot c.1).gen < c.2 ∨ (s.server.slot c.1).gen = c.2 ∧ (s.server.slot c.1).isOpen = true

instance (s : Stream h k) : DecidablePred s.Live := fun _ => inferInstanceAs (Decidable (_ ∨ _))

theorem Stream.Step.live (hstep : s.Step a s') {c : Conn} (hc : s'.Live c) : s.Live c := by
  rcases later_step hstep.server c.1 with hlater | ⟨hgen, hopen⟩
  · rcases hc with hc | ⟨hc, _⟩
    · exact .inl (Nat.lt_trans hlater hc)
    · exact .inl (hc ▸ hlater)
  · rcases hc with hc | ⟨hc, ho⟩
    · exact .inl (hgen ▸ hc)
    · exact .inr ⟨hgen ▸ hc, hopen ho⟩

/-- `len` bytes are in the buffer, for a connection that has been accepted -/
structure Stream.Filled (s : Stream h k) (m : Msg) : Prop where
  len : (s.buffer m.addr).length = m.len
  gen : m.gen ≤ (s.server.slot m.fd).gen

structure Stream.Sending (s : Stream h k) : Prop where
  filled : ∀ m, s.Sends m → s.Filled m
  whole : ∀ c, s.Live c → c ∉ s.abandoned →
    bytesOf s.written c ++ bytesOf s.unsent c = bytesOf (tagged s.queued) c
  le : ∀ c, bytesOf s.written c <+: bytesOf (tagged s.queued) c

/-! ## the buffers -/

theorem Stream.Sends.kept {m : Msg} (hm : s.Sends m) (hnodup : s.server.objects.Nodup)
    (hstep : s.Step a s') : s'.buffer m.addr = s.buffer m.addr := by
  refine hstep.kept hnodup ?_
  simp only [Multiset.mem_add]
  rcases hm with ⟨index, hsender⟩ | hlist | ⟨j, hj⟩
  · refine .inl (.inl (.inr ?_))
    rw [hsender]
    exact Multiset.mem_singleton_self _
  · exact .inl (.inl (.inl (.inr (mem_addrs hlist))))
  · exact .inr (Multiset.mem_sum.mpr ⟨j, Finset.mem_univ j, mem_addrs hj⟩)

theorem caller_step {s s' : State h k} {a : Action h k} (hstep : s.stepAny a = some s') {j : Fin k}
    {m : Msg} (hm : m ∈ (s'.caller j).holds) :
    (∃ m0 ∈ (s.caller j).holds, m = { m0 with seq := m.seq }) ∨
      ∃ (m0 : Msg) (fd len : Nat), a = .call j fd len ∧ s.fills a = some m0.addr ∧
        m = { m0 with fd := fd, gen := (s.slot fd).gen, len := len } := by
  have hsame : s'.caller j = s.caller j → ∃ m0 ∈ (s.caller j).holds, m = { m0 with seq := m.seq } :=
    fun hcaller => ⟨m, hcaller ▸ hm, rfl⟩
  by_cases ha : a.OfCaller j
  · cases a with
    | accept | event | OnAccept | recv | main | handler | send | sender => exact ha.elim
    | call j' fd len =>
      obtain rfl : j' = j := ha
      change s.callAny j' fd len = some s' at hstep
      unfold State.callAny at hstep
      split at hstep
      · split at hstep
        · obtain rfl := Option.some.inj hstep
          exact .inl (hsame rfl)
        · next m0 l hl =>
          obtain rfl := Option.some.inj hstep
          refine .inr ⟨m0, fd, len, rfl, ?_, ?_⟩
          · unfold State.fills
            rw [hl]
            rfl
          · simp only [State.setCaller, Function.update_self] at hm
            exact List.mem_singleton.mp hm
      · cases hstep
    | caller j' =>
      obtain rfl : j' = j := ha
      change s.stepCaller j' = some s' at hstep
      unfold State.stepCaller at hstep
      cases hp : s.caller j' with
      | free =>
        rw [hp] at hstep
        cases hstep
      | count m0 | seq m0 =>
        rw [hp] at hstep
        obtain rfl := Option.some.inj hstep
        simp only [State.setCaller, Function.update_self] at hm
        have hm0 := List.mem_singleton.mp hm
        exact .inl ⟨m0, List.mem_singleton_self _, by rw [hm0]⟩
      | push m0 =>
        rw [hp] at hstep
        obtain rfl := Option.some.inj hstep
        simp only [State.setCaller, Function.update_self] at hm
        cases hm
  · exact .inl (hsame (caller_others ha hstep))

theorem Stream.Filled.step {m : Msg} (hfilled : s.Filled m) (hstep : s.Step a s')
    (hkept : s'.buffer m.addr = s.buffer m.addr) : s'.Filled m :=
  ⟨hkept ▸ hfilled.len, Nat.le_trans hfilled.gen (later_step hstep.server m.fd).gen⟩

theorem Stream.Sends.live (hi : s.Sending) {m : Msg} (hm : s.Sends m) :
    s.Live m.conn ↔ (s.server.slot m.fd).gen = m.gen ∧ (s.server.slot m.fd).isOpen = true := by
  refine ⟨fun hc => hc.resolve_left ?_, .inr⟩
  exact Nat.not_lt_of_le (hi.filled m hm).gen

/-! ## steps that write nothing -/

/-- nothing is queued, written or given up -/
structure Quiet (s : Stream h k) (a : Action h k) : Prop where
  queues : s.server.queues a = []
  writes : s.writes a = []
  abandons : s.server.abandons a = []

theorem Stream.Sending.quiet (hi : s.Sending) (hstep : s.Step a s') (hquiet : Quiet s a.1)
    (hfilled : ∀ m, s'.Sends m → s'.Filled m) (hunsent : s'.unsent = s.unsent) : s'.Sending := by
  have hqueued : s'.queued = s.queued := by
    rw [hstep.queued, hquiet.queues]
    exact List.append_nil _
  have hwritten : s'.written = s.written := by
    rw [hstep.written, hquiet.writes]
    exact List.append_nil _
  have habandoned : s'.abandoned = s.abandoned := by
    rw [hstep.abandoned, hquiet.abandons]
    exact List.append_nil _
  refine ⟨hfilled, fun c hc hab => ?_, fun c => ?_⟩
  · rw [hwritten, hunsent, hqueued]
    exact hi.whole c (hstep.live hc) (habandoned ▸ hab)
  · rw [hwritten, hqueued]
    exact hi.le c

theorem Stream.unsent_kept (hnodup : s.server.objects.Nodup) (hstep : s.Step a s')
    (hcurrent : s'.server.sender.current = s.server.sender.current)
    (hlist : s'.server.mSendImmediatelyMessageList = s.server.mSendImmediatelyMessageList) :
    s'.unsent = s.unsent := by
  unfold Stream.unsent
  rw [hcurrent, hlist]
  refine unsent_congr (fun e he => ?_) fun m hm => ?_
  · refine Stream.Sends.kept (.inl ⟨e.2, ?_⟩) hnodup hstep
    cases hp : s.server.sender with
    | send m index =>
      rw [hp] at he
      obtain rfl := Option.some.inj he
      rfl
    | popFront | OnSendMessage | Disconnect | idle | readFd | closeIfNeed | OnClose | close =>
      rw [hp] at he
      cases he
  · exact Stream.Sends.kept (.inr (.inl hm)) hnodup hstep

/-- the Messages to be sent stay filled: the one a caller has just filled is as long as it says -/
theorem Stream.Sending.filled_step (hi : s.Sending) (hnodup : s.server.objects.Nodup)
    (hstep : s.Step a s')
    (hlists : ∀ m, (∃ index, s'.server.sender = .send m index) ∨
      m ∈ s'.server.mSendImmediatelyMessageList → s.Sends m) :
    ∀ m, s'.Sends m → s'.Filled m := by
  have hold : ∀ m, s.Sends m → s'.Filled m := fun m hm =>
    (hi.filled m hm).step hstep (hm.kept hnodup hstep)
  rintro m (hm | hm | ⟨j, hm⟩)
  · exact hold m (hlists m (.inl hm))
  · exact hold m (hlists m (.inr hm))
  · rcases caller_step hstep.server hm with ⟨m0, hm0, hm⟩ | ⟨m0, fd, len, ha, hfills, hm⟩
    · have hm0 := hold m0 (.inr (.inr ⟨j, hm0⟩))
      rw [hm]
      exact ⟨hm0.len, hm0.gen⟩
    · rw [hm]
      refine ⟨?_, (later_step hstep.server fd).gen⟩
      have hfits := hstep.fits
      rw [ha] at hfits
      rw [hstep.filled m0.addr hfills.symm]
      exact hfits

/-! ## the steps of the send thread and of the callers -/

theorem bytesOf_cons (c' : Conn) (b : List Byte) (l : List (Conn × List Byte)) (c : Conn) :
    bytesOf ((c', b) :: l) c = bytesOf [(c', b)] c ++ bytesOf l c :=
  bytesOf_append [(c', b)] l c

theorem bytesOf_split (c' : Conn) (b : List Byte) (n : Nat) (c : Conn) :
    bytesOf [(c', b.take n)] c ++ bytesOf [(c', b.drop n)] c = bytesOf [(c', b)] c := by
  by_cases hc : c' = c
  · subst hc
    rw [bytesOf_self, bytesOf_self, bytesOf_self, List.take_append_drop]
  · rw [bytesOf_other hc, bytesOf_other hc, bytesOf_other hc]
    rfl

theorem bytesOf_empty (c' c : Conn) : bytesOf [(c', [])] c = [] := by
  by_cases hc : c' = c
  · rw [hc, bytesOf_self]
  · rw [bytesOf_other hc]

/-- what is unsent when bytes have been written or the Message is done with -/
theorem bytesOf_unsent_sent {buffer : Nat → List Byte} {l : List Msg} {m : Msg} {index : Nat}
    (c : Conn) : bytesOf (unsent buffer (some (m, index)) l) c =
      bytesOf [(m.conn, (buffer m.addr).drop index)] c ++ bytesOf (unsent buffer none l) c :=
  bytesOf_cons ..

theorem Stream.bytesOf_unsent {m : Msg} {index : Nat} (hsender : s.server.sender = .send m index)
    (c : Conn) : bytesOf s.unsent c = bytesOf [(m.conn, (s.buffer m.addr).drop index)] c ++
      bytesOf (Tcp.unsent s.buffer none s.server.mSendImmediatelyMessageList) c := by
  unfold Stream.unsent
  rw [hsender]
  exact bytesOf_unsent_sent c

theorem Stream.Sending.send (hi : s.Sending) (hnodup : s.server.objects.Nodup) {m : Msg}
    {index : Nat} (hsender : s.server.sender = .send m index) (hstep : s.Step a s')
    (hqueues : s.server.queues a.1 = [])
    (hlist : s'.server.mSendImmediatelyMessageList = s.server.mSendImmediatelyMessageList)
    (hcurrent : ∀ m', (∃ i, s'.server.sender = .send m' i) → m' = m)
    (hwhole : s.Live m.conn → m.conn ∉ s'.abandoned →
      bytesOf (s.writes a.1) m.conn ++ bytesOf s'.unsent m.conn = bytesOf s.unsent m.conn)
    (hother : ∀ c, c ≠ m.conn → bytesOf (s.writes a.1) c = [] ∧ bytesOf s'.unsent c = bytesOf s.unsent c)
    (hle : bytesOf (s.writes a.1) m.conn ≠ [] → s.Live m.conn ∧ m.conn ∉ s'.abandoned) :
    s'.Sending := by
  have hqueued : s'.queued = s.queued := by
    rw [hstep.queued, hqueues]
    exact List.append_nil _
  have hmono : ∀ c, c ∉ s'.abandoned → c ∉ s.abandoned := fun c hab hmem =>
    hab (hstep.abandoned ▸ List.mem_append_left _ hmem)
  have hwhole' : ∀ c, s.Live c → c ∉ s'.abandoned →
      bytesOf s'.written c ++ bytesOf s'.unsent c = bytesOf (tagged s'.queued) c := by
    intro c hc hab
    rw [hstep.written, bytesOf_append, hqueued, ← hi.whole c hc (hmono c hab), List.append_assoc]
    by_cases hcm : c = m.conn
    · subst hcm
      rw [hwhole hc hab]
    · rw [(hother c hcm).1, (hother c hcm).2]
      rfl
  refine ⟨hi.filled_step hnodup hstep ?_, fun c hc hab => hwhole' c (hstep.live hc) hab, fun c => ?_⟩
  · rintro m' (hm' | hm')
    · exact .inl ⟨index, hcurrent m' hm' ▸ hsender⟩
    · exact .inr (.inl (hlist ▸ hm'))
  · by_cases hw : bytesOf (s.writes a.1) c = []
    · rw [hstep.written, bytesOf_append, hw, List.append_nil, hqueued]
      exact hi.le c
    · obtain rfl : c = m.conn := by
        by_contra hcm
        exact hw (hother c hcm).1
      obtain ⟨hlive, hab⟩ := hle hw
      exact ⟨_, hwhole' _ hlive hab⟩

/-- some bytes are written: on the socket of the Message's own connection, of which no Message has
been given up, or on none -/
theorem Stream.Sending.sent (hi : s.Sending) (hnodup : s.server.objects.Nodup) {m : Msg}
    {index n : Nat} {b : List Byte} (hsender : s.server.sender = .send m index)
    (hown : (s.server.slot m.fd).isOpen = true →
      (s.server.slot m.fd).gen = m.gen ∧ m.conn ∉ s.abandoned)
    (hstep : s.Step (.send (.sent n), b) s') : s'.Sending := by
  have hserver : s.server.send (.sent n) = some s'.server := hstep.server
  have hm : s.Sends m := .inl ⟨index, hsender⟩
  have hlive := hm.live hi
  have hbuffer := hstep.buffer_same rfl
  have habandoned : s'.abandoned = s.abandoned := by
    rw [hstep.abandoned]
    exact List.append_nil _
  have hwrites : s.writes (.send (.sent n)) = if (s.server.slot m.fd).isOpen then
      [(s.server.conn m.fd, ((s.buffer m.addr).drop index).take n)] else [] := by
    unfold Stream.writes
    dsimp only
    rw [hsender]
  unfold State.send at hserver
  rw [hsender] at hserver
  dsimp only at hserver
  split at hserver
  · have hserver := Option.some.inj hserver
    have hlist : s'.server.mSendImmediatelyMessageList = s.server.mSendImmediatelyMessageList := by
      rw [← hserver]
      rfl
    have hpc : s'.server.sender =
        if index + n = m.len then .OnSendMessage { m with len := 0 } else .send m (index + n) := by
      rw [← hserver]
      rfl
    -- a Message that has been written whole leaves no bytes
    have hunsent : ∀ c, bytesOf s'.unsent c =
        bytesOf [(m.conn, ((s.buffer m.addr).drop index).drop n)] c ++
          bytesOf (Tcp.unsent s.buffer none s.server.mSendImmediatelyMessageList) c := by
      intro c
      unfold Stream.unsent
      rw [hbuffer, hlist, hpc, List.drop_drop]
      by_cases hdone : index + n = m.len
      · rw [if_pos hdone, hdone, ← (hi.filled m hm).len, List.drop_length, bytesOf_empty]
        rfl
      · rw [if_neg hdone]
        exact bytesOf_unsent_sent c
    have hbefore := Stream.bytesOf_unsent hsender
    refine hi.send hnodup hsender hstep rfl hlist ?_ ?_ ?_ ?_
    · rintro m' ⟨i, hi'⟩
      rw [hpc] at hi'
      split at hi'
      · cases hi'
      · exact (SenderPc.send.inj hi').1.symm
    · intro hc _
      obtain ⟨hgen, hopen⟩ := hlive.mp hc
      rw [hwrites, if_pos hopen, hunsent, hbefore,
        show s.server.conn m.fd = m.conn from congrArg (Prod.mk m.fd) hgen, ← List.append_assoc,
        bytesOf_split]
    · intro c hc
      rw [hunsent, hbefore, bytesOf_other hc.symm, bytesOf_other hc.symm, hwrites]
      refine ⟨?_, rfl⟩
      split
      · next hopen =>
        rw [show s.server.conn m.fd = m.conn from congrArg (Prod.mk m.fd) (hown hopen).1]
        exact bytesOf_other hc.symm _
      · rfl
    · intro hne
      rw [hwrites] at hne
      split at hne
      · next hopen =>
        exact ⟨hlive.mpr ⟨(hown hopen).1, hopen⟩, habandoned ▸ (hown hopen).2⟩
      · exact absurd rfl hne
  · cases hserver

theorem Stream.Sending.giveUp (hi : s.Sending) (hnodup : s.server.objects.Nodup) {m : Msg}
    {index : Nat} (hsender : s.server.sender = .send m index) (hstep : s.Step a s')
    (ha : a.1 = .send .closed ∨ a.1 = .send .error) : s'.Sending := by
  have hm : s.Sends m := .inl ⟨index, hsender⟩
  have hpc : s'.server = s.server.setSender (.Disconnect m) := by
    have hserver := hstep.server
    rcases ha with ha | ha
    · rw [ha] at hserver
      change s.server.send .closed = _ at hserver
      unfold State.send at hserver
      rw [hsender] at hserver
      exact (Option.some.inj hserver).symm
    · rw [ha] at hserver
      change s.server.send .error = _ at hserver
      unfold State.send at hserver
      rw [hsender] at hserver
      exact (Option.some.inj hserver).symm
  have hfills : s.server.fills a.1 = none := by
    rcases ha with ha | ha <;> rw [ha] <;> rfl
  have hqueues : s.server.queues a.1 = [] := by
    rcases ha with ha | ha <;> rw [ha] <;> rfl
  have hwrites : s.writes a.1 = [] := by
    rcases ha with ha | ha <;> rw [ha] <;> rfl
  have habandons : s.server.abandons a.1 = if index < m.len then [m.conn] else [] := by
    rcases ha with ha | ha <;> rw [ha] <;> unfold State.abandons <;> dsimp only <;> rw [hsender]
  have hbuffer := hstep.buffer_same hfills
  have hunsent : s'.unsent = Tcp.unsent s.buffer none s.server.mSendImmediatelyMessageList := by
    unfold Stream.unsent
    rw [hbuffer, hpc]
    rfl
  have hbefore := Stream.bytesOf_unsent hsender
  refine hi.send hnodup hsender hstep hqueues (by rw [hpc]; rfl) ?_ ?_ ?_ ?_
  · rintro m' ⟨i, hi'⟩
    rw [hpc] at hi'
    cases hi'
  · intro _ hab
    -- nothing of it is left, or its connection is now one with a Message given up
    have hall : m.len ≤ index := by
      refine Nat.le_of_not_lt fun hlt => hab ?_
      rw [hstep.abandoned, habandons, if_pos hlt]
      exact List.mem_append_right _ (List.mem_singleton_self _)
    rw [hwrites, hunsent, hbefore, List.drop_eq_nil_of_le ((hi.filled m hm).len ▸ hall),
      bytesOf_empty]
    rfl
  · intro c hc
    rw [hwrites, hunsent, hbefore, bytesOf_other hc.symm]
    exact ⟨rfl, rfl⟩
  · rw [hwrites]
    exact fun hne => absurd rfl hne

theorem Stream.Sending.push (hi : s.Sending) (hnodup : s.server.objects.Nodup) {m : Msg} {j : Fin k}
    {b : List Byte} (hcaller : s.server.caller j = .push m) (hstep : s.Step (.caller j, b) s') :
    s'.Sending := by
  have hserver : s.server.stepCaller j = some s'.server := hstep.server
  have hframe := frame_stepCaller hserver
  have hlist : s'.server.mSendImmediatelyMessageList
      = s.server.mSendImmediatelyMessageList ++ [m] := by
    unfold State.stepCaller at hserver
    rw [hcaller] at hserver
    rw [← Option.some.inj hserver]
    rfl
  have hm : s.Sends m := .inr (.inr ⟨j, by rw [hcaller]; exact List.mem_singleton_self m⟩)
  have hbuffer := hstep.buffer_same rfl
  have hqueued : tagged s'.queued = tagged s.queued ++ [(m.conn, s.buffer m.addr)] := by
    have hqueues : s.server.queues (.caller j) = [m] := by
      unfold State.queues
      dsimp only
      rw [hcaller]
    rw [hstep.queued, hqueues]
    exact List.map_append
  have hunsent : s'.unsent = s.unsent ++ [(m.conn, s.buffer m.addr)] := by
    unfold Stream.unsent Tcp.unsent
    rw [hbuffer, hframe.sender, hlist, List.map_append, List.append_assoc]
    rfl
  have hwritten : s'.written = s.written := by
    rw [hstep.written]
    exact List.append_nil _
  have habandoned : s'.abandoned = s.abandoned := by
    rw [hstep.abandoned]
    exact List.append_nil _
  refine ⟨hi.filled_step hnodup hstep ?_, fun c hc hab => ?_, fun c => ?_⟩
  · rintro m' (hm' | hm')
    · exact .inl (hframe.sender ▸ hm')
    · rw [hlist] at hm'
      rcases List.mem_append.mp hm' with hm' | hm'
      · exact .inr (.inl hm')
      · rw [List.mem_singleton.mp hm']
        exact hm
  · rw [hwritten, hunsent, hqueued, bytesOf_append, bytesOf_append, ← List.append_assoc,
      hi.whole c (hstep.live hc) (habandoned ▸ hab)]
  · rw [hwritten, hqueued, bytesOf_append]
    exact (hi.le c).trans (List.prefix_append ..)

theorem Stream.Sending.beside (hi : s.Sending) (hnodup : s.server.objects.Nodup)
    (hstep : s.Step a s') (hquiet : Quiet s a.1)
    (hcurrent : s'.server.sender.current = s.server.sender.current)
    (hlist : s'.server.mSendImmediatelyMessageList = s.server.mSendImmediatelyMessageList) :
    s'.Sending := by
  refine hi.quiet hstep hquiet (hi.filled_step hnodup hstep ?_)
    (Stream.unsent_kept hnodup hstep hcurrent hlist)
  rintro m (⟨index, hm⟩ | hm)
  · rw [hm] at hcurrent
    refine .inl ⟨index, ?_⟩
    cases hp : s.server.sender with
    | send m' index' =>
      rw [hp] at hcurrent
      obtain ⟨rfl, rfl⟩ := Prod.mk.inj (Option.some.inj hcurrent)
      rfl
    | popFront | OnSendMessage | Disconnect | idle | readFd | closeIfNeed | OnClose | close =>
      rw [hp] at hcurrent
      cases hcurrent
  · exact .inr (.inl (hlist ▸ hm))

theorem Stream.Sending.stepSender (hi : s.Sending) (hnodup : s.server.objects.Nodup) {b : List Byte}
    (hstep : s.Step (.sender, b) s') : s'.Sending := by
  have hserver : s.server.stepSender = some s'.server := hstep.server
  have hquiet : Quiet s (.sender : Action h k) := ⟨rfl, rfl, rfl⟩
  unfold State.stepSender at hserver
  cases hp : s.server.sender with
  | popFront =>
    rw [hp] at hserver
    dsimp only at hserver
    split at hserver
    · have hserver := Option.some.inj hserver
      exact hi.beside hnodup hstep hquiet (by rw [hserver]) (by rw [hserver])
    · next m l hl =>
      have hserver := Option.some.inj hserver
      have hbuffer := hstep.buffer_same rfl
      refine hi.quiet hstep hquiet (hi.filled_step hnodup hstep ?_) ?_
      · rw [← hserver]
        rintro m' (⟨index, hm'⟩ | hm')
        · obtain ⟨rfl, -⟩ := SenderPc.send.inj hm'
          exact .inr (.inl (hl ▸ List.mem_cons_self ..))
        · exact .inr (.inl (hl ▸ List.mem_cons_of_mem _ hm'))
      · unfold Stream.unsent
        rw [hbuffer, ← hserver, hp, hl]
        rfl
  | send m index =>
    rw [hp] at hserver
    cases hserver
  | OnSendMessage m | Disconnect m | idle m | readFd m | OnClose fd | close fd =>
    rw [hp] at hserver
    have hserver := Option.some.inj hserver
    refine hi.beside hnodup hstep hquiet ?_ ?_ <;> rw [← hserver]
    · rw [hp]
      rfl
    · rfl
  | closeIfNeed m fd =>
    rw [hp] at hserver
    have hserver := Option.some.inj hserver
    refine hi.beside hnodup hstep hquiet ?_ ?_ <;> rw [← hserver]
    · rw [hp]
      dsimp only [State.setSender]
      split <;> rfl
    · rfl

/-! ## all runs -/

/-- `send` writes only on the socket of the Message's own connection, when no Message of it has been
given up -/
def Stream.SendsOwn (s : Stream h k) (a : Action h k × List Byte) : Prop :=
  match a.1, s.server.sender with
  | .send (.sent _), .send m _ => (s.server.slot m.fd).isOpen = true →
    (s.server.slot m.fd).gen = m.gen ∧ m.conn ∉ s.abandoned
  | _, _ => True

instance (s : Stream h k) : DecidablePred s.SendsOwn
  | (a, b) => by
    unfold Stream.SendsOwn
    split <;> infer_instance

/-- **A step keeps what is unsent.** -/
theorem Stream.Sending.step (hi : s.Sending) (hnodup : s.server.objects.Nodup) (hown : s.SendsOwn a)
    (hstep : s.Step a s') : s'.Sending := by
  obtain ⟨act, b⟩ := a
  have hmain : act.OfMain → Quiet s act → s'.Sending := fun ha hquiet => by
    have hframe := frame_main ha hstep.server
    exact hi.beside hnodup hstep hquiet (by rw [hframe.sender]) hframe.sendList
  cases act with
  | accept | event | OnAccept | recv | main => exact hmain trivial ⟨rfl, rfl, rfl⟩
  | handler i =>
    have hframe := frame_stepHandler hstep.server
    exact hi.beside hnodup hstep ⟨rfl, rfl, rfl⟩ (by rw [hframe.sender]) hframe.sendList
  | send ret =>
    have hserver : s.server.send ret = some s'.server := hstep.server
    cases hp : s.server.sender with
    | send m index =>
      cases ret with
      | sent n =>
        refine hi.sent hnodup hp (fun hopen => ?_) hstep
        unfold Stream.SendsOwn at hown
        rw [hp] at hown
        exact hown hopen
      | closed => exact hi.giveUp hnodup hp hstep (.inl rfl)
      | error => exact hi.giveUp hnodup hp hstep (.inr rfl)
      | again =>
        unfold State.send at hserver
        rw [hp] at hserver
        have hserver := Option.some.inj hserver
        exact hi.beside hnodup hstep ⟨rfl, rfl, rfl⟩ (by rw [hserver]) (by rw [hserver])
    | popFront | OnSendMessage | Disconnect | idle | readFd | closeIfNeed | OnClose | close =>
      unfold State.send at hserver
      rw [hp] at hserver
      cases hserver
  | sender => exact hi.stepSender hnodup hstep
  | call j fd len =>
    have hserver : s.server.callAny j fd len = some s'.server := hstep.server
    have hframe := frame_callAny hserver
    refine hi.beside hnodup hstep ⟨rfl, rfl, rfl⟩ (by rw [hframe.sender]) ?_
    unfold State.callAny at hserver
    split at hserver
    · split at hserver
      · rw [← Option.some.inj hserver]
      · rw [← Option.some.inj hserver]
        rfl
    · cases hserver
  | caller j =>
    have hserver : s.server.stepCaller j = some s'.server := hstep.server
    have hframe := frame_stepCaller hserver
    cases hp : s.server.caller j with
    | free =>
      unfold State.stepCaller at hserver
      rw [hp] at hserver
      cases hserver
    | count m | seq m =>
      refine hi.beside hnodup hstep ⟨?_, rfl, rfl⟩ (by rw [hframe.sender]) ?_
      · unfold State.queues
        dsimp only
        rw [hp]
      · unfold State.stepCaller at hserver
        rw [hp] at hserver
        rw [← Option.some.inj hserver]
        rfl
    | push m => exact hi.push hnodup hp hstep

theorem Stream.Sending.init (h k pool watchers handleSize : Nat)
    (junk : Nat → Int × Bool × Nat × Nat) :
    (Stream.init h k pool watchers handleSize junk).Sending := by
  refine ⟨?_, fun _ _ _ => rfl, fun _ => List.prefix_rfl⟩
  rintro m (⟨index, hm⟩ | hm | ⟨j, hm⟩)
  · cases hm
  · cases hm
  · cases hm

/-- what is written on the socket of a connection is the beginning of what was queued for it -/
def Stream.SentInOrder (s : Stream h k) : Prop :=
  ∀ c, bytesOf s.written c <+: bytesOf (tagged s.queued) c

/-- **The sent stream**, for any number of handler threads and callers and every interleaving: in
every run in which `send` writes only on the socket of the Message's own connection, and only while no
Message of it has been given up. -/
theorem sent_in_order {pool watchers handleSize : Nat} {junk : Nat → Int × Bool × Nat × Nat}
    {l : List (Action h k × List Byte)} {s : Stream h k}
    (hown : RunOk Stream.step Stream.SendsOwn (Stream.init h k pool watchers handleSize junk) l)
    (hrun : run Stream.step (Stream.init h k pool watchers handleSize junk) l = some s) :
    s.SentInOrder := by
  have hi : s.Sound pool ∧ s.Sending :=
    inv_runOk (I := fun s => s.Sound pool ∧ s.Sending)
      (fun _ _ _ hi hok hstep => ⟨hi.1.step (Stream.step_cases hstep),
        hi.2.step hi.1.nodup hok (Stream.step_cases hstep)⟩)
      ⟨.init .., .init ..⟩ hown hrun
  exact hi.2.le

/-! ## runs with one caller -/

def queue5 (j : Fin 1) (b : List Byte) : List (Action 1 1 × List Byte) :=
  [(.call j 5 b.length, b)] ++ List.replicate 3 (.caller j, [])

def write5 : List (Action 1 1 × List Byte) := plain [.sender, .send .again, .send (.sent 2)]

/-- the first two of three bytes are written -/
theorem sent_in_order_part :
    ∃ s, run Stream.step fresh (accept5 ++ queue5 0 [65, 66, 67] ++ queue5 0 [68, 69] ++
      write5) = some s ∧ s.SentInOrder := by
  have hown : RunOk Stream.step Stream.SendsOwn fresh
      (accept5 ++ queue5 0 [65, 66, 67] ++ queue5 0 [68, 69] ++ write5) := by
    decide
  exact ⟨_, rfl, sent_in_order hown rfl⟩

/-- **A Message behind one that was given up**: two of three bytes are written, the next `send` fails,
and the next Message is written. -/
theorem not_sent_in_order :
    ∃ s, run Stream.step fresh (accept5 ++ queue5 0 [65, 66, 67] ++ queue5 0 [68, 69] ++ write5 ++
        plain [.send .error, .sender, .sender, .sender, .sender] ++ write5) = some s ∧
      bytesOf s.written (5, 1) = [65, 66, 68, 69] ∧
      bytesOf (tagged s.queued) (5, 1) = [65, 66, 67, 68, 69] ∧ ¬ s.SentInOrder := by
  obtain ⟨s, hrun, hwritten, hqueued⟩ : ∃ s, run Stream.step fresh (accept5 ++ queue5 0 [65, 66, 67] ++
      queue5 0 [68, 69] ++ write5 ++ plain [.send .error, .sender, .sender, .sender, .sender] ++
      write5) = some s ∧ bytesOf s.written (5, 1) = [65, 66, 68, 69] ∧
      bytesOf (tagged s.queued) (5, 1) = [65, 66, 67, 68, 69] := by
    decide
  refine ⟨s, hrun, hwritten, hqueued, fun horder => ?_⟩
  have hle := horder (5, 1)
  rw [hwritten, hqueued] at hle
  exact absurd hle (by decide)

end VncProxy.Tcp
