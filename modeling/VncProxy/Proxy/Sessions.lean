import VncProxy.Proxy.Serving

/-!
# Every reply finds its session

* `Sessions`       the sessions and the request tasks that were queued;
* `Pc.Section`     what a thread knows of them while it holds the mutex;
* `replies_found`  in every run in which `OnClose` comes once for a connection, when none of its
                   Messages is pending, each lookup of a request task that was queued finds its session
                   and its task, and the Message goes to its connection.
-/

namespace VncProxy.Lookup

open Proxy (Client Session)

variable {n : Nat} {s s' : State n} {i : Fin (n + 1)} {f f' : Clients} {fd c : Nat}

/-! ## the sessions -/

/-- the thread is between `mClient2SessionMap.Lock()` and `Unlock()` -/
def Pc.inside : Pc → Bool
  | .send _ (.find _) | .send _ (.new _) | .send _ (.InsertRequestTask _) | .send _ (.queue _)
  | .send _ .unlock | .reply _ .find | .reply _ .FindRequestTask | .reply _ .popIdle
  | .reply _ .queue | .reply _ .unlock | .OnClose _ (.erase _) | .OnClose _ .unlock => true
  | _ => false

/-- a lookup for a connection to which a reply is due finds the session and the task, and if there is
an idle Message it goes to this connection -/
def Return.Answered (r : Return) : Prop :=
  ∀ c, r.due = some c → r.session = true ∧ r.task = true ∧ (r.idle = true → r.sm = some c)

/-- a request task was queued under `seq` for the connection that has `fd`, and its session has not
been closed -/
def Due (f : Clients) (sent : List (Nat × CInt)) (fd : Nat) (seq : CInt) (c : Nat) : Prop :=
  f.holder fd = some c ∧ (f.life c).erased = false ∧ (c, seq) ∈ sent

/-- what a thread knows in its section -/
def Pc.Section (f : Clients) (map : Nat → Option Session) (sent : List (Nat × CInt)) : Pc → Prop
  | .send c (.new _) => map c.client.fd = none
  | .send c (.InsertRequestTask _) => ∃ session, map c.client.fd = some session
  | .send c (.queue seq) =>
    ∃ session, map c.client.fd = some session ∧ (c.needReturn = true → seq ∈ session.mRequestTaskMap)
  | .reply r .FindRequestTask =>
    ∀ c, r.due = some c → Due f sent r.fd r.seq c ∧ r.session = true
  | .reply r .popIdle =>
    ∀ c, r.due = some c → Due f sent r.fd r.seq c ∧ r.session = true ∧ r.task = true
  | .reply r .queue =>
    ∀ c, r.due = some c → Due f sent r.fd r.seq c ∧ r.session = true ∧ r.task = true
  | .reply r .unlock => r.Answered
  | _ => True

theorem Pc.section_outside {map : Nat → Option Session} {sent : List (Nat × CInt)} {p : Pc}
    (hp : p.inside = false) : p.Section f map sent := by
  cases p with
  | free | find m | OnClose fd pc => trivial
  | send c pc => cases pc <;> trivial
  | reply r pc => cases pc <;> trivial

/-- every session belongs to the connection that has its key and has not been closed, and holds the
request tasks that were queued for it -/
structure State.Sessions (s : State n) : Prop where
  guarded : Guarded Pc.inside s.thread s.locked
  client : ∀ {fd session}, s.mClient2SessionMap fd = some session →
    ∃ c, session.client = ⟨fd, c⟩ ∧ s.clients.holder fd = some c ∧ (s.clients.life c).erased = false
  old : ∀ {c seq}, (c, seq) ∈ s.sent → c < s.clients.count
  task : ∀ {fd seq c}, Due s.clients s.sent fd seq c →
    ∃ session, s.mClient2SessionMap fd = some session ∧ seq ∈ session.mRequestTaskMap
  inside : ∀ i, (s.thread i).Section s.clients s.mClient2SessionMap s.sent
  returned : ∀ r ∈ s.returned, r.Answered

/-- a change of what is known of the connections that closes no session -/
structure Clients.Keeps (f f' : Clients) : Prop where
  count : f.count ≤ f'.count
  present : ∀ {fd c}, f.holder fd = some c → (f.life c).erased = false → f'.holder fd = some c
  holder : ∀ {fd c}, f'.holder fd = some c → c < f.count → f.holder fd = some c
  erased : ∀ {c}, c < f.count → (f'.life c).erased = (f.life c).erased

/-- only the list of Messages or the map of the `Client`s changes -/
theorem Clients.Keeps.rest (f : Clients) (list : List Msg) (map : Nat → Option Client) :
    f.Keeps { f with mHandleMessageList := list, mClientMap := map } :=
  ⟨Nat.le_refl _, fun h _ => h, fun h _ => h, fun _ => rfl⟩

theorem Clients.Keeps.refl (f : Clients) : f.Keeps f := .rest f _ _

theorem Clients.keeps_accept {d : Nat} (hd : f.holder d = none) :
    f.Keeps (f.accept d) := by
  refine ⟨Nat.le_succ _,
    fun {fd c} hc _ => (Clients.same_accept (j := (0 : Fin 1)) hd hc).holder.trans hc,
    fun {fd c} hc hlt => ?_, fun _ => rfl⟩
  change Function.update f.holder d (some f.count) fd = some c at hc
  rw [Function.update_apply] at hc
  split at hc
  · exact absurd hlt (Option.some.inj hc ▸ Nat.lt_irrefl _)
  · exact hc

theorem Clients.keeps_setLife {d : Nat} {x : Life} (hx : x.erased = (f.life d).erased) :
    f.Keeps (f.setLife d x) := by
  refine ⟨Nat.le_refl _, fun h _ => h, fun h _ => h, fun {c} _ => ?_⟩
  show (Function.update f.life d x c).erased = _
  rw [Function.update_apply]
  split
  · next hc => rw [hc, hx]
  · rfl

/-- `close(fd)` of a connection whose session has been closed -/
theorem Clients.keeps_close {d e : Nat} (hd : f.holder d = some e) (he : (f.life e).erased = true) :
    f.Keeps (f.close d) := by
  have hholder : ∀ fd, (f.close d).holder fd = if fd = d then none else f.holder fd :=
    fun fd => Function.update_apply f.holder d none fd
  refine ⟨Nat.le_refl _, fun {fd c} hc hopen => ?_, fun {fd c} hc _ => ?_, fun _ => rfl⟩
  · rw [hholder, if_neg]
    · exact hc
    · rintro rfl
      obtain rfl := Option.some.inj (hc.symm.trans hd)
      exact absurd (he.symm.trans hopen) (by decide)
  · rw [hholder] at hc
    split at hc
    · cases hc
    · exact hc

section
variable {map : Nat → Option Session} {sent : List (Nat × CInt)} {seq : CInt}

theorem Due.back (hk : f.Keeps f') (hold : c < f.count) (h : Due f' sent fd seq c) :
    Due f sent fd seq c :=
  ⟨hk.holder h.1 hold, (hk.erased hold).symm.trans h.2.1, h.2.2⟩

theorem Due.keep (hf : f.Inv) (hk : f.Keeps f') (h : Due f sent fd seq c) : Due f' sent fd seq c :=
  ⟨hk.present h.1 h.2.1, (hk.erased (hf.lt h.1)).trans h.2.1, h.2.2⟩

theorem Pc.Section.keep {p : Pc} (hf : f.Inv) (hk : f.Keeps f') (h : p.Section f map sent) :
    p.Section f' map sent := by
  cases p with
  | free | find m | OnClose fd pc => trivial
  | send c pc => cases pc <;> exact h
  | reply r pc =>
    cases pc with
    | lock | find => trivial
    | FindRequestTask | popIdle | queue => exact fun c hc => ⟨(h c hc).1.keep hf hk, (h c hc).2⟩
    | unlock => exact h

end

theorem State.Sessions.move (h : s.Sessions) (ht : s.Threads) {p : Pc}
    (hthread : s'.thread = Function.update s.thread i p)
    (hguarded : Guarded Pc.inside s'.thread s'.locked) (hkeeps : s.clients.Keeps s'.clients)
    (hmap : s'.mClient2SessionMap = s.mClient2SessionMap) (hsent : s'.sent = s.sent)
    (hp : p.Section s.clients s.mClient2SessionMap s.sent) (hreturned : ∀ r ∈ s'.returned, r.Answered) :
    s'.Sessions where
  guarded := hguarded
  client := fun {fd session} hs => by
    obtain ⟨c, hc, hholder, hopen⟩ := h.client (hmap ▸ hs)
    exact ⟨c, hc, hkeeps.present hholder hopen, (hkeeps.erased (ht.clients.lt hholder)).trans hopen⟩
  old := fun hc => Nat.lt_of_lt_of_le (h.old (hsent ▸ hc)) hkeeps.count
  task := fun {fd seq c} hdue => by
    rw [hsent] at hdue
    rw [hmap]
    exact h.task (hdue.back hkeeps (h.old hdue.2.2))
  inside := fun j => by
    rw [hmap, hsent, hthread]
    by_cases hj : j = i
    · rw [hj, Function.update_self]
      exact hp.keep ht.clients hkeeps
    · rw [Function.update_of_ne hj]
      exact (h.inside j).keep ht.clients hkeeps
  returned := hreturned

theorem State.Sessions.change (h : s.Sessions) {p : Pc} (hi : (s.thread i).inside = true)
    (hthread : s'.thread = Function.update s.thread i p)
    (hguarded : Guarded Pc.inside s'.thread s'.locked)
    (hclient : ∀ {fd session}, s'.mClient2SessionMap fd = some session → ∃ c,
      session.client = ⟨fd, c⟩ ∧ s'.clients.holder fd = some c ∧ (s'.clients.life c).erased = false)
    (hold : ∀ {c seq}, (c, seq) ∈ s'.sent → c < s'.clients.count)
    (htask : ∀ {fd seq c}, Due s'.clients s'.sent fd seq c →
      ∃ session, s'.mClient2SessionMap fd = some session ∧ seq ∈ session.mRequestTaskMap)
    (hp : p.Section s'.clients s'.mClient2SessionMap s'.sent)
    (hreturned : s'.returned = s.returned) : s'.Sessions where
  guarded := hguarded
  client := hclient
  old := hold
  task := htask
  inside := fun j => by
    rw [hthread]
    by_cases hj : j = i
    · rw [hj, Function.update_self]
      exact hp
    · rw [Function.update_of_ne hj]
      exact Pc.section_outside (h.guarded.other hi hj)
  returned := fun r hr => h.returned r (hreturned ▸ hr)

/-! ### steps -/

theorem State.Sessions.goto (h : s.Sessions) (ht : s.Threads) {p : Pc} {u : State n}
    (hu : u = s.goto i p) (hin : p.inside = (s.thread i).inside)
    (hp : p.Section s.clients s.mClient2SessionMap s.sent) : u.Sessions := by
  subst hu
  exact h.move ht rfl (h.guarded.stay hin) (.refl _) rfl rfl hp h.returned

theorem State.Sessions.lock (h : s.Sessions) (ht : s.Threads) {p : Pc} (hin : p.inside = true)
    (hp : p.Section s.clients s.mClient2SessionMap s.sent) (hstep : s.lock i p = some s') :
    s'.Sessions := by
  unfold State.lock at hstep
  split at hstep
  · next hfree =>
    obtain rfl := Option.some.inj hstep
    exact h.move ht rfl (Guarded.enter (hfree ▸ h.guarded) hin) (.refl _) rfl rfl hp h.returned
  · cases hstep

theorem State.Sessions.finish (h : s.Sessions) (ht : s.Threads) {call : Call} {t : State n}
    (hclients : t.clients = s.clients) (hthread : t.thread = s.thread)
    (hmap : t.mClient2SessionMap = s.mClient2SessionMap) (hsent : t.sent = s.sent)
    (hreturned : t.returned = s.returned)
    (hguarded : Guarded Pc.inside (Function.update s.thread i .free) t.locked) :
    (t.finish i call).Sessions := by
  have hfree : (t.finish i call).thread = Function.update s.thread i .free := by
    unfold State.finish
    split <;> exact congrArg (Function.update · i Pc.free) hthread
  have hkeeps : s.clients.Keeps (t.finish i call).clients := by
    unfold State.finish
    split
    · exact hclients ▸ .refl _
    · show s.clients.Keeps (t.clients.left call.conn)
      rw [hclients]
      exact Clients.keeps_setLife rfl
  have hrest : (t.finish i call).locked = t.locked ∧
      (t.finish i call).mClient2SessionMap = t.mClient2SessionMap ∧
      (t.finish i call).sent = t.sent ∧ (t.finish i call).returned = t.returned := by
    unfold State.finish
    split <;> exact ⟨rfl, rfl, rfl, rfl⟩
  obtain ⟨h1, h2, h3, h4⟩ := hrest
  refine h.move ht hfree ?_ hkeeps (h2.trans hmap) (h3.trans hsent) trivial ?_
  · rw [hfree, h1]
    exact hguarded
  · rw [h4, hreturned]
    exact h.returned

theorem State.due_eq {fd c : Nat} {seq : CInt} (hdue : s.due fd seq = some c) :
    Due s.clients s.sent fd seq c := by
  unfold State.due at hdue
  split at hdue
  · next c' hc =>
    split at hdue
    · next hd =>
      obtain rfl := Option.some.inj hdue
      exact ⟨hc, hd.2, hd.1⟩
    · cases hdue
  · cases hdue

/-- the session of an open connection is put in the map, with the tasks it had -/
theorem State.Sessions.put (h : s.Sessions) {p : Pc} (hi : (s.thread i).inside = true)
    (hp : p.inside = true) {fd c : Nat} {session' : Session} (hholder : s.clients.holder fd = some c)
    (hopen : (s.clients.life c).erased = false) (hclient : session'.client = ⟨fd, c⟩)
    (htasks : ∀ session, s.mClient2SessionMap fd = some session →
      ∀ seq, seq ∈ session.mRequestTaskMap → seq ∈ session'.mRequestTaskMap)
    (hsection : p.Section s.clients (s.setSession fd (some session')).mClient2SessionMap s.sent) :
    ((s.setSession fd (some session')).goto i p).Sessions := by
  have hmap : ∀ fd', ((s.setSession fd (some session')).goto i p).mClient2SessionMap fd' =
      if fd' = fd then some session' else s.mClient2SessionMap fd' := fun fd' => s.setSession_map ..
  refine h.change hi rfl (h.guarded.stay (hp.trans hi.symm)) (fun {fd' session} hs => ?_) h.old
    (fun {fd' seq c'} hdue => ?_) hsection rfl
  · rw [hmap] at hs
    split at hs
    · next hfd =>
      obtain rfl := Option.some.inj hs
      exact ⟨c, hfd ▸ hclient, hfd ▸ hholder, hopen⟩
    · exact h.client hs
  · obtain ⟨session, hs, hseq⟩ := h.task hdue
    rw [hmap]
    split
    · next hfd => exact ⟨session', rfl, htasks session (hfd ▸ hs) seq hseq⟩
    · exact ⟨session, hs, hseq⟩

theorem Call.task_inserted (call : Call) (seq : CInt) {found : Option Session} {session : Session}
    (hs : found = some session) : ∃ session' : Session,
      (if call.needReturn then found.map (·.InsertRequestTask seq) else found) = some session' ∧
      session'.client = session.client ∧
      (∀ seq', seq' ∈ session.mRequestTaskMap → seq' ∈ session'.mRequestTaskMap) ∧
      (call.needReturn = true → seq ∈ session'.mRequestTaskMap) := by
  rw [hs]
  split
  · exact ⟨_, rfl, session.InsertRequestTask_client seq,
      fun _ => session.InsertRequestTask_mono seq, fun _ => session.InsertRequestTask_self seq⟩
  · next hn => exact ⟨session, rfl, rfl, fun _ => id, fun hn' => absurd hn' hn⟩

/-- the task is in the session when it is queued to VNC -/
theorem State.Sessions.queued (h : s.Sessions) (ht : s.Threads) {p : Pc}
    (hi : (s.thread i).inside = true) (hp : p.inside = true) {fd c : Nat} {seq : CInt}
    {needReturn : Bool} {session : Session} (hserving : s.clients.Serving fd c)
    (hs : s.mClient2SessionMap fd = some session)
    (hseq : needReturn = true → seq ∈ session.mRequestTaskMap)
    (hsection : ∀ sent, p.Section s.clients s.mClient2SessionMap sent) :
    (State.goto { s with sent := if needReturn then s.sent ++ [(c, seq)] else s.sent } i p).Sessions := by
  have hsent : ∀ e ∈ (if needReturn then s.sent ++ [(c, seq)] else s.sent),
      e ∈ s.sent ∨ needReturn = true ∧ e = (c, seq) := by
    intro e he
    split at he
    · next hn =>
      rcases List.mem_append.mp he with he | he
      · exact .inl he
      · exact .inr ⟨hn, List.mem_singleton.mp he⟩
    · exact .inl he
  refine h.change hi rfl (h.guarded.stay (hp.trans hi.symm)) h.client (fun {c' seq'} hc => ?_)
    (fun {fd' seq' c'} hdue => ?_) (hsection _) rfl
  · rcases hsent _ hc with hc | ⟨-, hc⟩
    · exact h.old hc
    · obtain ⟨rfl, -⟩ := Prod.mk.inj hc
      exact ht.clients.lt hserving.1
  · rcases hsent _ hdue.2.2 with hc | ⟨hn, hc⟩
    · exact h.task ⟨hdue.1, hdue.2.1, hc⟩
    · obtain ⟨rfl, rfl⟩ := Prod.mk.inj hc
      obtain rfl := ht.clients.inj hdue.1 hserving.1
      exact ⟨session, hs, hseq hn⟩

theorem State.Sessions.SendClient2VNC (h : s.Sessions) (ht : s.Threads) {call : Call} {pc : SendPc}
    (hi : s.thread i = .send call pc) {answer : Bool}
    (hstep : s.SendClient2VNC i call answer pc = some s') : s'.Sessions := by
  have hok := ht.ok i
  have hsection := h.inside i
  rw [hi] at hok hsection
  obtain ⟨hconn, hserving, -⟩ := hok
  have hin := congrArg Pc.inside hi
  have hclient : call.client = ⟨call.client.fd, call.conn⟩ := by rw [← hconn]
  have hopen : (s.clients.life call.conn).erased = false :=
    Bool.eq_false_iff.mpr fun he => (ht.clients.life call.conn).gone he hserving.2
  unfold State.SendClient2VNC at hstep
  cases pc with
  | check | popIdle =>
    obtain rfl := Option.some.inj hstep
    split
    · exact h.goto ht rfl hin.symm trivial
    · exact h.finish ht rfl rfl rfl rfl rfl (h.guarded.stay hin.symm)
  | addSeq => cases hstep
  | lock seq => exact h.lock ht (p := .send call (.find seq)) rfl trivial hstep
  | find seq =>
    obtain rfl := Option.some.inj hstep
    split
    · next hsome => exact h.goto ht rfl hin.symm (Option.isSome_iff_exists.mp hsome)
    · next hnone => exact h.goto ht rfl hin.symm (Option.not_isSome_iff_eq_none.mp hnone)
  | new seq =>
    have hnone : s.mClient2SessionMap call.client.fd = none := hsection
    obtain rfl := Option.some.inj hstep
    exact h.put hin rfl hserving.1 hopen hclient (fun _ hs => nomatch hnone.symm.trans hs)
      ⟨_, Function.update_self ..⟩
  | InsertRequestTask seq =>
    obtain ⟨session, hs⟩ := hsection
    obtain ⟨session', hs', hclient', hmono, hseq⟩ := call.task_inserted seq hs
    obtain ⟨c, hown, hholder, -⟩ := h.client hs
    obtain rfl := Option.some.inj (hholder.symm.trans hserving.1)
    obtain rfl := Option.some.inj hstep
    rw [hs']
    refine h.put hin rfl hserving.1 hopen (hclient'.trans hown) (fun found hfound => ?_)
      ⟨session', Function.update_self .., hseq⟩
    obtain rfl := Option.some.inj (hs.symm.trans hfound)
    exact hmono
  | queue seq =>
    obtain ⟨session, hs, hseq⟩ := hsection
    obtain rfl := Option.some.inj hstep
    exact h.queued ht hin rfl hserving hs hseq fun _ => trivial
  | unlock =>
    obtain rfl := Option.some.inj hstep
    exact h.finish ht rfl rfl rfl rfl rfl (h.guarded.leave hin rfl)

theorem State.Sessions.ReturnVNC2Client (h : s.Sessions) (ht : s.Threads) {r : Return} {pc : ReturnPc}
    (hi : s.thread i = .reply r pc) {answer : Bool}
    (hstep : s.ReturnVNC2Client i r answer pc = some s') : s'.Sessions := by
  have hsection := h.inside i
  have hin := congrArg Pc.inside hi
  rw [hi] at hsection
  unfold State.ReturnVNC2Client at hstep
  cases pc with
  | lock => exact h.lock ht (p := .reply r .find) rfl trivial hstep
  | find =>
    obtain rfl := Option.some.inj hstep
    split
    · next hsome => exact h.goto ht rfl hin.symm fun c hc => ⟨State.due_eq hc, hsome⟩
    · next hnone =>
      refine h.goto ht rfl hin.symm fun c hc => ?_
      obtain ⟨session, hs, -⟩ := h.task (State.due_eq hc)
      rw [hs] at hnone
      exact absurd rfl hnone
  | FindRequestTask =>
    obtain rfl := Option.some.inj hstep
    split
    · next htask =>
      exact h.goto ht rfl hin.symm fun c hc => ⟨(hsection c hc).1, (hsection c hc).2, htask⟩
    · next htask =>
      refine h.goto ht rfl hin.symm fun c hc => ?_
      obtain ⟨session, hs, hseq⟩ := h.task (hsection c hc).1
      rw [hs] at htask
      exact absurd (List.contains_iff_mem.mpr hseq) htask
  | popIdle =>
    obtain rfl := Option.some.inj hstep
    split
    · exact h.goto ht rfl hin.symm hsection
    · next hidle =>
      exact h.goto ht rfl hin.symm fun c hc =>
        ⟨(hsection c hc).2.1, (hsection c hc).2.2, fun hidle' => absurd hidle' hidle⟩
  | queue =>
    obtain rfl := Option.some.inj hstep
    refine h.goto ht rfl hin.symm fun c hc => ⟨(hsection c hc).2.1, (hsection c hc).2.2, fun _ => ?_⟩
    have hdue := (hsection c hc).1
    obtain ⟨session, hs, -⟩ := h.task hdue
    obtain ⟨c', hclient, -, -⟩ := h.client hs
    show (s.mClient2SessionMap r.fd).bind (fun session => s.clients.holder session.client.fd) = some c
    rw [hs]
    show s.clients.holder session.client.fd = some c
    rw [hclient]
    exact hdue.1
  | unlock =>
    obtain rfl := Option.some.inj hstep
    refine h.move ht (p := .free) rfl (h.guarded.leave hin rfl) (.refl _) rfl rfl trivial
      fun r' hr' => ?_
    rcases List.mem_append.mp hr' with hr' | hr'
    · exact h.returned r' hr'
    · rw [List.mem_singleton.mp hr']
      exact hsection

theorem State.Sessions.erase (h : s.Sessions) (ht : s.Threads) {p : Pc} (hi : (s.thread i).inside = true)
    (hp : p.inside = true) {fd c : Nat} (hc : s.clients.holder fd = some c)
    (hsection : p.Section (s.clients.erase c) (s.setSession fd none).mClient2SessionMap s.sent) :
    (((s.setSession fd none).tell (s.clients.erase c)).goto i p).Sessions := by
  have hlife : ∀ c', (s.clients.erase c).life c' =
      if c' = c then { s.clients.life c with erased := true } else s.clients.life c' :=
    fun c' => Function.update_apply ..
  have hmap : ∀ fd',
      (((s.setSession fd none).tell (s.clients.erase c)).goto i p).mClient2SessionMap fd' =
      if fd' = fd then none else s.mClient2SessionMap fd' := fun fd' => s.setSession_map ..
  -- what is due is due to another connection
  have hother : ∀ {fd' seq c'}, Due (s.clients.erase c) s.sent fd' seq c' →
      c' ≠ c ∧ Due s.clients s.sent fd' seq c' := by
    rintro fd' seq c' ⟨hholder, hopen, hsent⟩
    rw [hlife] at hopen
    split at hopen
    · cases hopen
    · next hne => exact ⟨hne, hholder, hopen, hsent⟩
  refine h.change hi rfl (h.guarded.stay (hp.trans hi.symm)) (fun {fd' session} hs => ?_) h.old
    (fun {fd' seq c'} hdue => ?_) hsection rfl
  · rw [hmap] at hs
    split at hs
    · cases hs
    · next hfd =>
      obtain ⟨c', hclient, hholder, hopen⟩ := h.client hs
      refine ⟨c', hclient, hholder, ?_⟩
      show ((s.clients.erase c).life c').erased = false
      rw [hlife, if_neg]
      · exact hopen
      · rintro rfl
        exact hfd (ht.clients.inj hholder hc)
  · obtain ⟨hne, hdue⟩ := hother hdue
    rw [hmap, if_neg]
    · exact h.task hdue
    · rintro rfl
      exact hne (Option.some.inj (hdue.1.symm.trans hc))

theorem State.Sessions.CloseSessionByClient (h : s.Sessions) (ht : s.Threads) {d : Nat} {pc : ClosePc}
    (hi : s.thread i = .OnClose d pc) (hstep : s.CloseSessionByClient i d pc = some s') :
    s'.Sessions := by
  have hok := ht.ok i
  rw [hi] at hok
  obtain ⟨c, hc, h1, hok⟩ := hok
  have hin := congrArg Pc.inside hi
  unfold State.CloseSessionByClient at hstep
  cases pc with
  | findClient =>
    have hmap : s.clients.mClientMap d = some ⟨d, c⟩ := hok
    obtain rfl := Option.some.inj hstep
    rw [hmap]
    exact h.goto ht rfl hin.symm trivial
  | lock client => exact h.lock ht (p := .OnClose d (.erase client)) rfl trivial hstep
  | erase client =>
    obtain ⟨-, rfl⟩ := hok
    obtain rfl := Option.some.inj hstep
    exact h.erase ht hin rfl hc trivial
  | unlock =>
    obtain rfl := Option.some.inj hstep
    exact h.move ht rfl (h.guarded.leave hin rfl) (.refl _) rfl rfl trivial h.returned
  | delete =>
    obtain rfl := Option.some.inj hstep
    exact h.move ht rfl (h.guarded.stay hin.symm) (.rest _ _ _) rfl rfl trivial h.returned
  | close =>
    obtain rfl := Option.some.inj hstep
    exact h.move ht (p := .free) rfl (h.guarded.stay hin.symm) (Clients.keeps_close hc hok.1) rfl rfl
      trivial h.returned

theorem State.Sessions.stepThread (h : s.Sessions) (ht : s.Threads) {answer : Bool}
    (hstep : s.stepThread i answer = some s') : s'.Sessions := by
  unfold State.stepThread at hstep
  cases hi : s.thread i with
  | free =>
    rw [hi] at hstep
    cases hstep
  | find m =>
    have hin := congrArg Pc.inside hi
    rw [hi] at hstep
    obtain rfl := Option.some.inj hstep
    split
    · exact h.goto ht rfl hin.symm trivial
    · exact h.goto ht rfl hin.symm trivial
  | send call pc =>
    rw [hi] at hstep
    exact h.SendClient2VNC ht hi hstep
  | reply r pc =>
    rw [hi] at hstep
    exact h.ReturnVNC2Client ht hi hstep
  | OnClose d pc =>
    rw [hi] at hstep
    exact h.CloseSessionByClient ht hi hstep

/-- a thread outside goes on, and the environment changes what is known of the connections -/
theorem State.Sessions.outside (h : s.Sessions) (ht : s.Threads) {f : Clients} {p : Pc}
    (hkeeps : s.clients.Keeps f) (hi : s.thread i = .free) (hp : p.inside = false) :
    ((s.tell f).goto i p).Sessions := by
  refine h.move ht rfl (h.guarded.stay ?_) hkeeps rfl rfl (Pc.section_outside hp) h.returned
  rw [hi]
  exact hp

theorem State.Sessions.tell (h : s.Sessions) (ht : s.Threads) {f : Clients}
    (hkeeps : s.clients.Keeps f) : (s.tell f).Sessions := by
  refine h.move (i := 0) (p := s.thread 0) ht (Function.update_eq_self 0 s.thread).symm h.guarded
    hkeeps rfl rfl (h.inside 0) h.returned

theorem State.Sessions.step (h : s.Sessions) (ht : s.Threads) {a : Action n}
    (hstep : s.step a = some s') : s'.Sessions := by
  cases a with
  | accept d =>
    obtain ⟨hd, rfl⟩ := State.accept_eq hstep
    exact h.tell ht (Clients.keeps_accept hd)
  | recv d =>
    obtain ⟨c, -, -, rfl⟩ := State.recv_eq hstep
    exact h.tell ht (.rest _ _ _)
  | disconnect d =>
    obtain ⟨c, client, -, -, hmain, -, rfl⟩ := State.disconnect_eq hstep
    exact h.outside ht (Clients.keeps_setLife rfl) hmain rfl
  | pop j =>
    obtain ⟨m, l, hj, -, rfl⟩ := State.pop_eq hstep
    exact h.outside ht (.rest _ _ _) hj rfl
  | OnParseCmd j fd seq =>
    obtain ⟨hj, rfl⟩ := State.OnParseCmd_eq hstep
    exact h.outside ht (.refl _) hj rfl
  | OnClose j d =>
    obtain ⟨c, -, hj, -, rfl⟩ := State.OnClose_eq hstep
    exact h.outside ht (Clients.keeps_setLife rfl) hj rfl
  | AddSeq j seq =>
    obtain ⟨call, hj, rfl⟩ := State.AddSeq_eq hstep
    exact h.goto ht rfl (by rw [hj]; rfl) trivial
  | step j answer => exact h.stepThread ht hstep

/-! ## all runs -/

theorem State.Threads.init (n : Nat) : (State.init n).Threads where
  clients := ⟨nofun, nofun, fun _ => rfl, nofun, fun h => (nomatch h.1), fun _ => ⟨nofun, nofun, nofun⟩,
    nofun⟩
  ok := fun _ => trivial
  one := nofun

theorem State.Sessions.init (n : Nat) : (State.init n).Sessions where
  guarded := fun _ => ⟨nofun, nofun⟩
  client := nofun
  old := nofun
  task := fun h => nomatch h.1
  inside := fun _ => trivial
  returned := nofun

/-- **No reply is lost by lookup**, for any number of threads and every interleaving: in every run in
which `TcpServer` keeps its promise, `ReturnVNC2Client` finds the session and the task of every request
task that was queued for a connection, as long as its session is open, and queues its Message to this
connection. -/
theorem replies_found {l : List (Action n)} {s : State n}
    (hok : RunOk State.step State.Ok (State.init n) l)
    (hrun : run State.step (State.init n) l = some s) :
    ∀ r ∈ s.returned, r.Answered := by
  have h : s.Threads ∧ s.Sessions :=
    inv_runOk (I := fun s => s.Threads ∧ s.Sessions)
      (fun _ _ _ hi hok hstep => ⟨hi.1.step hok hstep, hi.2.step hi.1 hstep⟩)
      ⟨.init n, .init n⟩ hok hrun
  exact h.2.returned

/-! ## a run with two handler threads -/

def steps (i : Fin (n + 1)) (k : Nat) : List (Action n) := List.replicate k (.step i true)

/-- the connection on descriptor 5 sends a chunk, and handler thread `j` has queued it to VNC under
seq 7, but not returned -/
def request5 (j : Fin n) : List (Action n) :=
  [.accept 5, .recv 5, .pop j] ++ steps j.succ 3 ++ [.AddSeq j.succ 7] ++ steps j.succ 5

/-- handler thread `j` parses a reply with seq 7 and goes on `k` times -/
def reply5 (j : Fin n) (k : Nat) : List (Action n) := [.OnParseCmd j 5 7] ++ steps j.succ k

/-- the connection is disconnected by the thread `main` and closed by handler thread `j` -/
def close5 (main : Fin (n + 1)) (j : Fin n) : List (Action n) :=
  [.disconnect 5, .step main false, .OnClose j.succ 5] ++ steps j.succ 6

/-- a reply that is parsed before `SendClient2VNC` has returned, a second one, and one that comes
behind `OnClose` -/
theorem replies_found_twice :
    ∃ s, run State.step (State.init 2) (request5 0 ++ reply5 1 0 ++ steps 1 1 ++ steps 2 6 ++
        reply5 1 6 ++ close5 0 0 ++ reply5 1 3) = some s ∧
      s.returned = [⟨5, 7, some 0, true, true, true, some 0⟩, ⟨5, 7, some 0, true, true, true, some 0⟩,
        ⟨5, 7, none, false, false, false, none⟩] ∧
      ∀ r ∈ s.returned, r.Answered := by
  have hok : RunOk State.step State.Ok (State.init 2) (request5 0 ++ reply5 1 0 ++ steps 1 1 ++
      steps 2 6 ++ reply5 1 6 ++ close5 0 0 ++ reply5 1 3) := by
    decide
  exact ⟨_, rfl, rfl, replies_found hok rfl⟩

end VncProxy.Lookup
