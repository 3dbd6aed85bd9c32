import VncProxy.Http.Respond

/-!
# What a client is told by HttpProxyServer

* `Single`             one HttpRequest at most is started for the descriptor, and no Disconnect has come;
* `Inv`                what holds then;
* `Inv.step`           every step that is `Calm` keeps it;
* `Inv.told_all`       at rest the client is told what libcurl has written for it, and then its end;
* `responded`          the same for a request of a browser, whose body libcurl gets.
-/

namespace VncProxy.Respond

open HttpProxyServer (Alloc Outcome Server Started OnRecvCommands Serves ones postAmong postTwo
  postTwo_wellFormed)

variable {n N : Nat} {s s' : State n} {fd : CInt} {a : Action n}

def bytesFor (l : List (CInt × List Byte)) (fd : CInt) : List Byte :=
  (l.filter (·.1 = fd)).flatMap Prod.snd

def starts (outcomes : List Outcome) : List Started :=
  outcomes.filterMap fun
    | .starts q => some q
    | .waits | .fails | .disconnects => none

/-- the condition on a step: a call of libcurl is for less than 2^31 bytes; a frame is not begun
inside of another one, and the connection is not made again -/
def State.Calm (s : State n) : Action n → Prop
  | .CurlReadHandle _ size nmemb | .CurlWriteHandle _ _ size nmemb => size * nmemb < 2 ^ 31
  | .send m => m.Inner ∧ s.mTcpProxyClient.Alone m
  | .OnRecvCommand .. | .onFinish _ | .unlock _ => True

instance (s : State n) : DecidablePred s.Calm
  | .CurlReadHandle _ size nmemb | .CurlWriteHandle _ _ size nmemb =>
    inferInstanceAs (Decidable (size * nmemb < 2 ^ 31))
  | .send m => inferInstanceAs (Decidable (m.Inner ∧ s.mTcpProxyClient.Alone m))
  | .OnRecvCommand .. | .onFinish _ | .unlock _ => .isTrue trivial

/-- what has come for the descriptor starts one HttpRequest at most, and is not refused -/
structure Single (fd : CInt) (s : State n) : Prop where
  starts : (starts (s.server.outcomesOf fd)).length ≤ 1
  accepted : .disconnects ∉ s.server.outcomesOf fd
  own : ∀ x ∈ s.received, x.1.header.fd = fd → x.1.header.cmdt = .CommandTypeProxy

/-- the thread runs an HttpRequest for the descriptor -/
def State.Serving (s : State n) (fd : CInt) (t : Fin n) : Prop := ∃ q, s.request t = some q ∧ q.fd = fd

/-- the end of a descriptor -/
def endFor (l : List CInt) (fd : CInt) : List (Option Byte) :=
  if l.contains fd then [none] else []

/-- what the client is to be told -/
def State.said (s : State n) (fd : CInt) : List (Option Byte) :=
  (bytesFor s.downloaded fd).map some ++ endFor s.ended fd

structure Inv (fd : CInt) (s : State n) : Prop where
  tells : ∃ t, s.mTcpProxyClient.Tells fd t (s.said fd)
  clients : ∀ u, (s.mTcpProxyClient.thread u).client = some fd → ∃ t, u = t.castSucc ∧ s.Serving fd t
  single : ∀ t t', s.Serving fd t → s.Serving fd t' → t = t'
  fresh : starts (s.server.outcomesOf fd) = [] → (∀ t, ¬ s.Serving fd t) ∧
    bytesFor s.downloaded fd = [] ∧ bytesFor s.uploaded fd = [] ∧ fd ∉ s.ended
  ended : fd ∈ s.ended → ∀ t, s.Serving fd t → s.mutex = some t
  finishing : ∀ t, s.mutex = some t → s.Serving fd t → fd ∈ s.ended
  ends : starts (s.server.outcomesOf fd) ≠ [] → fd ∈ s.ended ∨ ∃ t, s.Serving fd t
  parser : starts (s.server.outcomesOf fd) ≠ [] → (s.server.mDataHttpParserMap fd).isSome
  /-- libcurl has read of the HttpRequest that was started, and goes on behind -/
  uploads : ∀ q₀ ∈ starts (s.server.outcomesOf fd), ∃ calls : List (Nat × Nat),
    (∀ x ∈ calls, x.1 * x.2 < 2 ^ 31) ∧ bytesFor s.uploaded fd = (q₀.request.reads calls).flatten ∧
      ∀ t q, s.request t = some q → q.fd = fd → ∀ l,
        q₀.request.reads (calls ++ l) = q₀.request.reads calls ++ q.request.reads l

theorem Inv.init (fd : CInt) : Inv fd (State.init n) where
  tells := ⟨Fin.last n, .init fd _⟩
  clients := fun _ h => by cases h
  single := fun _ _ ⟨_, h, _⟩ => by cases h
  fresh := fun _ => ⟨fun _ ⟨_, h, _⟩ => (by cases h), rfl, rfl, List.not_mem_nil⟩
  ended := fun h => absurd h List.not_mem_nil
  finishing := fun _ h => by cases h
  ends := fun h => absurd rfl h
  parser := fun h => absurd rfl h
  uploads := fun _ h => absurd h List.not_mem_nil

/-! ## what has come -/

theorem outcomesOf_append {server server' : Server} {l : List (CInt × Outcome)}
    (hout : server'.outcomes = server.outcomes ++ l) (fd : CInt) :
    server'.outcomesOf fd = server.outcomesOf fd ++ (l.filter (·.1 = fd)).map Prod.snd := by
  unfold Server.outcomesOf
  rw [hout, List.filter_append, List.map_append]

theorem starts_append (l l' : List Outcome) : starts (l ++ l') = starts l ++ starts l' :=
  List.filterMap_append

theorem bytesFor_append (l l' : List (CInt × List Byte)) (fd : CInt) :
    bytesFor (l ++ l') fd = bytesFor l fd ++ bytesFor l' fd := by
  unfold bytesFor
  rw [List.filter_append, List.flatMap_append]

theorem bytesFor_self (fd : CInt) (bytes : List Byte) : bytesFor [(fd, bytes)] fd = bytes := by
  unfold bytesFor
  rw [List.filter_cons_of_pos (by simp), List.filter_nil, List.flatMap_singleton]

theorem bytesFor_other {fd' : CInt} (hfd : fd' ≠ fd) (bytes : List Byte) :
    bytesFor [(fd', bytes)] fd = [] := by
  unfold bytesFor
  rw [List.filter_cons_of_neg (by simpa using hfd)]
  rfl

theorem endFor_of_mem {l : List CInt} (h : fd ∈ l) : endFor l fd = [none] :=
  if_pos (List.contains_iff_mem.mpr h)

theorem endFor_of_not_mem {l : List CInt} (h : fd ∉ l) : endFor l fd = [] :=
  if_neg fun hmem => h (List.contains_iff_mem.mp hmem)

theorem endFor_append_other {fd' : CInt} (hfd : fd' ≠ fd) (l : List CInt) :
    endFor (l ++ [fd']) fd = endFor l fd := by
  by_cases h : fd ∈ l
  · rw [endFor_of_mem h, endFor_of_mem (List.mem_append_left _ h)]
  · rw [endFor_of_not_mem h, endFor_of_not_mem]
    intro hmem
    rcases List.mem_append.mp hmem with hmem | hmem
    · exact h hmem
    · exact hfd (List.mem_singleton.mp hmem).symm

theorem OnRecvCommand_keeps {server server' : Server} {cmd : CMD} {x : Alloc}
    (hcall : HttpProxyServer.OnRecvCommand N server cmd x = some server')
    (hown : cmd.header.fd = fd → cmd.header.cmdt = .CommandTypeProxy)
    (hparser : (server.mDataHttpParserMap fd).isSome) : (server'.mDataHttpParserMap fd).isSome := by
  by_cases hfd : cmd.header.fd = fd
  · unfold HttpProxyServer.OnRecvCommand at hcall
    dsimp only at hcall
    rw [hown hfd] at hcall
    obtain ⟨r, -, rfl⟩ := Option.map_eq_some_iff.mp hcall
    dsimp only
    rw [hfd, Function.update_self]
    rfl
  · rw [(HttpProxyServer.OnRecvCommand_other hfd hcall).parser]
    exact hparser

theorem grows (hstep : s.Step N a s') :
    (∃ l, s'.server.outcomes = s.server.outcomes ++ l) ∧ ∃ l, s'.received = s.received ++ l := by
  have hsame : ∀ {β : Type} (l : List β), ∃ l', l = l ++ l' := fun l => ⟨[], (List.append_nil l).symm⟩
  cases hstep with
  | recv cmd x t server hmutex hserver hout =>
    refine ⟨?_, _, rfl⟩
    rcases hout with hout | ⟨o, -, hout⟩
    · exact ⟨[], hout.trans (List.append_nil _).symm⟩
    · exact ⟨_, hout⟩
  | start cmd x t server q hmutex hserver hout => exact ⟨⟨_, hout⟩, _, rfl⟩
  | reject cmd x t server client hmutex hserver hout => exact ⟨⟨_, hout⟩, _, rfl⟩
  | read | write | finish | gone | unlock | send => exact ⟨hsame _, hsame _⟩

theorem Single.before (hsingle : Single fd s') (hstep : s.Step N a s') : Single fd s := by
  obtain ⟨⟨l, hout⟩, l', hreceived⟩ := grows hstep
  have houtcomes := outcomesOf_append hout fd
  obtain ⟨hstarts, haccepted, hown⟩ := hsingle
  rw [houtcomes, starts_append, List.length_append] at hstarts
  rw [houtcomes] at haccepted
  rw [hreceived] at hown
  exact ⟨by omega, fun h => haccepted (List.mem_append_left _ h),
    fun x hx => hown x (List.mem_append_left _ hx)⟩

/-! ## one step -/

/-- no thread is in a call for the client, when the one that serves it is not -/
theorem Inv.quiet (hi : Inv fd s)
    (hidle : ∀ t, s.Serving fd t → s.mTcpProxyClient.thread t.castSucc = .idle) (u : Fin (n + 1)) :
    (s.mTcpProxyClient.thread u).words fd = [] := by
  refine Pc.words_of_client fun hclient => ?_
  obtain ⟨t, rfl, ht⟩ := hi.clients u hclient
  rw [hidle t ht] at hclient
  cases hclient

/-- a client that a thread serves is not told the end before the thread has the mutex -/
theorem Inv.not_ended (hi : Inv fd s) {t : Fin n} {q : Started} (hq : s.performs t = some q)
    (hfd : q.fd = fd) : fd ∉ s.ended := by
  obtain ⟨hrequest, hmutex, -⟩ := performs_eq hq
  exact fun hended => hmutex (hi.ended hended t ⟨q, hrequest, hfd⟩)

/-- only the thread that performs serves the client, and is in no call -/
theorem Inv.serving_idle (hi : Inv fd s) {t : Fin n} {q : Started} (hq : s.performs t = some q)
    (hfd : q.fd = fd) : ∀ t', s.Serving fd t' → s.mTcpProxyClient.thread t'.castSucc = .idle := by
  obtain ⟨hrequest, -, hidle⟩ := performs_eq hq
  intro t' ht'
  rw [hi.single t' t ht' ⟨q, hrequest, hfd⟩]
  exact hidle

theorem Inv.clients_call (hi : Inv fd s) {v : Fin (n + 1)} {call : Call} {client : Sender (n + 1)}
    (hcall : s.mTcpProxyClient.call v call = some client)
    (hown : call.start.client = some fd → ∃ t, v = t.castSucc ∧ s.Serving fd t) :
    ∀ u, (client.thread u).client = some fd → ∃ t, u = t.castSucc ∧ s.Serving fd t := by
  obtain ⟨-, rfl⟩ := Sender.call_eq hcall
  intro u hu
  by_cases huv : u = v
  · subst huv
    rw [Sender.goto_self] at hu
    exact hown hu
  · rw [Sender.goto_other _ _ huv] at hu
    exact hi.clients u hu

theorem Inv.recvStep (hi : Inv fd s) {cmd : CMD} {x : Alloc} {server : Server}
    {request : Fin n → Option Started} {client : Sender (n + 1)}
    (hserver : HttpProxyServer.OnRecvCommand N s.server cmd x = some server)
    (hown : cmd.header.fd = fd → cmd.header.cmdt = .CommandTypeProxy)
    (hstarts : starts (server.outcomesOf fd) = starts (s.server.outcomesOf fd))
    (hrequest : ∀ t q, q.fd = fd → (request t = some q ↔ s.request t = some q))
    (htells : ∃ t, client.Tells fd t (s.said fd))
    (hclients : ∀ u, (client.thread u).client = some fd → ∃ t, u = t.castSucc ∧ s.Serving fd t) :
    Inv fd { s with
      server := server
      received := s.received ++ [(cmd, x)]
      request := request
      mTcpProxyClient := client } := by
  have hserving : ∀ t, (∃ q, request t = some q ∧ q.fd = fd) ↔ s.Serving fd t := fun t =>
    exists_congr fun q => ⟨fun h => ⟨(hrequest t q h.2).mp h.1, h.2⟩,
      fun h => ⟨(hrequest t q h.2).mpr h.1, h.2⟩⟩
  refine ⟨htells, ?_, ?_, ?_, ?_, ?_, ?_, ?_, ?_⟩
  · intro u hu
    obtain ⟨t, htu, ht⟩ := hclients u hu
    exact ⟨t, htu, (hserving t).mpr ht⟩
  · exact fun t t' ht ht' => hi.single t t' ((hserving t).mp ht) ((hserving t').mp ht')
  · intro hnil
    obtain ⟨hnone, hrest⟩ := hi.fresh (hstarts.symm.trans hnil)
    exact ⟨fun t ht => hnone t ((hserving t).mp ht), hrest⟩
  · exact fun hended t ht => hi.ended hended t ((hserving t).mp ht)
  · exact fun t hmutex ht => hi.finishing t hmutex ((hserving t).mp ht)
  · intro hne
    rcases hi.ends (hstarts ▸ hne) with hended | ⟨t, ht⟩
    · exact .inl hended
    · exact .inr ⟨t, (hserving t).mpr ht⟩
  · intro hne
    exact OnRecvCommand_keeps hserver hown (hi.parser (hstarts ▸ hne))
  · intro q₀ hq₀
    obtain ⟨calls, hsizes, hbytes, hgoes⟩ := hi.uploads q₀ (hstarts ▸ hq₀)
    exact ⟨calls, hsizes, hbytes, fun t q hq hfd => hgoes t q ((hrequest t q hfd).mp hq) hfd⟩

theorem Inv.startStep (hi : Inv fd s) {cmd : CMD} {x : Alloc} {t : Fin n} {server : Server} {q : Started}
    (hmutex : s.mutex = none) (hfd : q.fd = fd)
    (hparser : (server.mDataHttpParserMap fd).isSome) (hnil : starts (s.server.outcomesOf fd) = [])
    (hstarts : starts (server.outcomesOf fd) = [q]) :
    Inv fd { s with
      server := server
      received := s.received ++ [(cmd, x)]
      request := Function.update s.request t (some q) } := by
  obtain ⟨hnone, hdownloaded, huploaded, hended⟩ := hi.fresh hnil
  have hserving : ∀ t', (∃ q', Function.update s.request t (some q) t' = some q' ∧ q'.fd = fd) → t' = t := by
    rintro t' ⟨q', hq', hfd'⟩
    by_contra hne
    rw [Function.update_of_ne hne] at hq'
    exact hnone t' ⟨q', hq', hfd'⟩
  have hself : ∃ q', Function.update s.request t (some q) t = some q' ∧ q'.fd = fd :=
    ⟨q, Function.update_self .., hfd⟩
  refine ⟨hi.tells, ?_, ?_, ?_, ?_, ?_, ?_, fun _ => hparser, ?_⟩
  · intro u hu
    obtain ⟨t', -, ht'⟩ := hi.clients u hu
    exact absurd ht' (hnone t')
  · exact fun t1 t2 h1 h2 => (hserving t1 h1).trans (hserving t2 h2).symm
  · intro hnil'
    rw [hstarts] at hnil'
    cases hnil'
  · exact fun h => absurd h hended
  · intro t' ht'
    rw [hmutex] at ht'
    cases ht'
  · exact fun _ => .inr ⟨t, hself⟩
  · intro q₀ hq₀
    rw [hstarts] at hq₀
    obtain rfl := List.mem_singleton.mp hq₀
    refine ⟨[], nofun, huploaded, fun t' q' hq' hfd' l => ?_⟩
    obtain rfl := hserving t' ⟨q', hq', hfd'⟩
    dsimp only at hq'
    rw [Function.update_self] at hq'
    obtain rfl := Option.some.inj hq'
    rfl

theorem Inv.readStep (hi : Inv fd s) {t : Fin n} {q : Started} {size nmemb : Nat}
    (hsize : size * nmemb < 2 ^ 31) (hq : s.performs t = some q) :
    Inv fd { s with
      request := Function.update s.request t
        (some { q with request := (q.request.CurlReadHandle size nmemb).1 })
      uploaded := s.uploaded ++ [(q.fd, (q.request.CurlReadHandle size nmemb).2.1)] } := by
  obtain ⟨hrequest, -, -⟩ := performs_eq hq
  have hserving : ∀ t', (∃ q', Function.update s.request t
        (some { q with request := (q.request.CurlReadHandle size nmemb).1 }) t' = some q' ∧ q'.fd = fd)
      ↔ s.Serving fd t' := by
    intro t'
    by_cases ht' : t' = t
    · subst ht'
      unfold State.Serving
      rw [Function.update_self, hrequest]
      constructor
      · rintro ⟨q', hq', hfd⟩
        obtain rfl := Option.some.inj hq'
        exact ⟨q, rfl, hfd⟩
      · rintro ⟨q', hq', hfd⟩
        obtain rfl := Option.some.inj hq'
        exact ⟨_, rfl, hfd⟩
    · rw [Function.update_of_ne ht']
      rfl
  have hnew : starts (s.server.outcomesOf fd) = [] → q.fd ≠ fd := fun hnil hfd =>
    (hi.fresh hnil).1 t ⟨q, hrequest, hfd⟩
  refine ⟨hi.tells, ?_, ?_, ?_, ?_, ?_, ?_, hi.parser, ?_⟩
  · intro u hu
    obtain ⟨t', htu, ht'⟩ := hi.clients u hu
    exact ⟨t', htu, (hserving t').mpr ht'⟩
  · exact fun t1 t2 h1 h2 => hi.single t1 t2 ((hserving t1).mp h1) ((hserving t2).mp h2)
  · intro hnil
    obtain ⟨hnone, hdownloaded, huploaded, hended⟩ := hi.fresh hnil
    refine ⟨fun t' ht' => hnone t' ((hserving t').mp ht'), hdownloaded, ?_, hended⟩
    rw [bytesFor_append, huploaded, bytesFor_other (hnew hnil)]
    rfl
  · exact fun hended t' ht' => hi.ended hended t' ((hserving t').mp ht')
  · exact fun t' hmutex ht' => hi.finishing t' hmutex ((hserving t').mp ht')
  · intro hne
    rcases hi.ends hne with hended | ⟨t', ht'⟩
    · exact .inl hended
    · exact .inr ⟨t', (hserving t').mpr ht'⟩
  · intro q₀ hq₀
    obtain ⟨calls, hsizes, hbytes, hgoes⟩ := hi.uploads q₀ hq₀
    by_cases hfd : q.fd = fd
    · -- the bytes that are read come next
      have hone := hgoes t q hrequest hfd [(size, nmemb)]
      refine ⟨calls ++ [(size, nmemb)], ?_, ?_, fun t' q' hq' hfd' l => ?_⟩
      · intro x hx
        rcases List.mem_append.mp hx with hx | hx
        · exact hsizes x hx
        · exact List.mem_singleton.mp hx ▸ hsize
      · rw [hone, List.flatten_append, bytesFor_append, hbytes, ← hfd, bytesFor_self]
        exact congrArg _ (List.append_nil _).symm
      · obtain rfl : t' = t :=
          hi.single t' t ((hserving t').mp ⟨q', hq', hfd'⟩) ⟨q, hrequest, hfd⟩
        dsimp only at hq'
        rw [Function.update_self] at hq'
        obtain rfl := Option.some.inj hq'
        rw [hone, List.append_assoc, hgoes _ q hrequest hfd ([(size, nmemb)] ++ l), List.append_assoc]
        rfl
    · refine ⟨calls, hsizes, ?_, fun t' q' hq' hfd' => ?_⟩
      · rw [bytesFor_append, bytesFor_other hfd, List.append_nil]
        exact hbytes
      · dsimp only at hq'
        have ht' : t' ≠ t := by
          rintro rfl
          rw [Function.update_self] at hq'
          obtain rfl := Option.some.inj hq'
          exact hfd hfd'
        rw [Function.update_of_ne ht'] at hq'
        exact hgoes t' q' hq' hfd'

theorem Inv.writeStep (hi : Inv fd s) {t : Fin n} {q : Started} {buffer : List Byte} {size nmemb : Nat}
    {client : Sender (n + 1)} (hsize : size * nmemb < 2 ^ 31) (hq : s.performs t = some q)
    (hlen : buffer.length = size * nmemb)
    (hcall : s.mTcpProxyClient.call t.castSucc (.SendProxyBuffer q.seq q.fd
      (buffer.take (int32 (size * nmemb : Nat)).toNat)) = some client) :
    Inv fd { s with
      mTcpProxyClient := client
      downloaded := s.downloaded ++ [(q.fd, buffer)] } := by
  obtain ⟨hrequest, -, -⟩ := performs_eq hq
  have hbuffer : buffer.take (int32 (size * nmemb : Nat)).toNat = buffer := by
    rw [int32_of_fits (by omega) (by omega), Int.toNat_natCast, ← hlen, List.take_length]
  rw [hbuffer] at hcall
  refine { hi with
    tells := ?_
    clients := hi.clients_call hcall fun hclient => ⟨t, rfl, q, hrequest, Option.some.inj hclient⟩
    fresh := fun hnil => ?_ }
  · obtain ⟨t', htells⟩ := hi.tells
    have hsaid : s.said fd ++ (Call.SendProxyBuffer q.seq q.fd buffer).words fd
        = (bytesFor (s.downloaded ++ [(q.fd, buffer)]) fd).map some ++ endFor s.ended fd := by
      by_cases hfd : q.fd = fd
      · subst hfd
        unfold State.said
        rw [Call.words_buffer, endFor_of_not_mem (hi.not_ended hq rfl), if_pos rfl, List.append_nil,
          List.append_nil, bytesFor_append, bytesFor_self, List.map_append]
      · unfold State.said
        rw [Call.words_buffer, if_neg hfd, bytesFor_append, bytesFor_other hfd, List.append_nil,
          List.append_nil]
    obtain ⟨t'', h''⟩ := htells.call hcall fun hwords => hi.quiet (hi.serving_idle hq (by
      by_contra hfd
      exact hwords (if_neg hfd)))
    rw [hsaid] at h''
    exact ⟨t'', h''⟩
  · obtain ⟨hnone, hdownloaded, huploaded, hended⟩ := hi.fresh hnil
    have hfd : q.fd ≠ fd := fun hfd => hnone t ⟨q, hrequest, hfd⟩
    refine ⟨hnone, ?_, huploaded, hended⟩
    rw [bytesFor_append, hdownloaded, bytesFor_other hfd]
    rfl

theorem Inv.finishStep (hi : Inv fd s) {t : Fin n} {q : Started} {client : Sender (n + 1)}
    (hmutex : s.mutex = none) (hq : s.performs t = some q)
    (hcall : s.mTcpProxyClient.call t.castSucc (.SendProxyDisconnect q.fd) = some client) :
    Inv fd { s with
      mTcpProxyClient := client
      mutex := some t
      ended := s.ended ++ [q.fd] } := by
  obtain ⟨hrequest, -, -⟩ := performs_eq hq
  have hmem : fd ∈ s.ended ++ [q.fd] ↔ fd ∈ s.ended ∨ q.fd = fd := by
    rw [List.mem_append, List.mem_singleton, eq_comm (a := fd)]
  refine { hi with
    tells := ?_
    clients := hi.clients_call hcall fun hclient => ⟨t, rfl, q, hrequest, Option.some.inj hclient⟩
    fresh := fun hnil => ?_
    ended := fun hended t' ht' => ?_
    finishing := fun t' ht' hserving => ?_
    ends := fun hne => (hi.ends hne).imp_left fun h => hmem.mpr (.inl h) }
  · obtain ⟨t', htells⟩ := hi.tells
    have hsaid : s.said fd ++ (Call.SendProxyDisconnect q.fd).words fd
        = (bytesFor s.downloaded fd).map some ++ endFor (s.ended ++ [q.fd]) fd := by
      unfold State.said
      rw [Call.words_disconnect]
      by_cases hfd : q.fd = fd
      · rw [endFor_of_not_mem (hi.not_ended hq hfd), if_pos hfd, endFor_of_mem (hmem.mpr (.inr hfd)),
          List.append_nil]
      · rw [if_neg hfd, List.append_nil, endFor_append_other hfd]
    obtain ⟨t'', h''⟩ := htells.call hcall fun hwords => hi.quiet (hi.serving_idle hq (by
      by_contra hfd
      exact hwords (if_neg hfd)))
    rw [hsaid] at h''
    exact ⟨t'', h''⟩
  · obtain ⟨hnone, hdownloaded, huploaded, hended⟩ := hi.fresh hnil
    refine ⟨hnone, hdownloaded, huploaded, fun h => ?_⟩
    rcases hmem.mp h with h | hfd
    · exact hended h
    · exact hnone t ⟨q, hrequest, hfd⟩
  · rcases hmem.mp hended with hended | hfd
    · have hnone := hi.ended hended t' ht'
      rw [hmutex] at hnone
      cases hnone
    · exact congrArg some (hi.single t t' ⟨q, hrequest, hfd⟩ ht')
  · obtain rfl := Option.some.inj ht'
    obtain ⟨q', hq', hfd⟩ := hserving
    obtain rfl := Option.some.inj (hrequest.symm.trans hq')
    exact hmem.mpr (.inr hfd)

theorem Inv.unlockStep (hi : Inv fd s) {t : Fin n} (hmutex : s.mutex = some t)
    (hidle : s.mTcpProxyClient.thread t.castSucc = .idle) :
    Inv fd { s with mutex := none, request := Function.update s.request t none } := by
  have hrequest : ∀ t' q, Function.update s.request t none t' = some q → t' ≠ t ∧ s.request t' = some q := by
    intro t' q hq
    by_cases ht' : t' = t
    · subst ht'
      rw [Function.update_self] at hq
      cases hq
    · rw [Function.update_of_ne ht'] at hq
      exact ⟨ht', hq⟩
  have hserving : ∀ t', (∃ q, Function.update s.request t none t' = some q ∧ q.fd = fd) ↔
      t' ≠ t ∧ s.Serving fd t' := by
    intro t'
    constructor
    · rintro ⟨q, hq, hfd⟩
      exact ⟨(hrequest t' q hq).1, q, (hrequest t' q hq).2, hfd⟩
    · rintro ⟨ht', q, hq, hfd⟩
      exact ⟨q, (Function.update_of_ne ht' _ _).trans hq, hfd⟩
  refine { hi with
    clients := fun u hu => ?_
    single := fun t1 t2 h1 h2 => hi.single t1 t2 ((hserving t1).mp h1).2 ((hserving t2).mp h2).2
    fresh := fun hnil => ?_
    ended := fun hended t' ht' => ?_
    finishing := fun _ h => by cases h
    ends := fun hne => ?_
    uploads := fun q₀ hq₀ => ?_ }
  · obtain ⟨t', rfl, ht'⟩ := hi.clients u hu
    refine ⟨t', rfl, (hserving t').mpr ⟨?_, ht'⟩⟩
    rintro rfl
    change (s.mTcpProxyClient.thread _).client = _ at hu
    rw [hidle] at hu
    cases hu
  · obtain ⟨hnone, hrest⟩ := hi.fresh hnil
    exact ⟨fun t' ht' => hnone t' ((hserving t').mp ht').2, hrest⟩
  · obtain ⟨hne, ht'⟩ := (hserving t').mp ht'
    have hsome := hi.ended hended t' ht'
    rw [hmutex] at hsome
    exact absurd (Option.some.inj hsome).symm hne
  · rcases hi.ends hne with hended | ⟨t', ht'⟩
    · exact .inl hended
    · by_cases htt : t' = t
      · exact .inl (hi.finishing t hmutex (htt ▸ ht'))
      · exact .inr ⟨t', (hserving t').mpr ⟨htt, ht'⟩⟩
  · obtain ⟨calls, hsizes, hbytes, hgoes⟩ := hi.uploads q₀ hq₀
    exact ⟨calls, hsizes, hbytes, fun t' q hq => hgoes t' q (hrequest t' q hq).2⟩

theorem Inv.goneStep (hi : Inv fd s) {t : Fin n} {q : Started} (hmutex : s.mutex = none)
    (hq : s.performs t = some q) (hparser : s.server.mDataHttpParserMap q.fd = none) :
    Inv fd { s with mutex := some t } := by
  obtain ⟨hrequest, -, -⟩ := performs_eq hq
  refine { hi with
    ended := fun hended t' ht' => ?_
    finishing := fun t' ht' hserving => ?_ }
  · have hsome := hi.ended hended t' ht'
    rw [hmutex] at hsome
    cases hsome
  · -- the parser of a client that is served is there
    obtain rfl := Option.some.inj ht'
    obtain ⟨q', hq', hfd⟩ := hserving
    obtain rfl := Option.some.inj (hrequest.symm.trans hq')
    have hsome := hi.parser fun hnil => (hi.fresh hnil).1 t ⟨q, hrequest, hfd⟩
    rw [← hfd, hparser] at hsome
    cases hsome

theorem update_start {t : Fin n} {q : Started} (hfree : s.request t = none) (hfd : q.fd ≠ fd) (t' : Fin n)
    (q' : Started) (hfd' : q'.fd = fd) :
    Function.update s.request t (some q) t' = some q' ↔ s.request t' = some q' := by
  by_cases ht' : t' = t
  · subst ht'
    rw [Function.update_self, hfree]
    constructor
    · intro h
      obtain rfl := Option.some.inj h
      exact absurd hfd' hfd
    · intro h
      cases h
  · rw [Function.update_of_ne ht']

/-- **Every step that is `Calm` keeps it.** -/
theorem Inv.step (hi : Inv fd s) (hsingle : Single fd s') (hcalm : s.Calm a) (hstep : s.Step N a s') :
    Inv fd s' := by
  cases hstep with
  | recv cmd x t server hmutex hserver hout =>
    have hstarts : starts (server.outcomesOf fd) = starts (s.server.outcomesOf fd) := by
      rcases hout with hout | ⟨o, ho, hout⟩
      · unfold Server.outcomesOf
        rw [hout]
      · rw [outcomesOf_append hout fd, starts_append]
        by_cases hfd : cmd.header.fd = fd
        · rw [List.filter_cons_of_pos (by simpa using hfd)]
          rcases ho with rfl | rfl
          · exact List.append_nil _
          · exact List.append_nil _
        · rw [List.filter_cons_of_neg (by simpa using hfd)]
          exact List.append_nil _
    exact hi.recvStep hserver (fun hfd => hsingle.own (cmd, x) (List.mem_append_right _
      (List.mem_singleton_self _)) hfd) hstarts (fun _ _ _ => Iff.rfl) hi.tells hi.clients
  | start cmd x t server q hmutex hserver hout hq hfree =>
    have hown := fun hfd => hsingle.own (cmd, x) (List.mem_append_right _ (List.mem_singleton_self _)) hfd
    have happend := outcomesOf_append hout fd
    by_cases hfd : cmd.header.fd = fd
    · rw [List.filter_cons_of_pos (by simpa using hfd)] at happend
      have hstarts : starts (server.outcomesOf fd) = starts (s.server.outcomesOf fd) ++ [q] := by
        rw [happend, starts_append]
        rfl
      have hone := hsingle.starts
      dsimp only at hone
      rw [hstarts, List.length_append, List.length_singleton] at hone
      have hnil : starts (s.server.outcomesOf fd) = [] := List.eq_nil_of_length_eq_zero (by omega)
      rw [hnil, List.nil_append] at hstarts
      refine hi.startStep hmutex (hq.trans hfd) ?_ hnil hstarts
      rcases OnRecvCommand_outcomes hserver with hsame | ⟨o, -, -, hparser⟩
      · have hlen := congrArg List.length (hout.symm.trans hsame)
        rw [List.length_append, List.length_singleton] at hlen
        omega
      · exact hfd ▸ hparser
    · rw [List.filter_cons_of_neg (by simpa using hfd)] at happend
      exact hi.recvStep hserver hown (congrArg starts (happend.trans (List.append_nil _)))
        (update_start hfree fun h => hfd (hq.symm.trans h)) hi.tells hi.clients
  | reject cmd x t server client hmutex hserver hout hcall =>
    have hown := fun hfd => hsingle.own (cmd, x) (List.mem_append_right _ (List.mem_singleton_self _)) hfd
    have happend := outcomesOf_append hout fd
    by_cases hfd : cmd.header.fd = fd
    · rw [List.filter_cons_of_pos (by simpa using hfd)] at happend
      refine absurd ?_ hsingle.accepted
      dsimp only
      rw [happend]
      exact List.mem_append_right _ (List.mem_singleton_self _)
    · rw [List.filter_cons_of_neg (by simpa using hfd)] at happend
      obtain ⟨t', htells⟩ := hi.tells
      have hwords : (Call.SendProxyDisconnect cmd.header.fd).words fd = [] := if_neg hfd
      obtain ⟨t'', h''⟩ := htells.call hcall fun hne => absurd hwords hne
      rw [hwords, List.append_nil] at h''
      exact hi.recvStep hserver hown (congrArg starts (happend.trans (List.append_nil _)))
        (fun _ _ _ => Iff.rfl) ⟨t'', h''⟩
        (hi.clients_call hcall fun hclient => absurd (Option.some.inj hclient) hfd)
  | read t size nmemb q hq => exact hi.readStep hcalm hq
  | write t buffer size nmemb q client hq hlen hcall => exact hi.writeStep hcalm hq hlen hcall
  | finish t q client hmutex hq hcall => exact hi.finishStep hmutex hq hcall
  | gone t q hmutex hq hparser => exact hi.goneStep hmutex hq hparser
  | unlock t hmutex hidle => exact hi.unlockStep hmutex hidle
  | send m client hmove =>
    obtain ⟨hinner, hdead⟩ := Sender.inner_of_step hcalm.1 hmove
    obtain ⟨t, htells⟩ := hi.tells
    exact { hi with
      tells := ⟨t, htells.inner hinner hdead⟩
      clients := fun u hu => hi.clients u (hinner.client hu) }

/-! ## every run -/

structure State.Resting (s : State n) : Prop where
  connected : s.mTcpProxyClient.mbConnected = true
  written : s.mTcpProxyClient.failed = false
  thread : ∀ t, s.mTcpProxyClient.thread t = .idle
  request : ∀ t, (s.request t).isNone

instance (s : State n) : Decidable s.Resting :=
  decidable_of_iff (s.mTcpProxyClient.mbConnected = true ∧ s.mTcpProxyClient.failed = false ∧
      (∀ t, s.mTcpProxyClient.thread t = .idle) ∧ ∀ t, (s.request t).isNone)
    ⟨fun ⟨h1, h2, h3, h4⟩ => ⟨h1, h2, h3, h4⟩, fun ⟨h1, h2, h3, h4⟩ => ⟨h1, h2, h3, h4⟩⟩

theorem State.Resting.live (hrest : s.Resting) : ¬ s.mTcpProxyClient.Dead := by
  rintro (hdown | hfailed)
  · exact absurd hrest.connected (by simp [hdown])
  · exact absurd hrest.written (by simp [hfailed])

theorem OnRecvCommands_append {server : Server} (l l' : List (CMD × Alloc)) :
    OnRecvCommands N server (l ++ l')
      = (OnRecvCommands N server l).bind fun server => OnRecvCommands N server l' := by
  induction l generalizing server with
  | nil => rfl
  | cons x l ih =>
    show (HttpProxyServer.OnRecvCommand N server x.1 x.2).bind _ = Option.bind (Option.bind _ _) _
    rw [Option.bind_assoc]
    exact congrArg (Option.bind _) (funext fun server => ih)

theorem server_step (hserver : OnRecvCommands N .init s.received = some s.server)
    (hstep : s.Step N a s') : OnRecvCommands N .init s'.received = some s'.server := by
  have hrecv : ∀ {cmd : CMD} {x : Alloc} {server : Server},
      HttpProxyServer.OnRecvCommand N s.server cmd x = some server →
        OnRecvCommands N .init (s.received ++ [(cmd, x)]) = some server := by
    intro cmd x server hcall
    rw [OnRecvCommands_append, hserver]
    show (HttpProxyServer.OnRecvCommand N s.server cmd x).bind _ = _
    rw [hcall]
    rfl
  cases hstep with
  | recv cmd x t server hmutex hcall => exact hrecv hcall
  | start cmd x t server q hmutex hcall => exact hrecv hcall
  | reject cmd x t server client hmutex hcall => exact hrecv hcall
  | read | write | finish | gone | unlock | send => exact hserver

theorem sender_step (hinv : s.mTcpProxyClient.Inv) (hcalm : s.Calm a) (hstep : s.Step N a s') :
    s'.mTcpProxyClient.Inv := by
  cases hstep with
  | recv | start | read | gone | unlock => exact hinv
  | reject cmd x t server client hmutex hserver hout hcall =>
    obtain ⟨m, hmove, halone⟩ := Sender.call_step hcall
    exact hinv.step halone hmove
  | write t buffer size nmemb q client hq hlen hcall =>
    obtain ⟨m, hmove, halone⟩ := Sender.call_step hcall
    exact hinv.step halone hmove
  | finish t q client hmutex hq hcall =>
    obtain ⟨m, hmove, halone⟩ := Sender.call_step hcall
    exact hinv.step halone hmove
  | send m client hmove => exact hinv.step hcalm.2 hmove

section
variable {l : List (Action n)}

theorem sender_of_calm (hcalm : RunOk (State.step N) State.Calm (State.init n) l)
    (hrun : run (State.step N) (State.init n) l = some s) : s.mTcpProxyClient.Inv :=
  inv_runOk (I := fun s : State n => s.mTcpProxyClient.Inv)
    (fun _ _ _ hinv hok hstep => sender_step hinv hok (step_cases hstep)) (Sender.Inv.init (n + 1))
    hcalm hrun

theorem server_of_run (hrun : run (State.step N) (State.init n) l = some s) :
    OnRecvCommands N .init s.received = some s.server :=
  inv_run (I := fun s : State n => OnRecvCommands N .init s.received = some s.server)
    (fun _ _ _ hserver hstep => server_step hserver (step_cases hstep)) rfl hrun

theorem inv_of_calm (hcalm : RunOk (State.step N) State.Calm (State.init n) l)
    (hrun : run (State.step N) (State.init n) l = some s) (hsingle : Single fd s) : Inv fd s := by
  refine inv_runOk (I := fun s : State n => Single fd s → Inv fd s) (fun s a s' hi hok hstep hsingle => ?_)
    (fun _ => .init fd) hcalm hrun hsingle
  have hstep := step_cases hstep
  exact (hi (hsingle.before hstep)).step hsingle hok hstep

theorem Inv.told_all (hi : Inv fd s) (hrest : s.Resting) (hne : starts (s.server.outcomesOf fd) ≠ []) :
    s.mTcpProxyClient.told fd = (bytesFor s.downloaded fd).map some ++ [none] := by
  have hended : fd ∈ s.ended := by
    rcases hi.ends hne with hended | ⟨t, q, hq, -⟩
    · exact hended
    · have hnone := hrest.request t
      rw [hq] at hnone
      cases hnone
  obtain ⟨t, htells⟩ := hi.tells
  have hrest' := htells.rest hrest.live
  rw [hrest.thread t] at hrest'
  unfold State.said at hrest'
  rw [endFor_of_mem hended] at hrest'
  exact (List.append_nil _).symm.trans hrest'

theorem serves_starts {a : Asked} {outcomes : List Outcome} (hserves : Serves a fd outcomes) :
    .disconnects ∉ outcomes ∧ ∃ q, starts outcomes = [q] ∧
      ∀ calls : List (Nat × Nat), (∀ x ∈ calls, x.1 * x.2 < 2 ^ 31) →
        (q.request.reads calls).flatten = a.body.take (HttpRequest.asked calls) := by
  obtain ⟨m, q, rfl, -, -, -, -, hreads⟩ := hserves
  refine ⟨fun hmem => ?_, q, ?_, hreads⟩
  · rcases List.mem_append.mp hmem with hmem | hmem
    · cases List.eq_of_mem_replicate hmem
    · cases List.mem_singleton.mp hmem
  · rw [starts_append]
    have hwaits : starts (List.replicate m Outcome.waits) = [] := by
      induction m with
      | zero => rfl
      | succ m ih => exact ih
    rw [hwaits]
    rfl

theorem starts_ne_nil {a : Asked} {outcomes : List Outcome} (hserves : Serves a fd outcomes) :
    starts outcomes ≠ [] := by
  obtain ⟨-, q, hq, -⟩ := serves_starts hserves
  rw [hq]
  exact List.cons_ne_nil q []

theorem inv_of_asked {a : Asked} (ha : a.WellFormed) (hN : 30 ≤ N)
    (hcalm : RunOk (State.step N) State.Calm (State.init n) l)
    (hrun : run (State.step N) (State.init n) l = some s)
    (hown : ∀ x ∈ s.received, x.1.header.fd = fd →
      x.1.header.cmdt = .CommandTypeProxy ∧ x.1.param ≠ [])
    (hcreated : ∀ x ∈ s.received, x.1.header.fd = fd → x.2.created = true)
    (hbytes : (s.received.filter (·.1.header.fd = fd)).flatMap (·.1.param) = a.bytes) :
    Serves a fd (s.server.outcomesOf fd) ∧ Inv fd s := by
  obtain ⟨server, hserver, hserves⟩ := HttpProxyServer.OnRecvCommands_serves ha hown hcreated hbytes hN
  obtain rfl : s.server = server := Option.some.inj ((server_of_run hrun).symm.trans hserver)
  obtain ⟨haccepted, q, hq, -⟩ := serves_starts hserves
  have hsingle : Single fd s :=
    ⟨by rw [hq, List.length_singleton], haccepted, fun x hx hfd => (hown x hx hfd).1⟩
  exact ⟨hserves, inv_of_calm hcalm hrun hsingle⟩

/-- **The answer to a request of a browser**, for any number of HttpRequests at once and every
interleaving of their threads and the receive thread: when the commands for a descriptor are a request
and its thread can be made, one HttpRequest is started for it, libcurl gets of its body the first bytes,
and the whole frames for the descriptor tell the beginning of what libcurl has written, with the end only
behind all of it; when nothing is left to be done, they tell all of it and the end once. -/
theorem responded {a : Asked} (ha : a.WellFormed) (hN : 30 ≤ N)
    (hcalm : RunOk (State.step N) State.Calm (State.init n) l)
    (hrun : run (State.step N) (State.init n) l = some s)
    (hown : ∀ x ∈ s.received, x.1.header.fd = fd →
      x.1.header.cmdt = .CommandTypeProxy ∧ x.1.param ≠ [])
    (hcreated : ∀ x ∈ s.received, x.1.header.fd = fd → x.2.created = true)
    (hbytes : (s.received.filter (·.1.header.fd = fd)).flatMap (·.1.param) = a.bytes) :
    s.mTcpProxyClient.Whole ∧ Serves a fd (s.server.outcomesOf fd) ∧
      bytesFor s.uploaded fd <+: a.body ∧ s.mTcpProxyClient.told fd <+: s.said fd ∧
      (s.Resting → s.mTcpProxyClient.told fd = (bytesFor s.downloaded fd).map some ++ [none]) := by
  obtain ⟨hserves, hi⟩ := inv_of_asked ha hN hcalm hrun hown hcreated hbytes
  refine ⟨(sender_of_calm hcalm hrun).whole, hserves, ?_, ?_, fun hrest => ?_⟩
  · obtain ⟨-, q, hq, hreads⟩ := serves_starts hserves
    obtain ⟨calls, hsizes, huploaded, -⟩ := hi.uploads q (hq ▸ List.mem_singleton_self q)
    rw [huploaded, hreads calls hsizes]
    exact List.take_prefix ..
  · obtain ⟨t, htells⟩ := hi.tells
    exact htells.le
  · exact hi.told_all hrest (starts_ne_nil hserves)

/-- libcurl reads two bytes of the body of the request in the commands and writes two, which go back in a
frame that is sent in two parts -/
def servePost (cmds : List CMD) (t : Fin 1) : List (Action 1) :=
  (cmds.map fun cmd => .OnRecvCommand cmd (ones 0) t) ++
    [.CurlReadHandle t 1 2, .CurlWriteHandle t [65, 66] 1 2, .send (.round t.castSucc),
      .send (.enter t.castSucc), .send (.send t.castSucc 9), .send (.send t.castSucc 10),
      .send (.round t.castSucc), .onFinish t, .send (.takeSeq t.castSucc), .send (.enter t.castSucc),
      .send (.send t.castSucc 17), .unlock t]

theorem responded_post :
    ∃ s : State 1, run (State.step 30) (State.init 1) (servePost postAmong 0) = some s ∧
      s.mTcpProxyClient.told 5 = [some 65, some 66, none] ∧ Serves postTwo 5 (s.server.outcomesOf 5) := by
  obtain ⟨s, hs, hcalm, hown, hcreated, hbytes, hrest, hdownloaded⟩ : ∃ s : State 1,
      run (State.step 30) (State.init 1) (servePost postAmong 0) = some s ∧
        RunOk (State.step 30) State.Calm (State.init 1) (servePost postAmong 0) ∧
        (∀ x ∈ s.received, x.1.header.fd = 5 → x.1.header.cmdt = .CommandTypeProxy ∧ x.1.param ≠ []) ∧
        (∀ x ∈ s.received, x.1.header.fd = 5 → x.2.created = true) ∧
        (s.received.filter (·.1.header.fd = 5)).flatMap (·.1.param) = postTwo.bytes ∧
        s.Resting ∧ bytesFor s.downloaded 5 = [65, 66] := by
    decide +kernel
  obtain ⟨-, hserves, -, -, htold⟩ :=
    responded postTwo_wellFormed (Nat.le_refl 30) hcalm hs hown hcreated hbytes
  refine ⟨s, hs, ?_, hserves⟩
  rw [htold hrest, hdownloaded]
  rfl

end

end VncProxy.Respond
