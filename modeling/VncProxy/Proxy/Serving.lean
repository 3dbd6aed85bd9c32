import VncProxy.Proxy.Lookup

/-!
# What a thread knows of the connection it works for

* `Clients.Inv`   the connections and their `Client`s;
* `Pc.Ok`         what a thread relies on; `Pc.Ok.frame` says when it still can;
* `Threads.step`  a step keeps both, as long as `TcpServer` keeps its promise.
-/

namespace VncProxy.Lookup

open Proxy (Client Session)

variable {n : Nat}

/-! ## the connections -/

/-- the connection `c` has the descriptor and `OnClose` has not been called -/
def Clients.Serving (f : Clients) (fd c : Nat) : Prop :=
  f.holder fd = some c ∧ (f.life c).onCloses = 0

/-- the order of what happens to a connection -/
structure Life.Ok (x : Life) : Prop where
  called : x.returned = true → x.disconnected = true
  left : x.onCloses ≠ 0 → x.returned = true
  gone : x.erased = true → x.onCloses ≠ 0

def Life.Leaving (x : Life) : Prop := x.disconnected = true ∧ x.returned = false

structure Clients.Inv (f : Clients) : Prop where
  lt : ∀ {fd c}, f.holder fd = some c → c < f.count
  inj : ∀ {fd fd' c}, f.holder fd = some c → f.holder fd' = some c → fd = fd'
  fresh : ∀ {c}, f.count ≤ c → f.life c = .new
  map : ∀ {fd client}, f.mClientMap fd = some client → ∃ c, client = ⟨fd, c⟩ ∧ f.holder fd = some c
  known : ∀ {fd c}, f.Serving fd c → f.mClientMap fd = some ⟨fd, c⟩
  life : ∀ c, (f.life c).Ok
  list : ∀ {m}, m ∈ f.mHandleMessageList → f.Serving m.fd m.conn

def ClosePc.Ok (f : Clients) (fd c : Nat) : ClosePc → Prop
  | .findClient => f.mClientMap fd = some ⟨fd, c⟩
  | .lock client | .erase client => f.mClientMap fd = some ⟨fd, c⟩ ∧ client = ⟨fd, c⟩
  | .unlock | .delete => (f.life c).erased = true
  | .close => (f.life c).erased = true ∧ f.mClientMap fd = none

def Pc.Ok (f : Clients) (i : Fin (n + 1)) : Pc → Prop
  | .free | .reply .. => True
  | .find m => f.Serving m.fd m.conn
  | .send c _ => c.client.conn = c.conn ∧ f.Serving c.client.fd c.conn ∧
      (c.needReturn = false → (i : Nat) = 0 ∧ (f.life c.conn).Leaving)
  | .OnClose fd pc => ∃ c, f.holder fd = some c ∧ (f.life c).onCloses = 1 ∧ pc.Ok f fd c

/-- the descriptor whose `OnClose` a thread runs -/
def Pc.closes : Pc → Option Nat
  | .OnClose fd _ => some fd
  | _ => none

structure State.Threads (s : State n) : Prop where
  clients : s.clients.Inv
  ok : ∀ i, (s.thread i).Ok s.clients i
  one : ∀ {i j fd}, (s.thread i).closes = some fd → (s.thread j).closes = some fd → i = j

variable {s s' : State n} {i : Fin (n + 1)}

theorem State.Threads.move (h : s.Threads) {p : Pc}
    (hthread : s'.thread = Function.update s.thread i p) (hclients : s'.clients.Inv)
    (hothers : ∀ j, j ≠ i → (s.thread j).Ok s.clients j → (s.thread j).Ok s'.clients j)
    (hok : p.Ok s'.clients i)
    (hone : ∀ fd, p.closes = some fd → ∀ j, j ≠ i → (s.thread j).closes ≠ some fd) :
    s'.Threads := by
  have hself : s'.thread i = p := by rw [hthread, Function.update_self]
  have hother : ∀ j, j ≠ i → s'.thread j = s.thread j := fun j hj => by
    rw [hthread, Function.update_of_ne hj]
  refine ⟨hclients, fun j => ?_, fun {j k fd} hj hk => ?_⟩
  · by_cases hji : j = i
    · rw [hji, hself]
      exact hok
    · rw [hother j hji]
      exact hothers j hji (h.ok j)
  · by_cases hji : j = i
    · by_cases hki : k = i
      · rw [hji, hki]
      · rw [hji, hself] at hj
        rw [hother k hki] at hk
        exact absurd hk (hone fd hj k hki)
    · rw [hother j hji] at hj
      by_cases hki : k = i
      · rw [hki, hself] at hk
        exact absurd hj (hone fd hk j hji)
      · rw [hother k hki] at hk
        exact h.one hj hk

theorem State.Threads.goto (h : s.Threads) {p : Pc} (hclients : s'.clients = s.clients)
    (hthread : s'.thread = Function.update s.thread i p) (hok : p.Ok s.clients i)
    (hcloses : p.closes = none ∨ p.closes = (s.thread i).closes) : s'.Threads := by
  refine h.move hthread (hclients ▸ h.clients) (fun j _ hj => hclients ▸ hj) (hclients ▸ hok)
    fun fd hfd j hj hfd' => ?_
  rcases hcloses with hc | hc
  · rw [hc] at hfd
    cases hfd
  · exact hj (h.one hfd' (hc ▸ hfd))

/-! ### what happens to the connections -/

namespace Clients

variable {f : Clients} {fd c : Nat}

/-- what happens to a connection that is not new, before `OnClose` or when no Message of it is left -/
theorem Inv.setLife (h : f.Inv) {x : Life} (hc : c < f.count) (hx : x.Ok)
    (hzero : x.onCloses = 0 → (f.life c).onCloses = 0)
    (hlist : x.onCloses = 0 ∨ ∀ m ∈ f.mHandleMessageList, m.conn ≠ c) : (f.setLife c x).Inv where
  lt := h.lt
  inj := h.inj
  fresh := fun {d} hd => by
    have hne : d ≠ c := Nat.ne_of_gt (Nat.lt_of_lt_of_le hc hd)
    show Function.update f.life c x d = .new
    rw [Function.update_of_ne hne]
    exact h.fresh hd
  map := h.map
  known := fun {fd d} hd => by
    refine h.known ⟨hd.1, ?_⟩
    have h0 : (Function.update f.life c x d).onCloses = 0 := hd.2
    by_cases hdc : d = c
    · subst hdc
      rw [Function.update_self] at h0
      exact hzero h0
    · rw [Function.update_of_ne hdc] at h0
      exact h0
  life := (Function.forall_update_iff f.life fun _ => Life.Ok).mpr ⟨hx, fun d _ => h.life d⟩
  list := fun {m} hm => by
    refine ⟨(h.list hm).1, ?_⟩
    show (Function.update f.life c x m.conn).onCloses = 0
    by_cases hmc : m.conn = c
    · rw [hmc, Function.update_self]
      exact hlist.resolve_right fun hne => hne m hm hmc
    · rw [Function.update_of_ne hmc]
      exact (h.list hm).2

theorem Inv.disconnect (h : f.Inv) (hc : f.Serving fd c) : (f.disconnect c).Inv :=
  h.setLife (h.lt hc.1) ⟨fun _ => rfl, (h.life c).left, (h.life c).gone⟩ id (.inl hc.2)

theorem Inv.leave (h : f.Inv) (hc : f.Serving fd c) (hd : (f.life c).disconnected = true) :
    (f.left c).Inv :=
  h.setLife (h.lt hc.1) ⟨fun _ => hd, fun _ => rfl, (h.life c).gone⟩ id (.inl hc.2)

theorem Inv.OnClose (h : f.Inv) (hc : f.holder fd = some c) (hr : (f.life c).returned = true)
    (hlist : ∀ m ∈ f.mHandleMessageList, m.conn ≠ c) : (f.OnClose c).Inv :=
  h.setLife (h.lt hc) ⟨(h.life c).called, fun _ => hr, fun _ => Nat.succ_ne_zero _⟩
    (fun h0 => absurd h0 (Nat.succ_ne_zero _)) (.inr hlist)

theorem Inv.erase (h : f.Inv) (hc : f.holder fd = some c) (h1 : (f.life c).onCloses = 1) :
    (f.erase c).Inv := by
  refine h.setLife (h.lt hc) ⟨(h.life c).called, (h.life c).left, fun _ => ?_⟩ id (.inr ?_)
  · exact fun h0 => absurd (h1.symm.trans h0) (by decide)
  · rintro m hm rfl
    exact absurd (h1.symm.trans (h.list hm).2) (by decide)

theorem Inv.accept (h : f.Inv) (hfd : f.holder fd = none) : (f.accept fd).Inv := by
  have hmap : f.mClientMap fd = none := by
    by_contra hne
    obtain ⟨client, hclient⟩ := Option.ne_none_iff_exists'.mp hne
    obtain ⟨c, -, hc⟩ := h.map hclient
    cases hfd.symm.trans hc
  have hnew : (f.accept fd).mClientMap = Function.update f.mClientMap fd (some ⟨fd, f.count⟩) :=
    if_pos hmap
  have hholder : ∀ {fd' c}, (f.accept fd).holder fd' = some c →
      fd' = fd ∧ c = f.count ∨ fd' ≠ fd ∧ f.holder fd' = some c := by
    intro fd' c hc
    change Function.update f.holder fd (some f.count) fd' = some c at hc
    by_cases hf : fd' = fd
    · subst hf
      rw [Function.update_self] at hc
      exact .inl ⟨rfl, (Option.some.inj hc).symm⟩
    · rw [Function.update_of_ne hf] at hc
      exact .inr ⟨hf, hc⟩
  have hold : ∀ {fd' c}, f.holder fd' = some c → (f.accept fd).holder fd' = some c := by
    intro fd' c hc
    refine (Function.update_of_ne ?_ _ _).trans hc
    rintro rfl
    cases hfd.symm.trans hc
  refine ⟨fun hc => ?_, fun hc hc' => ?_, fun hc => h.fresh (Nat.le_of_succ_le hc), fun hc => ?_,
    fun hc => ?_, h.life, fun hm => ⟨hold (h.list hm).1, (h.list hm).2⟩⟩
  · rcases hholder hc with ⟨-, rfl⟩ | ⟨-, hc⟩
    · exact Nat.lt_succ_self _
    · exact Nat.lt_succ_of_lt (h.lt hc)
  · rcases hholder hc with ⟨rfl, rfl⟩ | ⟨-, hc⟩
    · rcases hholder hc' with ⟨rfl, -⟩ | ⟨-, hc'⟩
      · rfl
      · exact absurd (h.lt hc') (Nat.lt_irrefl _)
    · rcases hholder hc' with ⟨-, rfl⟩ | ⟨-, hc'⟩
      · exact absurd (h.lt hc) (Nat.lt_irrefl _)
      · exact h.inj hc hc'
  · rename_i fd' client
    rw [hnew] at hc
    by_cases hf : fd' = fd
    · subst hf
      rw [Function.update_self] at hc
      exact ⟨f.count, (Option.some.inj hc).symm, Function.update_self ..⟩
    · rw [Function.update_of_ne hf] at hc
      obtain ⟨c, rfl, hold'⟩ := h.map hc
      exact ⟨c, rfl, hold hold'⟩
  · rw [hnew]
    rcases hholder hc.1 with ⟨rfl, rfl⟩ | ⟨hf, hc'⟩
    · exact Function.update_self ..
    · rw [Function.update_of_ne hf]
      exact h.known ⟨hc', hc.2⟩

theorem Inv.setList (h : f.Inv) {l : List Msg} (hl : ∀ m ∈ l, f.Serving m.fd m.conn) :
    Inv { f with mHandleMessageList := l } :=
  ⟨h.lt, h.inj, h.fresh, h.map, h.known, h.life, fun hm => hl _ hm⟩

theorem Inv.delete (h : f.Inv) (hc : f.holder fd = some c) (h1 : (f.life c).onCloses = 1) :
    (f.delete fd).Inv := by
  have hmap : ∀ fd', (f.delete fd).mClientMap fd' = if fd' = fd then none else f.mClientMap fd' :=
    fun fd' => Function.update_apply f.mClientMap fd none fd'
  refine ⟨h.lt, h.inj, h.fresh, fun {fd' client} hclient => ?_, fun {fd' d} hd => ?_, h.life, h.list⟩
  · rw [hmap] at hclient
    split at hclient
    · cases hclient
    · exact h.map hclient
  · rw [hmap, if_neg]
    · exact h.known hd
    · rintro rfl
      obtain rfl := Option.some.inj (hd.1.symm.trans hc)
      exact absurd (h1.symm.trans hd.2) (by decide)

theorem Inv.close (h : f.Inv) (hc : f.holder fd = some c) (h1 : (f.life c).onCloses = 1)
    (hmap : f.mClientMap fd = none) : (f.close fd).Inv := by
  have hholder : ∀ {fd' d}, (f.close fd).holder fd' = some d → f.holder fd' = some d := by
    intro fd' d hd
    change Function.update f.holder fd none fd' = some d at hd
    rw [Function.update_apply] at hd
    split at hd
    · cases hd
    · exact hd
  have hold : ∀ {fd' d}, fd' ≠ fd → f.holder fd' = some d → (f.close fd).holder fd' = some d :=
    fun hf hd => (Function.update_of_ne hf _ _).trans hd
  refine ⟨fun hd => h.lt (hholder hd), fun hd hd' => h.inj (hholder hd) (hholder hd'), h.fresh,
    fun {fd' client} hclient => ?_, fun hd => h.known ⟨hholder hd.1, hd.2⟩, h.life, fun {m} hm => ?_⟩
  · obtain ⟨d, rfl, hd⟩ := h.map hclient
    refine ⟨d, rfl, hold ?_ hd⟩
    rintro rfl
    cases hmap.symm.trans hclient
  · refine ⟨hold ?_ (h.list hm).1, (h.list hm).2⟩
    rintro rfl
    obtain rfl := Option.some.inj ((h.list hm).1.symm.trans hc)
    exact absurd (h1.symm.trans (h.list hm).2) (by decide)

end Clients

/-! ### what a thread still knows -/

/-- the thread works for the connection `c`, which has `fd` -/
def Pc.Knows (f : Clients) (fd c : Nat) : Pc → Prop
  | .free | .reply .. => False
  | .find m => m.fd = fd ∧ m.conn = c
  | .send call _ => call.client.fd = fd ∧ call.conn = c
  | .OnClose fd' _ => fd' = fd ∧ f.holder fd = some c

theorem Pc.Ok.holder {f : Clients} {j : Fin (n + 1)} {pc : Pc} (h : pc.Ok f j) {fd c : Nat}
    (hk : pc.Knows f fd c) : f.holder fd = some c := by
  cases pc with
  | free | reply r pc => exact hk.elim
  | find m =>
    obtain ⟨rfl, rfl⟩ := hk
    exact h.1
  | send call pc =>
    obtain ⟨rfl, rfl⟩ := hk
    exact h.2.1.1
  | OnClose fd' pc => exact hk.2

/-- nothing that the thread `j` relies on has changed -/
structure Clients.Same (f f' : Clients) (j : Fin (n + 1)) (fd c : Nat) : Prop where
  holder : f'.holder fd = f.holder fd
  onCloses : (f'.life c).onCloses = (f.life c).onCloses
  leaving : j = 0 → (f.life c).Leaving → (f'.life c).Leaving
  erased : (f.life c).erased = true → (f'.life c).erased = true
  map : f'.mClientMap fd = f.mClientMap fd

variable {f f' : Clients} {j : Fin (n + 1)} {fd c : Nat}

theorem Clients.Same.serving (h : f.Same f' j fd c) (hs : f.Serving fd c) : f'.Serving fd c :=
  ⟨h.holder.trans hs.1, h.onCloses.trans hs.2⟩

theorem Pc.Ok.frame {pc : Pc} (h : pc.Ok f j) (hsame : ∀ fd c, pc.Knows f fd c → f.Same f' j fd c) :
    pc.Ok f' j := by
  cases pc with
  | free | reply r pc => trivial
  | find m => exact (hsame _ _ ⟨rfl, rfl⟩).serving h
  | send call pc =>
    have hs := hsame _ _ ⟨rfl, rfl⟩
    exact ⟨h.1, hs.serving h.2.1, fun hn =>
      ⟨(h.2.2 hn).1, hs.leaving (Fin.ext (h.2.2 hn).1) (h.2.2 hn).2⟩⟩
  | OnClose fd pc =>
    obtain ⟨c, hc, h1, hok⟩ := h
    have hs := hsame fd c ⟨rfl, hc⟩
    refine ⟨c, hs.holder.trans hc, hs.onCloses.trans h1, ?_⟩
    cases pc with
    | findClient => exact hs.map.trans hok
    | lock client | erase client => exact ⟨hs.map.trans hok.1, hok.2⟩
    | unlock | delete => exact hs.erased hok
    | close => exact ⟨hs.erased hok.1, hs.map.trans hok.2⟩

theorem Clients.same_setLife {d : Nat} {x : Life} (hzero : c = d → x.onCloses = (f.life d).onCloses)
    (hleaving : c = d → j = 0 → (f.life d).Leaving → x.Leaving)
    (herased : c = d → (f.life d).erased = true → x.erased = true) :
    f.Same (f.setLife d x) j fd c := by
  have hlife : (f.setLife d x).life c = if c = d then x else f.life c :=
    Function.update_apply f.life d x c
  by_cases hc : c = d
  · rw [if_pos hc] at hlife
    refine ⟨rfl, ?_, ?_, ?_, rfl⟩ <;> rw [hlife, hc]
    · exact hzero hc
    · exact hleaving hc
    · exact herased hc
  · rw [if_neg hc] at hlife
    refine ⟨rfl, ?_, ?_, ?_, rfl⟩ <;> rw [hlife]
    · exact fun _ => id
    · exact id

theorem Clients.same_accept {d : Nat} (hd : f.holder d = none) (hc : f.holder fd = some c) :
    f.Same (f.accept d) j fd c := by
  have hne : fd ≠ d := by
    rintro rfl
    cases hd.symm.trans hc
  refine ⟨Function.update_of_ne hne _ _, rfl, fun _ => id, id, ?_⟩
  show (if f.mClientMap d = none then Function.update f.mClientMap d _ else f.mClientMap) fd = _
  split
  · exact Function.update_of_ne hne _ _
  · rfl

/-- a thread that runs `OnClose` of a descriptor is the only one that works for it -/
theorem State.Threads.apart (h : s.Threads) {d : Nat} (hi : (s.thread i).closes = some d)
    (hj : j ≠ i) (hk : (s.thread j).Knows s.clients fd c) : fd ≠ d := by
  rintro rfl
  have hoki := h.ok i
  have hokj := h.ok j
  have hholder := hokj.holder hk
  obtain ⟨pc, hpc⟩ : ∃ pc, s.thread i = .OnClose fd pc := by
    cases hp : s.thread i with
    | OnClose fd' pc =>
      rw [hp] at hi
      exact ⟨pc, by rw [Option.some.inj hi]⟩
    | free | find m | send call pc | reply r pc =>
      rw [hp] at hi
      cases hi
  rw [hpc] at hoki
  obtain ⟨c', hc', h1, -⟩ := hoki
  obtain rfl := Option.some.inj (hholder.symm.trans hc')
  have h0 : (s.clients.life c).onCloses = 0 ∨ (s.thread j).closes = some fd := by
    cases hp : s.thread j with
    | free | reply r pc =>
      rw [hp] at hk
      exact hk.elim
    | find m =>
      rw [hp] at hk hokj
      obtain ⟨rfl, rfl⟩ := hk
      exact .inl hokj.2
    | send call pc =>
      rw [hp] at hk hokj
      obtain ⟨rfl, rfl⟩ := hk
      exact .inl hokj.2.1.2
    | OnClose fd' pc =>
      rw [hp] at hk
      exact .inr (congrArg some hk.1)
  rcases h0 with h0 | h0
  · exact absurd (h1.symm.trans h0) (by decide)
  · exact hj (h.one h0 hi)

/-! ### steps -/

theorem State.Threads.lock (h : s.Threads) {p : Pc} (hok : p.Ok s.clients i)
    (hcloses : p.closes = none ∨ p.closes = (s.thread i).closes) (hstep : s.lock i p = some s') :
    s'.Threads := by
  unfold State.lock at hstep
  split at hstep
  · obtain rfl := Option.some.inj hstep
    exact h.goto rfl rfl hok hcloses
  · cases hstep

theorem State.Threads.finish (h : s.Threads) {t : State n} {call : Call} {pc : SendPc}
    (hi : s.thread i = .send call pc) (ht : t.clients = s.clients) (hthread : t.thread = s.thread) :
    (t.finish i call).Threads := by
  have hok := h.ok i
  rw [hi] at hok
  have hfree : ∀ u : State n, u.thread = s.thread →
      (u.goto i .free).thread = Function.update s.thread i .free := by
    intro u hu
    show Function.update u.thread i .free = _
    rw [hu]
  unfold State.finish
  split
  · exact h.goto (p := .free) ht (hfree t hthread) trivial (.inl rfl)
  · next hn =>
    -- the main thread returns from `OnDisconnect`
    obtain ⟨hmain, hleaving⟩ := hok.2.2 (Bool.eq_false_iff.mpr hn)
    obtain rfl : i = 0 := Fin.ext hmain
    refine h.move (p := .free) (hfree _ hthread) ?_ (fun j hj hokj => hokj.frame fun fd c _ => ?_)
      trivial nofun
    · show (t.clients.left call.conn).Inv
      rw [ht]
      exact h.clients.leave hok.2.1 hleaving.1
    · show s.clients.Same (t.clients.left call.conn) j fd c
      rw [ht]
      exact Clients.same_setLife (fun _ => rfl) (fun _ h0 => absurd h0 hj) fun _ => id

theorem State.Threads.SendClient2VNC (h : s.Threads) {call : Call} {pc : SendPc}
    (hi : s.thread i = .send call pc) {answer : Bool}
    (hstep : s.SendClient2VNC i call answer pc = some s') : s'.Threads := by
  have hok := h.ok i
  rw [hi] at hok
  have hgoto : ∀ {t : State n} {pc' : SendPc}, t.clients = s.clients →
      t.thread = Function.update s.thread i (.send call pc') → t.Threads :=
    fun hclients hthread => h.goto hclients hthread hok (.inl rfl)
  unfold State.SendClient2VNC at hstep
  cases pc with
  | check | popIdle =>
    obtain rfl := Option.some.inj hstep
    split
    · exact hgoto rfl rfl
    · exact h.finish hi rfl rfl
  | addSeq => cases hstep
  | lock seq => exact h.lock (p := .send call (.find seq)) hok (.inl rfl) hstep
  | find seq | new seq | InsertRequestTask seq | queue seq =>
    obtain rfl := Option.some.inj hstep
    exact hgoto rfl rfl
  | unlock =>
    obtain rfl := Option.some.inj hstep
    exact h.finish hi rfl rfl

theorem State.Threads.ReturnVNC2Client (h : s.Threads) {r : Return} {pc : ReturnPc} {answer : Bool}
    (hstep : s.ReturnVNC2Client i r answer pc = some s') : s'.Threads := by
  unfold State.ReturnVNC2Client at hstep
  cases pc with
  | lock => exact h.lock (p := .reply r .find) trivial (.inl rfl) hstep
  | find | FindRequestTask | popIdle | queue =>
    obtain rfl := Option.some.inj hstep
    exact h.goto (p := .reply _ _) rfl rfl trivial (.inl rfl)
  | unlock =>
    obtain rfl := Option.some.inj hstep
    exact h.goto (p := .free) rfl rfl trivial (.inl rfl)

theorem State.Threads.CloseSessionByClient (h : s.Threads) {d : Nat} {pc : ClosePc}
    (hi : s.thread i = .OnClose d pc) (hstep : s.CloseSessionByClient i d pc = some s') :
    s'.Threads := by
  have hok := h.ok i
  rw [hi] at hok
  obtain ⟨c, hc, h1, hok⟩ := hok
  have hcloses : (s.thread i).closes = some d := by rw [hi]; rfl
  have happart : ∀ j, j ≠ i → ∀ fd c, (s.thread j).Knows s.clients fd c → fd ≠ d :=
    fun j hj fd c hk => h.apart hcloses hj hk
  have hgoto : ∀ {t : State n} {pc' : ClosePc}, t.clients = s.clients →
      t.thread = Function.update s.thread i (.OnClose d pc') → pc'.Ok s.clients d c → t.Threads :=
    fun hclients hthread hpc => h.goto hclients hthread ⟨c, hc, h1, hpc⟩ (.inr hcloses.symm)
  have hone : ∀ fd, some d = some fd → ∀ j, j ≠ i → (s.thread j).closes ≠ some fd :=
    fun fd hfd j hj hfd' => hj (h.one hfd' (hfd ▸ hcloses))
  unfold State.CloseSessionByClient at hstep
  cases pc with
  | findClient =>
    have hmap : s.clients.mClientMap d = some ⟨d, c⟩ := hok
    obtain rfl := Option.some.inj hstep
    rw [hmap]
    exact hgoto rfl rfl ⟨hmap, rfl⟩
  | lock client =>
    exact h.lock (p := .OnClose d (.erase client)) ⟨c, hc, h1, hok⟩ (.inr hcloses.symm) hstep
  | erase client =>
    obtain ⟨hmap, rfl⟩ := hok
    obtain rfl := Option.some.inj hstep
    refine h.move rfl (h.clients.erase hc h1) (fun j hj hokj => hokj.frame fun fd c' _ => ?_) ?_ hone
    · exact Clients.same_setLife (fun _ => rfl) (fun _ _ => id) fun _ _ => rfl
    · have hlife : (s.clients.erase c).life c = { s.clients.life c with erased := true } :=
        Function.update_self ..
      refine ⟨c, hc, ?_, ?_⟩
      · show ((s.clients.erase c).life c).onCloses = 1
        rw [hlife]
        exact h1
      · show ((s.clients.erase c).life c).erased = true
        rw [hlife]
  | unlock =>
    obtain rfl := Option.some.inj hstep
    exact hgoto rfl rfl hok
  | delete =>
    obtain rfl := Option.some.inj hstep
    refine h.move rfl (h.clients.delete hc h1) (fun j hj hokj => hokj.frame fun fd c' hk => ?_)
      ⟨c, hc, h1, hok, Function.update_self ..⟩ hone
    exact ⟨rfl, rfl, fun _ => id, id, Function.update_of_ne (happart j hj fd c' hk) _ _⟩
  | close =>
    obtain rfl := Option.some.inj hstep
    refine h.move (p := .free) rfl (h.clients.close hc h1 hok.2)
      (fun j hj hokj => hokj.frame fun fd c' hk => ?_) trivial nofun
    exact ⟨Function.update_of_ne (happart j hj fd c' hk) _ _, rfl, fun _ => id, id, rfl⟩

theorem State.Threads.stepThread (h : s.Threads) {answer : Bool}
    (hstep : s.stepThread i answer = some s') : s'.Threads := by
  have hok := h.ok i
  unfold State.stepThread at hstep
  cases hi : s.thread i with
  | free =>
    rw [hi] at hstep
    cases hstep
  | find m =>
    rw [hi] at hok hstep
    have hmap := h.clients.known hok
    obtain rfl := Option.some.inj hstep
    rw [hmap]
    exact h.goto rfl rfl ⟨rfl, hok, nofun⟩ (.inl rfl)
  | send call pc =>
    rw [hi] at hstep
    exact h.SendClient2VNC hi hstep
  | reply r pc =>
    rw [hi] at hstep
    exact h.ReturnVNC2Client hstep
  | OnClose d pc =>
    rw [hi] at hstep
    exact h.CloseSessionByClient hi hstep

/-- what the environment does leaves the threads where they are -/
theorem State.Threads.tell (h : s.Threads) {f : Clients} (hf : f.Inv)
    (hsame : ∀ j fd c, (s.thread j).Knows s.clients fd c → s.clients.Same f j fd c) :
    (s.tell f).Threads :=
  ⟨hf, fun j => (h.ok j).frame (hsame j), h.one⟩

/-- no thread and no Message works for a connection whose `OnClose` is called -/
theorem State.Threads.alone (h : s.Threads) {fd c : Nat} (h0 : (s.clients.life c).onCloses = 0)
    (hpending : ¬ s.Pending c) (hr : (s.clients.life c).returned = true) (j : Fin (n + 1)) :
    ¬ (s.thread j).Knows s.clients fd c := by
  intro hk
  have hok := h.ok j
  have hmessage : (s.thread j).message ≠ some c := fun hm => hpending (.inr ⟨j, hm⟩)
  cases hp : s.thread j with
  | free | reply r pc =>
    rw [hp] at hk
    exact hk
  | find m =>
    rw [hp] at hk hmessage
    exact hmessage (congrArg some hk.2)
  | send call pc =>
    rw [hp] at hk hok hmessage
    obtain ⟨rfl, rfl⟩ := hk
    cases hn : call.needReturn with
    | true =>
      refine hmessage ?_
      show (if call.needReturn then some call.conn else none) = _
      rw [hn]
      rfl
    | false =>
      have hret := (hok.2.2 hn).2.2
      rw [hr] at hret
      cases hret
  | OnClose fd' pc =>
    rw [hp] at hk hok
    obtain ⟨rfl, hc⟩ := hk
    obtain ⟨c', hc', h1, -⟩ := hok
    obtain rfl := Option.some.inj (hc.symm.trans hc')
    exact absurd (h1.symm.trans h0) (by decide)

theorem State.Threads.step (h : s.Threads) {a : Action n} (hpromise : s.Ok a)
    (hstep : s.step a = some s') : s'.Threads := by
  cases a with
  | accept d =>
    obtain ⟨hd, rfl⟩ := State.accept_eq hstep
    exact h.tell (h.clients.accept hd) fun j fd c hk => Clients.same_accept hd ((h.ok j).holder hk)
  | recv d =>
    obtain ⟨c, hc, hd, rfl⟩ := State.recv_eq hstep
    refine h.tell (h.clients.setList fun m hm => ?_) fun _ _ _ _ => ⟨rfl, rfl, fun _ => id, id, rfl⟩
    rcases List.mem_append.mp hm with hm | hm
    · exact h.clients.list hm
    · rw [List.mem_singleton.mp hm]
      refine ⟨hc, ?_⟩
      -- a connection that has not been disconnected has not been closed
      by_contra hne
      have := (h.clients.life c).called ((h.clients.life c).left hne)
      rw [hd] at this
      cases this
  | disconnect d =>
    obtain ⟨c, client, hc, hclient, -, hd, rfl⟩ := State.disconnect_eq hstep
    obtain ⟨c', rfl, hc'⟩ := h.clients.map hclient
    obtain rfl := Option.some.inj (hc.symm.trans hc')
    have hlife := h.clients.life c
    have hret : (s.clients.life c).returned = false :=
      Bool.eq_false_iff.mpr fun hr => absurd (hd.symm.trans (hlife.called hr)) (by decide)
    have hserving : s.clients.Serving d c := by
      refine ⟨hc, ?_⟩
      by_contra hne
      exact absurd (hret.symm.trans (hlife.left hne)) (by decide)
    refine h.move rfl (h.clients.disconnect hserving)
      (fun j hj hokj => hokj.frame fun fd c' _ => ?_) ?_ nofun
    · exact Clients.same_setLife (fun _ => rfl) (fun _ h0 => absurd h0 hj) fun _ => id
    · have hnew : (s.clients.disconnect c).life c = { s.clients.life c with disconnected := true } :=
        Function.update_self ..
      refine ⟨rfl, ⟨hc, ?_⟩, fun _ => ⟨rfl, ?_⟩⟩
      · show ((s.clients.disconnect c).life c).onCloses = 0
        rw [hnew]
        exact hserving.2
      · show ((s.clients.disconnect c).life c).Leaving
        rw [hnew]
        exact ⟨rfl, hret⟩
  | pop j =>
    obtain ⟨m, l, -, hl, rfl⟩ := State.pop_eq hstep
    have hlist : ∀ m' ∈ m :: l, s.clients.Serving m'.fd m'.conn := fun m' hm' =>
      h.clients.list (hl ▸ hm')
    exact h.move rfl (h.clients.setList fun m' hm' => hlist m' (List.mem_cons_of_mem m hm'))
      (fun k _ hok => hok.frame fun _ _ _ => ⟨rfl, rfl, fun _ => id, id, rfl⟩)
      (hlist m (List.mem_cons_self ..)) nofun
  | OnParseCmd j fd seq =>
    obtain ⟨-, rfl⟩ := State.OnParseCmd_eq hstep
    exact h.goto (p := .reply _ _) rfl rfl trivial (.inl rfl)
  | OnClose j d =>
    obtain ⟨c, hc, -, hr, rfl⟩ := State.OnClose_eq hstep
    obtain ⟨h0, hpending⟩ := hpromise c hc
    have halone : ∀ k fd, ¬ (s.thread k).Knows s.clients fd c := fun k fd =>
      h.alone h0 hpending hr k
    refine h.move rfl (h.clients.OnClose hc hr fun m hm hmc => hpending (.inl ⟨m, hm, hmc⟩))
      (fun k hk hok => hok.frame fun fd c' hkn => ?_) ?_ ?_
    · have hne : c' ≠ c := fun he => halone k fd (he ▸ hkn)
      exact Clients.same_setLife (fun he => absurd he hne) (fun he => absurd he hne)
        fun he => absurd he hne
    · have hnew : (s.clients.OnClose c).life c = { s.clients.life c with
          onCloses := (s.clients.life c).onCloses + 1 } := Function.update_self ..
      refine ⟨c, hc, ?_, h.clients.known ⟨hc, h0⟩⟩
      show ((s.clients.OnClose c).life c).onCloses = 1
      rw [hnew, h0]
    · intro fd hfd k hk hk'
      obtain rfl := Option.some.inj hfd
      cases hp : s.thread k with
      | OnClose fd' pc =>
        rw [hp] at hk'
        refine halone k d ?_
        rw [hp]
        exact ⟨Option.some.inj hk', hc⟩
      | free | find m | send call pc | reply r pc =>
        rw [hp] at hk'
        cases hk'
  | AddSeq j seq =>
    obtain ⟨call, hj, rfl⟩ := State.AddSeq_eq hstep
    have hok := h.ok j
    rw [hj] at hok
    exact h.goto (p := .send call (.lock seq)) rfl rfl hok (.inl rfl)
  | step j answer => exact h.stepThread hstep

end VncProxy.Lookup
