import VncProxy.Proxy.Peer

/-!
# No stale `mpVNCClient`

* `one_OnClose`        no two threads are in the `OnClose` of one descriptor;
* `Inv`                while a thread is between its check and its last dereference there is a
                       `Client`, and a thread that is about to delete it is in the `OnClose` of its
                       descriptor;
* `peer_kept`          in a run of steps that keep to the condition every dereference finds a
                       `Client`, and every frame is written to its own connection;
* `not_peer_kept`      a `Client` is deleted behind the check, and a frame goes to the next socket with
                       the descriptor.
-/

namespace VncProxy.Peer

open Tcp (Msg Conn)

variable {h k : Nat}

/-! ## the threads in `OnClose` -/

/-- how often a descriptor is before its `OnClose` -/
def weight (fd : Nat) (l : Tcp.Load) : Nat := l.2.1.count fd

theorem weight_add (fd : Nat) (l l' : Tcp.Load) : weight fd (l + l') = weight fd l + weight fd l' :=
  Multiset.count_add fd l.2.1 l'.2.1

theorem weight_onClose (fd : Nat) : weight fd (.onClose fd) = 1 := Multiset.count_singleton_self fd

def weightHom (fd : Nat) : Tcp.Load →+ Nat where
  toFun := weight fd
  map_zero' := Multiset.count_zero fd
  map_add' := weight_add fd

theorem weight_sum {n : Nat} (fd : Nat) (f : Fin n → Tcp.Load) :
    weight fd (∑ i, f i) = ∑ i, weight fd (f i) :=
  map_sum (weightHom fd) f Finset.univ

theorem weight_le_sum {n : Nat} (fd : Nat) (f : Fin n → Tcp.Load) (i : Fin n) :
    weight fd (f i) ≤ ∑ i, weight fd (f i) := by
  rw [sum_threads (weight fd) f i]
  exact Nat.le_add_right ..

theorem weight_two_le_sum {n : Nat} (fd : Nat) (f : Fin n → Tcp.Load) {i i' : Fin n} (hi : i ≠ i') :
    weight fd (f i) + weight fd (f i') ≤ ∑ i, weight fd (f i) := by
  have hle := weight_le_sum fd (Function.update f i 0) i'
  rw [sum_threads_update (weight fd) f i 0, Function.update_of_ne hi.symm] at hle
  rw [sum_threads (weight fd) f i]
  have h0 : weight fd 0 = 0 := Multiset.count_zero fd
  omega

/-- a descriptor is at most once before its `OnClose` -/
theorem weight_load_le {s : Tcp.State h k} (hs : s.Inv) (fd : Nat) :
    weight fd s.main.load + weight fd s.sender.load + ∑ i, weight fd (s.handler i).load ≤ 1 := by
  have hcl := (hs.table.entry fd).closers
  have hw : weight fd s.load = (Tcp.table s.slot s.load).finalizing.count fd := rfl
  have hload : weight fd s.load = weight fd s.lists + (weight fd s.main.load + weight fd s.sender.load +
      ∑ i, weight fd (s.handler i).load + weight fd (∑ j, (s.caller j).load)) := by
    rw [← weight_sum, ← weight_add, ← weight_add, ← weight_add, ← weight_add]
    rfl
  split at hcl <;> omega

theorem Closer.main_pc {s : Tcp.State h k} {fd : Nat} (hs : Closer.main.closing s = some fd) :
    ∃ m, s.main = .OnClose fd m := by
  unfold Closer.closing at hs
  dsimp only at hs
  split at hs
  · next fd' m hp => exact ⟨m, Option.some.inj hs ▸ hp⟩
  · cases hs

theorem Closer.handler_pc {s : Tcp.State h k} {i : Fin h} {fd : Nat}
    (hs : (Closer.handler i).closing s = some fd) : ∃ m, s.handler i = .OnClose fd m := by
  unfold Closer.closing at hs
  dsimp only at hs
  split at hs
  · next fd' m hp => exact ⟨m, Option.some.inj hs ▸ hp⟩
  · cases hs

theorem Closer.sender_pc {s : Tcp.State h k} {fd : Nat} (hs : Closer.sender.closing s = some fd) :
    s.sender = .OnClose fd := by
  unfold Closer.closing at hs
  dsimp only at hs
  split at hs
  · next fd' hp => exact Option.some.inj hs ▸ hp
  · cases hs

theorem Closer.weight_main {s : Tcp.State h k} {fd : Nat} (hs : Closer.main.closing s = some fd) :
    weight fd s.main.load = 1 := by
  obtain ⟨m, hp⟩ := Closer.main_pc hs
  rw [hp]
  exact weight_onClose fd

theorem Closer.weight_handler {s : Tcp.State h k} {i : Fin h} {fd : Nat}
    (hs : (Closer.handler i).closing s = some fd) : weight fd (s.handler i).load = 1 := by
  obtain ⟨m, hp⟩ := Closer.handler_pc hs
  rw [hp]
  exact weight_onClose fd

theorem Closer.weight_sender {s : Tcp.State h k} {fd : Nat} (hs : Closer.sender.closing s = some fd) :
    weight fd s.sender.load = 1 := by
  rw [Closer.sender_pc hs]
  exact weight_onClose fd

/-- **No two threads are in the `OnClose` of one descriptor.** -/
theorem one_OnClose {s : Tcp.State h k} (hs : s.Inv) {x y : Closer h} {fd : Nat}
    (hx : x.closing s = some fd) (hy : y.closing s = some fd) : x = y := by
  have hle := weight_load_le hs fd
  have hsum : ∀ i, weight fd (s.handler i).load ≤ ∑ i, weight fd (s.handler i).load :=
    weight_le_sum fd fun i => (s.handler i).load
  cases x with
  | main =>
    have h1 := Closer.weight_main hx
    cases y with
    | main => rfl
    | handler i =>
      have h2 := Closer.weight_handler hy
      have := hsum i
      omega
    | sender =>
      have h2 := Closer.weight_sender hy
      omega
  | handler i =>
    have h1 := Closer.weight_handler hx
    have := hsum i
    cases y with
    | main =>
      have h2 := Closer.weight_main hy
      omega
    | handler i' =>
      have h2 := Closer.weight_handler hy
      by_contra hne
      have := weight_two_le_sum fd (fun i => (s.handler i).load) fun he =>
        hne (congrArg Closer.handler he)
      omega
    | sender =>
      have h2 := Closer.weight_sender hy
      omega
  | sender =>
    have h1 := Closer.weight_sender hx
    cases y with
    | main =>
      have h2 := Closer.weight_main hy
      omega
    | handler i =>
      have h2 := Closer.weight_handler hy
      have := hsum i
      omega
    | sender => rfl

theorem Closer.closing_step {s s' : Tcp.State h k} {a : Tcp.Action h k} (hstep : s.stepAny a = some s')
    {x : Closer h} {fd : Nat} (hx : x.closing s = some fd) (ha : a ≠ x.action) :
    x.closing s' = some fd := by
  cases x with
  | main =>
    have hmain : s'.main = s.main := by
      obtain ⟨m, hp⟩ := Closer.main_pc hx
      cases a with
      | handler | send | sender | call | caller => exact Tcp.main_others id hstep
      | main => exact absurd rfl ha
      | accept fd' =>
        change s.accept fd' = some s' at hstep
        simp [Tcp.State.accept, hp] at hstep
      | event fd' error =>
        change s.event fd' error = some s' at hstep
        simp [Tcp.State.event, hp] at hstep
      | OnAccept ret =>
        change s.onAccept ret = some s' at hstep
        simp [Tcp.State.onAccept, hp] at hstep
      | recv ret =>
        change s.recv ret = some s' at hstep
        simp [Tcp.State.recv, hp] at hstep
    unfold Closer.closing at hx ⊢
    dsimp only at hx ⊢
    rw [hmain]
    exact hx
  | handler i =>
    unfold Closer.closing at hx ⊢
    dsimp only at hx ⊢
    rw [Tcp.handler_others ha hstep]
    exact hx
  | sender =>
    have hsender : s'.sender = s.sender := by
      have hp := Closer.sender_pc hx
      cases a with
      | accept | event | OnAccept | recv | main | handler | call | caller =>
        exact Tcp.sender_others id hstep
      | send ret =>
        change s.send ret = some s' at hstep
        simp [Tcp.State.send, hp] at hstep
      | sender => exact absurd rfl ha
    unfold Closer.closing at hx ⊢
    dsimp only at hx ⊢
    rw [hsender]
    exact hx

theorem Closer.calm {s : Tcp.State h k} {x : Closer h} {fd : Nat} (hx : x.closing s = some fd) :
    s.Calm x.action := by
  cases x with
  | main | handler i => trivial
  | sender =>
    show s.sender.Calm s.readFd
    rw [Closer.sender_pc hx]
    trivial

theorem Closer.action_injective : Function.Injective (Closer.action : Closer h → Tcp.Action h k) := by
  intro x y hxy
  cases x <;> cases y <;> first | rfl | cases hxy
  rfl

theorem caller_step {s s' : Tcp.State h k} {a : Tcp.Action h k} (hstep : s.stepAny a = some s')
    (hcall : ∀ j fd len, a ≠ .call j fd len) {j : Fin k} (hj : s.caller j = .free) :
    s'.caller j = .free := by
  refine (Tcp.caller_others (fun ha => ?_) hstep).trans hj
  cases a with
  | accept | event | OnAccept | recv | main | handler | send | sender => exact ha
  | call j' fd len => exact hcall j' fd len rfl
  | caller j' =>
    obtain rfl : j' = j := ha
    change s.stepCaller j' = some s' at hstep
    unfold Tcp.State.stepCaller at hstep
    rw [hj] at hstep
    cases hstep

/-! ## the invariant -/

/-- the connection of the last `Client`, and whether it is deleted -/
def State.core (s : State h k) : Option (Option Conn × Bool) :=
  s.mpVNCClient.map fun c => (c.conn, c.deleted)

structure State.Inv (s : State h k) : Prop where
  server : s.server.Inv
  caller : ∀ {j}, s.send j ≠ .queue → s.server.caller j = .free
  closing : ∀ {x}, s.close x ≠ .check → ∃ c d, s.core = some (some c, d) ∧
    x.closing s.server = some c.1 ∧ (s.close x = .setNull → d = true)
  deleted : ∀ {c}, s.core = some (c, true) → s.Deleting
  inside : ∀ {j}, (s.send j).inside = true → ∃ c, s.core = some (c, false)
  new : s.accept = .new → s.core = none
  fd : s.accept = .fd → ∀ {c d}, s.core = some (c, d) → c = none
  kept : s.Kept

variable {s s' : State h k}

theorem State.found_of_core {c : Option Conn} (hc : s.core = some (c, false)) : s.found = true := by
  unfold State.core at hc
  obtain ⟨client, hclient, he⟩ := Option.map_eq_some_iff.mp hc
  unfold State.found
  rw [hclient]
  show (!client.deleted) = true
  rw [(Prod.mk.inj he).2]
  rfl

/-- the frame that is being sent goes to its own connection -/
theorem State.Inv.writes (hi : s.Inv) (a : Tcp.Action h k) : ∀ w ∈ s.writes a, w.2 = .vnc w.1 := by
  intro w hw
  unfold State.writes at hw
  split at hw
  · split at hw
    · next m index hp =>
      obtain ⟨x, hx, rfl⟩ := List.mem_map.mp hw
      have hmem : m.conn ∈ s.server.load.1 :=
        (Tcp.mem_load_of_part s.server.load_sender).1 _ (by rw [hp]; exact Multiset.mem_singleton_self _)
      obtain ⟨hu, hgen⟩ := hi.server.table.holds m.conn hmem
      have hopen : (s.server.slot m.fd).isOpen = true := hu.live
      unfold State.socket at hx
      rw [if_pos hopen] at hx
      obtain rfl := Option.some.inj (Option.mem_toList.mp hx)
      exact congrArg Socket.vnc (congrArg (Prod.mk m.fd) hgen)
    · cases hw
  · cases hw

theorem State.core_map (s : State h k) {f : Client → Client}
    {g : Option Conn × Bool → Option Conn × Bool}
    (hfg : ∀ c, ((f c).conn, (f c).deleted) = g (c.conn, c.deleted)) :
    (s.mpVNCClient.map f).map (fun c => (c.conn, c.deleted)) = s.core.map g := by
  unfold State.core
  rw [Option.map_map, Option.map_map]
  exact congrArg (Option.map · s.mpVNCClient) (funext hfg)

theorem State.core_same (s : State h k) {f : Client → Client}
    (hf : ∀ c, ((f c).conn, (f c).deleted) = (c.conn, c.deleted)) :
    (s.mpVNCClient.map f).map (fun c => (c.conn, c.deleted)) = s.core :=
  (s.core_map (g := id) hf).trans (Option.map_id_apply ..)

theorem State.core_OnDisconnect (a : Tcp.Action h k) :
    (s.OnDisconnect a).map (fun c => (c.conn, c.deleted)) = s.core := by
  unfold State.OnDisconnect
  split
  · split
    · apply s.core_same
      intro c
      show ((if _ then _ else _ : Client).conn, (if _ then _ else _ : Client).deleted) = _
      split <;> rfl
    · rfl
  · rfl

/-! ## steps -/

/-- what a step of `TcpServer` leaves of the invariant: the threads in `OnClose` but the one that makes
it stay there -/
structure State.Moved (s : State h k) (a : Tcp.Action h k) (t : Tcp.State h k) : Prop where
  server : t.Inv
  caller : ∀ {j}, s.send j ≠ .queue → t.caller j = .free
  closing : ∀ {x : Closer h} {fd}, x.closing s.server = some fd → a ≠ x.action → x.closing t = some fd

theorem State.Inv.moved (hi : s.Inv) {a : Tcp.Action h k} {t : Tcp.State h k}
    (hcall : ∀ j fd len, a ≠ .call j fd len) (hcalm : s.server.Calm a)
    (hstep : s.server.step a = some t) : s.Moved a t := by
  have hany : s.server.stepAny a = some t := by
    cases a with
    | call j fd len => exact absurd rfl (hcall j fd len)
    | _ => exact hstep
  exact ⟨hi.server.step hcalm hstep, fun hj => caller_step hany hcall (hi.caller hj),
    fun hx ha => Closer.closing_step hany hx ha⟩

theorem State.Inv.stepServer (hi : s.Inv) {a : Tcp.Action h k} (hcalm : s.server.Calm a)
    (hstep : s.stepServer a = some s') : s'.Inv := by
  unfold State.stepServer at hstep
  split at hstep
  · next hown =>
    obtain ⟨t, ht, rfl⟩ := Option.map_eq_some_iff.mp hstep
    have hcall : ∀ j fd len, a ≠ .call j fd len := by
      rintro j fd len rfl
      exact hown
    have hm := hi.moved hcall hcalm ht
    have hcore : ∀ {u : State h k}, u.mpVNCClient = s.OnDisconnect a → u.core = s.core := fun hu => by
      unfold State.core
      rw [hu]
      exact State.core_OnDisconnect a
    refine ⟨hm.server, hm.caller, fun {x} hx => ?_, fun hc => hi.deleted ((hcore rfl).symm.trans hc),
      fun hj => ?_, fun hn => (hcore rfl).trans (hi.new hn),
      fun hf {c d} hc => hi.fd hf ((hcore rfl).symm.trans hc), hi.kept.derefs, fun w hw => ?_⟩
    · obtain ⟨c, d, hc, hclosing, hd⟩ := hi.closing hx
      refine ⟨c, d, (hcore rfl).trans hc, hm.closing hclosing ?_, hd⟩
      -- a thread in `OnClose` makes no step of its own
      rintro rfl
      cases x <;> cases hclosing.symm.trans hown
    · obtain ⟨c, hc⟩ := hi.inside hj
      exact ⟨c, (hcore rfl).trans hc⟩
    · rcases List.mem_append.mp hw with hw | hw
      · exact hi.kept.written w hw
      · exact hi.writes a w hw
  · cases hstep

theorem State.Inv.accepted (hi : s.Inv) {ret : Bool} (hstep : s.accepted ret = some s') : s'.Inv := by
  obtain ⟨t, ht, rfl⟩ := Option.map_eq_some_iff.mp hstep
  have hm := hi.moved (a := .OnAccept ret) (fun _ _ _ => nofun) trivial ht
  refine ⟨hm.server, hm.caller, fun {x} hx => ?_, hi.deleted, hi.inside, hi.new, hi.fd, hi.kept.derefs,
    hi.kept.written⟩
  obtain ⟨c, d, hc, hclosing, hd⟩ := hi.closing hx
  exact ⟨c, d, hc, hm.closing hclosing (by cases x <;> nofun), hd⟩

theorem State.Inv.OnAccept (hi : s.Inv) (hstep : s.OnAccept = some s') : s'.Inv := by
  unfold State.OnAccept at hstep
  split at hstep
  · next fd hmain =>
    split at hstep
    · next ha =>
      split at hstep
      · next hnull =>
        obtain rfl := Option.some.inj hstep
        have hcore : s.core = none := by
          unfold State.core
          rw [hnull]
          rfl
        exact ⟨hi.server, hi.caller, hi.closing, hi.deleted, hi.inside, fun _ => hcore, nofun,
          hi.kept.derefs, hi.kept.written⟩
      · exact hi.accepted hstep
    · next ha =>
      -- there was no `Client`, so no thread deletes one and none is inside
      obtain rfl := Option.some.inj hstep
      have hnull := hi.new ha
      have hclose : ∀ x, s.close x = .check := fun x => by
        by_contra hx
        obtain ⟨c, d, hc, -⟩ := hi.closing hx
        cases hnull.symm.trans hc
      refine ⟨hi.server, hi.caller, fun {x} hx => absurd (hclose x) hx, fun hc => ?_, fun hj => ?_,
        nofun, fun _ {c d} hc => ?_, hi.kept.derefs, hi.kept.written⟩
      · cases hc
      · obtain ⟨c, hc⟩ := hi.inside hj
        cases hnull.symm.trans hc
      · exact (Prod.mk.inj (Option.some.inj hc)).1.symm
    · next ha =>
      obtain rfl := Option.some.inj hstep
      have hclose : ∀ x, s.close x = .check := fun x => by
        by_contra hx
        obtain ⟨c, d, hc, -⟩ := hi.closing hx
        cases hi.fd ha hc
      have hcore : (s.mpVNCClient.map fun c => { c with conn := some (s.server.conn fd) }).map
          (fun c => (c.conn, c.deleted)) = s.core.map fun e => (some (s.server.conn fd), e.2) :=
        s.core_map fun _ => rfl
      refine ⟨hi.server, hi.caller, fun {x} hx => absurd (hclose x) hx, fun {c} hc => ?_,
        fun hj => ?_, nofun, nofun, hi.kept.derefs, hi.kept.written⟩
      · obtain ⟨⟨c', d⟩, he, hd⟩ := Option.map_eq_some_iff.mp (hcore.symm.trans hc)
        obtain ⟨-, rfl⟩ := Prod.mk.inj hd
        exact hi.deleted he
      · obtain ⟨c, hc⟩ := hi.inside hj
        refine ⟨some (s.server.conn fd), hcore.trans ?_⟩
        rw [hc]
        rfl
    · next ha =>
      refine State.Inv.accepted ?_ hstep
      have hcore : (s.mpVNCClient.map fun c => { c with isOnline := true }).map
          (fun c => (c.conn, c.deleted)) = s.core := s.core_same fun _ => rfl
      refine ⟨hi.server, hi.caller, fun hx => ?_, fun hc => hi.deleted (hcore.symm.trans hc),
        fun hj => ?_, nofun, nofun, hi.kept.derefs, hi.kept.written⟩
      · obtain ⟨c, d, hc, hclosing⟩ := hi.closing hx
        exact ⟨c, d, hcore.trans hc, hclosing⟩
      · obtain ⟨c, hc⟩ := hi.inside hj
        exact ⟨c, hcore.trans hc⟩
  · cases hstep

/-! ### `OnClose` -/

theorem State.setClose_self (s : State h k) (x : Closer h) (pc : ClosePc) :
    (s.setClose x pc).close x = pc :=
  Function.update_self (β := fun _ => ClosePc) x pc s.close

theorem State.setClose_other (s : State h k) {x y : Closer h} (pc : ClosePc) (hy : y ≠ x) :
    (s.setClose x pc).close y = s.close y :=
  Function.update_of_ne (β := fun _ => ClosePc) hy pc s.close

theorem State.Inv.closed (hi : s.Inv) {x : Closer h} {fd : Nat} (hx : x.closing s.server = some fd)
    (hcheck : s.close x = .check) (hstep : s.closed x = some s') : s'.Inv := by
  obtain ⟨t, ht, rfl⟩ := Option.map_eq_some_iff.mp hstep
  have hm := hi.moved (fun _ _ _ => by cases x <;> nofun) (Closer.calm hx) ht
  refine ⟨hm.server, hm.caller, fun {y} hy => ?_, hi.deleted, hi.inside, hi.new, hi.fd, hi.kept.derefs,
    hi.kept.written⟩
  obtain ⟨c, d, hc, hclosing, hd⟩ := hi.closing hy
  refine ⟨c, d, hc, hm.closing hclosing fun he => hy ?_, hd⟩
  exact Closer.action_injective he ▸ hcheck

theorem State.Inv.OnClose (hi : s.Inv) {x : Closer h} (hok : s.Ok (.OnClose x))
    (hstep : s.OnClose x = some s') : s'.Inv := by
  unfold State.OnClose at hstep
  split at hstep
  · next fd hx =>
    split at hstep
    · next hcheck =>
      split at hstep
      · next hfd =>
        -- the `Client` has the descriptor that is closed
        obtain rfl := Option.some.inj hstep
        obtain ⟨client, hclient, hfd⟩ := (Option.any_eq_true ..).mp hfd
        obtain ⟨c, hc, hcfd⟩ := Option.map_eq_some_iff.mp (of_decide_eq_true hfd)
        have hcore : s.core = some (some c, client.deleted) := by
          unfold State.core
          rw [hclient, ← hc]
          rfl
        refine ⟨hi.server, hi.caller, fun {y} hy => ?_, fun hc => ?_, hi.inside, hi.new, hi.fd,
          hi.kept.derefs, hi.kept.written⟩
        · by_cases hyx : y = x
          · subst hyx
            refine ⟨c, client.deleted, hcore, hcfd ▸ hx, fun hn => ?_⟩
            rw [State.setClose_self] at hn
            cases hn
          · rw [State.setClose_other s _ hyx] at hy ⊢
            exact hi.closing hy
        · obtain ⟨y, hy⟩ := hi.deleted hc
          refine ⟨y, (State.setClose_other s _ ?_).trans hy⟩
          rintro rfl
          cases hcheck.symm.trans hy
      · exact hi.closed hx hcheck hstep
    · next hdelete =>
      obtain rfl := Option.some.inj hstep
      have hcore : (s.mpVNCClient.map fun c => { c with deleted := true }).map
          (fun c => (c.conn, c.deleted)) = s.core.map fun e => (e.1, true) := s.core_map fun _ => rfl
      have hback : ∀ {c d}, (s.mpVNCClient.map fun c => { c with deleted := true }).map
          (fun c => (c.conn, c.deleted)) = some (c, d) → ∃ d', s.core = some (c, d') := by
        intro c d hc
        obtain ⟨⟨c', d'⟩, he, hd⟩ := Option.map_eq_some_iff.mp (hcore.symm.trans hc)
        obtain ⟨rfl, -⟩ := Prod.mk.inj hd
        exact ⟨d', he⟩
      refine ⟨hi.server, hi.caller, fun {y} hy => ?_, fun _ => ⟨x, State.setClose_self ..⟩,
        fun {j} hj => ?_, fun hn => ?_, fun hf {c d} hc => ?_, hi.kept.derefs, hi.kept.written⟩
      · have hclose : s.close y ≠ .check := by
          by_cases hyx : y = x
          · rw [hyx, hdelete]
            nofun
          · rwa [State.setClose_other _ _ hyx] at hy
        obtain ⟨c, d, hc, hclosing, -⟩ := hi.closing hclose
        refine ⟨c, true, hcore.trans ?_, hclosing, fun _ => rfl⟩
        rw [hc]
        rfl
      · exact absurd (hok hdelete j) (ne_of_eq_of_ne hj (by decide))
      · refine hcore.trans ?_
        rw [hi.new hn]
        rfl
      · obtain ⟨d', hc⟩ := hback hc
        exact hi.fd hf hc
    · next hnull =>
      -- no other thread closes this descriptor, and the `Client` has been deleted
      obtain ⟨c, d, hc, hclosing, hd⟩ := hi.closing (x := x) fun he => nomatch hnull.symm.trans he
      obtain rfl := hd hnull
      have hother : ∀ y, y ≠ x → s.close y = .check := fun y hyx => by
        by_contra hy
        obtain ⟨c', d', hc', hclosing', -⟩ := hi.closing hy
        obtain ⟨he, -⟩ := Prod.mk.inj (Option.some.inj (hc.symm.trans hc'))
        obtain rfl := Option.some.inj he
        exact hyx (one_OnClose hi.server hclosing' hclosing)
      suffices hnone : (State.setClose { s with mpVNCClient := none } x .check).Inv from
        hnone.closed hx (State.setClose_self ..) hstep
      refine ⟨hi.server, hi.caller, fun {y} hy => absurd ?_ hy, fun hc => (nomatch hc), fun {j} hj => ?_,
        fun _ => rfl, fun _ {_ _} hc => (nomatch hc), hi.kept.derefs, hi.kept.written⟩
      · by_cases hyx : y = x
        · rw [hyx]
          exact State.setClose_self ..
        · rw [State.setClose_other _ _ hyx]
          exact hother y hyx
      · obtain ⟨c', hc'⟩ := hi.inside hj
        cases hc.symm.trans hc'
  · cases hstep

/-! ### `SendClient2VNC` -/

theorem State.Inv.goto (hi : s.Inv) {u : State h k} {j : Fin k} {pc : SendPc} (hserver : u.server.Inv)
    (hclosing : ∀ x : Closer h, x.closing u.server = x.closing s.server)
    (hothers : ∀ j', j' ≠ j → u.server.caller j' = s.server.caller j')
    (hcaller : pc ≠ .queue → u.server.caller j = .free) (hcore : u.core = s.core)
    (hrest : (u.accept, u.close, u.send) = (s.accept, s.close, s.send)) (hkept : u.Kept)
    (hpc : pc.inside = true → ∃ c, s.core = some (c, false)) : (u.goto j pc).Inv := by
  obtain ⟨haccept, hrest⟩ := Prod.mk.inj hrest
  obtain ⟨hclose, hsend⟩ := Prod.mk.inj hrest
  have hself : (u.goto j pc).send j = pc := Function.update_self (β := fun _ => SendPc) j pc u.send
  have hother : ∀ j', j' ≠ j → (u.goto j pc).send j' = s.send j' := fun j' hj' =>
    (Function.update_of_ne (β := fun _ => SendPc) hj' pc u.send).trans (congrFun hsend j')
  refine ⟨hserver, fun {j'} hj' => ?_, fun {x} hx => ?_, fun {c} hc => ?_, fun {j'} hj' => ?_,
    fun hn => hcore.trans (hi.new (haccept.symm.trans hn)),
    fun hf {c d} hc => hi.fd (haccept.symm.trans hf) (hcore.symm.trans hc), hkept.derefs, hkept.written⟩
  · by_cases hjj : j' = j
    · rw [hjj] at hj' ⊢
      rw [hself] at hj'
      exact hcaller hj'
    · rw [hother j' hjj] at hj'
      exact (hothers j' hjj).trans (hi.caller hj')
  · change u.close x ≠ .check at hx
    rw [hclose] at hx
    obtain ⟨c, d, hc, hcl, hd⟩ := hi.closing hx
    refine ⟨c, d, hcore.trans hc, (hclosing x).trans hcl, fun hn => hd ?_⟩
    exact (congrFun hclose x).symm.trans hn
  · obtain ⟨x, hx⟩ := hi.deleted (hcore.symm.trans hc)
    exact ⟨x, (congrFun hclose x).trans hx⟩
  · by_cases hjj : j' = j
    · rw [hjj, hself] at hj'
      obtain ⟨c, hc⟩ := hpc hj'
      exact ⟨c, hcore.trans hc⟩
    · rw [hother j' hjj] at hj'
      obtain ⟨c, hc⟩ := hi.inside hj'
      exact ⟨c, hcore.trans hc⟩

theorem State.Inv.deref (hi : s.Inv) {j : Fin k} (hj : (s.send j).inside = true) : s.deref.Kept := by
  obtain ⟨c, hc⟩ := hi.inside hj
  refine ⟨fun b hb => ?_, hi.kept.written⟩
  rcases List.mem_append.mp hb with hb | hb
  · exact hi.kept.derefs b hb
  · rw [List.mem_singleton.mp hb]
    exact s.found_of_core hc

theorem takeIdle_inv {t : Tcp.State h k} (ht : t.Inv) (l : List Msg) :
    Tcp.State.Inv { t with mIdleMessageList := l } :=
  ⟨ht.table, ⟨ht.held.list, ht.held.handler, ht.held.sender⟩, ht.watched, ht.main⟩

theorem call_inv {t : Tcp.State h k} (ht : t.Inv) {j : Fin k} (hj : t.caller j = .free) (m : Msg) :
    (t.setCaller j (.count m)).Inv := by
  have hok := ht.table_caller j
  rw [hj] at hok
  exact ht.caller_goto rfl rfl rfl (fun _ => .refl _) hok

theorem State.Inv.SendClient2VNC (hi : s.Inv) {j : Fin k} {len : Nat}
    (hok : s.Ok (.SendClient2VNC j len)) (hstep : s.SendClient2VNC j len = some s') : s'.Inv := by
  have hquiet : ∀ {pc : SendPc}, s.server.caller j = .free →
      (pc.inside = true → ∃ c, s.core = some (c, false)) → (s.goto j pc).Inv := fun hfree hpc =>
    hi.goto hi.server (fun _ => rfl) (fun _ _ => rfl) (fun _ => hfree) rfl rfl hi.kept hpc
  unfold State.SendClient2VNC at hstep
  cases hj : s.send j with
  | free =>
    rw [hj] at hstep
    obtain rfl := Option.some.inj hstep
    exact hquiet (hi.caller (by rw [hj]; nofun)) nofun
  | check =>
    rw [hj] at hstep
    obtain rfl := Option.some.inj hstep
    apply hquiet (hi.caller (by rw [hj]; nofun))
    intro hin
    -- no thread is deleting the `Client`, so it is not deleted
    cases hclient : s.mpVNCClient with
    | none =>
      rw [hclient] at hin
      cases hin
    | some client =>
      have hcore : s.core = some (client.conn, client.deleted) := by
        unfold State.core
        rw [hclient]
        rfl
      cases hd : client.deleted with
      | false => exact ⟨client.conn, hd ▸ hcore⟩
      | true => exact absurd (hi.deleted (hd ▸ hcore)) (hok hj)
  | isOnline =>
    have hin : (s.send j).inside = true := by rw [hj]; rfl
    rw [hj] at hstep
    obtain rfl := Option.some.inj hstep
    exact hi.goto hi.server (fun _ => rfl) (fun _ _ => rfl) (fun _ => hi.caller (by rw [hj]; nofun)) rfl
      rfl (hi.deref hin) fun _ => hi.inside hin
  | popIdle =>
    have hin : (s.send j).inside = true := by rw [hj]; rfl
    have hfree := hi.caller (j := j) (by rw [hj]; nofun)
    rw [hj] at hstep
    dsimp only at hstep
    split at hstep
    · obtain rfl := Option.some.inj hstep
      exact hquiet hfree nofun
    · next m l hl =>
      obtain rfl := Option.some.inj hstep
      exact hi.goto (takeIdle_inv hi.server l) (fun x => by cases x <;> rfl) (fun _ _ => rfl)
        (fun _ => hfree) rfl rfl ⟨hi.kept.derefs, hi.kept.written⟩ fun _ => hi.inside hin
  | addSeq m =>
    have hin : (s.send j).inside = true := by rw [hj]; rfl
    have hfree := hi.caller (j := j) (by rw [hj]; nofun)
    rw [hj] at hstep
    obtain rfl := Option.some.inj hstep
    have hkept := hi.deref hin
    exact hi.goto hi.server (fun _ => rfl) (fun _ _ => rfl) (fun _ => hfree)
      (s.core_same fun _ => rfl) rfl ⟨hkept.derefs, hkept.written⟩ fun _ => hi.inside hin
  | lock m =>
    have hin : (s.send j).inside = true := by rw [hj]; rfl
    have hfree := hi.caller (j := j) (by rw [hj]; nofun)
    rw [hj] at hstep
    dsimp only at hstep
    split at hstep
    · obtain rfl := Option.some.inj hstep
      exact hi.goto hi.server (fun _ => rfl) (fun _ _ => rfl) (fun _ => hfree) rfl rfl
        ⟨hi.kept.derefs, hi.kept.written⟩ fun _ => hi.inside hin
    · cases hstep
  | fd m =>
    have hin : (s.send j).inside = true := by rw [hj]; rfl
    have hfree := hi.caller (j := j) (by rw [hj]; nofun)
    have hkept := hi.deref hin
    rw [hj] at hstep
    dsimp only at hstep
    split at hstep
    · obtain rfl := Option.some.inj hstep
      exact hi.goto (call_inv hi.server hfree _) (fun x => by cases x <;> rfl)
        (fun j' hj' => Function.update_of_ne hj' _ _) (fun hne => absurd rfl hne) rfl rfl
        ⟨hkept.derefs, hkept.written⟩ nofun
    · obtain rfl := Option.some.inj hstep
      exact hi.goto hi.server (fun _ => rfl) (fun _ _ => rfl) (fun _ => hfree) rfl rfl hkept nofun
  | queue =>
    rw [hj] at hstep
    dsimp only at hstep
    split at hstep
    · next hfree =>
      obtain rfl := Option.some.inj hstep
      exact hquiet hfree nofun
    · cases hstep
  | unlock =>
    have hfree := hi.caller (j := j) (by rw [hj]; nofun)
    rw [hj] at hstep
    obtain rfl := Option.some.inj hstep
    exact hi.goto hi.server (fun _ => rfl) (fun _ _ => rfl) (fun _ => hfree) rfl rfl
      ⟨hi.kept.derefs, hi.kept.written⟩ nofun

/-! ## all runs -/

/-- **A step that keeps to the condition keeps the invariant.** -/
theorem State.Inv.step (hi : s.Inv) {a : Action h k} (hok : s.Ok a) (hstep : s.step a = some s') :
    s'.Inv := by
  cases a with
  | server a => exact hi.stepServer hok hstep
  | OnAccept => exact hi.OnAccept hstep
  | OnClose x => exact hi.OnClose hok hstep
  | SendClient2VNC j len => exact hi.SendClient2VNC hok hstep
  | openOther fd =>
    change s.openOther fd = some s' at hstep
    unfold State.openOther at hstep
    split at hstep
    · obtain rfl := Option.some.inj hstep
      exact ⟨hi.server, hi.caller, hi.closing, hi.deleted, hi.inside, hi.new, hi.fd, hi.kept.derefs,
        hi.kept.written⟩
    · cases hstep
  | closeOther fd =>
    obtain rfl := Option.some.inj hstep
    exact ⟨hi.server, hi.caller, hi.closing, hi.deleted, hi.inside, hi.new, hi.fd, hi.kept.derefs,
      hi.kept.written⟩

theorem State.Inv.init (h k pool watchers handleSize : Nat) (junk : Nat → Int × Bool × Nat × Nat) :
    (State.init h k pool watchers handleSize junk).Inv where
  server := .init h k pool watchers handleSize junk
  caller := fun _ => rfl
  closing := fun hx => absurd rfl hx
  deleted := nofun
  inside := nofun
  new := nofun
  fd := nofun
  kept := ⟨nofun, nofun⟩

/-- **No stale VNC peer**, for any number of handler threads and of threads in `SendClient2VNC`, and
every interleaving of steps that keep to the condition. -/
theorem peer_kept {pool watchers handleSize : Nat} {junk : Nat → Int × Bool × Nat × Nat}
    {l : List (Action h k)} {s : State h k}
    (hok : RunOk State.step State.Ok (State.init h k pool watchers handleSize junk) l)
    (hrun : run State.step (State.init h k pool watchers handleSize junk) l = some s) : s.Kept :=
  (inv_runOk (I := State.Inv) (fun _ _ _ hi hok hstep => hi.step hok hstep)
    (State.Inv.init h k pool watchers handleSize junk) hok hrun).kept

/-- **The deletion has to wait**: if a `Client` is deleted while a thread is before a dereference, the
thread dereferences the deleted `Client` when it goes on. -/
theorem delete_inside {x : Closer h} {fd : Nat} (hx : x.closing s.server = some fd)
    (hdelete : s.close x = .delete) {j : Fin k} (len : Nat)
    (hj : s.send j = .isOnline ∨ (∃ m, s.send j = .addSeq m) ∨ ∃ m, s.send j = .fd m) :
    ∃ s', run State.step s [.OnClose x, .SendClient2VNC j len] = some s' ∧ ¬ s'.Kept := by
  obtain ⟨t, ht, hsend, hfound⟩ :
      ∃ t, s.OnClose x = some t ∧ t.send = s.send ∧ t.found = false := by
    refine ⟨State.setClose { s with
      mpVNCClient := s.mpVNCClient.map fun c => { c with deleted := true } } x .setNull, ?_, rfl, ?_⟩
    · unfold State.OnClose
      rw [hx]
      dsimp only
      rw [hdelete]
    · unfold State.found State.setClose
      cases s.mpVNCClient <;> rfl
  obtain ⟨s', hs', hderefs⟩ : ∃ s', t.SendClient2VNC j len = some s' ∧ false ∈ s'.derefs := by
    have hlast : false ∈ t.deref.derefs := by
      show false ∈ t.derefs ++ [t.found]
      rw [hfound]
      exact List.mem_append_right _ (List.mem_singleton_self _)
    unfold State.SendClient2VNC
    rw [hsend]
    rcases hj with hj | ⟨m, hj⟩ | ⟨m, hj⟩ <;> rw [hj]
    · exact ⟨_, rfl, hlast⟩
    · exact ⟨_, rfl, hlast⟩
    · dsimp only
      split
      · exact ⟨_, rfl, hlast⟩
      · exact ⟨_, rfl, hlast⟩
  refine ⟨s', ?_, fun hkept => absurd (hkept.derefs false hderefs) (by decide)⟩
  exact run_cons.mpr ⟨t, ht, run_cons.mpr ⟨s', hs', rfl⟩⟩

/-! ## runs with one handler thread and one thread in `SendClient2VNC` -/

def start : State 1 1 := State.init 1 1 2 1 0 fun _ => (7, true, 7, 7)

def connect5 : List (Action 1 1) :=
  [.server (.accept 5), .server .main, .server .main, .server .main, .OnAccept, .OnAccept, .OnAccept,
    .OnAccept, .server .main]

/-- thread `j` goes on `n` times in `SendClient2VNC` -/
def sendSteps (j : Fin 1) (n : Nat) : List (Action 1 1) := List.replicate n (.SendClient2VNC j 10)

def write5 (j : Fin 1) : List (Action 1 1) :=
  [.server (.caller j), .server (.caller j), .server (.caller j), .server .sender,
    .server (.send (.sent 10))]

/-- the peer closes, and the main thread runs `OnDisconnect` and `OnClose` -/
def close5 : List (Action 1 1) :=
  [.server (.event 5 false), .server .main, .server (.recv .closed), .server .main, .server .main,
    .server .main, .OnClose .main, .OnClose .main, .OnClose .main]

/-- a request is sent, then the peer reconnects on the same descriptor and another one is sent -/
theorem peer_kept_reconnect :
    ∃ s, run State.step start (connect5 ++ sendSteps 0 7 ++ write5 0 ++ sendSteps 0 2 ++
        [.server .sender, .server .sender, .server .sender, .server .sender] ++ close5 ++
        [.server .main, .server .main] ++ connect5 ++ sendSteps 0 7 ++ write5 0) = some s ∧
      s.written = [((5, 1), .vnc (5, 1)), ((5, 2), .vnc (5, 2))] ∧ s.Kept := by
  have hok : RunOk State.step State.Ok start (connect5 ++ sendSteps 0 7 ++ write5 0 ++ sendSteps 0 2 ++
      [.server .sender, .server .sender, .server .sender, .server .sender] ++ close5 ++
      [.server .main, .server .main] ++ connect5 ++ sendSteps 0 7 ++ write5 0) := by
    decide +kernel
  exact ⟨_, rfl, rfl, peer_kept hok rfl⟩

/-- **A stale peer**: the `Client` is deleted between the check and `AddSeq`, which dereferences NULL;
and a frame whose `fd` was read before `OnClose` is written to the next socket with descriptor 5. -/
theorem not_peer_kept :
    (∃ s, run State.step start (connect5 ++ sendSteps 0 4 ++ close5 ++ sendSteps 0 1) = some s ∧
      s.mpVNCClient = none ∧ s.derefs = [true, false] ∧ ¬ s.Kept) ∧
    ∃ s, run State.step start (connect5 ++ sendSteps 0 7 ++ close5 ++ [.server .main, .openOther 5] ++
        write5 0) = some s ∧
      s.derefs = [true, true, true] ∧ s.written = [((5, 1), .other 0)] ∧ ¬ s.Kept := by
  constructor
  · obtain ⟨s, hrun, hnull, hderefs⟩ : ∃ s, run State.step start (connect5 ++ sendSteps 0 4 ++ close5 ++
        sendSteps 0 1) = some s ∧ s.mpVNCClient = none ∧ s.derefs = [true, false] := by
      decide +kernel
    refine ⟨s, hrun, hnull, hderefs, fun hkept => ?_⟩
    have hfalse := hkept.derefs false (by rw [hderefs]; decide)
    cases hfalse
  · obtain ⟨s, hrun, hderefs, hwritten⟩ : ∃ s, run State.step start (connect5 ++ sendSteps 0 7 ++
        close5 ++ [.server .main, .openOther 5] ++ write5 0) = some s ∧
        s.derefs = [true, true, true] ∧ s.written = [((5, 1), .other 0)] := by
      decide +kernel
    refine ⟨s, hrun, hderefs, hwritten, fun hkept => ?_⟩
    have hother := hkept.written ((5, 1), .other 0) (by rw [hwritten]; decide)
    cases hother

end VncProxy.Peer
