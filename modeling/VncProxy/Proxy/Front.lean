import Mathlib.Logic.Function.Basic
import VncProxy.Lib.Run
import VncProxy.Wire.Command

/-!
# `TcpProxyServer` and its HTTP clients

The main thread of `mClientTcpServer` (`OnAccept`, `Recv_Callback`, `OnDisconnect`) and `n` handler
threads (`HandleRunnable::onRun` with `HandleRecvMessage`).  What a step of `SendClient2VNC` comes
to is a label here (`Result`), `State.SendClient2VNC` gives it.

* `Conn`          what happened to one connection; no code reads it;
* `Front`, `Front.Move`, `Front.step`  the step system;
* `Front.Inv`     which connection the clients and the Messages belong to, as long as `TcpServer`
                  only closes connections that are `Free`;
* `Front.Done`    nothing of a connection is left when its `OnDisconnect` returns.

`OnClose(fd)` and `close(fd)` are one step.  The thread that makes it is not told: it only waits for
the lock of `mClientMap`, which the main thread holds in `OnDisconnect`.
-/

namespace VncProxy.Proxy

/-- the connections are numbered in the order of their `accept` -/
structure Conn where
  fd : Nat
  /-- what `recv` returned -/
  received : List Chunk
  /-- one of the chunks was dropped: over `mHandleSize`, or `SendClient2VNC` returned false -/
  lost : Bool
  /-- `recv` returned 0 or an error -/
  disconnected : Bool
  /-- `TcpProxyServer::OnDisconnect` has returned -/
  returned : Bool

/-- a `Client` of `mClientMap`; `conn` is the connection it was made for -/
structure Client where
  fd : Nat
  conn : Nat
deriving DecidableEq

structure Item where
  fd : Nat
  conn : Nat
  seq : Nat
  chunk : Chunk
deriving DecidableEq

/-- a command queued to VNC; the bytes of a chunk come from the connection `src` -/
structure Frame where
  client : Client
  src : Nat
  seq : CInt
  task : ITask
deriving DecidableEq

/-- in `SendClient2VNC`, before the operation it is named after -/
inductive SendPc where
  | check
  | popIdle
  | addSeq
  /-- the section of `mClient2SessionMap` -/
  | queue (seq : CInt)
deriving DecidableEq

/-- what one step of `SendClient2VNC` comes to: it goes on, or it returns with the frame queued
under a seq or without one -/
inductive Result where
  | goto (pc : SendPc)
  | ret (queued : Option CInt)
deriving DecidableEq

inductive HandlerPc where
  | popFront
  /-- before `mClientMap.Find(m->fd)` -/
  | find (m : Item)
  | send (m : Item) (client : Client) (pc : SendPc)
deriving DecidableEq

inductive MainPc where
  | loop
  /-- in `OnDisconnect`, which holds `mClientMap` -/
  | OnDisconnect (client : Client) (pc : SendPc)
deriving DecidableEq

/-- the Message a handler has not yet forwarded -/
def HandlerPc.item : HandlerPc → Option Item
  | .popFront => none
  | .find m => some m
  | .send m _ _ => some m

/-- `conn`, `count`, `holder` and `queued` are ghosts: what happened to the connections, their
number, the one that has a descriptor, and the commands queued to VNC in their order -/
structure Front (n : Nat) where
  conn : Nat → Conn
  count : Nat
  holder : Nat → Option Nat
  mClientMap : Nat → Option Client
  mHandleSize : Nat
  mHandleMessageList : List Item
  handler : Fin n → HandlerPc
  main : MainPc
  queued : List Frame

def Front.init (n mHandleSize : Nat) : Front n where
  conn := fun _ => ⟨0, [], false, false, false⟩
  count := 0
  holder := fun _ => none
  mClientMap := fun _ => none
  mHandleSize := mHandleSize
  mHandleMessageList := []
  handler := fun _ => .popFront
  main := .loop
  queued := []

/-! ## moves -/

inductive Front.Move (n : Nat) where
  | accept (fd : Nat)
  | recv (fd : Nat) (chunk : Chunk)
  | disconnect (fd : Nat)
  | main (r : Result)
  | pop (i : Fin n)
  | find (i : Fin n)
  | send (i : Fin n) (r : Result)
  | close (fd : Nat)
deriving DecidableEq

variable {n : Nat}

namespace Front

def goto (f : Front n) (i : Fin n) (pc : HandlerPc) : Front n :=
  { f with handler := Function.update f.handler i pc }

theorem goto_self (f : Front n) (i : Fin n) (pc : HandlerPc) : (f.goto i pc).handler i = pc :=
  Function.update_self (β := fun _ => HandlerPc) i pc f.handler

theorem goto_other (f : Front n) {i j : Fin n} (pc : HandlerPc) (h : j ≠ i) :
    (f.goto i pc).handler j = f.handler j :=
  Function.update_of_ne (β := fun _ => HandlerPc) h pc f.handler

def setConn (f : Front n) (c : Nat) (x : Conn) : Front n :=
  { f with conn := Function.update f.conn c x }

theorem setConn_self (f : Front n) (c : Nat) (x : Conn) : (f.setConn c x).conn c = x :=
  Function.update_self (β := fun _ => Conn) c x f.conn

theorem setConn_other (f : Front n) {c d : Nat} (x : Conn) (h : d ≠ c) :
    (f.setConn c x).conn d = f.conn d :=
  Function.update_of_ne (β := fun _ => Conn) h x f.conn

/-- `OnAccept` inserts a new `Client`, unless there is one -/
def opened (f : Front n) (fd : Nat) : Front n :=
  { f.setConn f.count ⟨fd, [], false, false, false⟩ with
    count := f.count + 1
    holder := Function.update f.holder fd (some f.count)
    mClientMap :=
      if f.mClientMap fd = none then Function.update f.mClientMap fd (some ⟨fd, f.count⟩)
      else f.mClientMap }

def accept (f : Front n) (fd : Nat) : Option (Front n) :=
  if f.main = .loop ∧ f.holder fd = none then some (f.opened fd) else none

/-- `OnTimeoutMessage` for a chunk -/
def refused (f : Front n) (c : Nat) (chunk : Chunk) : Front n :=
  f.setConn c { f.conn c with received := (f.conn c).received ++ [chunk], lost := true }

def pushed (f : Front n) (fd c : Nat) (chunk : Chunk) : Front n :=
  { f.setConn c { f.conn c with received := (f.conn c).received ++ [chunk] } with
    mHandleMessageList := f.mHandleMessageList ++ [⟨fd, c, (f.conn c).received.length, chunk⟩] }

def recv (f : Front n) (fd : Nat) (chunk : Chunk) : Option (Front n) :=
  match f.holder fd with
  | some c =>
    if f.main = .loop ∧ (f.conn c).disconnected = false then
      if 0 < f.mHandleSize ∧ f.mHandleSize < f.mHandleMessageList.length then
        some (f.refused c chunk)
      else some (f.pushed fd c chunk)
    else none
  | none => none

def leaving (f : Front n) (c : Nat) (client : Client) : Front n :=
  { f.setConn c { f.conn c with disconnected := true } with
    main := .OnDisconnect client .check }

def disconnect (f : Front n) (fd : Nat) : Option (Front n) :=
  match f.holder fd, f.mClientMap fd with
  | some c, some client =>
    if f.main = .loop ∧ (f.conn c).disconnected = false then some (f.leaving c client) else none
  | _, _ => none

/-- the end of `OnDisconnect`, with the command queued under a seq or not queued -/
def left (f : Front n) (client : Client) (queued : Option CInt) : Front n :=
  { f.setConn client.conn { f.conn client.conn with returned := true } with
    main := .loop
    queued := f.queued ++
      (queued.map fun seq => ⟨client, client.conn, seq, .ProxyClientDisconnectTask⟩).toList }

/-- the main thread in `OnDisconnect` -/
def mainStep (f : Front n) (r : Result) : Option (Front n) :=
  match f.main, r with
  | .OnDisconnect client _, .goto pc => some { f with main := .OnDisconnect client pc }
  | .OnDisconnect client _, .ret queued => some (f.left client queued)
  | .loop, _ => none

def popped (f : Front n) (i : Fin n) (m : Item) (l : List Item) : Front n :=
  { f.goto i (.find m) with mHandleMessageList := l }

def pop (f : Front n) (i : Fin n) : Option (Front n) :=
  match f.handler i, f.mHandleMessageList with
  | .popFront, m :: l => some (f.popped i m l)
  | _, _ => none

/-- what `HandleRecvMessage` does when it has not forwarded `m` -/
def drop (f : Front n) (i : Fin n) (m : Item) : Front n :=
  (f.setConn m.conn { f.conn m.conn with lost := true }).goto i .popFront

def find (f : Front n) (i : Fin n) : Option (Front n) :=
  match f.handler i with
  | .find m =>
    if f.main = .loop then
      match f.mClientMap m.fd with
      | some client => some (f.goto i (.send m client .check))
      | none => some (f.drop i m)
    else none
  | _ => none

def forwarded (f : Front n) (i : Fin n) (m : Item) (client : Client) (seq : CInt) : Front n :=
  { f.goto i .popFront with
    queued := f.queued ++ [⟨client, m.conn, seq, .ProxyClientTask m.chunk⟩] }

/-- a handler in `SendClient2VNC` -/
def send (f : Front n) (i : Fin n) (r : Result) : Option (Front n) :=
  match f.handler i, r with
  | .send m client _, .goto pc => some (f.goto i (.send m client pc))
  | .send m _ _, .ret none => some (f.drop i m)
  | .send m client _, .ret (some seq) => some (f.forwarded i m client seq)
  | _, _ => none

def closed (f : Front n) (fd : Nat) : Front n :=
  { f with
    mClientMap := Function.update f.mClientMap fd none
    holder := Function.update f.holder fd none }

/-- `OnClose(fd)` and `close(fd)` -/
def close (f : Front n) (fd : Nat) : Option (Front n) :=
  if f.main = .loop ∧ f.holder fd ≠ none then some (f.closed fd) else none

def step (f : Front n) : Move n → Option (Front n)
  | .accept fd => f.accept fd
  | .recv fd chunk => f.recv fd chunk
  | .disconnect fd => f.disconnect fd
  | .main r => f.mainStep r
  | .pop i => f.pop i
  | .find i => f.find i
  | .send i r => f.send i r
  | .close fd => f.close fd

/-! ## what a move does -/

theorem accept_eq {f f' : Front n} {fd : Nat} (h : f.accept fd = some f') :
    f.main = .loop ∧ f.holder fd = none ∧ f' = f.opened fd := by
  unfold accept at h
  split at h
  · rename_i hc
    exact ⟨hc.1, hc.2, (Option.some.inj h).symm⟩
  · exact absurd h (by simp)

theorem recv_eq {f f' : Front n} {fd : Nat} {chunk : Chunk} (h : f.recv fd chunk = some f') :
    ∃ c, f.holder fd = some c ∧ f.main = .loop ∧ (f.conn c).disconnected = false ∧
      (f' = f.refused c chunk ∨ f' = f.pushed fd c chunk) := by
  unfold recv at h
  split at h
  · rename_i c hc
    split at h
    · rename_i hm
      refine ⟨c, hc, hm.1, hm.2, ?_⟩
      split at h
      · exact Or.inl (Option.some.inj h).symm
      · exact Or.inr (Option.some.inj h).symm
    · exact absurd h (by simp)
  · exact absurd h (by simp)

theorem disconnect_eq {f f' : Front n} {fd : Nat} (h : f.disconnect fd = some f') :
    ∃ c client, f.holder fd = some c ∧ f.mClientMap fd = some client ∧ f.main = .loop ∧
      (f.conn c).disconnected = false ∧ f' = f.leaving c client := by
  unfold disconnect at h
  split at h
  · rename_i c client hc hclient
    split at h
    · rename_i hm
      exact ⟨c, client, hc, hclient, hm.1, hm.2, (Option.some.inj h).symm⟩
    · exact absurd h (by simp)
  · exact absurd h (by simp)

theorem mainStep_eq {f f' : Front n} {r : Result} (h : f.mainStep r = some f') :
    ∃ client pc, f.main = .OnDisconnect client pc ∧
      ((∃ pc', r = .goto pc' ∧ f' = { f with main := .OnDisconnect client pc' }) ∨
        ∃ queued, r = .ret queued ∧ f' = f.left client queued) := by
  unfold mainStep at h
  split at h
  · rename_i client pc pc' hm
    exact ⟨client, pc, hm, Or.inl ⟨pc', rfl, (Option.some.inj h).symm⟩⟩
  · rename_i client pc queued hm
    exact ⟨client, pc, hm, Or.inr ⟨queued, rfl, (Option.some.inj h).symm⟩⟩
  · exact absurd h (by simp)

theorem pop_eq {f f' : Front n} {i : Fin n} (h : f.pop i = some f') :
    ∃ m l, f.handler i = .popFront ∧ f.mHandleMessageList = m :: l ∧ f' = f.popped i m l := by
  unfold pop at h
  split at h
  · rename_i m l hi hl
    exact ⟨m, l, hi, hl, (Option.some.inj h).symm⟩
  · exact absurd h (by simp)

theorem find_eq {f f' : Front n} {i : Fin n} (h : f.find i = some f') :
    ∃ m, f.handler i = .find m ∧ f.main = .loop ∧
      ((∃ client, f.mClientMap m.fd = some client ∧ f' = f.goto i (.send m client .check)) ∨
        (f.mClientMap m.fd = none ∧ f' = f.drop i m)) := by
  unfold find at h
  split at h
  · rename_i m hi
    split at h
    · rename_i hm
      refine ⟨m, hi, hm, ?_⟩
      split at h
      · rename_i client hclient
        exact Or.inl ⟨client, hclient, (Option.some.inj h).symm⟩
      · rename_i hnone
        exact Or.inr ⟨hnone, (Option.some.inj h).symm⟩
    · exact absurd h (by simp)
  · exact absurd h (by simp)

theorem send_eq {f f' : Front n} {i : Fin n} {r : Result} (h : f.send i r = some f') :
    ∃ m client pc, f.handler i = .send m client pc ∧
      ((∃ pc', r = .goto pc' ∧ f' = f.goto i (.send m client pc')) ∨
        (r = .ret none ∧ f' = f.drop i m) ∨
        ∃ seq, r = .ret (some seq) ∧ f' = f.forwarded i m client seq) := by
  unfold send at h
  split at h
  · rename_i m client pc pc' hi
    exact ⟨m, client, pc, hi, Or.inl ⟨pc', rfl, (Option.some.inj h).symm⟩⟩
  · rename_i m client pc hi
    exact ⟨m, client, pc, hi, Or.inr (Or.inl ⟨rfl, (Option.some.inj h).symm⟩)⟩
  · rename_i m client pc seq hi
    exact ⟨m, client, pc, hi, Or.inr (Or.inr ⟨seq, rfl, (Option.some.inj h).symm⟩)⟩
  · exact absurd h (by simp)

theorem close_eq {f f' : Front n} {fd : Nat} (h : f.close fd = some f') :
    f.main = .loop ∧ f.holder fd ≠ none ∧ f' = f.closed fd := by
  unfold close at h
  split at h
  · rename_i hc
    exact ⟨hc.1, hc.2, (Option.some.inj h).symm⟩
  · exact absurd h (by simp)

theorem step_left {f : Front n} {client : Client} {pc : SendPc}
    (hm : f.main = .OnDisconnect client pc) (queued : Option CInt) :
    f.step (.main (.ret queued)) = some (f.left client queued) := by
  show f.mainStep _ = _
  unfold mainStep
  rw [hm]

theorem step_forwarded {f : Front n} {i : Fin n} {m : Item} {client : Client} {pc : SendPc}
    (hi : f.handler i = .send m client pc) (seq : CInt) :
    f.step (.send i (.ret (some seq))) = some (f.forwarded i m client seq) := by
  show f.send i _ = _
  unfold send
  rw [hi]

theorem holder_step {f f' : Front n} {mv : Move n} (h : f.step mv = some f') {fd c : Nat}
    (hclose : mv ≠ .close fd) (hc : f.holder fd = some c) : f'.holder fd = some c := by
  cases mv with
  | accept fd' =>
    obtain ⟨_, hn, rfl⟩ := accept_eq h
    show Function.update f.holder fd' (some f.count) fd = some c
    rw [Function.update_of_ne, hc]
    rintro rfl
    rw [hn] at hc
    exact absurd hc (by simp)
  | recv fd' chunk =>
    obtain ⟨_, _, _, _, rfl | rfl⟩ := recv_eq h <;> exact hc
  | disconnect fd' =>
    obtain ⟨_, _, _, _, _, _, rfl⟩ := disconnect_eq h
    exact hc
  | main r =>
    obtain ⟨_, _, _, ⟨_, _, rfl⟩ | ⟨_, _, rfl⟩⟩ := mainStep_eq h <;> exact hc
  | pop i =>
    obtain ⟨_, _, _, _, rfl⟩ := pop_eq h
    exact hc
  | find i =>
    obtain ⟨_, _, _, ⟨_, _, rfl⟩ | ⟨_, rfl⟩⟩ := find_eq h <;> exact hc
  | send i r =>
    obtain ⟨_, _, _, _, ⟨_, _, rfl⟩ | ⟨_, rfl⟩ | ⟨_, _, rfl⟩⟩ := send_eq h <;> exact hc
  | close fd' =>
    obtain ⟨_, _, rfl⟩ := close_eq h
    show Function.update f.holder fd' none fd = some c
    rw [Function.update_of_ne, hc]
    rintro rfl
    exact hclose rfl

/-! ## Messages on their way -/

/-- the Messages received and not yet forwarded -/
def pending (f : Front n) : List Item :=
  f.mHandleMessageList ++ (List.finRange n).filterMap fun i => (f.handler i).item

theorem mem_pending {f : Front n} {m : Item} :
    m ∈ f.pending ↔ m ∈ f.mHandleMessageList ∨ ∃ i, (f.handler i).item = some m := by
  unfold pending
  rw [List.mem_append, List.mem_filterMap]
  constructor
  · rintro (h | ⟨i, _, h⟩)
    · exact Or.inl h
    · exact Or.inr ⟨i, h⟩
  · rintro (h | ⟨i, h⟩)
    · exact Or.inl h
    · exact Or.inr ⟨i, List.mem_finRange i, h⟩

/-- nothing of a connection is on its way -/
def Drained (f : Front n) (c : Nat) : Prop := ∀ m ∈ f.pending, m.conn ≠ c

instance (f : Front n) (c : Nat) : Decidable (f.Drained c) :=
  inferInstanceAs (Decidable (∀ m ∈ f.pending, m.conn ≠ c))

/-- what `TcpServer` has to wait for before it closes `fd` -/
def Free (f : Front n) (fd : Nat) : Prop :=
  ∀ c ∈ f.holder fd, (f.conn c).returned = true ∧ f.Drained c

instance (f : Front n) (fd : Nat) : Decidable (f.Free fd) :=
  inferInstanceAs (Decidable (∀ c ∈ f.holder fd, (f.conn c).returned = true ∧ f.Drained c))

theorem mem_pending_goto {f : Front n} {i : Fin n} {pc : HandlerPc}
    (hpc : pc.item = none ∨ pc.item = (f.handler i).item) {m : Item}
    (h : m ∈ (f.goto i pc).pending) : m ∈ f.pending := by
  rw [mem_pending] at h ⊢
  rcases h with h | ⟨j, hj⟩
  · exact Or.inl h
  · by_cases hji : j = i
    · subst hji
      rw [goto_self] at hj
      rcases hpc with hn | he
      · rw [hn] at hj
        exact absurd hj (by simp)
      · exact Or.inr ⟨j, he ▸ hj⟩
    · rw [goto_other _ _ hji] at hj
      exact Or.inr ⟨j, hj⟩

/-- **Only `recv` brings a Message in.** -/
theorem mem_pending_step {f f' : Front n} {mv : Move n} (h : f.step mv = some f') {m : Item}
    (hm : m ∈ f'.pending) :
    m ∈ f.pending ∨ ∃ fd c chunk, f.holder fd = some c ∧ (f.conn c).disconnected = false ∧
      m = ⟨fd, c, (f.conn c).received.length, chunk⟩ ∧ f' = f.pushed fd c chunk := by
  cases mv with
  | accept fd =>
    obtain ⟨_, _, rfl⟩ := accept_eq h
    exact Or.inl hm
  | recv fd chunk =>
    obtain ⟨c, hc, _, hd, rfl | rfl⟩ := recv_eq h
    · exact Or.inl hm
    · rw [mem_pending] at hm
      rcases hm with hm | hm
      · rcases List.mem_append.mp hm with hm | hm
        · exact Or.inl (mem_pending.mpr (Or.inl hm))
        · obtain rfl := List.mem_singleton.mp hm
          exact Or.inr ⟨fd, c, chunk, hc, hd, rfl, rfl⟩
      · exact Or.inl (mem_pending.mpr (Or.inr hm))
  | disconnect fd =>
    obtain ⟨_, _, _, _, _, _, rfl⟩ := disconnect_eq h
    exact Or.inl hm
  | main r =>
    obtain ⟨_, _, _, ⟨_, _, rfl⟩ | ⟨_, _, rfl⟩⟩ := mainStep_eq h
    · exact Or.inl hm
    · exact Or.inl hm
  | pop i =>
    obtain ⟨x, l, hi, hl, rfl⟩ := pop_eq h
    left
    rw [mem_pending] at hm ⊢
    rw [hl]
    rcases hm with hm | ⟨j, hj⟩
    · exact Or.inl (List.mem_cons_of_mem _ hm)
    · by_cases hji : j = i
      · subst hji
        rw [show (f.popped j x l).handler j = .find x from f.goto_self j _] at hj
        obtain rfl := Option.some.inj hj
        exact Or.inl List.mem_cons_self
      · rw [show (f.popped i x l).handler j = f.handler j from f.goto_other _ hji] at hj
        exact Or.inr ⟨j, hj⟩
  | find i =>
    obtain ⟨x, hi, _, ⟨_, _, rfl⟩ | ⟨_, rfl⟩⟩ := find_eq h
    · exact Or.inl (mem_pending_goto (Or.inr (by rw [hi]; rfl)) hm)
    · exact Or.inl (mem_pending_goto (f := f.setConn _ _) (Or.inl rfl) hm)
  | send i r =>
    obtain ⟨x, client, pc, hi, ⟨_, _, rfl⟩ | ⟨_, rfl⟩ | ⟨_, _, rfl⟩⟩ := send_eq h
    · exact Or.inl (mem_pending_goto (Or.inr (by rw [hi]; rfl)) hm)
    · exact Or.inl (mem_pending_goto (f := f.setConn _ _) (Or.inl rfl) hm)
    · exact Or.inl (mem_pending_goto (f := f) (Or.inl rfl) hm)
  | close fd =>
    obtain ⟨_, _, rfl⟩ := close_eq h
    exact Or.inl hm

/-! ## whose the clients and the Messages are -/

/-- a descriptor is only closed when it is `Free` -/
def Move.Orderly (f : Front n) : Move n → Prop
  | .close fd => f.Free fd
  | _ => True

structure Inv (f : Front n) : Prop where
  client : ∀ fd, f.mClientMap fd = (f.holder fd).map (Client.mk fd)
  holder : ∀ fd c, f.holder fd = some c → (f.conn c).fd = fd ∧ c < f.count
  pending : ∀ m ∈ f.pending, f.holder m.fd = some m.conn
  handler : ∀ i m client pc, f.handler i = .send m client pc → client = ⟨m.fd, m.conn⟩
  main : ∀ client pc, f.main = .OnDisconnect client pc →
    f.holder client.fd = some client.conn ∧ (f.conn client.conn).disconnected = true ∧
      (f.conn client.conn).returned = false
  returned : ∀ c, (f.conn c).returned = true → (f.conn c).disconnected = true
  queued : ∀ x ∈ f.queued, x.client.conn < f.count ∧ x.src = x.client.conn

theorem Inv.init (n mHandleSize : Nat) : (Front.init n mHandleSize).Inv where
  client _ := rfl
  holder _ _ h := absurd h (by simp [Front.init])
  pending m hm := by
    rw [mem_pending] at hm
    rcases hm with hm | ⟨i, hi⟩
    · exact absurd hm (by simp [Front.init])
    · exact absurd hi (by simp [Front.init, HandlerPc.item])
  handler _ _ _ _ h := absurd h (by simp [Front.init])
  main _ _ h := absurd h (by simp [Front.init])
  returned _ h := absurd h (by simp [Front.init])
  queued _ h := absurd h (by simp [Front.init])

theorem Inv.item {f : Front n} (hf : f.Inv) {i : Fin n} {m : Item}
    (h : (f.handler i).item = some m) : f.holder m.fd = some m.conn :=
  hf.pending m (mem_pending.mpr (Or.inr ⟨i, h⟩))

theorem Inv.send {f : Front n} (hf : f.Inv) {i : Fin n} {m : Item} {client : Client} {pc : SendPc}
    (h : f.handler i = .send m client pc) :
    client = ⟨m.fd, m.conn⟩ ∧ f.holder m.fd = some m.conn :=
  ⟨hf.handler i m client pc h, hf.item (by rw [h]; rfl)⟩

/-- where a Message is not on its way yet, its connection has the descriptor -/
theorem Inv.pending_step {f f' : Front n} (hf : f.Inv) {mv : Move n} (h : f.step mv = some f') :
    ∀ m ∈ f'.pending, f.holder m.fd = some m.conn := by
  intro m hm
  rcases mem_pending_step h hm with hm | ⟨fd, c, chunk, hc, _, rfl, _⟩
  · exact hf.pending m hm
  · exact hc

/-- the map of the clients and the descriptors change at the same place -/
theorem Inv.client_update {f : Front n} (hf : f.Inv) (fd : Nat) (o : Option Nat) (e : Nat) :
    Function.update f.mClientMap fd (o.map (Client.mk fd)) e =
      (Function.update f.holder fd o e).map (Client.mk e) := by
  rw [show f.mClientMap = fun e => (f.holder e).map (Client.mk e) from funext hf.client]
  exact (Function.apply_update (fun e (o : Option Nat) => o.map (Client.mk e)) f.holder fd o e).symm

theorem Inv.opened {f : Front n} (hf : f.Inv) {fd : Nat} (hm : f.main = .loop)
    (hn : f.holder fd = none) : (f.opened fd).Inv := by
  have hne : ∀ e c, f.holder e = some c → e ≠ fd := by
    rintro e c h rfl
    rw [hn] at h
    exact absurd h (by simp)
  have hnone : f.mClientMap fd = none := by rw [hf.client fd, hn]; rfl
  have hkeep : ∀ e c, f.holder e = some c → (f.opened fd).holder e = some c := fun e c h => by
    show Function.update f.holder fd (some f.count) e = _
    rw [Function.update_of_ne (hne e c h), h]
  refine ⟨fun e => ?_, fun e c h => ?_, fun m h => hkeep _ _ (hf.pending m h), hf.handler,
    fun client pc h => ?_, fun c h => ?_, fun x hx => ?_⟩
  · show (if f.mClientMap fd = none then Function.update f.mClientMap fd _ else f.mClientMap) e
      = (Function.update f.holder fd (some f.count) e).map _
    rw [if_pos hnone]
    exact hf.client_update fd (some f.count) e
  · by_cases he : e = fd
    · subst he
      obtain rfl : f.count = c := by
        have h' : Function.update f.holder e (some f.count) e = some c := h
        rw [Function.update_self] at h'
        exact Option.some.inj h'
      exact ⟨by rw [show (f.opened e).conn f.count = _ from f.setConn_self ..],
        Nat.lt_succ_self _⟩
    · have h' : Function.update f.holder fd (some f.count) e = some c := h
      rw [Function.update_of_ne he] at h'
      obtain ⟨h1, h2⟩ := hf.holder e c h'
      exact ⟨by rw [show (f.opened fd).conn c = f.conn c from
        f.setConn_other _ (Nat.ne_of_lt h2), h1], Nat.lt_succ_of_lt h2⟩
  · rw [show (f.opened fd).main = f.main from rfl, hm] at h
    exact absurd h (by simp)
  · by_cases hc : c = f.count
    · subst hc
      rw [show (f.opened fd).conn f.count = _ from f.setConn_self ..] at h
      exact absurd h (by simp)
    · rw [show (f.opened fd).conn c = f.conn c from f.setConn_other _ hc] at h ⊢
      exact hf.returned c h
  · exact ⟨Nat.lt_succ_of_lt (hf.queued x hx).1, (hf.queued x hx).2⟩

/-- the invariant when only what happened to a connection changes, and who holds what does not -/
theorem Inv.setConn {f : Front n} (hf : f.Inv) {c : Nat} {x : Conn} (hfd : x.fd = (f.conn c).fd)
    (hd : (f.conn c).disconnected = true → x.disconnected = true)
    (hr : x.returned = (f.conn c).returned) : (f.setConn c x).Inv := by
  have hconn : ∀ d, ((f.setConn c x).conn d).fd = (f.conn d).fd ∧
      ((f.conn d).disconnected = true → ((f.setConn c x).conn d).disconnected = true) ∧
      ((f.setConn c x).conn d).returned = (f.conn d).returned := by
    intro d
    by_cases hdc : d = c
    · subst hdc
      rw [setConn_self]
      exact ⟨hfd, hd, hr⟩
    · rw [setConn_other _ _ hdc]
      exact ⟨rfl, id, rfl⟩
  refine ⟨hf.client, fun e d h => ?_, hf.pending, hf.handler, fun client pc h => ?_,
    fun d h => ?_, hf.queued⟩
  · rw [(hconn d).1]
    exact hf.holder e d h
  · obtain ⟨h1, h2, h3⟩ := hf.main client pc h
    exact ⟨h1, (hconn _).2.1 h2, by rw [(hconn _).2.2, h3]⟩
  · rw [(hconn d).2.2] at h
    exact (hconn d).2.1 (hf.returned d h)

theorem Inv.goto {f : Front n} (hf : f.Inv) (i : Fin n) (pc : HandlerPc)
    (hpc : pc.item = none ∨ pc.item = (f.handler i).item)
    (hclient : ∀ m client pc', pc = .send m client pc' → client = ⟨m.fd, m.conn⟩) :
    (f.goto i pc).Inv := by
  refine ⟨hf.client, hf.holder, fun m hm => hf.pending m (mem_pending_goto hpc hm),
    fun j m client pc' h => ?_, hf.main, hf.returned, hf.queued⟩
  by_cases hji : j = i
  · subst hji
    rw [goto_self] at h
    exact hclient m client pc' h
  · rw [goto_other _ _ hji] at h
    exact hf.handler j m client pc' h

theorem Inv.drop {f : Front n} (hf : f.Inv) (i : Fin n) (m : Item) : (f.drop i m).Inv :=
  (hf.setConn (c := m.conn) (x := { f.conn m.conn with lost := true }) rfl id rfl).goto
    i .popFront (Or.inl rfl) fun _ _ _ h => absurd h (by simp)

/-- **Where `TcpServer` closes no connection with a Message on its way, a client and every Message
belong to the connection that has the descriptor.** -/
theorem Inv.step {f f' : Front n} {mv : Move n} (hf : f.Inv) (hok : mv.Orderly f)
    (h : f.step mv = some f') : f'.Inv := by
  cases mv with
  | accept fd =>
    obtain ⟨hm, hn, rfl⟩ := accept_eq h
    exact hf.opened hm hn
  | recv fd chunk =>
    have hpending := hf.pending_step h
    obtain ⟨c, hc, _, _, rfl | rfl⟩ := recv_eq h
    · exact hf.setConn rfl id rfl
    · have hs := hf.setConn (c := c)
        (x := { f.conn c with received := (f.conn c).received ++ [chunk] }) rfl id rfl
      exact ⟨hs.client, hs.holder, hpending, hs.handler, hs.main, hs.returned, hs.queued⟩
  | disconnect fd =>
    obtain ⟨c, client, hc, hclient, _, hd, rfl⟩ := disconnect_eq h
    have hs := hf.setConn (c := c) (x := { f.conn c with disconnected := true }) rfl
      (fun _ => rfl) rfl
    refine ⟨hs.client, hs.holder, hs.pending, hs.handler, fun client' pc h => ?_, hs.returned,
      hs.queued⟩
    obtain rfl : client = client' := by
      have h' : MainPc.OnDisconnect client .check = .OnDisconnect client' pc := h
      injection h'
    obtain rfl : (⟨fd, c⟩ : Client) = client := by
      rw [hf.client fd, hc] at hclient
      exact Option.some.inj hclient
    rw [show (f.leaving c ⟨fd, c⟩).conn c = _ from f.setConn_self ..]
    refine ⟨hc, rfl, ?_⟩
    show (f.conn c).returned = false
    by_contra hr
    rw [Bool.not_eq_false] at hr
    rw [hf.returned c hr] at hd
    exact absurd hd (by simp)
  | main r =>
    obtain ⟨client, pc, hm, ⟨pc', _, rfl⟩ | ⟨queued, _, rfl⟩⟩ := mainStep_eq h
    · refine ⟨hf.client, hf.holder, hf.pending, hf.handler, fun client' pc'' h => ?_, hf.returned,
        hf.queued⟩
      obtain rfl : client = client' := by
        have h' : MainPc.OnDisconnect client pc' = .OnDisconnect client' pc'' := h
        injection h'
      exact hf.main client pc hm
    · obtain ⟨h1, h2, _⟩ := hf.main client pc hm
      refine ⟨hf.client, fun e d h => ?_, hf.pending, hf.handler, fun _ _ h => ?_, fun d h => ?_,
        fun x hx => ?_⟩
      · obtain ⟨h3, h4⟩ := hf.holder e d h
        refine ⟨?_, h4⟩
        by_cases hd : d = client.conn
        · subst hd
          rw [show (f.left client queued).conn client.conn = _ from f.setConn_self ..]
          exact h3
        · rw [show (f.left client queued).conn d = _ from f.setConn_other _ hd]
          exact h3
      · exact absurd (show MainPc.loop = _ from h) (by simp)
      · by_cases hd : d = client.conn
        · subst hd
          rw [show (f.left client queued).conn client.conn = _ from f.setConn_self ..]
          exact h2
        · rw [show (f.left client queued).conn d = _ from f.setConn_other _ hd] at h ⊢
          exact hf.returned d h
      · rcases List.mem_append.mp hx with hx | hx
        · exact hf.queued x hx
        · obtain ⟨seq, _, rfl⟩ := Option.map_eq_some_iff.mp (Option.mem_toList.mp hx)
          exact ⟨(hf.holder _ _ h1).2, rfl⟩
  | pop i =>
    have hpending := hf.pending_step h
    obtain ⟨x, l, hi, hl, rfl⟩ := pop_eq h
    refine ⟨hf.client, hf.holder, hpending, fun j m client pc h => ?_, hf.main, hf.returned,
      hf.queued⟩
    by_cases hji : j = i
    · subst hji
      rw [show (f.popped j x l).handler j = .find x from f.goto_self j _] at h
      exact absurd h (by simp)
    · rw [show (f.popped i x l).handler j = f.handler j from f.goto_other _ hji] at h
      exact hf.handler j m client pc h
  | find i =>
    obtain ⟨m, hi, _, ⟨client, hclient, rfl⟩ | ⟨_, rfl⟩⟩ := find_eq h
    · apply hf.goto _ _ (Or.inr (by rw [hi]; rfl))
      intro m' client' pc' h
      obtain ⟨rfl, rfl, _⟩ := HandlerPc.send.inj h
      rw [hf.client, hf.item (m := m) (by rw [hi]; rfl)] at hclient
      exact (Option.some.inj hclient).symm
    · exact hf.drop i m
  | send i r =>
    obtain ⟨m, client, pc, hi, ⟨pc', _, rfl⟩ | ⟨_, rfl⟩ | ⟨seq, _, rfl⟩⟩ := send_eq h
    · apply hf.goto _ _ (Or.inr (by rw [hi]; rfl))
      intro m' client' pc' h
      obtain ⟨rfl, rfl, _⟩ := HandlerPc.send.inj h
      exact (hf.send hi).1
    · exact hf.drop i m
    · have hs := hf.goto i .popFront (Or.inl rfl) fun _ _ _ h => absurd h (by simp)
      refine ⟨hs.client, hs.holder, hs.pending, hs.handler, hs.main, hs.returned, fun x hx => ?_⟩
      rcases List.mem_append.mp hx with hx | hx
      · exact hf.queued x hx
      · obtain rfl := List.mem_singleton.mp hx
        obtain ⟨rfl, h2⟩ := hf.send hi
        exact ⟨(hf.holder _ _ h2).2, rfl⟩
  | close fd =>
    obtain ⟨hm, _, rfl⟩ := close_eq h
    have hkeep : ∀ e c, f.holder e = some c → e ≠ fd → (f.closed fd).holder e = some c :=
      fun e c h he => by
        show Function.update f.holder fd none e = _
        rw [Function.update_of_ne he, h]
    refine ⟨fun e => ?_, fun e c h => ?_, fun m hmem => ?_, hf.handler, fun _ _ h => ?_,
      hf.returned, hf.queued⟩
    · show Function.update f.mClientMap fd none e = (Function.update f.holder fd none e).map _
      exact hf.client_update fd none e
    · by_cases he : e = fd
      · subst he
        rw [show (f.closed e).holder e = none from Function.update_self ..] at h
        exact absurd h (by simp)
      · rw [show (f.closed fd).holder e = f.holder e from Function.update_of_ne he ..] at h
        exact hf.holder e c h
    · have hc := hf.pending m hmem
      apply hkeep _ _ hc
      rintro rfl
      exact (hok m.conn hc).2 m hmem rfl
    · rw [show (f.closed fd).main = f.main from rfl, hm] at h
      exact absurd h (by simp)

/-! ## nothing after `OnDisconnect` -/

/-- when `OnDisconnect` returns, nothing of its connection is on its way -/
def Move.Last (f : Front n) : Move n → Prop
  | .main (.ret _) => ∀ client pc, f.main = .OnDisconnect client pc → f.Drained client.conn
  | _ => True

def Done (f : Front n) : Prop := ∀ c, (f.conn c).returned = true → f.Drained c

theorem returned_setConn {f g : Front n} {d : Nat} {x : Conn}
    (hg : g.conn = Function.update f.conn d x) (hx : x.returned = (f.conn d).returned) (c : Nat) :
    (g.conn c).returned = (f.conn c).returned := by
  rw [hg]
  by_cases hc : c = d
  · subst hc
    rw [Function.update_self, hx]
  · rw [Function.update_of_ne hc]

theorem returned_opened (f : Front n) (fd c : Nat)
    (hr : ((f.opened fd).conn c).returned = true) : (f.conn c).returned = true := by
  by_cases hc : c = f.count
  · subst hc
    rw [show (f.opened fd).conn f.count = _ from f.setConn_self ..] at hr
    exact absurd hr (by simp)
  · rwa [show (f.opened fd).conn c = f.conn c from f.setConn_other _ hc] at hr

theorem returned_step {f f' : Front n} {mv : Move n} (h : f.step mv = some f') {c : Nat}
    (hr : (f'.conn c).returned = true) :
    (f.conn c).returned = true ∨ ∃ queued client pc, mv = .main (.ret queued) ∧
      f.main = .OnDisconnect client pc ∧ c = client.conn := by
  cases mv with
  | accept fd =>
    obtain ⟨_, _, rfl⟩ := accept_eq h
    exact Or.inl (f.returned_opened fd c hr)
  | recv fd chunk =>
    obtain ⟨d, _, _, _, rfl | rfl⟩ := recv_eq h
    · exact Or.inl ((returned_setConn (by rfl) (by rfl) c).symm.trans hr)
    · exact Or.inl ((returned_setConn (by rfl) (by rfl) c).symm.trans hr)
  | disconnect fd =>
    obtain ⟨d, client, _, _, _, _, rfl⟩ := disconnect_eq h
    exact Or.inl ((returned_setConn (by rfl) (by rfl) c).symm.trans hr)
  | main r =>
    obtain ⟨client, pc, hm, ⟨_, _, rfl⟩ | ⟨queued, rfl, rfl⟩⟩ := mainStep_eq h
    · exact Or.inl hr
    · by_cases hd : c = client.conn
      · exact Or.inr ⟨queued, client, pc, rfl, hm, hd⟩
      · rw [show (f.left client queued).conn c = _ from f.setConn_other _ hd] at hr
        exact Or.inl hr
  | pop i =>
    obtain ⟨_, _, _, _, rfl⟩ := pop_eq h
    exact Or.inl hr
  | find i =>
    obtain ⟨m, _, _, ⟨_, _, rfl⟩ | ⟨_, rfl⟩⟩ := find_eq h
    · exact Or.inl hr
    · exact Or.inl ((returned_setConn (by rfl) (by rfl) c).symm.trans hr)
  | send i r =>
    obtain ⟨m, _, _, _, ⟨_, _, rfl⟩ | ⟨_, rfl⟩ | ⟨_, _, rfl⟩⟩ := send_eq h
    · exact Or.inl hr
    · exact Or.inl ((returned_setConn (by rfl) (by rfl) c).symm.trans hr)
    · exact Or.inl hr
  | close fd =>
    obtain ⟨_, _, rfl⟩ := close_eq h
    exact Or.inl hr

theorem Done.init (n mHandleSize : Nat) : (Front.init n mHandleSize).Done :=
  fun _ h => absurd h (by simp [Front.init])

/-- **Nothing of a connection is on its way behind its `OnDisconnect`, if nothing is when that
returns.** -/
theorem Done.step {f f' : Front n} {mv : Move n} (hf : f.Inv) (hdone : f.Done) (hlast : mv.Last f)
    (h : f.step mv = some f') : f'.Done := by
  intro c hr m hm hmc
  subst hmc
  rcases returned_step h hr with hr | ⟨queued, client, pc, rfl, hmain, hc⟩
  · rcases mem_pending_step h hm with hm | ⟨_, _, _, _, hd, rfl, _⟩
    · exact hdone _ hr m hm rfl
    · rw [hf.returned _ hr] at hd
      exact absurd hd (by simp)
  · rcases mem_pending_step h hm with hm | ⟨_, d, _, _, hd, rfl, _⟩
    · exact hlast client pc hmain m hm hc
    · rw [show d = client.conn from hc, (hf.main client pc hmain).2.1] at hd
      exact absurd hd (by simp)

end Front

end VncProxy.Proxy
