import Mathlib.Logic.Function.Basic
import VncProxy.Lib.Run
import VncProxy.Wire.SendCommand

/-!
# Threads that send on one `TcpProxyClient`

`n` threads (HttpRequests and the receive thread) call `SendProxyBuffer` and `SendProxyDisconnect`
on one connection.  The atomic steps are the `mSendMutex` section, the check of `IsConnected`, the
single `send()` calls of `KTcpSocket::SendData` and `Close`.

* `Sender.step`       one step; `send t k` is a `send()` that accepts `k` bytes, `fail t` one that
                      returns -1;
* `Sender.Alone`      the condition on a step: a thread writes only while no other one is in the
                      middle of a frame;
* `Sender.Whole`      the stream is a row of whole frames, with a part of one more at its end while
                      that one is being sent or after the connection failed in it;
* `whole_of_alone`    a run of steps that are `Alone` keeps the stream whole;
* `not_whole_frames`  two calls of `SendProxyDisconnect` that mix their frames.

The connection is blocking (`Connect(…, true)`), and `send()` fails only when the connection has.
-/

namespace VncProxy

inductive Pc where
  | idle
  /-- before a round of `SendProxyBuffer`, `rest` is `buffer + sent` -/
  | loop (seq fd : CInt) (rest : List Byte)
  /-- in `SendProxyDisconnect`, before `mSendMutex.lock()` -/
  | disconnect (fd : CInt)
  /-- before `SendCommand(cmd)`, `rest` is what is left of the buffer after it -/
  | command (cmd : CMD) (rest : List Byte)
  /-- in the loop of `SendData`; the last part was written on the connection `conn` -/
  | sending (id : Nat) (cmd : CMD) (iSendedLen conn : Nat) (rest : List Byte)
  /-- in `SendData`, before `Close()` -/
  | closing
deriving DecidableEq

/-- `calls`, `done`, `conn` are ghosts: the `SendCommand` calls made so far, those whose last byte
was written on the connection, and the number of the connection -/
structure Sender (n : Nat) where
  thread : Fin n → Pc
  mSendSeq : CInt
  mbConnected : Bool
  failed : Bool
  wire : List Byte
  conn : Nat
  calls : List CMD
  done : List (Nat × CMD)

def Sender.init (n : Nat) : Sender n := ⟨fun _ => .idle, 0, true, false, [], 0, [], []⟩

inductive Sender.Move (n : Nat) where
  | callBuffer (t : Fin n) (seq fd : CInt) (buffer : List Byte)
  | callDisconnect (t : Fin n) (fd : CInt)
  | round (t : Fin n)
  | takeSeq (t : Fin n)
  | enter (t : Fin n)
  | send (t : Fin n) (k : Nat)
  | fail (t : Fin n)
  | close (t : Fin n)
  /-- the receive thread closes the connection after a failed `RecvCommand` -/
  | lost
  /-- `Connect` of the receive thread -/
  | connect
  /-- `mSendSeq = 0` in `ConnectServer` -/
  | resetSeq
deriving DecidableEq

variable {n : Nat}

def Sender.goto (s : Sender n) (t : Fin n) (pc : Pc) : Sender n :=
  { s with thread := Function.update s.thread t pc }

theorem Sender.goto_self (s : Sender n) (t : Fin n) (pc : Pc) : (s.goto t pc).thread t = pc :=
  Function.update_self (β := fun _ => Pc) t pc s.thread

theorem Sender.goto_other (s : Sender n) {t u : Fin n} (pc : Pc) (h : u ≠ t) :
    (s.goto t pc).thread u = s.thread u :=
  Function.update_of_ne (β := fun _ => Pc) h pc s.thread

theorem Sender.goto_cases {s : Sender n} {t u : Fin n} {pc p : Pc} (hu : (s.goto t pc).thread u = p) :
    (u = t ∧ pc = p) ∨ (u ≠ t ∧ s.thread u = p) := by
  by_cases hut : u = t
  · subst hut
    exact .inl ⟨rfl, (s.goto_self u pc).symm.trans hu⟩
  · exact .inr ⟨hut, (s.goto_other pc hut).symm.trans hu⟩

/-- where a thread goes on when its `SendCommand` has returned true -/
def Pc.after (cmd : CMD) (rest : List Byte) : Pc :=
  match cmd.header.cmdt with
  | .CommandTypeProxy => .loop cmd.header.seq cmd.header.fd rest
  | _ => .idle

def Sender.callBuffer (s : Sender n) (t : Fin n) (seq fd : CInt) (buffer : List Byte) :
    Option (Sender n) :=
  if s.thread t = .idle then some (s.goto t (.loop seq fd buffer)) else none

def Sender.callDisconnect (s : Sender n) (t : Fin n) (fd : CInt) : Option (Sender n) :=
  if s.thread t = .idle then some (s.goto t (.disconnect fd)) else none

def Sender.round (s : Sender n) (t : Fin n) : Option (Sender n) :=
  match s.thread t with
  | .loop seq fd rest =>
    let l : SendLoop := ⟨rest, []⟩
    some (s.goto t (if l.cond then .command (l.cmd seq fd) (l.body seq fd).rest else .idle))
  | _ => none

def Sender.takeSeq (s : Sender n) (t : Fin n) : Option (Sender n) :=
  match s.thread t with
  | .disconnect fd =>
    some { s.goto t (.command (SendProxyDisconnect s.mSendSeq fd) []) with
      mSendSeq := s.mSendSeq + 1 }
  | _ => none

def Sender.enter (s : Sender n) (t : Fin n) : Option (Sender n) :=
  match s.thread t with
  | .command cmd rest =>
    let pc := if s.mbConnected then .sending s.calls.length cmd 0 s.conn rest else .closing
    some { s.goto t pc with calls := s.calls ++ [cmd] }
  | _ => none

/-- one `send()` that accepts `k` bytes -/
def Sender.send (s : Sender n) (t : Fin n) (k : Nat) : Option (Sender n) :=
  match s.thread t with
  | .sending id cmd iSendedLen _ rest =>
    if s.mbConnected ∧ ¬ s.failed ∧ 1 ≤ k ∧ k ≤ cmd.frame.length - iSendedLen then
      let s' := { s with wire := s.wire ++ (cmd.frame.drop iSendedLen).take k }
      if iSendedLen + k = cmd.frame.length then
        some { s'.goto t (Pc.after cmd rest) with done := s.done ++ [(id, cmd)] }
      else some (s'.goto t (.sending id cmd (iSendedLen + k) s.conn rest))
    else none
  | _ => none

def Sender.fail (s : Sender n) (t : Fin n) : Option (Sender n) :=
  match s.thread t with
  | .sending .. => some { s.goto t .closing with failed := true }
  | _ => none

def Sender.close (s : Sender n) (t : Fin n) : Option (Sender n) :=
  if s.thread t = .closing then some { s.goto t .idle with mbConnected := false } else none

def Sender.connect (s : Sender n) : Option (Sender n) :=
  if s.mbConnected then none
  else some { s with
    mbConnected := true
    failed := false
    wire := []
    conn := s.conn + 1
    done := [] }

def Sender.step (s : Sender n) : Sender.Move n → Option (Sender n)
  | .callBuffer t seq fd buffer => s.callBuffer t seq fd buffer
  | .callDisconnect t fd => s.callDisconnect t fd
  | .round t => s.round t
  | .takeSeq t => s.takeSeq t
  | .enter t => s.enter t
  | .send t k => s.send t k
  | .fail t => s.fail t
  | .close t => s.close t
  | .lost => some { s with mbConnected := false }
  | .connect => s.connect
  | .resetSeq => some { s with mSendSeq := 0 }

/-- the thread has written a part of a frame, and not all of it, on the connection -/
def Sender.Partly (s : Sender n) (t : Fin n) : Prop :=
  ∃ id cmd k rest, s.thread t = .sending id cmd k s.conn rest ∧ 0 < k

/-- the same, read off the place of the thread -/
def Pc.partOn (conn : Nat) : Pc → Bool
  | .sending _ _ k c _ => decide (0 < k) && c == conn
  | _ => false

theorem Sender.partly_iff (s : Sender n) (t : Fin n) :
    s.Partly t ↔ (s.thread t).partOn s.conn = true := by
  unfold Sender.Partly
  cases s.thread t <;> simp [Pc.partOn, and_comm]

instance (s : Sender n) (t : Fin n) : Decidable (s.Partly t) :=
  decidable_of_iff _ (s.partly_iff t).symm

/-- what the thread has sent of its frame was written on the connection `conn` -/
def Pc.OnlyOn (conn : Nat) : Pc → Prop
  | .sending _ _ k c _ => 0 < k → c = conn
  | _ => True

instance (conn : Nat) : ∀ pc : Pc, Decidable (pc.OnlyOn conn)
  | .sending _ _ k c _ => inferInstanceAs (Decidable (0 < k → c = conn))
  | .idle | .loop .. | .disconnect _ | .command .. | .closing => .isTrue trivial

/-- the condition on a step: when `send()` writes for the thread `t`, no other thread is in the
middle of a frame, and what `t` has sent of its own was written on this connection -/
def Sender.Alone (s : Sender n) : Sender.Move n → Prop
  | .send t _ => (∀ u, u ≠ t → ¬ s.Partly u) ∧ (s.thread t).OnlyOn s.conn
  | _ => True

instance (s : Sender n) : ∀ m, Decidable (s.Alone m)
  | .send t _ => inferInstanceAs (Decidable ((∀ u, u ≠ t → ¬ s.Partly u) ∧ _))
  | .callBuffer .. | .callDisconnect .. | .round _ | .takeSeq _ | .enter _ | .fail _ | .close _
  | .lost | .connect | .resetSeq => .isTrue trivial

/-- **the stream of the connection is a row of whole frames**, each of its own `SendCommand` call;
behind them there may be a part of one more frame, while a thread is sending it or after the
connection has failed in it -/
def Sender.Whole (s : Sender n) : Prop :=
  ∃ (done : List (Nat × CMD)) (part : List Byte),
    (done.map Prod.fst).Nodup ∧
    (∀ e ∈ done, s.calls[e.1]? = some e.2 ∧
      (e.2.frame.length : Int) = sizeofCMDH + e.2.header.len.toInt) ∧
    s.wire = done.flatMap (fun e => e.2.frame) ++ part ∧
    (part = [] ∨ ∃ i cmd x, i ∉ done.map Prod.fst ∧ s.calls[i]? = some cmd ∧ x ≠ [] ∧
      part ++ x = cmd.frame) ∧
    (s.mbConnected → ¬ s.failed → (∀ t, ¬ s.Partly t) → part = [])

/-! ## the invariant -/

/-- nothing more is written on the connection -/
def Sender.Dead (s : Sender n) : Prop := s.mbConnected = false ∨ s.failed = true

/-- `part` is what stands behind the whole frames -/
def Sender.Part (s : Sender n) (part : List Byte) : Prop :=
  (part = [] ∧ ∀ t, ¬ s.Partly t) ∨
  (∃ t id cmd k rest, s.thread t = .sending id cmd k s.conn rest ∧ 0 < k ∧
    part = cmd.frame.take k ∧ ∀ u, s.Partly u → u = t) ∨
  (s.Dead ∧ ∃ i cmd x, i ∉ s.done.map Prod.fst ∧ s.calls[i]? = some cmd ∧ x ≠ [] ∧
    part ++ x = cmd.frame)

structure Sender.Inv (s : Sender n) : Prop where
  sendable : ∀ cmd ∈ s.calls, cmd.Sendable
  next : ∀ t cmd rest, s.thread t = .command cmd rest → cmd.Sendable
  held : ∀ t id cmd k conn rest, s.thread t = .sending id cmd k conn rest →
    s.calls[id]? = some cmd ∧ k < cmd.frame.length ∧ id ∉ s.done.map Prod.fst ∧ conn ≤ s.conn
  own : ∀ t u id cmd k conn rest cmd' k' conn' rest',
    s.thread t = .sending id cmd k conn rest → s.thread u = .sending id cmd' k' conn' rest' → t = u
  nodup : (s.done.map Prod.fst).Nodup
  done : ∀ e ∈ s.done, s.calls[e.1]? = some e.2
  wire : ∃ part, s.wire = s.done.flatMap (fun e => e.2.frame) ++ part ∧ s.Part part

theorem Sender.Inv.init (n : Nat) : (Sender.init n).Inv where
  sendable := fun cmd h => absurd h (by simp [Sender.init])
  next := fun t cmd rest h => by cases h
  held := fun t id cmd k conn rest h => by cases h
  own := fun t u id cmd k conn rest cmd' k' conn' rest' h => by cases h
  nodup := List.nodup_nil
  done := fun e h => absurd h (by simp [Sender.init])
  wire := ⟨[], rfl, .inl ⟨rfl, fun t ⟨_, _, _, _, h, _⟩ => by cases h⟩⟩

/-- a place outside `SendData`'s loop -/
def Pc.Quiet (pc : Pc) : Prop :=
  (∀ id cmd k conn rest, pc ≠ .sending id cmd k conn rest) ∧
  ∀ cmd rest, pc = .command cmd rest → cmd.Sendable

theorem take_part {c : CMD} {k : Nat} (h : k < c.frame.length) :
    c.frame.drop k ≠ [] ∧ c.frame.take k ++ c.frame.drop k = c.frame := by
  refine ⟨?_, List.take_append_drop k c.frame⟩
  intro hnil
  have hlen := congrArg List.length hnil
  rw [List.length_drop, List.length_nil] at hlen
  omega

/-- threads go to places outside the loop and nothing is written; a thread that leaves its frame in
the middle leaves a dead connection -/
theorem Sender.Inv.quiet {s s' : Sender n} (h : s.Inv)
    (hsame : (s'.calls, s'.done, s'.wire, s'.conn) = (s.calls, s.done, s.wire, s.conn))
    (hdead : s.Dead → s'.Dead)
    (hth : ∀ u, s'.thread u = s.thread u ∨ (s'.thread u).Quiet ∧ (s.Partly u → s'.Dead)) :
    s'.Inv := by
  obtain ⟨hcalls, hsame⟩ := Prod.mk.inj hsame
  obtain ⟨hdone, hsame⟩ := Prod.mk.inj hsame
  obtain ⟨hwire, hconn⟩ := Prod.mk.inj hsame
  have hback : ∀ u id cmd k conn rest, s'.thread u = .sending id cmd k conn rest →
      s.thread u = .sending id cmd k conn rest := by
    intro u id cmd k conn rest hu
    rcases hth u with h1 | ⟨h1, _⟩
    · rw [← h1, hu]
    · exact absurd hu (h1.1 id cmd k conn rest)
  have hpartly : ∀ u, s'.Partly u → s.Partly u := by
    rintro u ⟨id, cmd, k, rest, hu, hk⟩
    rw [hconn] at hu
    exact ⟨id, cmd, k, rest, hback u id cmd k _ rest hu, hk⟩
  refine ⟨hcalls ▸ h.sendable, ?_, ?_, ?_, hdone ▸ h.nodup, ?_, ?_⟩
  · intro u cmd rest hu
    rcases hth u with h1 | ⟨h1, _⟩
    · exact h.next u cmd rest (h1 ▸ hu)
    · exact h1.2 cmd rest hu
  · intro u id cmd k conn rest hu
    rw [hcalls, hdone, hconn]
    exact h.held u id cmd k conn rest (hback u id cmd k conn rest hu)
  · intro u u' id cmd k conn rest cmd' k' conn' rest' hu hu'
    exact h.own u u' id cmd k conn rest cmd' k' conn' rest' (hback _ _ _ _ _ _ hu)
      (hback _ _ _ _ _ _ hu')
  · rw [hcalls, hdone]
    exact h.done
  · obtain ⟨part, hp, hpart⟩ := h.wire
    refine ⟨part, by rw [hwire, hdone, hp], ?_⟩
    unfold Sender.Part
    rw [hcalls, hdone, hconn]
    rcases hpart with ⟨h1, h2⟩ | ⟨t, id, cmd, k, rest, ht, hk, h1, h2⟩ | ⟨h1, h2⟩
    · exact .inl ⟨h1, fun u hu => h2 u (hpartly u hu)⟩
    · rcases hth t with h3 | ⟨_, h3⟩
      · exact .inr (.inl ⟨t, id, cmd, k, rest, h3.trans ht, hk, h1, fun u hu => h2 u (hpartly u hu)⟩)
      · obtain ⟨hc, hlt, hid, _⟩ := h.held t id cmd k _ rest ht
        obtain ⟨hne, happ⟩ := take_part hlt
        exact .inr (.inr ⟨h3 ⟨id, cmd, k, rest, ht, hk⟩, id, cmd, _, hid, hc, hne, h1 ▸ happ⟩)
    · exact .inr (.inr ⟨hdead h1, h2⟩)

theorem Sender.Inv.goto_quiet {s s' : Sender n} (h : s.Inv) (t : Fin n) (pc : Pc)
    (hs : ∀ id cmd k conn rest, s.thread t ≠ .sending id cmd k conn rest) (hpc : pc.Quiet)
    (hth : s'.thread = (s.goto t pc).thread)
    (hsame : (s'.calls, s'.done, s'.wire, s'.conn) = (s.calls, s.done, s.wire, s.conn))
    (hdead : s.Dead → s'.Dead) : s'.Inv := by
  refine h.quiet hsame hdead fun u => ?_
  rw [hth]
  by_cases hu : u = t
  · subst hu
    refine .inr ⟨?_, fun ⟨id, cmd, k, rest, hp, _⟩ => absurd hp (hs id cmd k _ rest)⟩
    rw [s.goto_self]
    exact hpc
  · exact .inl (s.goto_other pc hu)

/-! ## one step -/

theorem Sender.Inv.enter {s s' : Sender n} (h : s.Inv) {t : Fin n}
    (hstep : s.enter t = some s') : s'.Inv := by
  unfold Sender.enter at hstep
  split at hstep
  case h_2 => cases hstep
  next cmd rest ht =>
  obtain rfl := Option.some.inj hstep
  have hquiet : ∀ id c k conn r, s.thread t ≠ .sending id c k conn r := by
    intro id c k conn r hs
    rw [ht] at hs
    cases hs
  have hget : ∀ {i : Nat} {c : CMD}, s.calls[i]? = some c → (s.calls ++ [cmd])[i]? = some c := by
    intro i c hc
    rw [List.getElem?_append_left (List.getElem?_eq_some_iff.mp hc).1]
    exact hc
  have hfresh : ∀ e ∈ s.done, e.1 < s.calls.length := fun e he =>
    (List.getElem?_eq_some_iff.mp (h.done e he)).1
  by_cases hup : s.mbConnected = true
  · simp only [hup, if_true]
    -- the new frame has the number `calls.length`, which no other one has
    have hsend : ∀ u id c k conn r,
        (s.goto t (.sending s.calls.length cmd 0 s.conn rest)).thread u = .sending id c k conn r →
        (u = t ∧ id = s.calls.length ∧ c = cmd ∧ k = 0 ∧ conn = s.conn) ∨
          (u ≠ t ∧ s.thread u = .sending id c k conn r) := by
      intro u id c k conn r hu
      rcases Sender.goto_cases hu with ⟨hut, hpc⟩ | hother
      · cases hpc
        exact .inl ⟨hut, rfl, rfl, rfl, rfl⟩
      · exact .inr hother
    refine ⟨?_, ?_, ?_, ?_, h.nodup, fun e he => hget (h.done e he), ?_⟩
    · intro c hc
      rcases List.mem_append.mp hc with hc | hc
      · exact h.sendable c hc
      · rw [List.mem_singleton.mp hc]
        exact h.next t cmd rest ht
    · intro u c r hu
      rcases Sender.goto_cases hu with ⟨-, hpc⟩ | ⟨-, hu'⟩
      · cases hpc
      · exact h.next u c r hu'
    · intro u id c k conn r hu
      rcases hsend u id c k conn r hu with ⟨_, rfl, rfl, rfl, rfl⟩ | ⟨_, hu'⟩
      · refine ⟨List.getElem?_concat_length .., ?_, ?_, Nat.le_refl _⟩
        · rw [CMD.frame_length]
          exact Nat.add_pos_left (by decide) _
        · intro hmem
          obtain ⟨e, he, hid⟩ := List.mem_map.mp hmem
          have := hfresh e he
          omega
      · obtain ⟨h1, h2⟩ := h.held u id c k conn r hu'
        exact ⟨hget h1, h2⟩
    · intro u u' id c k conn r c' k' conn' r' hu hu'
      rcases hsend u id c k conn r hu with ⟨h1, h2, _⟩ | ⟨_, h1⟩ <;>
        rcases hsend u' id c' k' conn' r' hu' with ⟨h3, h4, _⟩ | ⟨_, h3⟩
      · rw [h1, h3]
      · have := (List.getElem?_eq_some_iff.mp (h.held u' id c' k' conn' r' h3).1).1
        omega
      · have := (List.getElem?_eq_some_iff.mp (h.held u id c k conn r h1).1).1
        omega
      · exact h.own u u' id c k conn r c' k' conn' r' h1 h3
    · obtain ⟨part, hp, hpart⟩ := h.wire
      refine ⟨part, hp, ?_⟩
      have hpartly : ∀ u, (∃ id c k r, (s.goto t (.sending s.calls.length cmd 0 s.conn rest)).thread u
          = .sending id c k s.conn r ∧ 0 < k) → s.Partly u := by
        rintro u ⟨id, c, k, r, hu, hk⟩
        rcases hsend u id c k s.conn r hu with ⟨_, _, _, h1, _⟩ | ⟨_, h1⟩
        · omega
        · exact ⟨id, c, k, r, h1, hk⟩
      rcases hpart with ⟨h1, h2⟩ | ⟨v, id, c, k, r, hv, hk, h1, h2⟩ | ⟨h1, i, c, x, hi, hc, h2⟩
      · exact .inl ⟨h1, fun u hu => h2 u (hpartly u hu)⟩
      · have hvt : v ≠ t := fun heq => hquiet id c k s.conn r (heq ▸ hv)
        exact .inr (.inl ⟨v, id, c, k, r, (s.goto_other _ hvt).trans hv, hk, h1,
          fun u hu => h2 u (hpartly u hu)⟩)
      · exact .inr (.inr ⟨h1, i, c, x, hi, hget hc, h2⟩)
  · have hup' : s.mbConnected = false := by simpa using hup
    simp only [hup', Bool.false_eq_true, if_false]
    -- the call is counted and the thread leaves `SendData` at once
    have h1 : Sender.Inv { s with calls := s.calls ++ [cmd] } := by
      refine ⟨?_, h.next, ?_, h.own, h.nodup, fun e he => hget (h.done e he), ?_⟩
      · intro c hc
        rcases List.mem_append.mp hc with hc | hc
        · exact h.sendable c hc
        · rw [List.mem_singleton.mp hc]
          exact h.next t cmd rest ht
      · intro u id c k conn r hu
        obtain ⟨h1, h2⟩ := h.held u id c k conn r hu
        exact ⟨hget h1, h2⟩
      · obtain ⟨part, hp, hpart⟩ := h.wire
        refine ⟨part, hp, ?_⟩
        rcases hpart with h1 | h1 | ⟨h1, i, c, x, hi, hc, h2⟩
        · exact .inl h1
        · exact .inr (.inl h1)
        · exact .inr (.inr ⟨h1, i, c, x, hi, hget hc, h2⟩)
    exact h1.goto_quiet t .closing hquiet
      ⟨fun _ _ _ _ _ hc => (by cases hc), fun _ _ hc => (by cases hc)⟩ rfl rfl id

/-- when a thread writes alone, the stream ends with what it has sent of its frame -/
theorem Sender.Inv.before_send {s : Sender n} (h : s.Inv) {t : Fin n} {k : Nat}
    (hok : s.Alone (.send t k)) (hup : s.mbConnected = true) (hfailed : ¬ s.failed = true)
    {id : Nat} {cmd : CMD} {k0 conn : Nat} {rest : List Byte}
    (ht : s.thread t = .sending id cmd k0 conn rest) :
    s.wire = s.done.flatMap (fun e => e.2.frame) ++ cmd.frame.take k0 := by
  obtain ⟨hother, hown⟩ := hok
  rw [ht] at hown
  obtain ⟨part, hp, hpart⟩ := h.wire
  rcases hpart with ⟨rfl, h2⟩ | ⟨v, id', c, k', r, hv, hk, rfl, _⟩ | ⟨h1 | h1, _⟩
  · have hk0 : k0 = 0 := by
      by_contra hne
      have hpos : 0 < k0 := Nat.pos_of_ne_zero hne
      obtain rfl := hown hpos
      exact h2 t ⟨id, cmd, k0, rest, ht, hpos⟩
    rw [hp, hk0, List.take_zero]
  · have hvt : v = t := by
      by_contra hne
      exact hother v hne ⟨id', c, k', r, hv, hk⟩
    rw [hvt, ht] at hv
    cases hv
    exact hp
  · rw [h1] at hup
    cases hup
  · exact absurd h1 hfailed

theorem Pc.after_quiet (cmd : CMD) (rest : List Byte) : (Pc.after cmd rest).Quiet := by
  unfold Pc.after
  split
  · exact ⟨by simp, by simp⟩
  · exact ⟨by simp, by simp⟩

theorem Sender.Inv.send {s s' : Sender n} (h : s.Inv) {t : Fin n} {k : Nat}
    (hok : s.Alone (.send t k)) (hstep : s.send t k = some s') : s'.Inv := by
  unfold Sender.send at hstep
  split at hstep
  case h_2 => cases hstep
  next id cmd k0 conn rest ht =>
  split at hstep
  case isFalse => cases hstep
  next hguard =>
  obtain ⟨hup, hfailed, hk1, hk2⟩ := hguard
  obtain ⟨hget, hlt, hid, _⟩ := h.held t id cmd k0 conn rest ht
  have hwire : s.wire ++ (cmd.frame.drop k0).take k
      = s.done.flatMap (fun e => e.2.frame) ++ cmd.frame.take (k0 + k) := by
    rw [h.before_send hok hup hfailed ht, List.append_assoc, ← List.take_add]
  have hother := hok.1
  dsimp only at hstep
  split at hstep
  · -- the last byte of the frame
    next hfull =>
    obtain rfl := Option.some.inj hstep
    have hq := Pc.after_quiet cmd rest
    have hsend : ∀ u i c j conn' r,
        (s.goto t (Pc.after cmd rest)).thread u = .sending i c j conn' r →
        u ≠ t ∧ s.thread u = .sending i c j conn' r := by
      intro u i c j conn' r hu
      rcases Sender.goto_cases hu with ⟨-, hpc⟩ | hother
      · exact absurd hpc (hq.1 i c j conn' r)
      · exact hother
    refine ⟨h.sendable, ?_, ?_, ?_, ?_, ?_, [], ?_, .inl ⟨rfl, ?_⟩⟩
    · intro u c r hu
      rcases Sender.goto_cases hu with ⟨-, hpc⟩ | ⟨-, hu'⟩
      · exact hq.2 c r hpc
      · exact h.next u c r hu'
    · intro u i c j conn' r hu
      obtain ⟨hut, hu'⟩ := hsend u i c j conn' r hu
      obtain ⟨h1, h2, h3, h4⟩ := h.held u i c j conn' r hu'
      refine ⟨h1, h2, ?_, h4⟩
      show i ∉ (s.done ++ [(id, cmd)]).map Prod.fst
      rw [List.map_append, List.mem_append]
      rintro (h5 | h5)
      · exact h3 h5
      · obtain rfl : i = id := List.mem_singleton.mp h5
        exact hut (h.own u t i c j conn' r cmd k0 conn rest hu' ht)
    · intro u u' i c j conn' r c' j' conn'' r' hu hu'
      exact h.own u u' i c j conn' r c' j' conn'' r' (hsend u _ _ _ _ _ hu).2
        (hsend u' _ _ _ _ _ hu').2
    · show ((s.done ++ [(id, cmd)]).map Prod.fst).Nodup
      rw [List.map_append, List.nodup_append]
      refine ⟨h.nodup, by simp, ?_⟩
      rintro i hi j hj rfl
      obtain rfl : i = id := List.mem_singleton.mp hj
      exact hid hi
    · intro e he
      rcases List.mem_append.mp he with he | he
      · exact h.done e he
      · rw [List.mem_singleton.mp he]
        exact hget
    · show s.wire ++ (cmd.frame.drop k0).take k = (s.done ++ [(id, cmd)]).flatMap _ ++ []
      rw [hwire, hfull, List.take_length, List.flatMap_append, List.append_nil,
        List.flatMap_singleton]
    · rintro u ⟨i, c, j, r, hu, hj⟩
      obtain ⟨hut, hu'⟩ := hsend u i c j _ r hu
      exact hother u hut ⟨i, c, j, r, hu', hj⟩
  · -- a part of the frame
    next hpart =>
    obtain rfl := Option.some.inj hstep
    have hsend : ∀ u i c j conn' r,
        (s.goto t (.sending id cmd (k0 + k) s.conn rest)).thread u = .sending i c j conn' r →
        (u = t ∧ i = id ∧ c = cmd ∧ j = k0 + k ∧ conn' = s.conn) ∨
          (u ≠ t ∧ s.thread u = .sending i c j conn' r) := by
      intro u i c j conn' r hu
      rcases Sender.goto_cases hu with ⟨hut, hpc⟩ | hother
      · cases hpc
        exact .inl ⟨hut, rfl, rfl, rfl, rfl⟩
      · exact .inr hother
    refine ⟨h.sendable, ?_, ?_, ?_, h.nodup, h.done, _, hwire, .inr (.inl ?_)⟩
    · intro u c r hu
      rcases Sender.goto_cases hu with ⟨-, hpc⟩ | ⟨-, hu'⟩
      · cases hpc
      · exact h.next u c r hu'
    · intro u i c j conn' r hu
      rcases hsend u i c j conn' r hu with ⟨_, rfl, rfl, rfl, rfl⟩ | ⟨_, hu'⟩
      · exact ⟨hget, by omega, hid, Nat.le_refl _⟩
      · exact h.held u i c j conn' r hu'
    · intro u u' i c j conn' r c' j' conn'' r' hu hu'
      rcases hsend u i c j conn' r hu with ⟨h1, h2, _⟩ | ⟨_, h1⟩ <;>
        rcases hsend u' i c' j' conn'' r' hu' with ⟨h3, h4, _⟩ | ⟨_, h3⟩
      · rw [h1, h3]
      · rw [h1]
        exact h.own t u' i _ _ _ _ _ _ _ _ (h2 ▸ ht) h3
      · rw [h3]
        exact h.own u t i _ _ _ _ _ _ _ _ h1 (h4 ▸ ht)
      · exact h.own u u' i c j conn' r c' j' conn'' r' h1 h3
    · refine ⟨t, id, cmd, k0 + k, rest, s.goto_self t _, by omega, rfl, ?_⟩
      rintro u ⟨i, c, j, r, hu, hj⟩
      rcases hsend u i c j _ r hu with ⟨h1, _⟩ | ⟨h1, h2⟩
      · exact h1
      · exact absurd ⟨i, c, j, r, h2, hj⟩ (hother u h1)

theorem Sender.Inv.connect {s s' : Sender n} (h : s.Inv) (hstep : s.connect = some s') :
    s'.Inv := by
  unfold Sender.connect at hstep
  split at hstep
  · cases hstep
  · obtain rfl := Option.some.inj hstep
    refine ⟨h.sendable, h.next, ?_, h.own, List.nodup_nil, fun e he => absurd he (by simp), [], rfl,
      .inl ⟨rfl, ?_⟩⟩
    · intro u i c j conn r hu
      obtain ⟨h1, h2, _, h4⟩ := h.held u i c j conn r hu
      exact ⟨h1, h2, by simp, Nat.le_succ_of_le h4⟩
    · rintro u ⟨i, c, j, r, hu, _⟩
      exact absurd (h.held u i c j _ r hu).2.2.2 (Nat.not_succ_le_self s.conn)

/-- **One step.** -/
theorem Sender.Inv.step {s s' : Sender n} {m : Sender.Move n} (h : s.Inv) (hok : s.Alone m)
    (hstep : s.step m = some s') : s'.Inv := by
  have hplain : ∀ (t : Fin n) (pc : Pc), s.thread t = pc → pc.Quiet →
      ∀ id cmd k conn rest, s.thread t ≠ .sending id cmd k conn rest := by
    intro t pc ht hq id cmd k conn rest hs
    exact hq.1 id cmd k conn rest (ht.symm.trans hs)
  have hq : ∀ pc : Pc, (∀ id cmd k conn rest, pc ≠ .sending id cmd k conn rest) →
      (∀ cmd rest, pc ≠ .command cmd rest) → pc.Quiet := fun pc h1 h2 =>
    ⟨h1, fun cmd rest hc => absurd hc (h2 cmd rest)⟩
  cases m with
  | callBuffer t seq fd buffer =>
    change s.callBuffer t seq fd buffer = some s' at hstep
    unfold Sender.callBuffer at hstep
    split at hstep
    · next ht =>
      obtain rfl := Option.some.inj hstep
      exact h.goto_quiet t _ (hplain t _ ht (hq _ (by simp) (by simp))) (hq _ (by simp) (by simp))
        rfl rfl id
    · cases hstep
  | callDisconnect t fd =>
    change s.callDisconnect t fd = some s' at hstep
    unfold Sender.callDisconnect at hstep
    split at hstep
    · next ht =>
      obtain rfl := Option.some.inj hstep
      exact h.goto_quiet t _ (hplain t _ ht (hq _ (by simp) (by simp))) (hq _ (by simp) (by simp))
        rfl rfl id
    · cases hstep
  | round t =>
    change s.round t = some s' at hstep
    unfold Sender.round at hstep
    split at hstep
    · next seq fd rest ht =>
      obtain rfl := Option.some.inj hstep
      refine h.goto_quiet t _ (hplain t _ ht (hq _ (by simp) (by simp))) ?_ rfl rfl id
      split
      · refine ⟨by simp, ?_⟩
        rintro cmd r hc
        cases hc
        exact SendLoop.cmd_sendable seq fd _
      · exact hq _ (by simp) (by simp)
    · cases hstep
  | takeSeq t =>
    change s.takeSeq t = some s' at hstep
    unfold Sender.takeSeq at hstep
    split at hstep
    · next fd ht =>
      obtain rfl := Option.some.inj hstep
      refine h.goto_quiet t (.command (SendProxyDisconnect s.mSendSeq fd) [])
        (hplain t _ ht (hq _ (by simp) (by simp))) ⟨by simp, ?_⟩ rfl rfl id
      rintro cmd r hc
      cases hc
      exact SendProxyDisconnect_sendable s.mSendSeq fd
    · cases hstep
  | enter t => exact h.enter hstep
  | send t k => exact h.send hok hstep
  | fail t =>
    change s.fail t = some s' at hstep
    unfold Sender.fail at hstep
    split at hstep
    · obtain rfl := Option.some.inj hstep
      refine h.quiet rfl (fun _ => .inr rfl) fun u => ?_
      by_cases hu : u = t
      · subst hu
        exact .inr ⟨(s.goto_self u .closing).symm ▸ hq _ (by simp) (by simp), fun _ => .inr rfl⟩
      · exact .inl (s.goto_other _ hu)
    · cases hstep
  | close t =>
    change s.close t = some s' at hstep
    unfold Sender.close at hstep
    split at hstep
    · next ht =>
      obtain rfl := Option.some.inj hstep
      exact h.goto_quiet t .idle (hplain t _ ht (hq _ (by simp) (by simp)))
        (hq _ (by simp) (by simp)) rfl rfl fun _ => .inl rfl
    · cases hstep
  | lost =>
    obtain rfl := Option.some.inj hstep
    exact h.quiet rfl (fun _ => .inl rfl) fun u => .inl rfl
  | connect => exact h.connect hstep
  | resetSeq =>
    obtain rfl := Option.some.inj hstep
    exact h.quiet rfl id fun u => .inl rfl

/-! ## the stream -/

theorem Sender.Inv.whole {s : Sender n} (h : s.Inv) : s.Whole := by
  obtain ⟨part, hp, hpart⟩ := h.wire
  refine ⟨s.done, part, h.nodup, ?_, hp, ?_, ?_⟩
  · intro e he
    have hget := h.done e he
    refine ⟨hget, ?_⟩
    have hs := (h.sendable e.2 (List.mem_of_getElem? hget)).sized
    rw [CMD.frame_length, hs]
    omega
  · rcases hpart with ⟨h1, _⟩ | ⟨t, id, cmd, k, rest, ht, _, rfl, _⟩ | ⟨_, h1⟩
    · exact .inl h1
    · obtain ⟨hget, hlt, hid, _⟩ := h.held t id cmd k _ rest ht
      obtain ⟨hne, happ⟩ := take_part hlt
      exact .inr ⟨id, cmd, _, hid, hget, hne, happ⟩
    · exact .inr h1
  · intro hup hfailed hnone
    rcases hpart with ⟨h1, _⟩ | ⟨t, id, cmd, k, rest, ht, hk, _⟩ | ⟨h1 | h1, _⟩
    · exact h1
    · exact absurd ⟨id, cmd, k, rest, ht, hk⟩ (hnone t)
    · rw [h1] at hup
      cases hup
    · exact absurd h1 hfailed

/-- **Any number of threads, every interleaving and every count that `send()` returns**: as long as
a thread writes only while no other one is in the middle of a frame, the stream stays whole. -/
theorem whole_of_alone {s : Sender n} {l : List (Sender.Move n)}
    (hok : RunOk Sender.step Sender.Alone (Sender.init n) l)
    (hrun : run Sender.step (Sender.init n) l = some s) : s.Whole :=
  (inv_runOk (fun _ _ _ h hok hstep => h.step hok hstep) (Sender.Inv.init n) hok hrun).whole

/-- thread 0 sends its frame in two parts while thread 1 waits with its own -/
theorem whole_of_alone_two :
    ∃ s, run Sender.step (Sender.init 2) [.callDisconnect 0 9, .takeSeq 0, .enter 0, .send 0 1,
        .callDisconnect 1 7, .takeSeq 1, .enter 1, .send 0 16, .send 1 17] = some s ∧ s.Whole := by
  have hok : RunOk Sender.step Sender.Alone (Sender.init 2) [.callDisconnect 0 9, .takeSeq 0,
      .enter 0, .send 0 1, .callDisconnect 1 7, .takeSeq 1, .enter 1, .send 0 16, .send 1 17] := by
    decide
  exact ⟨_, rfl, whole_of_alone hok rfl⟩

/-- a whole stream on which nothing is being sent begins with the frame of a call -/
theorem Sender.Whole.head {s : Sender n} (h : s.Whole) (hup : s.mbConnected = true)
    (hfailed : s.failed = false) (hidle : ∀ t, s.thread t = .idle) :
    s.wire = [] ∨ ∃ cmd ∈ s.calls, cmd.frame <+: s.wire := by
  obtain ⟨done, part, _, hdone, hwire, _, hpart⟩ := h
  have hnil : part = [] := by
    apply hpart hup (by simp [hfailed])
    rintro t ⟨id, cmd, k, rest, ht, _⟩
    rw [hidle t] at ht
    cases ht
  rw [hnil, List.append_nil] at hwire
  cases done with
  | nil => exact .inl hwire
  | cons e done =>
    refine .inr ⟨e.2, List.mem_of_getElem? (hdone e (List.mem_cons_self ..)).1, ?_⟩
    rw [hwire, List.flatMap_cons]
    exact List.prefix_append ..

/-- **Mixed frames**: thread 0 writes one byte of its frame, thread 1 all of its own, then thread 0
the rest. -/
theorem not_whole_frames :
    ∃ s, run Sender.step (Sender.init 2) [.callDisconnect 0 9, .takeSeq 0, .enter 0,
        .callDisconnect 1 7, .takeSeq 1, .enter 1, .send 0 1, .send 1 17, .send 0 16] = some s ∧
      (∀ t, s.thread t = .idle) ∧ s.mbConnected = true ∧ s.failed = false ∧ ¬ s.Whole := by
  obtain ⟨s, hrun, hidle, hup, hfailed, hhead⟩ : ∃ s, run Sender.step (Sender.init 2)
      [.callDisconnect 0 9, .takeSeq 0, .enter 0, .callDisconnect 1 7, .takeSeq 1, .enter 1,
        .send 0 1, .send 1 17, .send 0 16] = some s ∧
      (∀ t, s.thread t = .idle) ∧ s.mbConnected = true ∧ s.failed = false ∧
      ¬ (s.wire = [] ∨ ∃ cmd ∈ s.calls, cmd.frame <+: s.wire) := by
    decide
  exact ⟨s, hrun, hidle, hup, hfailed, fun h => hhead (h.head hup hfailed hidle)⟩

end VncProxy
