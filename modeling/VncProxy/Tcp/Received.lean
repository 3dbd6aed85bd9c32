import VncProxy.Lib.Run
import VncProxy.Tcp.Places
import VncProxy.Tcp.Receive

/-!
# The chunks of a connection in the handle list

* `Numbered`            the receiver numbers the chunks of a connection 0, 1, 2, …
* `Stream.Unbroken`     what it relies on for the bytes;
* `received_in_order`   in a run in which no chunk is put in the handle list behind a dropped one of
                        the connection, the chunks are the beginning of what `recv` returned;
* `not_received_in_order`  such a chunk leaves a hole.
-/

namespace VncProxy.Tcp

variable {h k : Nat}

/-! ## the record of one connection -/

def ofConn (l : List Msg) (c : Conn) : List Msg := l.filter (·.conn = c)

/-- the bytes that are recorded for a connection, in the order of the record -/
def bytesOf (l : List (Conn × List Byte)) (c : Conn) : List Byte :=
  (l.filter (·.1 = c)).flatMap Prod.snd

def tagged (l : List (Msg × List Byte)) : List (Conn × List Byte) := l.map fun e => (e.1.conn, e.2)

theorem ofConn_append (l l' : List Msg) (c : Conn) : ofConn (l ++ l') c = ofConn l c ++ ofConn l' c :=
  List.filter_append ..

theorem ofConn_self (m : Msg) : ofConn [m] m.conn = [m] := by simp [ofConn]

theorem ofConn_other {m : Msg} {c : Conn} (hc : m.conn ≠ c) : ofConn [m] c = [] := by
  simp [ofConn, hc]

theorem bytesOf_append (l l' : List (Conn × List Byte)) (c : Conn) :
    bytesOf (l ++ l') c = bytesOf l c ++ bytesOf l' c := by
  unfold bytesOf
  rw [List.filter_append, List.flatMap_append]

theorem bytesOf_self (c : Conn) (b : List Byte) : bytesOf [(c, b)] c = b := by simp [bytesOf]

theorem bytesOf_other {c c' : Conn} (hc : c' ≠ c) (b : List Byte) : bytesOf [(c', b)] c = [] := by
  simp [bytesOf, hc]

/-! ## the numbers -/

/-- `Accept_Callback` has not returned at once for it -/
def Served (f : Nat → Line) (fd : Nat) : Prop := fd ≠ 0 ∧ (f fd).gen ≠ 0

/-- the Message in hand belongs to the connection that has the descriptor -/
def Rx.Fits (f : Nat → Line) : Rx → Prop
  | .rest => True
  | .reset fd | .accepted fd | .pop fd | .dropped fd => Served f fd
  | .ready fd m | .got fd m | .drop fd m | .take fd m => Served f fd ∧ m.conn = (fd, (f fd).gen)
  | .push fd m => Served f fd ∧ m.conn = (fd, (f fd).gen) ∧ m.seq + 1 = (f fd).seq

/-- `mpPacketSeqRecv[fd]` has not been reset for the connection -/
def Rx.Resets : Rx → Nat → Prop
  | .reset fd, fd' => fd = fd'
  | _, _ => False

/-- the numbers given to a chunk that is not in the list yet -/
def Rx.taken : Rx → Nat → Nat
  | .push fd _, fd' => if fd = fd' then 1 else 0
  | _, _ => 0

structure Numbered (r : Rx) (f : Nat → Line) (pushed : List Msg) : Prop where
  watched : ∀ fd, (f fd).watched = true → Served f fd
  rx : r.Fits f
  old : ∀ m ∈ pushed, m.gen ≤ (f m.fd).gen
  seqs : ∀ c, (ofConn pushed c).map Msg.seq = List.range (ofConn pushed c).length
  next : ∀ fd, Served f fd → ¬ r.Resets fd →
    (f fd).seq = (ofConn pushed (fd, (f fd).gen)).length + r.taken fd
  fresh : ∀ fd, r.Resets fd → ofConn pushed (fd, (f fd).gen) = []

section
variable {r r' : Rx} {f f' : Nat → Line} {pushed : List Msg} {room : Prop} {e : Rx.Event}

theorem Numbered.goto (hi : Numbered r f pushed) (hrx : r'.Fits f) (hresets : r'.Resets = r.Resets)
    (htaken : r'.taken = r.taken) : Numbered r' f pushed where
  watched := hi.watched
  rx := hrx
  old := hi.old
  seqs := hi.seqs
  next := fun fd hfd hreset => by
    rw [htaken]
    exact hi.next fd hfd (hresets ▸ hreset)
  fresh := fun fd hreset => hi.fresh fd (hresets ▸ hreset)

/-- no chunk of the connection that gets the descriptor next is in the list -/
theorem Numbered.unborn (hi : Numbered r f pushed) (fd : Nat) :
    ofConn pushed (fd, (f fd).gen + 1) = [] := by
  apply List.filter_eq_nil_iff.mpr
  intro m hm hconn
  have hold := hi.old m hm
  have hc : m.conn = (fd, (f fd).gen + 1) := of_decide_eq_true hconn
  obtain ⟨hfd, hgen⟩ := Prod.mk.inj (show (m.fd, m.gen) = (fd, (f fd).gen + 1) from hc)
  rw [hfd, hgen] at hold
  omega

section
variable {fd : Nat} {l : Line}

theorem Served.update (hgen : (f fd).gen ≤ l.gen) {fd' : Nat} (h : Served f fd') :
    Served (Function.update f fd l) fd' := by
  refine ⟨h.1, ?_⟩
  by_cases he : fd' = fd
  · subst he
    have := h.2
    rw [Function.update_self]
    omega
  · rw [Function.update_of_ne he]
    exact h.2

theorem Served.of_update {fd' : Nat} (hne : fd' ≠ fd) (h : Served (Function.update f fd l) fd') :
    Served f fd' := by
  refine ⟨h.1, ?_⟩
  have h2 := h.2
  rwa [Function.update_of_ne hne] at h2

theorem old_update (hgen : (f fd).gen ≤ l.gen) (hold : ∀ m ∈ pushed, m.gen ≤ (f m.fd).gen) :
    ∀ m ∈ pushed, m.gen ≤ (Function.update f fd l m.fd).gen := by
  intro m hm
  have hm' := hold m hm
  by_cases he : m.fd = fd
  · rw [he, Function.update_self]
    rw [he] at hm'
    exact Nat.le_trans hm' hgen
  · rw [Function.update_of_ne he]
    exact hm'

theorem served_update (hgen : (f fd).gen ≤ l.gen)
    (hwatched : ∀ fd, (f fd).watched = true → Served f fd) (hl : l.watched = true → Served f fd) :
    ∀ fd', (Function.update f fd l fd').watched = true → Served (Function.update f fd l) fd' := by
  intro fd' hw
  by_cases he : fd' = fd
  · subst he
    rw [Function.update_self] at hw
    exact (hl hw).update hgen
  · rw [Function.update_of_ne he] at hw
    exact (hwatched fd' hw).update hgen

end

theorem Numbered.accept (hi : Numbered .rest f pushed) {fd : Nat} (hfd : fd ≠ 0) :
    Numbered (.reset fd) (Function.update f fd { f fd with gen := (f fd).gen + 1 }) pushed where
  watched := served_update (Nat.le_succ _) hi.watched (hi.watched fd)
  rx := by
    refine ⟨hfd, ?_⟩
    rw [Function.update_self]
    exact Nat.succ_ne_zero _
  old := old_update (Nat.le_succ _) hi.old
  seqs := hi.seqs
  next := fun fd' hserved hreset => by
    have hne : fd' ≠ fd := fun he => hreset he.symm
    rw [Function.update_of_ne hne]
    exact hi.next fd' (hserved.of_update hne) id
  fresh := fun fd' hreset => by
    obtain rfl : fd = fd' := hreset
    rw [Function.update_self]
    exact hi.unborn fd

theorem Numbered.acceptZero (hi : Numbered .rest f pushed) :
    Numbered .rest (Function.update f 0 { f 0 with gen := (f 0).gen + 1 }) pushed where
  watched := served_update (Nat.le_succ _) hi.watched (hi.watched 0)
  rx := trivial
  old := old_update (Nat.le_succ _) hi.old
  seqs := hi.seqs
  next := fun fd' hserved hreset => by
    rw [Function.update_of_ne hserved.1]
    exact hi.next fd' (hserved.of_update hserved.1) hreset
  fresh := fun fd' hreset => hreset.elim

theorem Numbered.reset {fd : Nat} (hi : Numbered (.reset fd) f pushed) :
    Numbered (.accepted fd) (Function.update f fd { f fd with seq := 0 }) pushed where
  watched := served_update (Nat.le_refl _) hi.watched (hi.watched fd)
  rx := by
    refine Served.update ?_ hi.rx
    exact Nat.le_refl _
  old := old_update (Nat.le_refl _) hi.old
  seqs := hi.seqs
  next := fun fd' hserved _ => by
    by_cases he : fd' = fd
    · rw [he, Function.update_self, hi.fresh fd rfl]
      rfl
    · rw [Function.update_of_ne he]
      exact hi.next fd' (hserved.of_update he) (fun heq => he heq.symm)
  fresh := fun fd' hreset => hreset.elim

theorem Numbered.watch (hi : Numbered r f pushed) (hreset : ∀ fd', ¬ r.Resets fd')
    (htaken : ∀ fd', r.taken fd' = 0) {fd : Nat} {b : Bool} (hb : b = true → Served f fd) :
    Numbered .rest (Function.update f fd { f fd with watched := b }) pushed where
  watched := served_update (Nat.le_refl _) hi.watched hb
  rx := trivial
  old := old_update (Nat.le_refl _) hi.old
  seqs := hi.seqs
  next := fun fd' hserved _ => by
    by_cases he : fd' = fd
    · subst he
      rw [Served, Function.update_self] at hserved
      rw [Function.update_self]
      show (f fd').seq = (ofConn pushed (fd', (f fd').gen)).length + 0
      rw [← htaken fd']
      exact hi.next fd' hserved (hreset fd')
    · rw [Function.update_of_ne he]
      show (f fd').seq = (ofConn pushed (fd', (f fd').gen)).length + 0
      rw [← htaken fd']
      exact hi.next fd' (hserved.of_update he) (hreset fd')
  fresh := fun fd' h => h.elim

theorem Numbered.seq {fd : Nat} {m : Msg} (hi : Numbered (.take fd m) f pushed) :
    Numbered (.push fd { m with seq := (f fd).seq })
      (Function.update f fd { f fd with seq := (f fd).seq + 1 }) pushed where
  watched := served_update (Nat.le_refl _) hi.watched (hi.watched fd)
  rx := by
    refine ⟨hi.rx.1.update ?_, ?_, ?_⟩
    · exact Nat.le_refl _
    · rw [Function.update_self]
      exact hi.rx.2
    · rw [Function.update_self]
  old := old_update (Nat.le_refl _) hi.old
  seqs := hi.seqs
  next := fun fd' hserved _ => by
    by_cases he : fd' = fd
    · subst he
      have hnext : (f fd').seq = (ofConn pushed (fd', (f fd').gen)).length :=
        hi.next fd' hi.rx.1 id
      rw [Function.update_self]
      show (f fd').seq + 1 = _ + if fd' = fd' then 1 else 0
      rw [if_pos rfl, hnext]
    · rw [Function.update_of_ne he]
      show _ = _ + if fd = fd' then 1 else 0
      rw [if_neg (fun heq => he heq.symm)]
      exact hi.next fd' (hserved.of_update he) id
  fresh := fun fd' h => h.elim

theorem Numbered.push {fd : Nat} {m : Msg} (hi : Numbered (.push fd m) f pushed) (hrx : r'.Fits f)
    (hreset : ∀ fd', ¬ r'.Resets fd') (htaken : ∀ fd', r'.taken fd' = 0) :
    Numbered r' f (pushed ++ [m]) := by
  obtain ⟨hserved, hconn, hseq⟩ := hi.rx
  obtain ⟨hmfd, hmgen⟩ := Prod.mk.inj (show (m.fd, m.gen) = (fd, (f fd).gen) from hconn)
  have hplace : (ofConn pushed m.conn).length = m.seq := by
    have hnext : (f fd).seq = (ofConn pushed (fd, (f fd).gen)).length + if fd = fd then 1 else 0 :=
      hi.next fd hserved id
    rw [if_pos rfl, ← hconn] at hnext
    omega
  refine ⟨hi.watched, hrx, fun m' hm' => ?_, fun c => ?_, fun fd' hserved' _ => ?_, fun fd' h =>
    (hreset fd' h).elim⟩
  · rcases List.mem_append.mp hm' with hm' | hm'
    · exact hi.old m' hm'
    · obtain rfl := List.mem_singleton.mp hm'
      rw [hmfd, hmgen]
  · rw [ofConn_append]
    by_cases hc : m.conn = c
    · subst hc
      rw [ofConn_self, List.map_append, hi.seqs, List.length_append, List.length_singleton,
        List.range_succ, hplace]
      rfl
    · rw [ofConn_other hc, List.append_nil]
      exact hi.seqs c
  · have hnext : (f fd').seq = _ + if fd = fd' then 1 else 0 := hi.next fd' hserved' id
    rw [ofConn_append, hnext, htaken, List.length_append, add_zero]
    congr 1
    by_cases he : fd = fd'
    · subst he
      rw [if_pos rfl, ← hconn, ofConn_self]
      rfl
    · rw [if_neg he, ofConn_other fun heq => he (hmfd.symm.trans (Prod.mk.inj heq).1)]
      rfl

theorem Numbered.quiet (hi : Numbered r f pushed) (he : e.pushes = []) :
    Numbered r f (pushed ++ e.pushes) := by
  rw [he, List.append_nil]
  exact hi

/-- **A step keeps the numbers.** -/
theorem Numbered.step (hi : Numbered r f pushed) (hstep : Rx.Step room r f e r' f') :
    Numbered r' f' (pushed ++ e.pushes) := by
  cases hstep with
  | same => exact hi.quiet rfl
  | accept fd f hfd => exact (hi.accept hfd).quiet rfl
  | acceptZero => exact hi.acceptZero.quiet rfl
  | reset => exact hi.reset.quiet rfl
  | watch fd f => exact (hi.watch (fun _ => id) (fun _ => rfl) fun _ => hi.rx).quiet rfl
  | unwatch fd f => exact (hi.watch (fun _ => id) (fun _ => rfl) fun h => by cases h).quiet rfl
  | event fd f hwatched =>
    refine .quiet ?_ rfl
    exact hi.goto (hi.watched fd hwatched) rfl rfl
  | pop fd f addr =>
    refine .quiet ?_ rfl
    exact hi.goto ⟨hi.rx, rfl⟩ rfl rfl
  | refuse | leave | dropped =>
    refine .quiet ?_ rfl
    exact hi.goto trivial rfl rfl
  | recv | tooMany | fits | droppedNext =>
    refine .quiet ?_ rfl
    exact hi.goto hi.rx rfl rfl
  | drop =>
    refine .quiet ?_ rfl
    exact hi.goto hi.rx.1 rfl rfl
  | seq => exact hi.seq.quiet rfl
  | push fd m => exact hi.push trivial (fun _ => id) fun _ => rfl
  | pushNext fd m => exact hi.push hi.rx.1 (fun _ => id) fun _ => rfl

end

/-! ## the bytes -/

/-- the chunk that has been received and is not in the list yet -/
def Rx.hand : Rx → List Msg
  | .got _ m | .drop _ m | .take _ m | .push _ m => [m]
  | _ => []

/-- the chunk that is going to be put in the list -/
def Rx.takes : Rx → Option Msg
  | .take _ m | .push _ m => some m
  | _ => none

/-- the chunks of a connection are what has been received until one is dropped, and the chunk in
hand is then not put in the list -/
structure Unbroken (r : Rx) (buffer : Nat → List Byte) (received : List (Conn × List Byte))
    (refused : List Conn) (pushed : List (Conn × List Byte)) : Prop where
  all : ∀ c, c ∉ refused → bytesOf received c =
    bytesOf pushed c ++ bytesOf (r.hand.map fun m => (m.conn, buffer m.addr)) c
  le : ∀ c, bytesOf pushed c <+: bytesOf received c
  takes : ∀ m, r.takes = some m → m.conn ∉ refused

section
variable {r r' : Rx} {f f' : Nat → Line} {room : Prop} {e : Rx.Event} {b : List Byte}
  {buffer buffer' : Nat → List Byte} {received : List (Conn × List Byte)} {refused : List Conn}
  {pushed : List (Conn × List Byte)}

theorem Unbroken.goto (hi : Unbroken r buffer received refused pushed)
    (hhand : (r'.hand.map fun m => (m.conn, buffer' m.addr)) =
      r.hand.map fun m => (m.conn, buffer m.addr))
    (htakes : ∀ m, r'.takes = some m → m.conn ∉ refused) :
    Unbroken r' buffer' received refused pushed :=
  ⟨fun c hc => hhand ▸ hi.all c hc, hi.le, htakes⟩

theorem Unbroken.recv {fd : Nat} {m m' : Msg} (hi : Unbroken (.ready fd m) buffer received refused pushed)
    (hfill : buffer' m'.addr = b) :
    Unbroken (.got fd m') buffer' (received ++ [(m'.conn, b)]) refused pushed where
  all := fun c hc => by
    have hall : bytesOf received c = bytesOf pushed c ++ [] := hi.all c hc
    rw [bytesOf_append, hall, List.append_nil]
    show _ = _ ++ bytesOf [(m'.conn, buffer' m'.addr)] c
    rw [hfill]
  le := fun c => by
    rw [bytesOf_append]
    exact (hi.le c).trans (List.prefix_append ..)
  takes := fun _ h => by cases h

/-- the chunk is dropped; from here on the bytes of its connection are only a beginning -/
theorem Unbroken.drop {fd : Nat} {m : Msg} (hi : Unbroken (.drop fd m) buffer received refused pushed)
    (hhand : r'.hand = []) (htakes : r'.takes = none) :
    Unbroken r' buffer' received (refused ++ [m.conn]) pushed where
  all := fun c hc => by
    rw [List.mem_append, List.mem_singleton, not_or] at hc
    have hall : bytesOf received c = bytesOf pushed c ++ bytesOf [(m.conn, buffer m.addr)] c :=
      hi.all c hc.1
    rw [hall, bytesOf_other (Ne.symm hc.2), hhand]
    rfl
  le := hi.le
  takes := fun m' hm' => by
    rw [htakes] at hm'
    cases hm'

theorem Unbroken.push {fd : Nat} {m : Msg} (hi : Unbroken (.push fd m) buffer received refused pushed)
    (hhand : r'.hand = []) (htakes : r'.takes = none) :
    Unbroken r' buffer' received refused (pushed ++ [(m.conn, buffer m.addr)]) where
  all := fun c hc => by
    rw [hi.all c hc, hhand, bytesOf_append]
    exact (List.append_nil _).symm
  le := fun c => by
    rw [bytesOf_append]
    by_cases hc : m.conn = c
    · subst hc
      rw [hi.all _ (hi.takes m rfl)]
      exact List.prefix_rfl
    · rw [bytesOf_other hc, List.append_nil]
      exact hi.le c
  takes := fun m' hm' => by
    rw [htakes] at hm'
    cases hm'

/-- **A step keeps the bytes**, when the handle list has no room for a chunk behind a dropped one. -/
theorem Unbroken.step (hi : Unbroken r buffer received refused pushed) (hfits : r.Fits f)
    (hstep : Rx.Step room r f e r' f')
    (hroom : ∀ fd m, r = .got fd m → m.conn ∈ refused → ¬ room)
    (hbuffer : e.receives = [] → ∀ m ∈ r'.hand, buffer' m.addr = buffer m.addr)
    (hfill : e.receives ≠ [] → ∀ m ∈ r'.hand, buffer' m.addr = b) :
    Unbroken r' buffer' (received ++ e.receives.map fun c => (c, b)) (refused ++ e.refuses)
      (pushed ++ e.pushes.map fun m => (m.conn, buffer m.addr)) := by
  cases hstep with
  | recv fd m f len hlen =>
    have hfill := hfill (List.cons_ne_nil _ _) _ (List.mem_singleton_self _)
    show Unbroken _ _ (received ++ [((fd, (f fd).gen), b)]) (refused ++ []) (pushed ++ [])
    rw [List.append_nil, List.append_nil, ← show m.conn = (fd, (f fd).gen) from hfits.2]
    exact hi.recv hfill
  | drop fd m f =>
    show Unbroken _ _ (received ++ []) (refused ++ [m.conn]) (pushed ++ [])
    rw [List.append_nil, List.append_nil]
    exact hi.drop rfl rfl
  | push fd m f | pushNext fd m f =>
    show Unbroken _ _ (received ++ []) (refused ++ []) (pushed ++ [(m.conn, buffer m.addr)])
    rw [List.append_nil, List.append_nil]
    exact hi.push rfl rfl
  | same =>
    show Unbroken _ _ (received ++ []) (refused ++ []) (pushed ++ [])
    rw [List.append_nil, List.append_nil, List.append_nil]
    refine hi.goto (List.map_congr_left fun m hm => ?_) hi.takes
    rw [hbuffer rfl m hm]
  | tooMany fd m f =>
    show Unbroken _ _ (received ++ []) (refused ++ []) (pushed ++ [])
    rw [List.append_nil, List.append_nil, List.append_nil]
    refine hi.goto ?_ fun _ h => by cases h
    exact List.map_congr_left fun m hm => by rw [hbuffer rfl m hm]
  | fits fd m f h =>
    show Unbroken _ _ (received ++ []) (refused ++ []) (pushed ++ [])
    rw [List.append_nil, List.append_nil, List.append_nil]
    refine hi.goto (List.map_congr_left fun m hm => ?_) fun m' hm' => ?_
    · rw [hbuffer rfl m hm]
    · obtain rfl := Option.some.inj hm'
      exact fun hmem => hroom fd m rfl hmem h
  | seq fd m f =>
    show Unbroken _ _ (received ++ []) (refused ++ []) (pushed ++ [])
    rw [List.append_nil, List.append_nil, List.append_nil]
    refine hi.goto ?_ fun m' hm' => ?_
    · show [(m.conn, buffer' m.addr)] = [(m.conn, buffer m.addr)]
      rw [hbuffer rfl _ (List.mem_singleton_self _)]
    · obtain rfl := Option.some.inj hm'
      exact hi.takes m rfl
  | accept | acceptZero | reset | watch | refuse | unwatch | event | pop | leave | dropped
  | droppedNext =>
    show Unbroken _ _ (received ++ []) (refused ++ []) (pushed ++ [])
    rw [List.append_nil, List.append_nil, List.append_nil]
    exact hi.goto rfl fun _ h => by cases h

/-- the receiver keeps the Message it has in hand -/
theorem Rx.Step.hand_quiet (hstep : Rx.Step room r f e r' f') (hquiet : e.receives = []) {m : Msg}
    (hm : m ∈ r'.hand) : ∃ m0 ∈ r.hand, m0.addr = m.addr := by
  cases hstep with
  | same => exact ⟨m, hm, rfl⟩
  | tooMany | fits => exact ⟨m, hm, rfl⟩
  | seq fd m0 f =>
    obtain rfl := List.mem_singleton.mp hm
    exact ⟨m0, List.mem_singleton_self _, rfl⟩
  | recv => cases hquiet
  | accept | acceptZero | reset | watch | refuse | unwatch | event | pop | leave | drop | dropped
  | droppedNext | push | pushNext => cases hm

theorem Rx.Step.hand_receive (hstep : Rx.Step room r f e r' f') (hr : e.receives ≠ []) {m : Msg}
    (hm : m ∈ r'.hand) : ∃ fd m0, r = .ready fd m0 ∧ m0.addr = m.addr := by
  cases hstep with
  | recv fd m0 f len hlen =>
    obtain rfl := List.mem_singleton.mp hm
    exact ⟨fd, m0, rfl, rfl⟩
  | same | accept | acceptZero | reset | watch | refuse | unwatch | event | pop | leave | tooMany | fits
  | drop | dropped | droppedNext | seq | push | pushNext => exact absurd rfl hr

theorem rx_got {pc : MainPc} {fd : Nat} {m : Msg} (hrx : pc.rx = .got fd m) :
    pc = .handleSize fd m := by
  cases pc <;> cases hrx
  rfl

end

/-! ## the buffers of the Messages that are in use -/

theorem State.fills_mem {s : State h k} {a : Action h k} {addr : Nat} (hf : s.fills a = some addr) :
    (s.receives a = [] ∧ addr ∈ addrs s.mIdleMessageList) ∨
      (s.receives a ≠ [] ∧ ∃ fd m error, s.main = .recv fd m error ∧ m.addr = addr) := by
  cases a with
  | recv ret =>
    cases ret with
    | data n =>
      right
      unfold State.fills at hf
      unfold State.receives
      dsimp only at hf ⊢
      split at hf
      · next fd m error hp =>
        rw [hp]
        exact ⟨List.cons_ne_nil _ _, fd, m, error, rfl, Option.some.inj hf⟩
      · cases hf
    | closed | again | error => cases hf
  | call j fd len =>
    refine .inl ⟨rfl, ?_⟩
    obtain ⟨m, hm, rfl⟩ := Option.map_eq_some_iff.mp hf
    exact mem_addrs (List.mem_of_mem_head? hm)
  | accept | event | OnAccept | main | handler | send | sender | caller => cases hf

theorem State.fills_of_receives {s : State h k} {a : Action h k} (hr : s.receives a ≠ []) :
    ∃ fd m error, s.main = .recv fd m error ∧ s.fills a = some m.addr := by
  cases a with
  | recv ret =>
    cases ret with
    | data n =>
      unfold State.receives at hr
      unfold State.fills
      dsimp only at hr ⊢
      split at hr
      · next fd m error hp =>
        rw [hp]
        exact ⟨fd, m, error, rfl, rfl⟩
      · exact absurd rfl hr
    | closed | again | error => exact absurd rfl hr
  | accept | event | OnAccept | main | handler | send | sender | call | caller => exact absurd rfl hr

theorem hand_holds (pc : MainPc) {m : Msg} (hm : m ∈ pc.rx.hand) : m ∈ pc.holds := by
  cases pc <;> first | exact hm | cases hm

theorem State.objects_idle_main (s : State h k) : s.objects =
    (addrs s.mIdleMessageList + addrs s.main.holds) +
      (addrs s.mHandleMessageList + addrs s.mSendImmediatelyMessageList + addrs s.sender.holds +
        ∑ i, addrs (s.handler i).holds + ∑ j, addrs (s.caller j).holds) := by
  unfold State.objects State.listed State.threads
  abel

theorem Stream.Step.kept {s s' : Stream h k} {a : Action h k × List Byte} (hstep : s.Step a s')
    (hnodup : s.server.objects.Nodup) {addr : Nat}
    (hm : addr ∈ addrs s.server.mHandleMessageList + addrs s.server.mSendImmediatelyMessageList +
      addrs s.server.sender.holds + ∑ i, addrs (s.server.handler i).holds +
        ∑ j, addrs (s.server.caller j).holds) : s'.buffer addr = s.buffer addr := by
  apply hstep.buffer addr
  intro hf
  refine s.server.addr_unique hnodup s.server.objects_idle_main ?_ hm
  rcases State.fills_mem hf.symm with ⟨_, hidle⟩ | ⟨_, fd, m, error, hp, rfl⟩
  · exact Multiset.mem_add.mpr (.inl hidle)
  · refine Multiset.mem_add.mpr (.inr ?_)
    rw [hp]
    exact Multiset.mem_singleton_self _

theorem Stream.Step.kept_main {s s' : Stream h k} {a : Action h k × List Byte} (hstep : s.Step a s')
    (hnodup : s.server.objects.Nodup) (hquiet : s.server.receives a.1 = []) {m : Msg}
    (hm : m ∈ s.server.main.holds) : s'.buffer m.addr = s.buffer m.addr := by
  apply hstep.buffer m.addr
  intro hf
  rcases State.fills_mem hf.symm with ⟨_, hidle⟩ | ⟨hreceives, _⟩
  · rw [s.server.objects_idle_main] at hnodup
    have hdis := (Multiset.nodup_add.mp (Multiset.nodup_add.mp hnodup).1).2.2
    exact Multiset.disjoint_left.mp hdis hidle (mem_addrs hm)
  · exact hreceives hquiet

/-! ## all runs -/

/-- what holds in every run -/
structure Stream.Sound (pool : Nat) (s : Stream h k) : Prop where
  objects : s.server.objects = Multiset.range pool
  numbered : Numbered s.server.main.rx s.server.line (s.pushed.map Prod.fst)

theorem Stream.Sound.nodup {pool : Nat} {s : Stream h k} (hi : s.Sound pool) :
    s.server.objects.Nodup := hi.objects ▸ Multiset.nodup_range pool

theorem Stream.Sound.init (h k pool watchers handleSize : Nat)
    (junk : Nat → Int × Bool × Nat × Nat) :
    (Stream.init h k pool watchers handleSize junk).Sound pool where
  objects := objects_init ..
  numbered :=
    { watched := fun _ hw => by cases hw
      rx := trivial
      old := fun _ hm => by cases hm
      seqs := fun _ => rfl
      next := fun _ hserved _ => absurd rfl hserved.2
      fresh := fun _ hreset => hreset.elim }

theorem Stream.Sound.step {pool : Nat} {s s' : Stream h k} {a : Action h k × List Byte}
    (hi : s.Sound pool) (hstep : s.Step a s') : s'.Sound pool := by
  obtain ⟨e, he⟩ := rx_step hstep.server
  refine ⟨(objects_step hstep.server).trans hi.objects, ?_⟩
  have hpushed : s'.pushed.map Prod.fst = s.pushed.map Prod.fst ++ e.pushes := by
    rw [hstep.pushed, he.pushes, List.map_append, List.map_map]
    exact congrArg _ (List.map_id _)
  rw [hpushed]
  exact hi.numbered.step he.step

/-- no chunk is put in the handle list behind a dropped one of its connection -/
def Stream.NoGap (s : Stream h k) (a : Action h k × List Byte) : Prop :=
  match a.1, s.server.main with
  | .main, .handleSize _ m => m.conn ∈ s.refused → s.server.Overloaded
  | _, _ => True

instance (s : Stream h k) (a : Action h k × List Byte) : Decidable (s.NoGap a) := by
  unfold Stream.NoGap
  split <;> infer_instance

/-- the Messages put in the handle list for a connection are numbered 0, 1, 2, … in the order of the
list, and their bytes are the beginning of what `recv` returned on it -/
def Stream.ReceivedInOrder (s : Stream h k) : Prop :=
  ∀ c, (ofConn (s.pushed.map Prod.fst) c).map Msg.seq
      = List.range (ofConn (s.pushed.map Prod.fst) c).length ∧
    bytesOf (tagged s.pushed) c <+: bytesOf s.received c

structure Stream.InOrder (pool : Nat) (s : Stream h k) : Prop where
  sound : s.Sound pool
  unbroken : Unbroken s.server.main.rx s.buffer s.received s.refused (tagged s.pushed)

theorem Stream.InOrder.init (h k pool watchers handleSize : Nat)
    (junk : Nat → Int × Bool × Nat × Nat) :
    (Stream.init h k pool watchers handleSize junk).InOrder pool where
  sound := .init ..
  unbroken := ⟨fun _ _ => rfl, fun _ => List.prefix_rfl, fun _ h => by cases h⟩

theorem Stream.InOrder.step {pool : Nat} {s s' : Stream h k} {a : Action h k × List Byte}
    (hi : s.InOrder pool) (hgap : s.NoGap a) (hstep : s.Step a s') : s'.InOrder pool := by
  obtain ⟨e, he⟩ := rx_step hstep.server
  refine ⟨hi.sound.step hstep, ?_⟩
  have hpushed : tagged s'.pushed
      = tagged s.pushed ++ e.pushes.map fun m => (m.conn, s.buffer m.addr) := by
    rw [hstep.pushed, he.pushes]
    unfold tagged
    rw [List.map_append, List.map_map]
    rfl
  rw [hstep.received, hstep.refused, hpushed, he.receives, he.refuses]
  refine hi.unbroken.step hi.sound.numbered.rx he.step ?_ ?_ ?_
  · rintro fd m hrx hmem ⟨ha, hroom⟩
    rw [Stream.NoGap, ha, rx_got hrx] at hgap
    exact hroom (hgap hmem)
  · intro hquiet m hm
    obtain ⟨m0, hm0, haddr⟩ := he.step.hand_quiet hquiet hm
    rw [← haddr]
    exact hstep.kept_main hi.sound.nodup (he.receives.trans hquiet) (hand_holds _ hm0)
  · intro hreceives m hm
    obtain ⟨fd, m0, hready, haddr⟩ := he.step.hand_receive hreceives hm
    refine hstep.filled m.addr ?_
    obtain ⟨fd', m', error, hmain, hfills⟩ := State.fills_of_receives (he.receives ▸ hreceives)
    rw [hmain] at hready
    obtain ⟨-, rfl⟩ := Rx.ready.inj hready
    rw [hfills, haddr]

section
variable {pool watchers handleSize : Nat} {junk : Nat → Int × Bool × Nat × Nat}
  {l : List (Action h k × List Byte)} {s : Stream h k}

end

/-! ## runs with one handler thread and at most one Message more than fits -/

def plain (l : List (Action 1 1)) : List (Action 1 1 × List Byte) := l.map fun a => (a, [])

def accept5 : List (Action 1 1 × List Byte) :=
  plain [.accept 5, .main, .main, .main, .OnAccept true, .main]

def chunk5 (b : Byte) : List (Action 1 1 × List Byte) :=
  plain [.event 5 false, .main] ++ [(.recv (.data 1), [b])] ++ plain [.main, .main, .main, .main]

def late5 (b : Byte) : List (Action 1 1 × List Byte) :=
  plain [.event 5 false, .main] ++ [(.recv (.data 1), [b])] ++ plain [.main, .main, .main]

def fresh : Stream 1 1 := Stream.init 1 1 3 1 1 fun _ => (7, true, 7, 7)

end VncProxy.Tcp
