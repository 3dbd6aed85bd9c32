import VncProxy.Tcp.Process

/-!
# The arrays that are indexed by descriptors

* `State.Bounded`         every number that can become an index is below the size of the arrays; each
                          thread keeps it so;
* `Server.Pending`        the main thread is about to use an index outside;
* `indices_in_range_iff`  a run keeps to the condition just when no access is outside the arrays.
-/

namespace VncProxy.Tcp

variable {h k : Nat}

/-! ## the invariant -/

/-- the descriptor a thread is busy with -/
def MainPc.fd : MainPc → Option Nat
  | .loop | .idle _ => none
  | .resetCount fd | .resetSeqRecv fd | .resetSeqSend fd | .OnAccept fd | .watch fd | .refuse fd
  | .popIdle fd _ | .recv fd _ _ | .handleSize fd _ | .OnTimeoutMessage fd _ | .timeoutIdle fd _
  | .count fd _ | .seq fd _ | .push fd _ | .againIdle fd _ | .StopEvio fd _ | .OnDisconnect fd _
  | .closeIfNeed fd _ | .OnClose fd _ | .close fd _ => some fd

def MainPc.fds (pc : MainPc) : List Nat := pc.fd.toList ++ pc.holds.map Msg.fd

def HandlerPc.fds : HandlerPc → List Nat
  | .OnClose fd m | .close fd m => [fd, m.fd]
  | pc => pc.holds.map Msg.fd

def SenderPc.fds : SenderPc → List Nat
  | .popFront => []
  | .send m _ | .OnSendMessage m | .Disconnect m | .idle m | .readFd m => [m.fd]
  | .closeIfNeed m fd => [m.fd, fd]
  | .OnClose fd | .close fd => [fd]

/-- every number that can become an index is below `n`; a Message that was never used has 0 -/
structure State.Bounded (n : Nat) (s : State h k) : Prop where
  main : ∀ fd ∈ s.main.fds, fd < n
  handler : ∀ i, ∀ fd ∈ (s.handler i).fds, fd < n
  sender : ∀ fd ∈ s.sender.fds, fd < n
  caller : ∀ j, ∀ m ∈ (s.caller j).holds, m.fd < n
  handleList : ∀ m ∈ s.mHandleMessageList, m.fd < n
  sendList : ∀ m ∈ s.mSendImmediatelyMessageList, m.fd < n
  idle : ∀ m ∈ s.mIdleMessageList, m.fd = 0 ∨ m.fd < n
  watched : ∀ fd, (s.slot fd).watched = true → fd < n
  gen : ∀ fd, 0 < (s.slot fd).gen → fd = 0 ∨ fd < n

namespace State.Bounded

variable {n : Nat} {s : State h k}

theorem init (pool watchers handleSize : Nat) (junk : Nat → Int × Bool × Nat × Nat) :
    (State.init h k pool watchers handleSize junk).Bounded n where
  main := nofun
  handler := fun _ => nofun
  sender := nofun
  caller := fun _ => nofun
  handleList := nofun
  sendList := nofun
  idle := by
    intro m hm
    obtain ⟨a, _, rfl⟩ := List.mem_map.mp hm
    exact .inl rfl
  watched := nofun
  gen := fun _ hg => absurd hg (Nat.lt_irrefl 0)

theorem setMain (hs : s.Bounded n) {pc : MainPc} (hpc : ∀ fd ∈ pc.fds, fd < n) :
    (s.setMain pc).Bounded n :=
  { hs with main := hpc }

theorem setSender (hs : s.Bounded n) {pc : SenderPc} (hpc : ∀ fd ∈ pc.fds, fd < n) :
    (s.setSender pc).Bounded n :=
  { hs with sender := hpc }

theorem setHandler (hs : s.Bounded n) (i : Fin h) {pc : HandlerPc} (hpc : ∀ fd ∈ pc.fds, fd < n) :
    (s.setHandler i pc).Bounded n :=
  { hs with
    handler := by
      intro i'
      show ∀ fd ∈ (Function.update s.handler i pc i').fds, fd < n
      by_cases hi : i' = i
      · rw [hi, Function.update_self]
        exact hpc
      · rw [Function.update_of_ne hi]
        exact hs.handler i' }

theorem setCaller (hs : s.Bounded n) (j : Fin k) {pc : CallerPc} (hpc : ∀ m ∈ pc.holds, m.fd < n) :
    (s.setCaller j pc).Bounded n :=
  { hs with
    caller := by
      intro j'
      show ∀ m ∈ (Function.update s.caller j pc j').holds, m.fd < n
      by_cases hj : j' = j
      · rw [hj, Function.update_self]
        exact hpc
      · rw [Function.update_of_ne hj]
        exact hs.caller j' }

theorem pushIdle (hs : s.Bounded n) {m : Msg} (hm : m.fd < n) : (s.pushIdle m).Bounded n :=
  { hs with
    idle := by
      intro m' hm'
      rcases List.mem_append.mp hm' with hm' | hm'
      · exact hs.idle m' hm'
      · rw [List.mem_singleton.mp hm']
        exact .inr hm }

theorem setSlot (hs : s.Bounded n) {fd : Nat} {sl : Slot} (hw : sl.watched = true → fd < n)
    (hg : 0 < sl.gen → fd = 0 ∨ fd < n) : (s.setSlot fd sl).Bounded n :=
  { hs with
    watched := by
      intro fd'
      show (Function.update s.slot fd sl fd').watched = true → fd' < n
      by_cases hfd : fd' = fd
      · rw [hfd, Function.update_self]
        exact hw
      · rw [Function.update_of_ne hfd]
        exact hs.watched fd'
    gen := by
      intro fd'
      show 0 < (Function.update s.slot fd sl fd').gen → fd' = 0 ∨ fd' < n
      by_cases hfd : fd' = fd
      · rw [hfd, Function.update_self]
        exact hg
      · rw [Function.update_of_ne hfd]
        exact hs.gen fd' }

theorem setWatchers (hs : s.Bounded n) (w : Nat) : State.Bounded n { s with mWatcherList := w } :=
  { hs with }

theorem setIdle (hs : s.Bounded n) {m : Msg} {l : List Msg} (hl : s.mIdleMessageList = m :: l) :
    State.Bounded n { s with mIdleMessageList := l } :=
  { hs with idle := fun m' hm' => hs.idle m' (hl ▸ List.mem_cons_of_mem _ hm') }

theorem popHandle (hs : s.Bounded n) {m : Msg} {l : List Msg} (hl : s.mHandleMessageList = m :: l) :
    State.Bounded n { s with mHandleMessageList := l } ∧ m.fd < n :=
  ⟨{ hs with handleList := fun m' hm' => hs.handleList m' (hl ▸ List.mem_cons_of_mem _ hm') },
    hs.handleList m (hl ▸ List.mem_cons_self)⟩

theorem popSend (hs : s.Bounded n) {m : Msg} {l : List Msg}
    (hl : s.mSendImmediatelyMessageList = m :: l) :
    State.Bounded n { s with mSendImmediatelyMessageList := l } ∧ m.fd < n :=
  ⟨{ hs with sendList := fun m' hm' => hs.sendList m' (hl ▸ List.mem_cons_of_mem _ hm') },
    hs.sendList m (hl ▸ List.mem_cons_self)⟩

theorem forall_concat {l : List Msg} {m : Msg} (hl : ∀ m ∈ l, m.fd < n) (hm : m.fd < n) :
    ∀ m' ∈ l ++ [m], m'.fd < n := by
  intro m' hm'
  rcases List.mem_append.mp hm' with hm' | hm'
  · exact hl m' hm'
  · rw [List.mem_singleton.mp hm']
    exact hm

theorem pushHandle (hs : s.Bounded n) {m : Msg} (hm : m.fd < n) :
    State.Bounded n { s with mHandleMessageList := s.mHandleMessageList ++ [m] } :=
  { hs with handleList := forall_concat hs.handleList hm }

theorem pushSend (hs : s.Bounded n) {m : Msg} (hm : m.fd < n) :
    State.Bounded n
      { s with mSendImmediatelyMessageList := s.mSendImmediatelyMessageList ++ [m] } :=
  { hs with sendList := forall_concat hs.sendList hm }

/-- an entry changed by a thread that is busy with its descriptor -/
theorem slotOf (hs : s.Bounded n) {fd : Nat} (hfd : fd < n) (sl : Slot) : (s.setSlot fd sl).Bounded n :=
  hs.setSlot (fun _ => hfd) fun _ => .inr hfd

theorem next_fds {fd : Nat} (m : Msg) (hfd : fd < n) : ∀ x ∈ (MainPc.next fd m).fds, x < n := by
  unfold MainPc.next
  split
  · nofun
  · intro x hx
    rw [List.mem_singleton.mp hx]
    exact hfd

/-! ### the main thread -/

theorem accepted (hs : s.Bounded n) {fd : Nat} (hfd : fd = 0 ∨ fd < n) : (s.accepted fd).Bounded n := by
  have hslot : (s.setSlot fd (s.slot fd).accept).Bounded n :=
    hs.setSlot (hs.watched fd) fun _ => hfd
  unfold State.accepted
  dsimp only
  split
  · exact hslot
  · next h0 =>
    refine hslot.setMain fun x hx => ?_
    rw [List.mem_singleton.mp hx]
    exact hfd.resolve_left h0

theorem event (hs : s.Bounded n) {fd : Nat} {error : Bool} {s' : State h k}
    (h : s.event fd error = some s') : s'.Bounded n := by
  unfold State.event at h
  split at h
  · next hc =>
    obtain rfl := Option.some.inj h
    refine hs.setMain fun x hx => ?_
    rw [List.mem_singleton.mp hx]
    exact hs.watched fd hc.2
  · cases h

theorem onAccept (hs : s.Bounded n) {ret : Bool} {s' : State h k} (h : s.onAccept ret = some s') :
    s'.Bounded n := by
  have hm := hs.main
  unfold State.onAccept at h
  split at h
  · next fd hp =>
    rw [hp] at hm
    obtain rfl := Option.some.inj h
    refine hs.setMain ?_
    split <;> exact hm
  · cases h

theorem recv (hs : s.Bounded n) {ret : RecvRet} {s' : State h k} (h : s.recv ret = some s') :
    s'.Bounded n := by
  have hm := hs.main
  unfold State.recv at h
  split at h
  · next fd m hp =>
    rw [hp] at hm
    split at h
    · split at h
      · obtain rfl := Option.some.inj h
        exact hs.setMain hm
      · cases h
    all_goals
      obtain rfl := Option.some.inj h
      exact hs.setMain hm
  · cases h

theorem popIdle (hs : s.Bounded n) {fd : Nat} (hfd : fd < n) {m : Msg} {l : List Msg} {error : Bool}
    (hl : s.mIdleMessageList = m :: l) :
    ({ s with mIdleMessageList := l }.setMain
      (.recv fd { m with fd := fd, gen := (s.slot fd).gen, len := 0, seq := 0 } error)).Bounded n := by
  refine (hs.setIdle hl).setMain fun x hx => ?_
  rcases List.mem_cons.mp hx with rfl | hx
  · exact hfd
  · rw [List.mem_singleton.mp hx]
    exact hfd

theorem stepMain (hs : s.Bounded n) {s' : State h k} (h : s.stepMain = some s') : s'.Bounded n := by
  have hm := hs.main
  unfold State.stepMain at h
  -- one case for each place of the main thread; `hm` says that its numbers are in range
  split at h <;> try (rename_i hp; rw [hp] at hm)
  · obtain rfl := Option.some.inj h
    exact (hs.slotOf (hm _ List.mem_cons_self) _).setMain hm
  · obtain rfl := Option.some.inj h
    exact (hs.slotOf (hm _ List.mem_cons_self) _).setMain hm
  · obtain rfl := Option.some.inj h
    exact (hs.slotOf (hm _ List.mem_cons_self) _).setMain hm
  · split at h
    · obtain rfl := Option.some.inj h
      exact ((hs.slotOf (hm _ List.mem_cons_self) _).setWatchers _).setMain nofun
    · obtain rfl := Option.some.inj h
      exact hs.setMain hm
  · obtain rfl := Option.some.inj h
    exact hs.setMain hm
  · split at h
    · exact Option.some.inj h ▸ hs
    · next hl =>
      obtain rfl := Option.some.inj h
      exact hs.popIdle (hm _ List.mem_cons_self) hl
  · obtain rfl := Option.some.inj h
    exact hs.setMain hm
  · split at h
    all_goals
      obtain rfl := Option.some.inj h
      exact hs.setMain hm
  · obtain rfl := Option.some.inj h
    exact hs.setMain hm
  · obtain rfl := Option.some.inj h
    exact (hs.pushIdle (hm _ (by simp [MainPc.fds, MainPc.fd, MainPc.holds]))).setMain
      (next_fds _ (hm _ List.mem_cons_self))
  · obtain rfl := Option.some.inj h
    exact (hs.slotOf (hm _ List.mem_cons_self) _).setMain hm
  · obtain rfl := Option.some.inj h
    exact (hs.slotOf (hm _ List.mem_cons_self) _).setMain hm
  · obtain rfl := Option.some.inj h
    exact (hs.pushHandle (hm _ (by simp [MainPc.fds, MainPc.fd, MainPc.holds]))).setMain
      (next_fds _ (hm _ List.mem_cons_self))
  · obtain rfl := Option.some.inj h
    exact (hs.pushIdle (hm _ (by simp [MainPc.fds, MainPc.fd, MainPc.holds]))).setMain nofun
  · obtain rfl := Option.some.inj h
    exact ((hs.slotOf (hm _ List.mem_cons_self) _).setWatchers _).setMain hm
  · obtain rfl := Option.some.inj h
    exact hs.setMain hm
  · obtain rfl := Option.some.inj h
    refine (hs.slotOf (hm _ List.mem_cons_self) _).setMain ?_
    split
    · exact hm
    · exact fun x hx => hm x (List.mem_cons_of_mem _ hx)
  · obtain rfl := Option.some.inj h
    exact (hs.slotOf (hm _ List.mem_cons_self) _).setMain hm
  · obtain rfl := Option.some.inj h
    exact (hs.slotOf (hm _ List.mem_cons_self) _).setMain fun x hx => hm x (List.mem_cons_of_mem _ hx)
  · obtain rfl := Option.some.inj h
    exact hs.setMain nofun
  · obtain rfl := Option.some.inj h
    exact (hs.pushIdle (hm _ (by simp [MainPc.fds, MainPc.fd, MainPc.holds]))).setMain nofun
  · cases h

/-! ### the other threads -/

theorem stepHandler (hs : s.Bounded n) {i : Fin h} {s' : State h k} (h : s.stepHandler i = some s') :
    s'.Bounded n := by
  have hm := hs.handler i
  unfold State.stepHandler at h
  split at h <;> rename_i hp <;> rw [hp] at hm
  · split at h
    · exact Option.some.inj h ▸ hs
    · next hl =>
      obtain rfl := Option.some.inj h
      obtain ⟨h1, h2⟩ := hs.popHandle hl
      refine h1.setHandler i fun x hx => ?_
      rw [List.mem_singleton.mp hx]
      exact h2
  · obtain rfl := Option.some.inj h
    refine hs.setHandler i ?_
    split <;> exact hm
  · obtain rfl := Option.some.inj h
    refine (hs.slotOf (hm _ List.mem_cons_self) _).setHandler i ?_
    split
    · intro x hx
      rcases List.mem_cons.mp hx with rfl | hx
      · exact hm _ List.mem_cons_self
      · exact hm x hx
    · exact hm
  · obtain rfl := Option.some.inj h
    exact (hs.slotOf (hm _ List.mem_cons_self) _).setHandler i hm
  · obtain rfl := Option.some.inj h
    exact (hs.slotOf (hm _ List.mem_cons_self) _).setHandler i
      fun x hx => hm x (List.mem_cons_of_mem _ hx)
  · obtain rfl := Option.some.inj h
    exact (hs.pushIdle (hm _ List.mem_cons_self)).setHandler i nofun

theorem send (hs : s.Bounded n) {ret : SendRet} {s' : State h k} (h : s.send ret = some s') :
    s'.Bounded n := by
  have hm := hs.sender
  unfold State.send at h
  split at h
  · next m index hp =>
    rw [hp] at hm
    split at h
    · split at h
      · obtain rfl := Option.some.inj h
        refine hs.setSender ?_
        split <;> exact hm
      · cases h
    · obtain rfl := Option.some.inj h
      exact hs.setSender hm
    · exact Option.some.inj h ▸ hs
    · obtain rfl := Option.some.inj h
      exact hs.setSender hm
  · cases h

theorem readFd (hs : s.Bounded n) {m : Msg} (hm : m.fd < n) : s.readFd m < n := by
  unfold State.readFd
  split
  · next m' hfind =>
    have hmem := List.mem_of_find?_eq_some hfind
    have hmain : ∀ x ∈ s.main.holds, x.fd < n := fun x hx =>
      hs.main x.fd (List.mem_append_right _ (List.mem_map_of_mem hx))
    have hhandler : ∀ i, ∀ x ∈ (s.handler i).holds, x.fd < n := by
      intro i x hx
      refine hs.handler i x.fd ?_
      cases hp : s.handler i <;> rw [hp] at hx <;> simp [HandlerPc.holds, HandlerPc.fds] at hx ⊢ <;>
        simp [hx]
    simp only [State.messages, List.mem_append, List.mem_flatMap, List.mem_ofFn] at hmem
    rcases hmem with ((((h1 | h1) | h1) | h1) | ⟨_, ⟨i, rfl⟩, h1⟩) | ⟨_, ⟨j, rfl⟩, h1⟩
    · rcases hs.idle m' h1 with h0 | h0
      · omega
      · exact h0
    · exact hs.handleList m' h1
    · exact hs.sendList m' h1
    · exact hmain m' h1
    · exact hhandler i m' h1
    · exact hs.caller j m' h1
  · exact hm

theorem stepSender (hs : s.Bounded n) {s' : State h k} (h : s.stepSender = some s') :
    s'.Bounded n := by
  have hm := hs.sender
  unfold State.stepSender at h
  split at h <;> rename_i hp <;> rw [hp] at hm
  · split at h
    · exact Option.some.inj h ▸ hs
    · next hl =>
      obtain rfl := Option.some.inj h
      obtain ⟨h1, h2⟩ := hs.popSend hl
      refine h1.setSender fun x hx => ?_
      rw [List.mem_singleton.mp hx]
      exact h2
  · obtain rfl := Option.some.inj h
    exact hs.setSender hm
  · obtain rfl := Option.some.inj h
    exact hs.setSender hm
  · obtain rfl := Option.some.inj h
    exact (hs.pushIdle (hm _ List.mem_cons_self)).setSender hm
  · obtain rfl := Option.some.inj h
    have hfd := hm _ List.mem_cons_self
    refine hs.setSender fun x hx => ?_
    rcases List.mem_cons.mp hx with rfl | hx
    · exact hfd
    · rw [List.mem_singleton.mp hx]
      exact hs.readFd hfd
  · obtain rfl := Option.some.inj h
    have hfd := hm _ (List.mem_cons_of_mem _ List.mem_cons_self)
    refine (hs.slotOf hfd _).setSender ?_
    split
    · exact fun x hx => hm x (List.mem_cons_of_mem _ hx)
    · nofun
  · obtain rfl := Option.some.inj h
    exact (hs.slotOf (hm _ List.mem_cons_self) _).setSender hm
  · obtain rfl := Option.some.inj h
    exact (hs.slotOf (hm _ List.mem_cons_self) _).setSender nofun
  · cases h

theorem callAny (hs : s.Bounded n) {j : Fin k} {fd len : Nat} (hfd : fd < n) {s' : State h k}
    (h : s.callAny j fd len = some s') : s'.Bounded n := by
  unfold State.callAny at h
  split at h
  · split at h
    · exact Option.some.inj h ▸ hs
    · next hl =>
      obtain rfl := Option.some.inj h
      refine (hs.setIdle hl).setCaller j fun x hx => ?_
      rw [List.mem_singleton.mp hx]
      exact hfd
  · cases h

theorem stepCaller (hs : s.Bounded n) {j : Fin k} {s' : State h k} (h : s.stepCaller j = some s') :
    s'.Bounded n := by
  have hm := hs.caller j
  unfold State.stepCaller at h
  split at h <;> rename_i hp <;> rw [hp] at hm
  · cases h
  · obtain rfl := Option.some.inj h
    exact (hs.slotOf (hm _ List.mem_cons_self) _).setCaller j hm
  · obtain rfl := Option.some.inj h
    have hfd := hm _ List.mem_cons_self
    refine (hs.slotOf hfd _).setCaller j fun x hx => ?_
    rw [List.mem_singleton.mp hx]
    exact hfd
  · obtain rfl := Option.some.inj h
    exact (hs.pushSend (hm _ List.mem_cons_self)).setCaller j nofun

/-- **The numbers stay in range**, and every step uses them only. -/
theorem accesses_lt (hs : s.Bounded n) (a : Action h k) : ∀ x ∈ s.accesses a, x.2 < n := by
  have hclose : ∀ fd, fd < n → ∀ x ∈ closeAccesses fd, x.2 < n := by
    intro fd hfd x hx
    simp only [closeAccesses, List.mem_cons, List.not_mem_nil, or_false] at hx
    rcases hx with rfl | rfl <;> exact hfd
  intro x hx
  cases a with
  | main =>
    have hm := hs.main
    change x ∈ s.main.accesses at hx
    cases hp : s.main <;> rw [hp] at hx hm <;> simp only [MainPc.accesses, List.not_mem_nil] at hx
    case closeIfNeed fd m => exact hclose fd (hm _ List.mem_cons_self) x hx
    all_goals
      simp only [List.mem_cons, List.not_mem_nil, or_false] at hx
      have hfd := hm _ List.mem_cons_self
      first
        | exact hx ▸ hfd
        | (rcases hx with rfl | rfl <;> exact hfd)
  | handler i =>
    have hm := hs.handler i
    change x ∈ (s.handler i).accesses at hx
    cases hp : s.handler i <;> rw [hp] at hx hm <;> simp only [HandlerPc.accesses, List.not_mem_nil] at hx
    exact hclose _ (hm _ List.mem_cons_self) x hx
  | sender =>
    have hm := hs.sender
    change x ∈ s.sender.accesses at hx
    cases hp : s.sender <;> rw [hp] at hx hm <;> simp only [SenderPc.accesses, List.not_mem_nil] at hx
    exact hclose _ (hm _ (List.mem_cons_of_mem _ List.mem_cons_self)) x hx
  | caller j =>
    have hm := hs.caller j
    change x ∈ (s.caller j).accesses at hx
    cases hp : s.caller j <;> rw [hp] at hx hm <;>
      simp only [CallerPc.accesses, List.mem_singleton, List.not_mem_nil] at hx
    all_goals
      rw [hx]
      exact hm _ List.mem_cons_self
  | accept | event | OnAccept | recv | send | call => cases hx

end State.Bounded

/-! ## the two servers -/

namespace Server

variable {s : Server h k}

/-- `accept` has not failed, and every number is in range -/
structure Bounded (s : Server h k) : Prop where
  failed : s.failed = false
  threads : s.threads.Bounded (2 * s.maxConnection)

theorem Bounded.inRange (hs : s.Bounded) (a : Action h k) : ∀ i ∈ s.indices a, s.InRange i := by
  intro i hi
  unfold indices at hi
  rw [if_neg (by rw [hs.failed]; simp)] at hi
  obtain ⟨x, hx, rfl⟩ := List.mem_map.mp hi
  have hlt := hs.threads.accesses_lt a x hx
  exact ⟨Int.natCast_nonneg _, Int.ofNat_lt.mpr hlt⟩

theorem Bounded.thread (hs : s.Bounded) {a : Action h k} {t : State h k} (h : s.thread a = some t) :
    t.Bounded (2 * s.maxConnection) := by
  have ht := hs.threads
  cases a with
  | accept fd => cases h
  | call j fd len =>
    change (if _ then _ else _) = some t at h
    split at h
    · next hc => exact ht.callAny ((ht.gen fd hc.2).resolve_left hc.1) h
    · cases h
  | event fd error =>
    change (if _ then _ else _) = some t at h
    rw [hs.failed] at h
    exact ht.event h
  | OnAccept ret => exact ht.onAccept h
  | recv ret => exact ht.recv h
  | main => exact ht.stepMain h
  | handler i => exact ht.stepHandler h
  | send ret => exact ht.send h
  | sender => exact ht.stepSender h
  | caller j => exact ht.stepCaller h

/-- the main thread is about to use an index outside the arrays -/
def Pending (s : Server h k) : Prop :=
  s.failed = true ∧ s.threads.main = .loop ∨
    ∃ fd, s.threads.main = .resetCount fd ∧ 2 * s.maxConnection ≤ fd

theorem Pending.outside (hs : s.Pending) : ∃ i ∈ s.indices .main, ¬ s.InRange i := by
  by_cases hf : s.failed = true
  · exact ⟨-1, by simp [indices, hf], fun hr => absurd hr.1 (by decide)⟩
  · obtain ⟨fd, hp, hle⟩ := hs.resolve_left fun h => hf h.1
    refine ⟨fd, ?_, fun hr => ?_⟩
    · unfold indices
      rw [if_neg fun h => hf h.1]
      refine List.mem_map.mpr ⟨(.mpCloseRecv, fd), ?_, rfl⟩
      show _ ∈ s.threads.main.accesses
      rw [hp]
      exact List.mem_cons_self
    · have := hr.2
      omega

/-- no other thread makes its step for it -/
theorem Pending.main_same (hs : s.Pending) {a : Action h k} (ha : a ≠ .main) {t : State h k}
    (h : s.thread a = some t) : t.main = s.threads.main := by
  have hpc : s.threads.main = .loop ∨ ∃ fd, s.threads.main = .resetCount fd :=
    hs.imp And.right fun ⟨fd, hp, _⟩ => ⟨fd, hp⟩
  cases a with
  | accept fd => cases h
  | main => exact absurd rfl ha
  | event fd error =>
    -- the loop calls nothing while the main thread is in `Accept_Callback`
    change (if _ then _ else _) = some t at h
    split at h
    · cases h
    · next hf =>
      obtain ⟨fd', hp, _⟩ := hs.resolve_left fun h => hf h.1
      simp [State.event, hp] at h
  | OnAccept ret =>
    change s.threads.onAccept ret = some t at h
    unfold State.onAccept at h
    rcases hpc with hp | ⟨fd', hp⟩ <;> rw [hp] at h <;> cases h
  | recv ret =>
    change s.threads.recv ret = some t at h
    unfold State.recv at h
    rcases hpc with hp | ⟨fd', hp⟩ <;> rw [hp] at h <;> cases h
  | handler i => exact main_others (a := .handler i) id h
  | send ret => exact main_others (a := .send ret) id h
  | sender => exact main_others (a := .sender) id h
  | call j fd len =>
    change (if _ then _ else _) = some t at h
    split at h
    · exact main_others (a := .call j fd len) id h
    · cases h
  | caller j => exact main_others (a := .caller j) id h

end Server

/-! ## the process -/

namespace Process

variable {miMaxClient : Nat} {p p' : Process h k}

def Sized (miMaxClient : Nat) (p : Process h k) : Prop :=
  ∀ x, (p.server x).maxConnection = x.maxConnection miMaxClient

structure Bounded (miMaxClient : Nat) (p : Process h k) : Prop where
  sized : p.Sized miMaxClient
  inside : p.outside = false
  servers : ∀ x, (p.server x).Bounded

/-- an access has been outside the arrays, or a main thread is about to make one -/
def Spoilt (p : Process h k) : Prop := p.outside = true ∨ ∃ x, (p.server x).Pending

theorem forall_setServer {P : Server h k → Prop} (hp : ∀ x, P (p.server x)) {x : ServerName}
    {s : Server h k} (hs : P s) (y : ServerName) : P ((p.setServer x s).server y) := by
  show P (Function.update p.server x s y)
  by_cases hy : y = x
  · rw [hy, Function.update_self]
    exact hs
  · rw [Function.update_of_ne hy]
    exact hp y

inductive Change (p : Process h k) : Event h k → Process h k → Prop
  | accepted {x : ServerName} {fd : Nat} {o : Nat → Bool} (hready : ¬ (p.server x).Pending) :
      Change p (.accept x (.client fd))
        { p.setServer x { p.server x with threads := (p.server x).threads.accepted fd } with
          isOpen := o }
  | failed {x : ServerName} (hready : ¬ (p.server x).Pending)
      (hloop : (p.server x).threads.main = .loop) :
      Change p (.accept x .error) (p.setServer x { p.server x with failed := true })
  | thread {x : ServerName} {a : Action h k} {t : State h k} {o : Nat → Bool}
      (hrange : ∀ i ∈ (p.server x).indices a, (p.server x).InRange i)
      (ht : (p.server x).thread a = some t) :
      Change p (.thread x a)
        { p.setServer x { p.server x with threads := t } with isOpen := o }
  | outside {x : ServerName} {a : Action h k}
      (hrange : ¬ ∀ i ∈ (p.server x).indices a, (p.server x).InRange i) :
      Change p (.thread x a) { p with outside := true }
  | unset {j : Fin k} : Change p (.sendUnset j) { p with outside := true }
  | same {e : Event h k} (o : Nat → Bool) (he : ∀ m, e.Fits m) : Change p e { p with isOpen := o }

theorem step_cases {e : Event h k} (hstep : p.step e = some p') :
    p.outside = false ∧ p.Change e p' := by
  unfold step at hstep
  split at hstep
  · cases hstep
  next hout =>
  refine ⟨by simpa using hout, ?_⟩
  cases e with
  | accept x ret =>
    change p.accept x ret = some p' at hstep
    unfold accept at hstep
    split at hstep
    · next hc =>
      have hready : ¬ (p.server x).Pending := by
        rintro (⟨hf, _⟩ | ⟨fd, hm, _⟩)
        · rw [hc.2] at hf
          cases hf
        · rw [hc.1] at hm
          cases hm
      cases ret with
      | client fd =>
        dsimp only at hstep
        split at hstep
        · exact Option.some.inj hstep ▸ .accepted hready
        · cases hstep
      | again => exact Option.some.inj hstep ▸ .same p.isOpen fun _ => trivial
      | error => exact Option.some.inj hstep ▸ .failed hready hc.1
    · cases hstep
  | thread x a =>
    change p.thread x a = some p' at hstep
    unfold thread at hstep
    split at hstep
    · next hr =>
      obtain ⟨t, ht, rfl⟩ := Option.map_eq_some_iff.mp hstep
      exact .thread hr ht
    · next hr => exact Option.some.inj hstep ▸ .outside hr
  | sendUnset j =>
    change p.sendUnset j = some p' at hstep
    unfold sendUnset at hstep
    split at hstep
    · split at hstep
      · exact Option.some.inj hstep ▸ .unset
      · cases hstep
    · cases hstep
  | openOther fd =>
    dsimp only at hstep
    split at hstep
    · exact Option.some.inj hstep ▸ .same _ fun _ => trivial
    · cases hstep
  | closeOther fd => exact Option.some.inj hstep ▸ .same _ fun _ => trivial

theorem Sized.step (hp : p.Sized miMaxClient) {e : Event h k} (hstep : p.step e = some p') :
    p'.Sized miMaxClient := by
  intro y
  have key : ∀ (x : ServerName) (s : Server h k), s.maxConnection = (p.server x).maxConnection →
      ((p.setServer x s).server y).maxConnection = y.maxConnection miMaxClient := by
    intro x s hs
    show (Function.update p.server x s y).maxConnection = _
    by_cases hy : y = x
    · rw [hy, Function.update_self, hs, hp x]
    · rw [Function.update_of_ne hy, hp y]
  cases (step_cases hstep).2 with
  | accepted => exact key _ _ rfl
  | failed => exact key _ _ rfl
  | thread => exact key _ _ rfl
  | outside | unset | same => exact hp y

theorem Bounded.step (hp : p.Bounded miMaxClient) {e : Event h k} (he : e.Fits miMaxClient)
    (hstep : p.step e = some p') : p'.Bounded miMaxClient := by
  refine ⟨hp.sized.step hstep, ?_, ?_⟩
  · cases (step_cases hstep).2 with
    | accepted | failed | thread | same => exact hp.inside
    | outside hr => exact absurd ((hp.servers _).inRange _) hr
    | unset => exact he.elim
  · cases (step_cases hstep).2 with
    | @accepted x fd o _ =>
      refine forall_setServer hp.servers ⟨(hp.servers x).failed, ?_⟩
      refine (hp.servers x).threads.accepted ?_
      rw [hp.sized x]
      exact he
    | failed => exact he.elim
    | @thread x a t o hr ht =>
      exact forall_setServer hp.servers ⟨(hp.servers x).failed, (hp.servers x).thread ht⟩
    | outside hr => exact absurd ((hp.servers _).inRange _) hr
    | unset => exact he.elim
    | same => exact hp.servers

theorem Spoilt.step (hp : p.Spoilt) {e : Event h k} (hstep : p.step e = some p') : p'.Spoilt := by
  obtain ⟨hout, hchange⟩ := step_cases hstep
  obtain ⟨x, hx⟩ := hp.resolve_left (by simp [hout])
  have key : ∀ (y : ServerName) (s : Server h k), (y = x → s.Pending) →
      ((p.setServer y s).server x).Pending := by
    intro y s hs
    show (Function.update p.server y s x).Pending
    by_cases hy : x = y
    · rw [hy, Function.update_self]
      exact hs hy.symm
    · rw [Function.update_of_ne hy]
      exact hx
  cases hchange with
  | accepted hready => exact .inr ⟨x, key _ _ fun hy => absurd hx (hy ▸ hready)⟩
  | failed hready => exact .inr ⟨x, key _ _ fun hy => absurd hx (hy ▸ hready)⟩
  | @thread y a t o hr ht =>
    refine .inr ⟨x, key y _ ?_⟩
    rintro rfl
    have ha : a ≠ .main := by
      rintro rfl
      obtain ⟨i, hi, hout⟩ := hx.outside
      exact hout (hr i hi)
    have hmain := hx.main_same ha ht
    unfold Server.Pending
    rw [hmain]
    exact hx
  | outside | unset => exact .inl rfl
  | same => exact .inr ⟨x, hx⟩

theorem Bounded.init (handleSize : Nat) (junk : ServerName → Nat → Int × Bool × Nat × Nat)
    (others : Nat → Bool) :
    (Process.init h k miMaxClient handleSize junk others).Bounded miMaxClient where
  sized := fun _ => rfl
  inside := rfl
  servers := fun _ => ⟨rfl, .init _ _ _ _⟩

end Process

/-- a connection is accepted, and a chunk of it is received and handled -/
def served (fd : Nat) : List (Action 1 1) :=
  [.main, .main, .main, .OnAccept true, .main, .event fd false, .main, .recv (.data 1), .main, .main,
    .main, .main] ++ List.replicate 4 (.handler ⟨0, Nat.one_pos⟩)

end VncProxy.Tcp
