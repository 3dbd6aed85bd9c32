import VncProxy.Tcp.Received

/-!
# Every Message is in one place and every chunk is handled once

* `State.chunks`     the chunks in the handle list and with handlers that have not called
                     `OnRecvMessage`;
* `chunks_step`      a step adds the chunk that is put in the list and takes away the one that is
                     handled;
* `Stream.Carried`   what was put in the list has been handled or is one of these;
* `conserved`        in every run each Message of `Start` is in exactly one place and each chunk is
                     handled at most once, exactly once when no list or handler has it any more.
-/

namespace VncProxy.Tcp

variable {h k : Nat} {s s' : State h k}

/-! ## the chunks on their way -/

def HandlerPc.chunk : HandlerPc → Multiset Msg
  | .handle m => {m}
  | _ => 0

def State.chunks (s : State h k) : Multiset Msg :=
  (s.mHandleMessageList : Multiset Msg) + ∑ i, (s.handler i).chunk

theorem chunks_of_list (hhandler : s'.handler = s.handler) {l : List Msg}
    (hlist : s'.mHandleMessageList = s.mHandleMessageList ++ l) : s'.chunks = s.chunks + l := by
  unfold State.chunks
  rw [hhandler, hlist, ← Multiset.coe_add]
  abel

theorem chunks_same (hhandler : s'.handler = s.handler)
    (hlist : s'.mHandleMessageList = s.mHandleMessageList) : s'.chunks = s.chunks := by
  unfold State.chunks
  rw [hhandler, hlist]

theorem State.chunks_handler (s : State h k) (i : Fin h) : s.chunks =
    (s.mHandleMessageList : Multiset Msg) +
      ((s.handler i).chunk + ∑ i' ∈ Finset.univ.erase i, (s.handler i').chunk) := by
  unfold State.chunks
  rw [sum_threads HandlerPc.chunk s.handler i]

theorem State.chunks_handler_goto {i : Fin h} {pc : HandlerPc}
    (hhandler : s'.handler = Function.update s.handler i pc) : s'.chunks =
    (s'.mHandleMessageList : Multiset Msg) +
      (pc.chunk + ∑ i' ∈ Finset.univ.erase i, (s.handler i').chunk) := by
  unfold State.chunks
  rw [hhandler, sum_threads_update HandlerPc.chunk s.handler i pc]

theorem mem_chunks {m : Msg} :
    m ∈ s.chunks ↔ m ∈ s.mHandleMessageList ∨ ∃ i, s.handler i = .handle m := by
  unfold State.chunks
  rw [Multiset.mem_add, Multiset.mem_coe, Multiset.mem_sum]
  refine or_congr Iff.rfl ⟨?_, ?_⟩
  · rintro ⟨i, -, hm⟩
    refine ⟨i, ?_⟩
    cases hp : s.handler i with
    | handle m' =>
      rw [hp] at hm
      rw [Multiset.mem_singleton.mp hm]
    | popFront | closeIfNeed | OnClose | close | idle =>
      rw [hp] at hm
      exact absurd hm (Multiset.notMem_zero m)
  · rintro ⟨i, hi⟩
    refine ⟨i, Finset.mem_univ i, ?_⟩
    rw [hi]
    exact Multiset.mem_singleton_self m

/-! ## a step -/

theorem chunks_stepHandler (hlen : ∀ m ∈ s.chunks, 0 < m.len) {i : Fin h}
    (hstep : s.stepHandler i = some s') :
    s'.chunks + (s.handles (.handler i) : Multiset Msg) = s.chunks := by
  unfold State.stepHandler at hstep
  unfold State.handles
  dsimp only
  cases hp : s.handler i with
  | popFront =>
    rw [hp] at hstep
    dsimp only at hstep ⊢
    split at hstep
    · obtain rfl := Option.some.inj hstep
      exact add_zero s.chunks
    · next m l hl =>
      obtain rfl := Option.some.inj hstep
      rw [State.chunks_handler_goto rfl, s.chunks_handler i, hp, hl, ← Multiset.cons_coe,
        ← Multiset.singleton_add]
      simp only [State.setHandler, HandlerPc.chunk, Multiset.coe_nil]
      abel
  | handle m =>
    have hm : 0 < m.len := hlen m (mem_chunks.mpr (.inr ⟨i, hp⟩))
    rw [hp] at hstep
    dsimp only at hstep ⊢
    rw [if_pos hm] at hstep ⊢
    obtain rfl := Option.some.inj hstep
    rw [State.chunks_handler_goto rfl, s.chunks_handler i, hp, Multiset.coe_singleton]
    simp only [State.setHandler, HandlerPc.chunk]
    abel
  | closeIfNeed m =>
    rw [hp] at hstep
    obtain rfl := Option.some.inj hstep
    rw [State.chunks_handler_goto rfl, s.chunks_handler i, hp]
    refine (add_zero _).trans ?_
    split <;> rfl
  | OnClose fd m | close fd m | idle m =>
    rw [hp] at hstep
    obtain rfl := Option.some.inj hstep
    rw [State.chunks_handler_goto rfl, s.chunks_handler i, hp]
    exact add_zero _

/-- **A step adds the chunk that is put in the list and takes away the one that is handled.** -/
theorem chunks_step (hlen : ∀ m ∈ s.chunks, 0 < m.len) {a : Action h k}
    (hstep : s.stepAny a = some s') :
    s'.chunks + (s.handles a : Multiset Msg) = s.chunks + (s.pushes a : Multiset Msg) := by
  have hmain : a.OfMain → s.handles a = [] →
      s'.chunks + (s.handles a : Multiset Msg) = s.chunks + (s.pushes a : Multiset Msg) := by
    intro ha hhandles
    have hframe := frame_main ha hstep
    rw [hhandles, chunks_of_list hframe.handler hframe.handleList]
    exact add_zero _
  have hother : s.handles a = [] → s.pushes a = [] → s'.handler = s.handler →
      s'.mHandleMessageList = s.mHandleMessageList →
      s'.chunks + (s.handles a : Multiset Msg) = s.chunks + (s.pushes a : Multiset Msg) := by
    intro hhandles hpushes hhandler hlist
    rw [hhandles, hpushes, chunks_same hhandler hlist]
  cases a with
  | accept | event | OnAccept | recv | main => exact hmain trivial rfl
  | handler i => exact (chunks_stepHandler hlen hstep).trans (add_zero _).symm
  | send ret => exact hother rfl rfl (frame_send hstep).handler (frame_send hstep).handleList
  | sender => exact hother rfl rfl (frame_stepSender hstep).handler (frame_stepSender hstep).handleList
  | call j fd len =>
    exact hother rfl rfl (frame_callAny hstep).handler (frame_callAny hstep).handleList
  | caller j =>
    exact hother rfl rfl (frame_stepCaller hstep).handler (frame_stepCaller hstep).handleList

/-! ## what has been put in the list -/

/-- the chunks in hand and on their way have bytes, and those put in the list are the handled ones
and those on their way, with the bytes they had when they were put there -/
structure Stream.Carried (s : Stream h k) : Prop where
  hand : ∀ m ∈ s.server.main.rx.hand, 0 < m.len
  len : ∀ m ∈ s.server.chunks, 0 < m.len
  chunks : (s.pushed : Multiset (Msg × List Byte)) =
    (s.handled : Multiset (Msg × List Byte)) + s.server.chunks.map s.entry

theorem pushes_hand {a : Action h k} {m : Msg} (hm : m ∈ s.pushes a) :
    a = .main ∧ m ∈ s.main.rx.hand := by
  unfold State.pushes at hm
  split at hm
  · split at hm
    · next fd m' hp =>
      rw [hp]
      exact ⟨rfl, hm⟩
    · cases hm
  · cases hm

theorem Rx.Step.hand_len {r r' : Rx} {f f' : Nat → Line} {room : Prop} {e : Rx.Event}
    (hstep : Rx.Step room r f e r' f') (hlen : ∀ m ∈ r.hand, 0 < m.len) :
    ∀ m ∈ r'.hand, 0 < m.len := by
  cases hstep with
  | same => exact hlen
  | tooMany | fits => exact hlen
  | recv fd m f len hpos =>
    intro m' hm'
    obtain rfl := List.mem_singleton.mp hm'
    exact hpos
  | seq fd m f =>
    intro m' hm'
    obtain rfl := List.mem_singleton.mp hm'
    exact hlen m (List.mem_singleton_self m)
  | accept | acceptZero | reset | watch | refuse | unwatch | event | pop | leave | drop | dropped
  | droppedNext | push | pushNext => exact fun m hm => by cases hm

theorem Stream.Step.kept_chunk {s s' : Stream h k} {a : Action h k × List Byte} (hstep : s.Step a s')
    (hnodup : s.server.objects.Nodup) {m : Msg} (hm : m ∈ s.server.chunks) :
    s'.buffer m.addr = s.buffer m.addr := by
  refine hstep.kept hnodup ?_
  simp only [Multiset.mem_add]
  rcases mem_chunks.mp hm with hm | ⟨i, hi⟩
  · exact .inl (.inl (.inl (.inl (mem_addrs hm))))
  · refine .inl (.inr (Multiset.mem_sum.mpr ⟨i, Finset.mem_univ i, ?_⟩))
    rw [hi]
    exact Multiset.mem_singleton_self _

theorem Stream.Carried.step {s s' : Stream h k} {a : Action h k × List Byte} (hi : s.Carried)
    (hnodup : s.server.objects.Nodup) (hstep : s.Step a s') : s'.Carried := by
  have hchunks := chunks_step hi.len hstep.server
  have hmem : ∀ m ∈ s'.server.chunks, m ∈ s.server.chunks ∨ m ∈ s.server.pushes a.1 := by
    intro m hm
    have hm' : m ∈ s'.server.chunks + (s.server.handles a.1 : Multiset Msg) :=
      Multiset.mem_add.mpr (.inl hm)
    rw [hchunks] at hm'
    exact Multiset.mem_add.mp hm'
  obtain ⟨e, he⟩ := rx_step hstep.server
  refine ⟨he.step.hand_len hi.hand, fun m hm => ?_, ?_⟩
  · rcases hmem m hm with hm | hm
    · exact hi.len m hm
    · exact hi.hand m (pushes_hand hm).2
  · have hentry : s'.server.chunks.map s'.entry = s'.server.chunks.map s.entry := by
      refine Multiset.map_congr rfl fun m hm => congrArg (Prod.mk m) ?_
      rcases hmem m hm with hm | hm
      · exact hstep.kept_chunk hnodup hm
      · refine hstep.buffer m.addr ?_
        rw [(pushes_hand hm).1]
        exact Option.some_ne_none _
    rw [hentry, hstep.pushed, hstep.handled, ← Multiset.coe_add, ← Multiset.coe_add, hi.chunks,
      ← Multiset.map_coe, ← Multiset.map_coe, add_assoc, ← Multiset.map_add, ← hchunks,
      Multiset.map_add]
    abel

theorem Stream.Carried.init (h k pool watchers handleSize : Nat)
    (junk : Nat → Int × Bool × Nat × Nat) :
    (Stream.init h k pool watchers handleSize junk).Carried := by
  have hchunks : (Stream.init h k pool watchers handleSize junk).server.chunks = 0 := by
    refine (zero_add _).trans (Finset.sum_eq_zero fun i _ => rfl)
  refine ⟨nofun, fun m hm => ?_, ?_⟩
  · rw [hchunks] at hm
    exact absurd hm (Multiset.notMem_zero m)
  · rw [hchunks]
    rfl

/-! ## the numbers tell the chunks apart -/

theorem nodup_of_numbered {pushed : List Msg}
    (hseqs : ∀ c, (ofConn pushed c).map Msg.seq = List.range (ofConn pushed c).length) :
    pushed.Nodup := by
  apply List.nodup_iff_count_le_one.mpr
  intro m
  have hnodup : (ofConn pushed m.conn).Nodup :=
    List.Nodup.of_map Msg.seq (hseqs m.conn ▸ List.nodup_range)
  calc pushed.count m = (ofConn pushed m.conn).count m :=
        (List.count_filter (by simp)).symm
    _ ≤ 1 := List.nodup_iff_count_le_one.mp hnodup m

/-! ## all runs -/

structure Stream.Conserved (pool : Nat) (s : Stream h k) : Prop where
  /-- each Message of `Start` is once in a list or with a thread -/
  places : (s.server.places.map Msg.addr).Perm (List.range pool)
  /-- the chunks put in the handle list are told apart -/
  pushed : s.pushed.Nodup
  handled : ∀ e ∈ s.handled, e ∈ s.pushed
  /-- no chunk has been handled twice -/
  once : s.handled.Nodup
  /-- a chunk that is neither in the handle list nor with a handler has been handled -/
  all : ∀ e ∈ s.pushed, e.1 ∉ s.server.mHandleMessageList →
    (∀ i, e.1 ∉ (s.server.handler i).holds) → e ∈ s.handled

theorem Stream.Sound.chunks_conserved {pool : Nat} {s : Stream h k} (hi : s.Sound pool)
    (hcarried : s.Carried) : s.Conserved pool := by
  have hnodup : s.pushed.Nodup := (nodup_of_numbered hi.numbered.seqs).of_map Prod.fst
  have hmem : ∀ e, e ∈ s.pushed ↔ e ∈ s.handled ∨ e ∈ s.server.chunks.map s.entry := by
    intro e
    rw [← Multiset.mem_coe, hcarried.chunks, Multiset.mem_add, Multiset.mem_coe]
  refine ⟨?_, hnodup, fun e he => (hmem e).mpr (.inl he), ?_, fun e he hlist hhandler => ?_⟩
  · refine Multiset.coe_eq_coe.mp ?_
    exact s.server.places_objects.trans hi.objects
  · have hsplit := Multiset.coe_nodup.mpr hnodup
    rw [hcarried.chunks, Multiset.nodup_add] at hsplit
    exact Multiset.coe_nodup.mp hsplit.1
  · apply ((hmem e).mp he).resolve_right
    intro hchunk
    obtain ⟨m, hm, rfl⟩ := Multiset.mem_map.mp hchunk
    rcases mem_chunks.mp hm with hm | ⟨i, hm⟩
    · exact hlist hm
    · refine hhandler i ?_
      rw [hm]
      exact List.mem_singleton_self _

/-- **Every Message is in one place and every chunk is handled once**, for any number of handler
threads and callers and every interleaving. -/
theorem conserved {pool watchers handleSize : Nat} {junk : Nat → Int × Bool × Nat × Nat}
    {l : List (Action h k × List Byte)} {s : Stream h k}
    (hrun : run Stream.step (Stream.init h k pool watchers handleSize junk) l = some s) :
    s.Conserved pool := by
  have hi : s.Sound pool ∧ s.Carried :=
    inv_run (I := fun s => s.Sound pool ∧ s.Carried)
      (fun _ _ _ hi hstep => ⟨hi.1.step (Stream.step_cases hstep),
        hi.2.step hi.1.nodup (Stream.step_cases hstep)⟩)
      ⟨.init .., .init ..⟩ hrun
  exact hi.1.chunks_conserved hi.2

/-- one chunk is with the handler, another in the list, a third has been dropped -/
theorem conserved_three :
    ∃ s, run Stream.step fresh (accept5 ++ chunk5 65 ++ chunk5 66 ++ late5 67 ++
        plain [.handler 0]) = some s ∧ s.Conserved 3 :=
  ⟨_, rfl, conserved (show run Stream.step (Stream.init 1 1 3 1 1 fun _ => (7, true, 7, 7))
    (accept5 ++ chunk5 65 ++ chunk5 66 ++ late5 67 ++ plain [.handler 0]) = some _ from rfl)⟩

end VncProxy.Tcp
