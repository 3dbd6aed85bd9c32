import VncProxy.Tcp.Handled

/-!
# One handler thread

With one handler thread the chunks are handled in the order of the handle list.

* `State.waiting`       the chunk the thread has and those in the list;
* `waiting_step`        a step adds one at the end or takes one from the front;
* `Stream.Serial.step`  what has been handled and what waits are what was put in the list, in order.
-/

namespace VncProxy.Tcp

variable {k : Nat}

/-- the chunk before its `OnRecvMessage` -/
def HandlerPc.next : HandlerPc → List Msg
  | .handle m => [m]
  | _ => []

/-- the chunks that have not been handled, in their order -/
def State.waiting (s : State 1 k) : List Msg :=
  (List.ofFn s.handler).flatMap HandlerPc.next ++ s.mHandleMessageList

theorem State.waiting_eq (s : State 1 k) : s.waiting = (s.handler 0).next ++ s.mHandleMessageList := by
  unfold State.waiting
  rw [List.ofFn_succ, List.ofFn_zero, List.flatMap_singleton]

theorem mem_waiting {s : State 1 k} {m : Msg} (hm : m ∈ s.waiting) : m ∈ s.chunks := by
  rw [State.waiting_eq] at hm
  refine mem_chunks.mpr ((List.mem_append.mp hm).symm.imp_right fun hm => ⟨0, ?_⟩)
  cases hp : s.handler 0 with
  | handle m' =>
    rw [hp] at hm
    rw [List.mem_singleton.mp hm]
  | popFront | closeIfNeed | OnClose | close | idle =>
    rw [hp] at hm
    cases hm

theorem waiting_stepHandler {s s' : State 1 k} (hlen : ∀ m ∈ s.chunks, 0 < m.len)
    (hstep : s.stepHandler 0 = some s') : s.handles (.handler 0) ++ s'.waiting = s.waiting := by
  unfold State.stepHandler at hstep
  rw [State.waiting_eq, State.waiting_eq]
  unfold State.handles
  dsimp only
  cases hp : s.handler 0 with
  | popFront =>
    rw [hp] at hstep
    dsimp only at hstep
    split at hstep
    · obtain rfl := Option.some.inj hstep
      rw [hp]
      rfl
    · next m l hl =>
      obtain rfl := Option.some.inj hstep
      rw [hl]
      rfl
  | handle m =>
    have hm : 0 < m.len := hlen m (mem_chunks.mpr (.inr ⟨0, hp⟩))
    rw [hp] at hstep
    dsimp only at hstep ⊢
    rw [if_pos hm] at hstep ⊢
    obtain rfl := Option.some.inj hstep
    rfl
  | closeIfNeed m =>
    rw [hp] at hstep
    obtain rfl := Option.some.inj hstep
    simp only [State.setHandler, Function.update_self]
    split <;> rfl
  | OnClose fd m | close fd m | idle m =>
    rw [hp] at hstep
    obtain rfl := Option.some.inj hstep
    rfl

/-- **A step adds a chunk at the end or takes the first one.** -/
theorem waiting_step {s s' : State 1 k} {a : Action 1 k} (hlen : ∀ m ∈ s.chunks, 0 < m.len)
    (hstep : s.stepAny a = some s') : s.handles a ++ s'.waiting = s.waiting ++ s.pushes a := by
  have hother : s'.handler = s.handler → s'.mHandleMessageList = s.mHandleMessageList ++ s.pushes a →
      s'.waiting = s.waiting ++ s.pushes a := by
    intro hhandler hlist
    rw [State.waiting_eq, State.waiting_eq, hhandler, hlist, List.append_assoc]
  have hmain : a.OfMain → s'.waiting = s.waiting ++ s.pushes a := fun ha =>
    hother (frame_main ha hstep).handler (frame_main ha hstep).handleList
  have hsame : s.pushes a = [] → s'.handler = s.handler →
      s'.mHandleMessageList = s.mHandleMessageList → s'.waiting = s.waiting ++ s.pushes a := by
    intro hpushes hhandler hlist
    exact hother hhandler (by rw [hlist, hpushes, List.append_nil])
  cases a with
  | accept | event | OnAccept | recv | main => exact hmain trivial
  | handler i =>
    obtain rfl : i = 0 := Fin.fin_one_eq_zero i
    exact (waiting_stepHandler hlen hstep).trans (List.append_nil _).symm
  | send ret => exact hsame rfl (frame_send hstep).handler (frame_send hstep).handleList
  | sender => exact hsame rfl (frame_stepSender hstep).handler (frame_stepSender hstep).handleList
  | call j fd len => exact hsame rfl (frame_callAny hstep).handler (frame_callAny hstep).handleList
  | caller j => exact hsame rfl (frame_stepCaller hstep).handler (frame_stepCaller hstep).handleList

/-- what has been handled and what waits are what was put in the list -/
def Stream.Serial (s : Stream 1 k) : Prop := s.handled ++ s.server.waiting.map s.entry = s.pushed

theorem Stream.Serial.step {s s' : Stream 1 k} {a : Action 1 k × List Byte} (hi : s.Serial)
    (hcarried : s.Carried) (hnodup : s.server.objects.Nodup) (hstep : s.Step a s') : s'.Serial := by
  have hwaiting := waiting_step hcarried.len hstep.server
  have hentry : ∀ m ∈ s'.server.waiting, s'.entry m = s.entry m := by
    intro m hm
    refine congrArg (Prod.mk m) ?_
    have hmem : m ∈ s.server.handles a.1 ++ s'.server.waiting := List.mem_append_right _ hm
    rw [hwaiting] at hmem
    rcases List.mem_append.mp hmem with hm | hm
    · exact hstep.kept_chunk hnodup (mem_waiting hm)
    · refine hstep.buffer m.addr ?_
      rw [(pushes_hand hm).1]
      exact Option.some_ne_none _
  unfold Stream.Serial
  rw [hstep.handled, hstep.pushed, List.map_congr_left hentry, List.append_assoc, ← List.map_append,
    hwaiting, List.map_append, ← List.append_assoc]
  exact congrArg (· ++ _) hi

theorem Stream.Serial.init (k pool watchers handleSize : Nat) (junk : Nat → Int × Bool × Nat × Nat) :
    (Stream.init 1 k pool watchers handleSize junk).Serial := rfl

/-- **What has been handled of a connection comes first of what was put in the list.** -/
theorem Stream.Serial.isPrefix {s : Stream 1 k} (hi : s.Serial) (c : Conn) :
    bytesOf (tagged s.handled) c <+: bytesOf (tagged s.pushed) c := by
  rw [← show _ = s.pushed from hi]
  unfold tagged
  rw [List.map_append, bytesOf_append]
  exact List.prefix_append ..

end VncProxy.Tcp
