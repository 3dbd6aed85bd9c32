import VncProxy.Tcp.Sent

/-!
# What the callers are about to queue

Between `PopFront` of the idle list and `PushBack` of the send list a caller of `SendMessageByQueue`
has a Message with its bytes.

* `pendingOf`      what a caller has not put in the list yet;
* `pending_step`   no step changes it, but the one that puts it in the list;
* `queued_step`    where only one caller moves, what is queued and what it has stay together;
* `queued_call`    a call begins.
-/

namespace VncProxy.Tcp

variable {h k : Nat} {s s' : Stream h k} {a : Action h k × List Byte} {i : Fin k}

/-- what a thread in `SendMessageByQueue` has not put in the list yet -/
def pendingOf (s : Stream h k) (i : Fin k) : List (Conn × List Byte) :=
  (s.server.caller i).holds.map fun m => (m.conn, s.buffer m.addr)

theorem pendingOf_free (hfree : s.server.caller i = .free) : pendingOf s i = [] := by
  unfold pendingOf
  rw [hfree]
  rfl

theorem pendingOf_same (hnodup : s.server.objects.Nodup) (hstep : s.Step a s')
    (hcaller : s'.server.caller i = s.server.caller i) : pendingOf s' i = pendingOf s i := by
  unfold pendingOf
  rw [hcaller]
  refine List.map_congr_left fun m hm => ?_
  rw [Stream.Sends.kept (.inr (.inr ⟨i, hm⟩)) hnodup hstep]

theorem pendingOf_seq (hnodup : s.server.objects.Nodup) (hstep : s.Step a s') {m m' : Msg}
    (hholds : (s.server.caller i).holds = [m]) (hholds' : (s'.server.caller i).holds = [m'])
    (hconn : m'.conn = m.conn) (haddr : m'.addr = m.addr) : pendingOf s' i = pendingOf s i := by
  have hm : m ∈ (s.server.caller i).holds := hholds ▸ List.mem_singleton_self m
  have hkept := Stream.Sends.kept (.inr (.inr ⟨i, hm⟩)) hnodup hstep
  unfold pendingOf
  rw [hholds, hholds', List.map_singleton, List.map_singleton, hconn, haddr, hkept]

/-- a step in which no thread is done with its call -/
structure Holding (s s' : Stream h k) : Prop where
  queued : tagged s'.queued = tagged s.queued
  pending : ∀ j, pendingOf s' j = pendingOf s j
  caller : ∀ j, s'.server.caller j = .free ↔ s.server.caller j = .free

/-- a step in which a thread puts its Message in the list -/
structure Pushing (s s' : Stream h k) (i : Fin k) : Prop where
  queued : tagged s'.queued = tagged s.queued ++ pendingOf s i
  busy : pendingOf s i ≠ []
  free : s'.server.caller i = .free
  pending : ∀ j, j ≠ i → pendingOf s' j = pendingOf s j
  caller : ∀ j, j ≠ i → s'.server.caller j = s.server.caller j

/-- **What a caller has is kept until it is put in the list.** -/
theorem pending_step (hnodup : s.server.objects.Nodup) (hstep : s.Step a s')
    (hcall : ∀ j fd len, a.1 ≠ .call j fd len) :
    s.server.queues a.1 = [] ∧ Holding s s' ∨
      ∃ i m, a.1 = .caller i ∧ s.server.caller i = .push m ∧ Pushing s s' i := by
  obtain ⟨act, b⟩ := a
  have hother : (∀ j, ¬ act.OfCaller j) → s.server.queues act = [] →
      s.server.queues act = [] ∧ Holding s s' := by
    intro hact hqueues
    have hcaller : ∀ j, s'.server.caller j = s.server.caller j :=
      fun j => caller_others (hact j) hstep.server
    refine ⟨hqueues, ?_, fun j => pendingOf_same hnodup hstep (hcaller j), fun j => by rw [hcaller j]⟩
    rw [hstep.queued, hqueues, List.map_nil, List.append_nil]
  cases act with
  | call j fd len => exact absurd rfl (hcall j fd len)
  | accept | event | OnAccept | recv | main | handler | send | sender =>
    exact .inl (hother (fun _ => id) rfl)
  | caller i =>
    have hserver : s.server.stepCaller i = some s'.server := hstep.server
    have hcaller : ∀ j, j ≠ i → s'.server.caller j = s.server.caller j := fun j hj =>
      caller_others (show ¬ (Action.caller i : Action h k).OfCaller j from fun he => hj he.symm)
        hstep.server
    have hpending : ∀ j, j ≠ i → pendingOf s' j = pendingOf s j := fun j hj =>
      pendingOf_same hnodup hstep (hcaller j hj)
    unfold State.stepCaller at hserver
    cases hp : s.server.caller i with
    | free =>
      rw [hp] at hserver
      cases hserver
    | count m | seq m =>
      rw [hp] at hserver
      have hqueues : s.server.queues (.caller i) = [] := by
        unfold State.queues
        dsimp only
        rw [hp]
      obtain ⟨m', hholds, hconn, haddr⟩ : ∃ m', (s'.server.caller i).holds = [m'] ∧
          m'.conn = m.conn ∧ m'.addr = m.addr := by
        rw [← Option.some.inj hserver]
        simp only [State.setCaller, Function.update_self]
        exact ⟨_, rfl, rfl, rfl⟩
      have hsame : pendingOf s' i = pendingOf s i :=
        pendingOf_seq hnodup hstep (by rw [hp]; rfl) hholds hconn haddr
      refine .inl ⟨hqueues, ?_, fun j => ?_, fun j => ?_⟩
      · rw [hstep.queued, hqueues, List.map_nil, List.append_nil]
      · by_cases hj : j = i
        · exact hj ▸ hsame
        · exact hpending j hj
      · by_cases hj : j = i
        · subst hj
          rw [hp]
          refine ⟨fun hfree => ?_, fun hfree => by cases hfree⟩
          rw [hfree] at hholds
          cases hholds
        · rw [hcaller j hj]
    | push m =>
      rw [hp] at hserver
      have hqueues : s.server.queues (.caller i) = [m] := by
        unfold State.queues
        dsimp only
        rw [hp]
      have hheld : pendingOf s i = [(m.conn, s.buffer m.addr)] := by
        unfold pendingOf
        rw [hp]
        rfl
      refine .inr ⟨i, m, rfl, hp, ?_, ?_, ?_, hpending, hcaller⟩
      · rw [hstep.queued, hqueues, hheld]
        exact List.map_append
      · rw [hheld]
        exact List.cons_ne_nil _ _
      · rw [← Option.some.inj hserver]
        exact Function.update_self ..

/-- what is queued and what is about to be queued stay together -/
theorem queued_step (hnodup : s.server.objects.Nodup) (hstep : s.Step a s')
    (hcall : ∀ j fd len, a.1 ≠ .call j fd len) (hothers : ∀ j, j ≠ i → s.server.caller j = .free) :
    tagged s'.queued ++ pendingOf s' i = tagged s.queued ++ pendingOf s i ∧
      ∀ j, s.server.caller j = .free → s'.server.caller j = .free := by
  rcases pending_step hnodup hstep hcall with ⟨-, hhold⟩ | ⟨j, m, -, -, hpush⟩
  · exact ⟨by rw [hhold.queued, hhold.pending], fun j hj => (hhold.caller j).mpr hj⟩
  · -- a thread that is free does not move
    obtain rfl : j = i := by
      by_contra hne
      exact hpush.busy (pendingOf_free (hothers j hne))
    refine ⟨?_, fun j' hj' => ?_⟩
    · rw [hpush.queued, pendingOf_free hpush.free, List.append_nil]
    · by_cases hne : j' = j
      · exact hne ▸ hpush.free
      · exact (hpush.caller j' hne).trans hj'

theorem queued_call {fd len : Nat} {b : List Byte} {sm : Msg} {idle : List Msg}
    (hidle : s.server.mIdleMessageList = sm :: idle)
    (hfree : s.server.caller i = .free) (hstep : s.Step (.call i fd len, b) s') :
    tagged s'.queued = tagged s.queued ∧
      pendingOf s' i = [(s.server.conn fd, b)] ∧
      ∀ j, j ≠ i → s'.server.caller j = s.server.caller j := by
  have hserver : s.server.callAny i fd len = some s'.server := hstep.server
  refine ⟨?_, ?_, fun j hj => (frame_callAny hserver).others j hj⟩
  · rw [hstep.queued]
    exact congrArg tagged (List.append_nil _)
  · have hfilled : s'.buffer sm.addr = b := by
      refine hstep.filled sm.addr ?_
      show _ = s.server.mIdleMessageList.head?.map Msg.addr
      rw [hidle]
      rfl
    unfold State.callAny at hserver
    rw [if_pos hfree, hidle] at hserver
    unfold pendingOf
    rw [← Option.some.inj hserver]
    simp only [State.setCaller, Function.update_self, CallerPc.holds, List.map_cons,
      List.map_nil, hfilled]
    rfl

end VncProxy.Tcp
