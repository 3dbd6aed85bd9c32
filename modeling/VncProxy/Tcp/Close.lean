import VncProxy.Lib.Run
import VncProxy.Tcp.Refine

/-!
# Closing a connection of `TcpServer`

* `closeOnce_of_calm`   in a run of steps that are `Calm`, `OnClose` and `close` are executed at
                        most once for a connection, and only when no Message of it is pending;
* `counted_of_calm`     in such a run the counter of a connection is the number of its pending
                        Messages, and a disconnected one without any is being closed;
* `not_closeOnce`, `not_counted`  a late call of `SendMessageByQueue` breaks both.
-/

namespace VncProxy.Tcp

variable {h k : Nat}

/-! ## the two properties -/

/-- some thread is about to run `OnClose(fd)` or `close(fd)` -/
def State.Closing (s : State h k) (fd : Nat) : Prop :=
  (∃ m, s.main = .OnClose fd m ∨ s.main = .close fd m) ∨
  (∃ i m, s.handler i = .OnClose fd m ∨ s.handler i = .close fd m) ∨
  s.sender = .OnClose fd ∨ s.sender = .close fd

/-- the Message a thread has taken and not counted down yet -/
def HandlerPc.processing : HandlerPc → Option Msg
  | .handle m | .closeIfNeed m => some m
  | _ => none

def SenderPc.processing : SenderPc → Option Msg
  | .send m _ | .OnSendMessage m | .Disconnect m | .idle m | .readFd m | .closeIfNeed m _ => some m
  | _ => none

/-- no Message of the connection that has `fd` is in a list or being processed -/
structure State.Untouched (s : State h k) (fd : Nat) : Prop where
  handleList : ∀ m ∈ s.mHandleMessageList, m.conn ≠ (fd, (s.slot fd).gen)
  sendList : ∀ m ∈ s.mSendImmediatelyMessageList, m.conn ≠ (fd, (s.slot fd).gen)
  handler : ∀ i m, (s.handler i).processing = some m → m.conn ≠ (fd, (s.slot fd).gen)
  sender : ∀ m, s.sender.processing = some m → m.conn ≠ (fd, (s.slot fd).gen)

/-- `OnClose` and `close` have been executed at most once for every connection, and are executed
only when no Message of it is left -/
def State.CloseOnce (s : State h k) : Prop :=
  ∀ fd, (s.slot fd).onCloses ≤ 1 ∧ (s.slot fd).closes ≤ 1 ∧ (s.Closing fd → s.Untouched fd)

/-- the Messages of the connection that has `fd` that are counted and about to be pushed, in a list,
or taken by a thread that has not executed its `CloseSocketIfNeedByHandleThread` for them -/
def State.pending (s : State h k) (fd : Nat) : Nat := s.load.1.count (fd, (s.slot fd).gen)

/-- the threads that are about to run `OnClose(fd)` or `close(fd)` -/
def State.closers (s : State h k) (fd : Nat) : Nat := s.load.2.1.count fd + s.load.2.2.count fd

/-- from the section of `Accept_Callback` on the counter of every connection is right, and none is left
open for ever -/
def State.Counted (s : State h k) : Prop :=
  ∀ fd, (s.slot fd).isOpen = true → (s.slot fd).counted = true →
    (s.slot fd).mpHandlingMessageCount = s.pending fd ∧ 0 ≤ (s.slot fd).mpHandlingMessageCount ∧
    ((s.slot fd).disconnected = true → s.pending fd = 0 → s.closers fd = 1)

/-! ## they follow from the invariant -/

theorem mem_load_of_part {s : State h k} {A x R : Load} (hl : s.load = A + (x + R)) :
    (∀ c ∈ x.1, c ∈ s.load.1) ∧ (∀ fd ∈ x.2.1, fd ∈ s.load.2.1) ∧ ∀ fd ∈ x.2.2, fd ∈ s.load.2.2 := by
  rw [hl]
  refine ⟨fun c hc => ?_, fun fd hfd => ?_, fun fd hfd => ?_⟩
  · exact Multiset.mem_add.mpr (.inr (Multiset.mem_add.mpr (.inl hc)))
  · exact Multiset.mem_add.mpr (.inr (Multiset.mem_add.mpr (.inl hfd)))
  · exact Multiset.mem_add.mpr (.inr (Multiset.mem_add.mpr (.inl hfd)))

theorem State.Closing.mem {s : State h k} {fd : Nat} (hc : s.Closing fd) :
    fd ∈ s.load.2.1 ∨ fd ∈ s.load.2.2 := by
  rcases hc with ⟨m, hm⟩ | ⟨i, m, hm⟩ | hm
  · obtain ⟨_, h2, h3⟩ := mem_load_of_part s.load_main
    rcases hm with hm | hm
    · exact .inl (h2 fd (by rw [hm]; exact Multiset.mem_singleton_self fd))
    · exact .inr (h3 fd (by rw [hm]; exact Multiset.mem_singleton_self fd))
  · obtain ⟨_, h2, h3⟩ := mem_load_of_part (s.load_handler i)
    rcases hm with hm | hm
    · exact .inl (h2 fd (by rw [hm]; exact Multiset.mem_singleton_self fd))
    · exact .inr (h3 fd (by rw [hm]; exact Multiset.mem_singleton_self fd))
  · obtain ⟨_, h2, h3⟩ := mem_load_of_part s.load_sender
    rcases hm with hm | hm
    · exact .inl (h2 fd (by rw [hm]; exact Multiset.mem_singleton_self fd))
    · exact .inr (h3 fd (by rw [hm]; exact Multiset.mem_singleton_self fd))

theorem HandlerPc.mem_load {pc : HandlerPc} {m : Msg} (hm : pc.processing = some m) :
    m.conn ∈ pc.load.1 := by
  cases pc <;> cases hm <;> exact Multiset.mem_singleton_self _

theorem SenderPc.mem_load {pc : SenderPc} {m : Msg} (hm : pc.processing = some m) :
    m.conn ∈ pc.load.1 := by
  cases pc <;> cases hm <;> exact Multiset.mem_singleton_self _

theorem State.untouched_of_not_mem {s : State h k} {fd : Nat}
    (hn : (fd, (s.slot fd).gen) ∉ s.load.1) : s.Untouched fd := by
  have hlist : ∀ m : Msg, m ∈ s.mHandleMessageList ∨ m ∈ s.mSendImmediatelyMessageList →
      m.conn ∈ s.load.1 := by
    intro m hm
    show m.conn ∈ ((s.mHandleMessageList.map Msg.conn : List _) : Multiset _) +
      ((s.mSendImmediatelyMessageList.map Msg.conn : List _) : Multiset _) + s.threadLoad.1
    rw [Multiset.mem_add, Multiset.mem_add, Multiset.mem_coe, Multiset.mem_coe]
    rcases hm with hm | hm
    · exact .inl (.inl (List.mem_map_of_mem hm))
    · exact .inl (.inr (List.mem_map_of_mem hm))
  refine ⟨fun m hm he => ?_, fun m hm he => ?_, fun i m hm he => ?_, fun m hm he => ?_⟩
  · exact hn (he ▸ hlist m (.inl hm))
  · exact hn (he ▸ hlist m (.inr hm))
  · exact hn ((mem_load_of_part (s.load_handler i)).1 _ (he ▸ HandlerPc.mem_load hm))
  · exact hn ((mem_load_of_part s.load_sender).1 _ (he ▸ SenderPc.mem_load hm))

theorem State.Inv.closeOnce {s : State h k} (hi : s.Inv) : s.CloseOnce := by
  intro fd
  obtain ⟨h1, h2⟩ := hi.table.closed_once fd
  refine ⟨h1, h2, fun hc => State.untouched_of_not_mem ?_⟩
  exact hi.table.closing_unused hc.mem (s.slot fd).gen

theorem State.Inv.counted {s : State h k} (hi : s.Inv) : s.Counted := by
  intro fd hopen hcounted
  have hrefs : (s.slot fd).mpHandlingMessageCount = s.pending fd :=
    hi.table.refs_eq (k := fd) hopen hcounted
  refine ⟨hrefs, by omega, fun hdisc h0 => ?_⟩
  exact hi.table.closers_one (k := fd) hopen hdisc h0

/-! ## all runs -/

section
variable {pool watchers handleSize : Nat} {junk : Nat → Int × Bool × Nat × Nat}
  {l : List (Action h k)} {s : State h k}

theorem inv_of_calm
    (hcalm : RunOk State.step State.Calm (State.init h k pool watchers handleSize junk) l)
    (hrun : run State.step (State.init h k pool watchers handleSize junk) l = some s) : s.Inv :=
  inv_runOk (fun _ _ _ hi hc hstep => hi.step hc hstep)
    (State.Inv.init h k pool watchers handleSize junk) hcalm hrun

/-- **The close protocol**, for any number of handler threads and callers and every interleaving of
steps that are `Calm`. -/
theorem closeOnce_of_calm
    (hcalm : RunOk State.step State.Calm (State.init h k pool watchers handleSize junk) l)
    (hrun : run State.step (State.init h k pool watchers handleSize junk) l = some s) :
    s.CloseOnce :=
  (inv_of_calm hcalm hrun).closeOnce

end

/-! ## runs with one handler thread and one caller -/

def connect5 : List (Action 1 1) := [.accept 5, .main, .main, .main, .OnAccept true, .main]

/-- its peer closes; the main thread has run the section of `OnDisconnect` -/
def fin5 : List (Action 1 1) := [.event 5 false, .main, .recv .closed, .main, .main, .main]

/-- another thread queues a reply of 10 bytes -/
def reply5 : List (Action 1 1) := [.call 0 5 10, .caller 0, .caller 0, .caller 0]

/-- the send thread sends it and runs its section -/
def send5 : List (Action 1 1) :=
  [.sender, .send (.sent 10), .sender, .sender, .sender, .sender]

/-- the state before a run -/
def start : State 1 1 := State.init 1 1 2 1 0 fun _ => (7, true, 7, 7)

/-- the reply is queued before the disconnect, and the send thread closes -/
theorem closeOnce_reply_first :
    ∃ s, run State.step start (connect5 ++ reply5 ++ fin5 ++ send5) = some s ∧ s.CloseOnce := by
  have hcalm : RunOk State.step State.Calm start (connect5 ++ reply5 ++ fin5 ++ send5) := by
    decide
  exact ⟨_, rfl, closeOnce_of_calm hcalm rfl⟩

/-- **A late reply**: `OnDisconnect` has decided to close when the reply is counted and queued. -/
theorem not_closeOnce :
    ∃ s, run State.step start (connect5 ++ fin5 ++ reply5) = some s ∧ ¬ s.CloseOnce := by
  obtain ⟨s, hrun, hmain, hlist⟩ : ∃ s, run State.step start (connect5 ++ fin5 ++ reply5) = some s ∧
      (s.main = .OnClose 5 (some ⟨0, 5, 1, 0, 0⟩)) ∧
      ∃ m ∈ s.mSendImmediatelyMessageList, m.conn = (5, (s.slot 5).gen) := by
    decide
  refine ⟨s, hrun, fun hclose => ?_⟩
  obtain ⟨m, hm, hconn⟩ := hlist
  exact ((hclose 5).2.2 (.inl ⟨_, .inl hmain⟩)).sendList m hm hconn

/-- **The counter**, in the same runs. -/
theorem counted_of_calm {pool watchers handleSize : Nat} {junk : Nat → Int × Bool × Nat × Nat}
    {l : List (Action h k)} {s : State h k}
    (hcalm : RunOk State.step State.Calm (State.init h k pool watchers handleSize junk) l)
    (hrun : run State.step (State.init h k pool watchers handleSize junk) l = some s) :
    s.Counted :=
  (inv_of_calm hcalm hrun).counted

theorem counted_reply_first :
    ∃ s, run State.step start (connect5 ++ reply5 ++ fin5 ++ send5) = some s ∧ s.Counted := by
  have hcalm : RunOk State.step State.Calm start (connect5 ++ reply5 ++ fin5 ++ send5) := by
    decide
  exact ⟨_, rfl, counted_of_calm hcalm rfl⟩

/-- **A late reply and the next connection**: the counter of the new connection with descriptor 5
is -1. -/
theorem not_counted :
    ∃ s, run State.step start
        (connect5 ++ fin5 ++ reply5 ++ [.main, .main, .main] ++ connect5 ++ send5) = some s ∧
      (s.slot 5).isOpen = true ∧ (s.slot 5).mpHandlingMessageCount = -1 ∧ ¬ s.Counted := by
  obtain ⟨s, hrun, hopen, hcounted, hcount⟩ : ∃ s, run State.step start
      (connect5 ++ fin5 ++ reply5 ++ [.main, .main, .main] ++ connect5 ++ send5) = some s ∧
      (s.slot 5).isOpen = true ∧ (s.slot 5).counted = true ∧
      (s.slot 5).mpHandlingMessageCount = -1 := by
    decide
  refine ⟨s, hrun, hopen, hcount, fun hc => ?_⟩
  have h0 := (hc 5 hopen hcounted).2.1
  rw [hcount] at h0
  exact absurd h0 (by decide)

end VncProxy.Tcp
