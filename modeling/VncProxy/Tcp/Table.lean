import Mathlib.Algebra.BigOperators.Fin
import Mathlib.Tactic.Abel
import VncProxy.Lib.DeferredClose
import VncProxy.Lib.Threads
import VncProxy.Tcp.Server

/-!
# The descriptors of `TcpServer` as a table of resources

A descriptor is a resource, a pending Message is a reference to its own.

* `State.load`    the references, and the descriptors that a thread is about to close, summed over
                  the lists and the threads; `load_main` and its like split off one thread,
                  `load_main_goto` and its like are for a step of it;
* `table`         the table of the slots with these references;
* `ok_accept` to `ok_close`  the sections and calls that change a slot are steps of the table.
-/

namespace VncProxy.Tcp

variable {h k : Nat}

/-! ## references and closers -/

/-- pending Messages with their connections, descriptors before `OnClose`, before `close` -/
abbrev Load := Multiset (Nat × Nat) × Multiset Nat × Multiset Nat

/-- the connection of a Message: its descriptor and which of those with this number -/
def Msg.conn (m : Msg) : Nat × Nat := (m.fd, m.gen)

def Load.ref (c : Nat × Nat) : Load := ({c}, 0, 0)
def Load.onClose (fd : Nat) : Load := (0, {fd}, 0)
def Load.close (fd : Nat) : Load := (0, 0, {fd})

def MainPc.load : MainPc → Load
  | .seq _ m | .push _ m => .ref m.conn
  | .OnClose fd _ => .onClose fd
  | .close fd _ => .close fd
  | _ => 0

def HandlerPc.load : HandlerPc → Load
  | .handle m | .closeIfNeed m => .ref m.conn
  | .OnClose fd _ => .onClose fd
  | .close fd _ => .close fd
  | _ => 0

def SenderPc.load : SenderPc → Load
  | .send m _ | .OnSendMessage m | .Disconnect m | .idle m | .readFd m | .closeIfNeed m _ =>
    .ref m.conn
  | .OnClose fd => .onClose fd
  | .close fd => .close fd
  | .popFront => 0

def CallerPc.load : CallerPc → Load
  | .seq m | .push m => .ref m.conn
  | _ => 0

def listLoad (l : List Msg) : Load := ((l.map Msg.conn : List (Nat × Nat)), 0, 0)

def State.threadLoad (s : State h k) : Load :=
  s.main.load + s.sender.load + ∑ i, (s.handler i).load + ∑ j, (s.caller j).load

def State.load (s : State h k) : Load :=
  listLoad s.mHandleMessageList + listLoad s.mSendImmediatelyMessageList + s.threadLoad

def State.lists (s : State h k) : Load :=
  listLoad s.mHandleMessageList + listLoad s.mSendImmediatelyMessageList

/-- what the threads hold but one -/
def State.besideMain (s : State h k) : Load :=
  s.sender.load + ∑ i, (s.handler i).load + ∑ j, (s.caller j).load
def State.besideSender (s : State h k) : Load :=
  s.main.load + ∑ i, (s.handler i).load + ∑ j, (s.caller j).load
def State.besideHandler (s : State h k) (i : Fin h) : Load :=
  s.main.load + s.sender.load + ∑ j, (s.caller j).load +
    ∑ i' ∈ Finset.univ.erase i, (s.handler i').load
def State.besideCaller (s : State h k) (j : Fin k) : Load :=
  s.main.load + s.sender.load + ∑ i, (s.handler i).load +
    ∑ j' ∈ Finset.univ.erase j, (s.caller j').load

theorem State.load_main (s : State h k) : s.load = s.lists + (s.main.load + s.besideMain) := by
  unfold State.load State.threadLoad State.lists State.besideMain
  abel

theorem State.load_sender (s : State h k) :
    s.load = s.lists + (s.sender.load + s.besideSender) := by
  unfold State.load State.threadLoad State.lists State.besideSender
  abel

theorem State.load_handler (s : State h k) (i : Fin h) :
    s.load = s.lists + ((s.handler i).load + s.besideHandler i) := by
  unfold State.load State.threadLoad State.lists State.besideHandler
  rw [sum_threads HandlerPc.load s.handler i]
  abel

theorem State.load_caller (s : State h k) (j : Fin k) :
    s.load = s.lists + ((s.caller j).load + s.besideCaller j) := by
  unfold State.load State.threadLoad State.lists State.besideCaller
  rw [sum_threads CallerPc.load s.caller j]
  abel

/-! ### after a step of one thread -/

theorem State.load_main_goto {s s' : State h k}
    (hothers : (s'.handler, s'.sender, s'.caller) = (s.handler, s.sender, s.caller)) :
    s'.load = s'.lists + (s'.main.load + s.besideMain) := by
  obtain ⟨hhandler, hrest⟩ := Prod.mk.inj hothers
  obtain ⟨hsender, hcaller⟩ := Prod.mk.inj hrest
  rw [s'.load_main]
  unfold State.besideMain
  rw [hhandler, hsender, hcaller]

theorem State.load_sender_goto {s s' : State h k}
    (hothers : (s'.main, s'.handler, s'.caller) = (s.main, s.handler, s.caller)) :
    s'.load = s'.lists + (s'.sender.load + s.besideSender) := by
  obtain ⟨hmain, hrest⟩ := Prod.mk.inj hothers
  obtain ⟨hhandler, hcaller⟩ := Prod.mk.inj hrest
  rw [s'.load_sender]
  unfold State.besideSender
  rw [hmain, hhandler, hcaller]

theorem State.load_handler_goto {s s' : State h k} {i : Fin h} {pc : HandlerPc}
    (hhandler : s'.handler = Function.update s.handler i pc)
    (hothers : (s'.main, s'.sender, s'.caller) = (s.main, s.sender, s.caller)) :
    s'.load = s'.lists + (pc.load + s.besideHandler i) := by
  obtain ⟨hmain, hrest⟩ := Prod.mk.inj hothers
  obtain ⟨hsender, hcaller⟩ := Prod.mk.inj hrest
  unfold State.load State.threadLoad State.lists State.besideHandler
  rw [hhandler, hmain, hsender, hcaller, sum_threads_update HandlerPc.load s.handler i pc]
  abel

theorem State.load_caller_goto {s s' : State h k} {j : Fin k} {pc : CallerPc}
    (hcaller : s'.caller = Function.update s.caller j pc)
    (hothers : (s'.main, s'.handler, s'.sender) = (s.main, s.handler, s.sender)) :
    s'.load = s'.lists + (pc.load + s.besideCaller j) := by
  obtain ⟨hmain, hrest⟩ := Prod.mk.inj hothers
  obtain ⟨hhandler, hsender⟩ := Prod.mk.inj hrest
  unfold State.load State.threadLoad State.lists State.besideCaller
  rw [hcaller, hmain, hhandler, hsender, sum_threads_update CallerPc.load s.caller j pc]
  abel

theorem listLoad_cons (m : Msg) (l : List Msg) :
    listLoad (m :: l) = Load.ref m.conn + listLoad l := by
  refine Prod.ext ?_ (Prod.ext ?_ ?_)
  · simp [listLoad, Load.ref, ← Multiset.cons_coe]
  · simp [listLoad, Load.ref]
  · simp [listLoad, Load.ref]

theorem listLoad_concat (l : List Msg) (m : Msg) :
    listLoad (l ++ [m]) = listLoad l + Load.ref m.conn := by
  refine Prod.ext ?_ (Prod.ext ?_ ?_)
  · simp [listLoad, Load.ref, ← Multiset.coe_add]
  · simp [listLoad, Load.ref]
  · simp [listLoad, Load.ref]

theorem State.lists_handle_cons {s : State h k} {m : Msg} {l : List Msg}
    (hl : s.mHandleMessageList = m :: l) :
    s.lists = .ref m.conn + State.lists { s with mHandleMessageList := l } := by
  unfold State.lists
  rw [hl, listLoad_cons]
  abel

theorem State.lists_send_cons {s : State h k} {m : Msg} {l : List Msg}
    (hl : s.mSendImmediatelyMessageList = m :: l) :
    s.lists = .ref m.conn + State.lists { s with mSendImmediatelyMessageList := l } := by
  unfold State.lists
  rw [hl, listLoad_cons]
  abel

theorem State.lists_handle_concat (s : State h k) (m : Msg) :
    State.lists { s with mHandleMessageList := s.mHandleMessageList ++ [m] }
      = s.lists + .ref m.conn := by
  unfold State.lists
  rw [listLoad_concat]
  abel

theorem State.lists_send_concat (s : State h k) (m : Msg) :
    State.lists { s with mSendImmediatelyMessageList := s.mSendImmediatelyMessageList ++ [m] }
      = s.lists + .ref m.conn := by
  unfold State.lists
  rw [listLoad_concat]
  abel

def Slot.handle (sl : Slot) : Handle where
  live := sl.isOpen
  gen := sl.gen
  ready := sl.counted
  refs := sl.mpHandlingMessageCount
  closeReq := sl.mpCloseRecv
  retired := sl.disconnected
  decided := sl.decided
  finals := sl.onCloses
  frees := sl.closes

def table (f : Nat → Slot) (l : Load) : Table Nat := ⟨fun fd => (f fd).handle, l.1, l.2.1, l.2.2⟩

theorem table_update (f : Nat → Slot) (l : Load) (fd : Nat) (sl : Slot) :
    table (Function.update f fd sl) l = (table f l).set fd sl.handle := by
  unfold table Table.set
  congr 1
  funext fd'
  by_cases hfd : fd' = fd
  · subst hfd
    simp
  · simp [Function.update_of_ne hfd]

/-! ## the steps of the table -/

variable {f : Nat → Slot} {l : Load} {fd : Nat}

theorem table_update_same {sl : Slot} (hsl : sl.handle = (f fd).handle) :
    table (Function.update f fd sl) l = table f l := by
  rw [table_update, hsl]
  unfold Table.set
  congr 1
  exact Function.update_eq_self fd _

/-- the entry does not see the sequence numbers and the watcher -/
theorem ok_same {sl : Slot} (hsl : sl.handle = (f fd).handle) (hok : (table f l).Ok) :
    (table (Function.update f fd sl) l).Ok := by
  rw [table_update_same hsl]
  exact hok

theorem ok_accept (hok : (table f l).Ok) (hopen : (f fd).isOpen = false) :
    (table (Function.update f fd (f fd).accept) l).Ok := by
  rw [table_update]
  exact hok.step (.alloc _ fd hopen)

theorem ok_resetCount (hok : (table f l).Ok) (hopen : (f fd).isOpen = true)
    (hcounted : (f fd).counted = false) :
    (table (Function.update f fd (f fd).resetCount) l).Ok := by
  rw [table_update]
  exact hok.step (.setup _ fd hopen hcounted)

/-- `A` are the lists, `R` the other threads -/
theorem ok_swap {A R x : Load} : (table f (A + (x + R))).Ok ↔ (table f (x + (A + R))).Ok := by
  rw [add_left_comm]

theorem ok_take {A R x : Load} (hok : (table f (x + A + (0 + R))).Ok) :
    (table f (A + (x + R))).Ok := by
  rw [zero_add, add_comm x A, add_assoc] at hok
  exact hok

theorem ok_put {A R x : Load} (hok : (table f (A + (x + R))).Ok) :
    (table f (A + x + (0 + R))).Ok := by
  rw [zero_add, add_assoc]
  exact hok

theorem ok_count (fd : Nat) {A R : Load} (hok : (table f (A + (0 + R))).Ok)
    (hu : (f fd).handle.Usable) :
    (table (Function.update f fd (f fd).count) (A + (.ref (fd, (f fd).gen) + R))).Ok := by
  rw [ok_swap, table_update]
  rw [zero_add] at hok
  have h1 := hok.step (.acquire _ fd hu)
  have h2 : Load.ref (fd, (f fd).gen) + (A + R)
      = ((fd, (f fd).gen) ::ₘ (A + R).1, (A + R).2.1, (A + R).2.2) := by
    simp [Load.ref, Prod.ext_iff]
  rw [h2]
  exact h1

theorem Slot.closeIfNeed_last {sl : Slot} (h : sl.handle.Last) :
    sl.CloseSocketIfNeedByHandleThread = (true, { sl with
      mpHandlingMessageCount := sl.mpHandlingMessageCount - 1
      decided := true }) := by
  obtain ⟨h1, h2⟩ := h
  simp only [Slot.CloseSocketIfNeedByHandleThread]
  rw [if_pos (show sl.mpHandlingMessageCount - 1 = 0 from h1),
    if_pos (show sl.mpCloseRecv = true from h2)]

theorem Slot.closeIfNeed_not_last {sl : Slot} (h : ¬ sl.handle.Last) :
    sl.CloseSocketIfNeedByHandleThread = (false, { sl with
      mpHandlingMessageCount := sl.mpHandlingMessageCount - 1 }) := by
  simp only [Slot.CloseSocketIfNeedByHandleThread]
  split
  · next h1 =>
    rw [if_neg (show ¬ sl.mpCloseRecv = true from fun h2 => h ⟨h1, h2⟩)]
  · rfl

theorem ok_closeIfNeed {A R : Load} {g : Nat} (hok : (table f (A + (.ref (fd, g) + R))).Ok) :
    (table (Function.update f fd (f fd).CloseSocketIfNeedByHandleThread.2)
      (A + ((if (f fd).CloseSocketIfNeedByHandleThread.1 then .onClose fd else 0) + R))).Ok := by
  rw [ok_swap] at hok ⊢
  rw [table_update]
  have hheld : (table f (.ref (fd, g) + (A + R))).held = (fd, g) ::ₘ (A + R).1 := by
    simp [table, Load.ref]
  have hfin : (table f (.ref (fd, g) + (A + R))).finalizing = (A + R).2.1 := by
    simp [table, Load.ref]
  have hfree : (table f (.ref (fd, g) + (A + R))).freeing = (A + R).2.2 := by
    simp [table, Load.ref]
  by_cases hlast : (f fd).handle.Last
  · have h1 := hok.step (.releaseLast _ fd g _ hheld hlast)
    have h2 : Load.onClose fd + (A + R) = ((A + R).1, fd ::ₘ (A + R).2.1, (A + R).2.2) := by
      simp [Load.onClose, Prod.ext_iff]
    rw [Slot.closeIfNeed_last hlast, if_pos rfl, h2, ← hfin, ← hfree]
    exact h1
  · have h1 := hok.step (.release _ fd g _ hheld hlast)
    rw [Slot.closeIfNeed_not_last hlast, if_neg (by simp), zero_add]
    show Table.Ok ⟨_, (A + R).1, (A + R).2.1, (A + R).2.2⟩
    rw [← hfin, ← hfree]
    exact h1

theorem ok_OnDisconnect {A R : Load} (hok : (table f (A + (0 + R))).Ok)
    (hu : (f fd).handle.Usable) (hdisc : (f fd).disconnected = false) :
    (table (Function.update f fd (f fd).OnDisconnect.2)
      (A + ((if (f fd).OnDisconnect.1 then .onClose fd else 0) + R))).Ok := by
  rw [zero_add] at hok
  rw [ok_swap, table_update]
  by_cases hcount : (f fd).mpHandlingMessageCount = 0
  · have h1 := hok.step (.retireNow _ fd hu hdisc hcount)
    have h2 : (f fd).OnDisconnect
        = (true, { f fd with disconnected := true, decided := true }) := if_pos hcount
    have h3 : Load.onClose fd + (A + R) = ((A + R).1, fd ::ₘ (A + R).2.1, (A + R).2.2) := by
      simp [Load.onClose, Prod.ext_iff]
    rw [h2, if_pos rfl, h3]
    exact h1
  · have h1 := hok.step (.retire _ fd hu hdisc hcount)
    have h2 : (f fd).OnDisconnect
        = (false, { f fd with disconnected := true, mpCloseRecv := true }) := if_neg hcount
    rw [h2, if_neg (by simp), zero_add]
    exact h1

theorem ok_OnClose {A R : Load} (hok : (table f (A + (.onClose fd + R))).Ok) :
    (table (Function.update f fd (f fd).OnClose) (A + (.close fd + R))).Ok := by
  rw [ok_swap] at hok ⊢
  rw [table_update]
  have hmem : (table f (.onClose fd + (A + R))).finalizing = fd ::ₘ (A + R).2.1 := by
    simp [table, Load.onClose]
  have hheld : (table f (.onClose fd + (A + R))).held = (A + R).1 := by simp [table, Load.onClose]
  have hfree : (table f (.onClose fd + (A + R))).freeing = (A + R).2.2 := by
    simp [table, Load.onClose]
  have h1 := hok.step (.finalize _ fd _ hmem)
  have h2 : Load.close fd + (A + R) = ((A + R).1, (A + R).2.1, fd ::ₘ (A + R).2.2) := by
    simp [Load.close, Prod.ext_iff]
  rw [h2, ← hheld, ← hfree]
  exact h1

theorem ok_close {A R : Load} (hok : (table f (A + (.close fd + R))).Ok) :
    (table (Function.update f fd (f fd).close) (A + (0 + R))).Ok := by
  rw [ok_swap] at hok
  rw [zero_add, table_update]
  have hmem : (table f (.close fd + (A + R))).freeing = fd ::ₘ (A + R).2.2 := by
    simp [table, Load.close]
  have hheld : (table f (.close fd + (A + R))).held = (A + R).1 := by simp [table, Load.close]
  have hfin : (table f (.close fd + (A + R))).finalizing = (A + R).2.1 := by
    simp [table, Load.close]
  have h1 := hok.step (.free _ fd _ hmem)
  show Table.Ok ⟨_, (A + R).1, (A + R).2.1, (A + R).2.2⟩
  rw [← hheld, ← hfin]
  exact h1

/-- only a disconnected descriptor is closed -/
theorem ok_closing {A R : Load} (hok : (table f (A + (.close fd + R))).Ok) :
    (f fd).disconnected = true := by
  rw [ok_swap] at hok
  have hcount : 0 < (table f (.close fd + (A + R))).freeing.count fd := by
    rw [Multiset.count_pos]
    simp [table, Load.close]
  have hdec := ((hok.entry fd).closing (Nat.add_pos_right _ hcount)).2.1
  exact ((hok.entry fd).decided hdec).1

end VncProxy.Tcp
