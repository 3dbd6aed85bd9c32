import VncProxy.Lib.Run
import VncProxy.Wire.Reassembly

/-!
# The Messages for early chunks

`Run` puts `miMaxClient` Messages into `TcpProxyServer::mIdleMessageList`.  `ParseData` takes one for an
early chunk and keeps it in `mMessageMap` of the `Client` until it is parsed; the destructor of `Client`
gives nothing back, and `Insert` takes no second chunk under one number.

* `Client.messages`      the Messages that a `Client` and the list have between them;
* `ParseData_messages`   what one call does to them;
* `State`, `State.step`  the list and all `Client` objects;
* `State.count`          the Messages that can still be used;
* `State.Kept`           the condition on a step;
* `pool_balanced_iff`    none is lost in a run just when its steps keep to the condition.
-/

namespace VncProxy

/-! ## one call of `ParseData` -/

def Client.messages (c : Client) : Nat := c.mpIdleMessageList.length + c.mMessageMap.length

def Client.Distinct (c : Client) : Prop := (c.mMessageMap.map Prod.fst).Nodup

/-- if the chunk is copied to a Message, its number is not in the map -/
def Client.NumberFree (c : Client) (m : Message) : Prop :=
  c.mbError = false → c.miDataPacketRecvSeq ≠ m.seq → c.mpIdleMessageList ≠ [] →
    ∀ e ∈ c.mMessageMap, e.1 ≠ m.seq

instance (c : Client) (m : Message) : Decidable (c.NumberFree m) :=
  inferInstanceAs (Decidable (_ → _ → _ → _))

section
variable {n : Nat} {c : Client} {m : Message} {r : Client × Int}

theorem Client.parse_map {data : List Byte} (h : c.parse n data = some r) :
    r.1.mMessageMap = c.mMessageMap := by
  obtain ⟨p, _, rfl⟩ := Option.map_eq_some_iff.mp h
  rfl

theorem drain_messages (k : Nat) : ∀ (c : Client) (ret : Int) (r : Client × Int), c.Distinct →
    drain n k c ret = some r → r.1.messages = c.messages ∧ r.1.Distinct := by
  induction k with
  | zero => intro c ret r _ h; cases h
  | succ k ih =>
    intro c ret r hc h
    unfold drain at h
    split at h
    · cases h
      exact ⟨rfl, hc⟩
    · next key mc hfind =>
      obtain ⟨p, hp, h⟩ := Option.bind_eq_some_iff.mp h
      have hkey : key = c.miDataPacketRecvSeq := by simpa using List.find?_some hfind
      have hmem : (c.miDataPacketRecvSeq, mc) ∈ c.mMessageMap :=
        hkey ▸ List.mem_of_find?_eq_some hfind
      have hlen := (perm_cons_filter hc hmem).length_eq
      -- the client behind the round
      have hround : ∀ seq, Client.messages { p.1 with
            mpIdleMessageList := p.1.mpIdleMessageList ++ [mc]
            mMessageMap := p.1.mMessageMap.filter (·.1 != c.miDataPacketRecvSeq)
            miDataPacketRecvSeq := seq } = c.messages := by
        intro seq
        show (p.1.mpIdleMessageList ++ [mc]).length + (p.1.mMessageMap.filter _).length = _
        rw [Client.parse_idle hp, Client.parse_map hp, List.length_append, List.length_singleton]
        unfold Client.messages
        rw [hlen, List.length_cons]
        omega
      have hdistinct : ((p.1.mMessageMap.filter (·.1 != c.miDataPacketRecvSeq)).map Prod.fst).Nodup := by
        rw [Client.parse_map hp]
        exact hc.sublist (List.filter_sublist.map Prod.fst)
      dsimp only at h
      split at h
      · obtain ⟨h1, h2⟩ := ih _ _ _ (by exact hdistinct) h
        exact ⟨h1.trans (hround _), h2⟩
      · cases h
        exact ⟨hround _, hdistinct⟩

theorem Client.inOrder_messages (hc : c.Distinct) (h : c.inOrder n m = some r) :
    r.1.messages = c.messages ∧ r.1.Distinct := by
  obtain ⟨p, hp, h⟩ := Option.bind_eq_some_iff.mp h
  have hsame : p.1.messages = c.messages := by
    unfold Client.messages
    rw [Client.parse_idle hp, Client.parse_map hp]
  have hdistinct : p.1.Distinct := by
    unfold Client.Distinct
    rwa [Client.parse_map hp]
  split at h
  · have hd := drain_messages n { p.1 with miDataPacketRecvSeq := p.1.miDataPacketRecvSeq + 1 } _ _
      hdistinct h
    exact ⟨hd.1.trans hsame, hd.2⟩
  · cases h
    exact ⟨hsame, hdistinct⟩

/-- an early chunk takes a Message into the map, or the Message is lost -/
theorem Client.early_messages (hc : c.Distinct) (m : Message) :
    (c.early m).1.Distinct ∧ (c.early m).1.messages ≤ c.messages ∧
      ((c.early m).1.messages = c.messages ↔
        (c.mpIdleMessageList ≠ [] → ∀ e ∈ c.mMessageMap, e.1 ≠ m.seq)) := by
  unfold Client.early
  split
  · next hnil =>
    refine ⟨hc, Nat.le_refl _, iff_of_true rfl fun hne => ?_⟩
    exact absurd hnil hne
  · next mc idle hidle =>
    rw [forall_prop_of_true (by rw [hidle]; exact List.cons_ne_nil mc idle)]
    have hcount : c.messages = idle.length + c.mMessageMap.length + 1 := by
      unfold Client.messages
      rw [hidle, List.length_cons]
      omega
    unfold Client.insert
    split
    · next hany =>
      have hlost : ¬ ∀ e ∈ c.mMessageMap, e.1 ≠ m.seq := by
        simpa using hany
      have hmessages : Client.messages { c with mpIdleMessageList := idle }
          = idle.length + c.mMessageMap.length := rfl
      refine ⟨hc, ?_, iff_of_false ?_ hlost⟩
      · show Client.messages { c with mpIdleMessageList := idle } ≤ _
        omega
      · show Client.messages { c with mpIdleMessageList := idle } ≠ _
        omega
    · next hnone =>
      have hfree : ∀ e ∈ c.mMessageMap, e.1 ≠ m.seq := fun e he heq =>
        hnone (List.any_eq_true.mpr ⟨e, he, by simpa using heq⟩)
      have hmessages : idle.length + (c.mMessageMap ++ [(m.seq, { mc with
          buffer := memcpy mc.buffer 0 m.data, len := m.len })]).length = c.messages := by
        rw [List.length_append, List.length_singleton, hcount]
        omega
      refine ⟨?_, Nat.le_of_eq hmessages, iff_of_true hmessages hfree⟩
      show ((c.mMessageMap ++ [_]).map Prod.fst).Nodup
      rw [List.map_append, List.nodup_append]
      refine ⟨hc, List.nodup_singleton _, fun a ha b hb => ?_⟩
      obtain ⟨e, he, rfl⟩ := List.mem_map.mp ha
      rw [List.mem_singleton.mp hb]
      exact hfree e he

/-- **A call of `ParseData` keeps all Messages just when it caches no chunk under a number that is in the
map**, and it never makes one. -/
theorem ParseData_messages (hc : c.Distinct) (h : ParseData n c m = some r) :
    r.1.Distinct ∧ r.1.messages ≤ c.messages ∧ (r.1.messages = c.messages ↔ c.NumberFree m) := by
  obtain ⟨p, hp, rfl⟩ := Option.map_eq_some_iff.mp h
  have hcall : p.1.Distinct ∧ p.1.messages ≤ c.messages ∧
      (p.1.messages = c.messages ↔ c.NumberFree m) := by
    unfold Client.NumberFree
    split at hp
    · next herr =>
      cases hp
      exact ⟨hc, Nat.le_refl _, iff_of_true rfl fun h => by rw [herr] at h; cases h⟩
    · next herr =>
      rw [forall_prop_of_true (by simpa using herr)]
      split at hp
      · next hseq =>
        cases hp
        rw [forall_prop_of_true hseq]
        exact c.early_messages hc m
      · next hseq =>
        obtain ⟨h1, h2⟩ := Client.inOrder_messages hc hp
        exact ⟨h2, Nat.le_of_eq h1, iff_of_true h1 fun hne => absurd hne hseq⟩
  split
  · exact hcall
  · exact hcall

end

/-! ## the clients of `TcpProxyServer` -/

namespace Pool

/-- the list and the `Client` objects that exist; each `mpIdleMessageList` points to the list -/
structure State where
  mIdleMessageList : List Message
  mpVNCClient : Option (CInt × Client)
  mClientMap : List (CInt × Client)

/-- `Run`; `new` is what `new Message()` returns -/
def State.Run (miMaxClient : Nat) (new : Nat → Message) : State :=
  ⟨(List.range miMaxClient).map new, none, []⟩

inductive Action where
  | accept (fd : CInt)
  /-- `OnDisconnect` of either server, which only changes `isOnline` -/
  | disconnect (fd : CInt)
  | close (fd : CInt)
  | vncAccept (fd : CInt)
  | vncClose (fd : CInt)
  /-- `mpVNCClient->ParseData(m)`, `n` rounds of each loop being enough -/
  | parseData (n : Nat) (m : Message)

namespace State

/-- `OnAccept` of the HTTP server; `Insert` keeps an entry that is there -/
def OnAccept (s : State) (fd : CInt) : State :=
  if s.mClientMap.any (·.1 == fd) then s
  else { s with mClientMap := s.mClientMap ++ [(fd, .fresh [])] }

def OnClose (s : State) (fd : CInt) : State :=
  { s with mClientMap := s.mClientMap.filter (·.1 != fd) }

def vncAccept (s : State) (fd : CInt) : State :=
  match s.mpVNCClient with
  | none => { s with mpVNCClient := some (fd, .fresh []) }
  | some _ => s

def vncClose (s : State) (fd : CInt) : State :=
  { s with mpVNCClient := s.mpVNCClient.filter (·.1 ≠ fd) }

/-- the client behind `mpVNCClient`, with the list it points to -/
def client (s : State) (c : Client) : Client := { c with mpIdleMessageList := s.mIdleMessageList }

def step (s : State) : Action → Option State
  | .accept fd => some (s.OnAccept fd)
  | .disconnect _ => some s
  | .close fd => some (s.OnClose fd)
  | .vncAccept fd => some (s.vncAccept fd)
  | .vncClose fd => some (s.vncClose fd)
  | .parseData n m => s.mpVNCClient.bind fun v => (ParseData n (s.client v.2) m).map fun r =>
      { s with mIdleMessageList := r.1.mpIdleMessageList, mpVNCClient := some (v.1, r.1) }

/-- the Messages in the list and in the maps of the clients that exist -/
def count (s : State) : Nat :=
  s.mIdleMessageList.length + (s.mpVNCClient.elim 0 fun v => v.2.mMessageMap.length) +
    (s.mClientMap.map fun e => e.2.mMessageMap.length).sum

/-- no client is deleted that has cached chunks, and no chunk is cached under a number that is in the
map -/
def Kept (s : State) : Action → Prop
  | .vncClose fd => ∀ v ∈ s.mpVNCClient, v.1 = fd → v.2.mMessageMap = []
  | .parseData _ m => ∀ v ∈ s.mpVNCClient, (s.client v.2).NumberFree m
  | _ => True

instance : DecidableRel Kept := fun s a =>
  match a with
  | .vncClose fd =>
    inferInstanceAs (Decidable (∀ v ∈ s.mpVNCClient, v.1 = fd → v.2.mMessageMap = []))
  | .parseData _ m =>
    inferInstanceAs (Decidable (∀ v ∈ s.mpVNCClient, (s.client v.2).NumberFree m))
  | .accept _ | .disconnect _ | .close _ | .vncAccept _ => .isTrue trivial

structure Inv (miMaxClient : Nat) (s : State) : Prop where
  le : s.count ≤ miMaxClient
  distinct : ∀ v ∈ s.mpVNCClient, v.2.Distinct
  http : ∀ e ∈ s.mClientMap, e.2.mMessageMap = []

variable {miMaxClient : Nat} {s s' : State}

theorem Inv.sum_http (h : ∀ e ∈ s.mClientMap, e.2.mMessageMap = []) :
    (s.mClientMap.map fun e => e.2.mMessageMap.length).sum = 0 := by
  refine List.sum_eq_zero_iff_forall_eq_nat.mpr fun x hx => ?_
  obtain ⟨e, he, rfl⟩ := List.mem_map.mp hx
  rw [h e he, List.length_nil]

theorem Inv.step_count {a : Action} (hs : s.Inv miMaxClient) (h : s.step a = some s') :
    s'.count ≤ s.count ∧ (s'.count = s.count ↔ s.Kept a) ∧
      (∀ v ∈ s'.mpVNCClient, v.2.Distinct) ∧ ∀ e ∈ s'.mClientMap, e.2.mMessageMap = [] := by
  cases a with
  | accept fd =>
    obtain rfl := Option.some.inj h
    have hhttp : ∀ e ∈ (s.OnAccept fd).mClientMap, e.2.mMessageMap = [] := by
      unfold OnAccept
      split
      · exact hs.http
      · intro e he
        rcases List.mem_append.mp he with he | he
        · exact hs.http e he
        · rw [List.mem_singleton.mp he]
          rfl
    have hcount : (s.OnAccept fd).count = s.count := by
      unfold count
      rw [Inv.sum_http hs.http, Inv.sum_http hhttp]
      unfold OnAccept
      split <;> rfl
    have hvnc : (s.OnAccept fd).mpVNCClient = s.mpVNCClient := by
      unfold OnAccept
      split <;> rfl
    exact ⟨Nat.le_of_eq hcount, iff_of_true hcount trivial, hvnc ▸ hs.distinct, hhttp⟩
  | disconnect fd =>
    obtain rfl := Option.some.inj h
    exact ⟨Nat.le_refl _, iff_of_true rfl trivial, hs.distinct, hs.http⟩
  | close fd =>
    obtain rfl := Option.some.inj h
    have hhttp : ∀ e ∈ (s.OnClose fd).mClientMap, e.2.mMessageMap = [] :=
      fun e he => hs.http e (List.mem_of_mem_filter he)
    have hcount : (s.OnClose fd).count = s.count := by
      unfold count
      rw [Inv.sum_http hs.http, Inv.sum_http hhttp]
      rfl
    exact ⟨Nat.le_of_eq hcount, iff_of_true hcount trivial, hs.distinct, hhttp⟩
  | vncAccept fd =>
    obtain rfl := Option.some.inj h
    unfold vncAccept
    cases hv : s.mpVNCClient with
    | some v => exact ⟨Nat.le_refl _, iff_of_true rfl trivial, hs.distinct, hs.http⟩
    | none =>
      have hcount : State.count { s with mpVNCClient := some (fd, .fresh []) } = s.count := by
        unfold count
        rw [hv]
        rfl
      refine ⟨Nat.le_of_eq hcount, iff_of_true hcount trivial, fun v h => ?_, hs.http⟩
      obtain rfl := Option.some.inj h
      exact List.nodup_nil
  | vncClose fd =>
    obtain rfl := Option.some.inj h
    have hvnc : ∀ v ∈ s.mpVNCClient.filter (·.1 ≠ fd), v ∈ s.mpVNCClient :=
      fun v hv => (Option.filter_eq_some_iff.mp hv).1
    have hcount : (s.vncClose fd).count ≤ s.count ∧
        ((s.vncClose fd).count = s.count ↔ s.Kept (.vncClose fd)) := by
      unfold count vncClose Kept
      cases hv : s.mpVNCClient with
      | none => simp
      | some v =>
        rw [Option.filter_some]
        by_cases hfd : v.1 = fd
        · simp [hfd, ← List.length_eq_zero_iff]
        · simp [hfd]
    exact ⟨hcount.1, hcount.2, fun v hv => hs.distinct v (hvnc v hv), hs.http⟩
  | parseData n m =>
    obtain ⟨v, hv, h⟩ := Option.bind_eq_some_iff.mp h
    obtain ⟨r, hr, rfl⟩ := Option.map_eq_some_iff.mp h
    obtain ⟨h1, h2, h3⟩ := ParseData_messages (c := s.client v.2) (hs.distinct v hv) hr
    have hkept : s.Kept (.parseData n m) ↔ (s.client v.2).NumberFree m := by
      constructor
      · exact fun h => h v hv
      · intro h v' hv'
        obtain rfl := Option.some.inj (hv.symm.trans hv')
        exact h
    have hold : s.count = (s.client v.2).messages +
        (s.mClientMap.map fun e => e.2.mMessageMap.length).sum := by
      unfold count
      rw [hv]
      rfl
    have hnew : State.count { s with mIdleMessageList := r.1.mpIdleMessageList
                                     mpVNCClient := some (v.1, r.1) } = r.1.messages +
        (s.mClientMap.map fun e => e.2.mMessageMap.length).sum := rfl
    refine ⟨?_, ?_, fun v' hv' => ?_, hs.http⟩
    · rw [hold, hnew]
      exact Nat.add_le_add_right h2 _
    · rw [hold, hnew, hkept, ← h3]
      exact Nat.add_right_cancel_iff
    · obtain rfl := Option.some.inj hv'
      exact h1

theorem Inv.step {a : Action} (hs : s.Inv miMaxClient) (h : s.step a = some s') :
    s'.Inv miMaxClient := by
  obtain ⟨hle, _, hdistinct, hhttp⟩ := hs.step_count h
  exact ⟨Nat.le_trans hle hs.le, hdistinct, hhttp⟩

theorem Inv.count_step {a : Action} (hs : s.Inv miMaxClient) (h : s.step a = some s') :
    s'.count = miMaxClient ↔ s.count = miMaxClient ∧ s.Kept a := by
  obtain ⟨hle, hiff, _, _⟩ := hs.step_count h
  have hmax := hs.le
  rw [← hiff]
  omega

theorem count_Run (miMaxClient : Nat) (new : Nat → Message) :
    (State.Run miMaxClient new).count = miMaxClient := by
  show ((List.range miMaxClient).map new).length = miMaxClient
  rw [List.length_map, List.length_range]

end State

/-- **The list and the maps of the clients have the `miMaxClient` Messages that `Run` made, just when no
client was deleted that had cached chunks, and no chunk was cached under a number that was in the map.** -/
theorem pool_balanced_iff (miMaxClient : Nat) (new : Nat → Message) (l : List Action) (s : State)
    (hrun : run State.step (State.Run miMaxClient new) l = some s) :
    s.count = miMaxClient ↔ RunOk State.step State.Kept (State.Run miMaxClient new) l := by
  have hcount := State.count_Run miMaxClient new
  have hinit : (State.Run miMaxClient new).Inv miMaxClient := ⟨Nat.le_of_eq hcount, nofun, nofun⟩
  rw [runOk_iff (fun _ _ _ => State.Inv.step) (fun _ _ _ => State.Inv.count_step) hinit hrun,
    and_iff_right hcount]

/-- the second chunk comes early and the first one late, and then the link is lost -/
theorem pool_balanced_late :
    ∃ (miMaxClient : Nat) (new : Nat → Message) (l : List Action) (s : State),
      run State.step (State.Run miMaxClient new) l = some s ∧ l.length = 4 ∧ s.mpVNCClient = none ∧
        s.count = miMaxClient := by
  have hrun : ∃ s, run State.step (State.Run 2 fun i => ⟨i, 0, 0, 0, []⟩)
      [.vncAccept 7, .parseData 9 ⟨100, 7, 9, 1, List.replicate 9 0⟩,
        .parseData 9 ⟨101, 7, 8, 0, List.replicate 8 0⟩, .vncClose 7] = some s ∧
      s.mpVNCClient = none := ⟨_, rfl, rfl⟩
  obtain ⟨s, hs, hnone⟩ := hrun
  exact ⟨2, _, _, s, hs, rfl, hnone, (pool_balanced_iff 2 _ _ s hs).mpr (by decide)⟩

/-- the second chunk comes early, and the first one has a bad header -/
theorem not_pool_balanced :
    ¬ ∀ (miMaxClient : Nat) (new : Nat → Message) (l : List Action) (s : State),
      run State.step (State.Run miMaxClient new) l = some s → s.count = miMaxClient := by
  intro hall
  have hrun : ∃ s, run State.step (State.Run 2 fun i => ⟨i, 0, 0, 0, []⟩)
      [.vncAccept 7, .parseData 17 ⟨100, 7, 9, 1, List.replicate 9 0⟩,
        .parseData 17 ⟨101, 7, 17, 0, List.replicate 17 255⟩, .vncClose 7] = some s ∧
      s.count = 1 := ⟨_, rfl, rfl⟩
  obtain ⟨s, hs, hcount⟩ := hrun
  have := hall 2 _ _ s hs
  omega
end Pool

end VncProxy
