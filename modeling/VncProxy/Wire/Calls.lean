import VncProxy.Wire.Rounds

/-!
# The calls of `ParseDataNoCache` for a sequence of chunks

The chunks come in the order of their numbers, so `ParseData` calls `ParseDataNoCache` once for each
of them, on the `mBuffer` the call before has left, until a call returns -1.

* `Called c ms buf d`    one of these calls finds `mBuffer = buf` and is given the data `d`;
* `calls_outcome`        together the calls walk over all the bytes;
* `returns_iff_no_jam`   they all return, every round getting on, just when the walk meets no jam;
* `inBounds_iff_short`   they stay in `mBuffer` and in `cmd` just when all its frames are short.
-/

namespace VncProxy

/-- the chunks as `Recv_Callback` numbers them, from `i` on -/
def numbered : Nat → List Chunk → List Message
  | _, [] => []
  | i, d :: ds => ⟨i, 0, d.bytes.length, i, d.bytes⟩ :: numbered (i + 1) ds

/-- while the Messages are handed to `ParseData` one after the other -/
inductive Called : Client → List Message → List Byte → List Byte → Prop
  | now {c : Client} {m : Message} {ms : List Message} (he : c.mbError = false)
      (hs : c.miDataPacketRecvSeq = m.seq) : Called c (m :: ms) c.mBuffer m.data
  | later {c : Client} {m : Message} {ms : List Message} {buf d : List Byte} {n : Nat}
      {r : Client × Int} (h : ParseData n c m = some r) (hc : Called r.1 ms buf d) :
      Called c (m :: ms) buf d

/-- the call returns, and every round of its outer loop gets on -/
def CallReturns (buf d : List Byte) : Prop :=
  (∃ n p, ParseDataNoCache n buf d = some p) ∧
    ∀ s, Rounds ParseLoop.cond ParseLoop.body ⟨buf, d, 0, []⟩ s → s.Progress

def CallInBounds (buf d : List Byte) : Prop :=
  ∀ s, Rounds ParseLoop.cond ParseLoop.body ⟨buf, d, 0, []⟩ s → s.InBounds

/-- between two calls: no chunk is cached and `mBuffer` holds a part of a frame -/
structure Client.Ready (c : Client) (i : Nat) : Prop where
  noError : c.mbError = false
  next : c.miDataPacketRecvSeq = i
  nothingCached : c.mMessageMap = []
  part : Part c.mBuffer
  len : c.mBuffer.length ≤ MAX_BUFFER_LEN

theorem Client.Ready.fresh (idle : List Message) : (Client.fresh idle).Ready 0 :=
  ⟨rfl, rfl, rfl, Or.inl (Nat.succ_pos _), Nat.zero_le _⟩

/-! ## one chunk -/

/-- the client behind a chunk that `ParseDataNoCache` has parsed without an error -/
def Client.parsedChunk (c : Client) (p : ParseLoop) : Client :=
  { c with
    mBuffer := p.mBuffer
    parsed := c.parsed ++ p.parsed
    miDataPacketRecvSeq := c.miDataPacketRecvSeq + 1 }

theorem Client.Ready.parsedChunk {c : Client} {i : Nat} (h : c.Ready i) {p : ParseLoop}
    (hp : Part p.mBuffer) (hlen : p.mBuffer.length ≤ MAX_BUFFER_LEN) :
    (c.parsedChunk p).Ready (i + 1) :=
  ⟨h.noError, congrArg (· + 1) h.next, h.nothingCached, hp, hlen⟩

theorem ParseData_next {c : Client} {i : Nat} (hc : c.Ready i) {m : Message} (hm : m.seq = i)
    {n : Nat} {r : Client × Int} (h : ParseData n c m = some r) :
    ∃ p, ParseDataNoCache n c.mBuffer m.data = some p ∧
      (p.ret ≠ -1 → r.1 = c.parsedChunk p) ∧ (p.ret = -1 → r.1.mbError = true) := by
  unfold ParseData at h
  rw [hc.noError, hc.next, hm] at h
  obtain ⟨q, hq, rfl⟩ := Option.map_eq_some_iff.mp h
  simp only [Bool.false_eq_true, if_false, ne_eq, not_true_eq_false] at hq
  obtain ⟨⟨c', ret⟩, hparse, hq⟩ := Option.bind_eq_some_iff.mp hq
  obtain ⟨p, hp, he⟩ := Option.map_eq_some_iff.mp hparse
  obtain ⟨rfl, rfl⟩ := Prod.mk.inj he
  refine ⟨p, hp, fun hret => ?_, fun hret => ?_⟩
  · rw [if_pos hret] at hq
    -- nothing is cached, so the drain loop ends at once
    have hnone : c.mMessageMap.find? (·.1 == c.miDataPacketRecvSeq + 1) = none := by
      rw [hc.nothingCached]
      rfl
    cases n with
    | zero => exact absurd hq (by simp [drain])
    | succ n =>
      simp only [drain, hnone] at hq
      obtain rfl := Option.some.inj hq
      rw [if_neg hret]
      rfl
  · rw [if_neg (by simpa using hret)] at hq
    obtain rfl := Option.some.inj hq
    rw [if_pos hret]

theorem ParseData_returns {c : Client} {i : Nat} (hc : c.Ready i) {m : Message} (hm : m.seq = i)
    {n : Nat} {p : ParseLoop} (h : ParseDataNoCache n c.mBuffer m.data = some p) :
    ∃ k r, ParseData k c m = some r := by
  have hk : ParseDataNoCache (n + 1) c.mBuffer m.data = some p := loop_mono (Nat.le_succ n) h
  have hnone : c.mMessageMap.find? (·.1 == c.miDataPacketRecvSeq + 1) = none := by
    rw [hc.nothingCached]
    rfl
  refine ⟨n + 1, ?_⟩
  unfold ParseData
  rw [hc.noError, hc.next, hm]
  simp only [Bool.false_eq_true, if_false, ne_eq, not_true_eq_false, Client.inOrder, Client.parse,
    hk, Option.map_some, Option.bind_some, drain, hnone]
  split <;> exact ⟨_, rfl⟩

theorem not_called_of_error {c : Client} {ms : List Message} {buf d : List Byte}
    (h : Called c ms buf d) (he : c.mbError = true) : False := by
  induction h with
  | now he' hs =>
    rw [he'] at he
    exact absurd he (by simp)
  | later hr _ ih =>
    obtain ⟨p, hp, rfl⟩ := Option.map_eq_some_iff.mp hr
    rw [if_pos he] at hp
    obtain rfl := Option.some.inj hp
    exact ih rfl

theorem called_cons {c : Client} {i : Nat} (hc : c.Ready i) {ch : Chunk} {ds : List Chunk}
    {buf d : List Byte} :
    Called c (numbered i (ch :: ds)) buf d ↔ (buf = c.mBuffer ∧ d = ch.bytes) ∨
      ∃ n p, ParseDataNoCache n c.mBuffer ch.bytes = some p ∧ p.ret ≠ -1 ∧
        Called (c.parsedChunk p) (numbered (i + 1) ds) buf d := by
  have hdata : Message.data ⟨i, 0, ch.bytes.length, i, ch.bytes⟩ = ch.bytes :=
    List.take_length
  constructor
  · intro h
    cases h with
    | now he hs => exact Or.inl ⟨rfl, hdata⟩
    | @later _ _ _ _ _ n r h hcall =>
      obtain ⟨p, hp, h1, h2⟩ := ParseData_next hc rfl h
      rw [hdata] at hp
      by_cases hret : p.ret = -1
      · exact (not_called_of_error hcall (h2 hret)).elim
      · rw [h1 hret] at hcall
        exact Or.inr ⟨n, p, hp, hret, hcall⟩
  · rintro (⟨rfl, rfl⟩ | ⟨n, p, hp, hret, hcall⟩)
    · have h : Called c (⟨i, 0, ch.bytes.length, i, ch.bytes⟩ :: numbered (i + 1) ds) c.mBuffer _ :=
        Called.now hc.noError hc.next
      rwa [hdata] at h
    · rw [← hdata] at hp
      obtain ⟨k, r, hr⟩ := ParseData_returns hc rfl hp
      obtain ⟨p', hp', h1, _⟩ := ParseData_next hc rfl hr
      obtain rfl : p' = p := loop_unique hp' hp
      refine Called.later hr ?_
      rw [h1 hret]
      exact hcall

/-! ## all chunks -/

/-- what the calls for the chunks `ds` do -/
structure CallsEnd (c : Client) (i : Nat) (ds : List Chunk) (fs : List CMD) (u : List Byte) :
    Prop where
  walk : Walk (c.mBuffer ++ ds.flatMap Chunk.bytes) fs u
  notWhole : ¬ Whole u
  inBounds : (∀ buf d, Called c (numbered i ds) buf d → CallInBounds buf d) ↔
    ∀ cmd ∈ fs, cmd.param.length < MAX_PARAM_LEN
  returns : (∀ buf d, Called c (numbered i ds) buf d → CallReturns buf d) ↔ ¬ Jam u

theorem calls_last {c : Client} {i : Nat} (hc : c.Ready i) {ch : Chunk} {ds : List Chunk}
    {new : List CMD} {u : List Byte} (h : CallEnd ⟨c.mBuffer, ch.bytes, 0, []⟩ new u)
    (hlast : ∀ n p, ParseDataNoCache n c.mBuffer ch.bytes = some p → p.ret = -1)
    (hreturns : CallReturns c.mBuffer ch.bytes ↔ ¬ Jam (u ++ ds.flatMap Chunk.bytes))
    (hu : ¬ Whole (u ++ ds.flatMap Chunk.bytes)) :
    CallsEnd c i (ch :: ds) new (u ++ ds.flatMap Chunk.bytes) := by
  have hcall : ∀ buf d, Called c (numbered i (ch :: ds)) buf d ↔ buf = c.mBuffer ∧ d = ch.bytes := by
    intro buf d
    rw [called_cons hc]
    exact or_iff_left fun ⟨n, p, hp, hret, _⟩ => hret (hlast n p hp)
  refine ⟨?_, hu, ?_, ?_⟩
  · rw [List.flatMap_cons, ← List.append_assoc]
    exact h.walk.append _
  · rw [← h.inBounds]
    simp only [hcall]
    exact ⟨fun hall => hall _ _ ⟨rfl, rfl⟩, fun hin _ _ ⟨h1, h2⟩ => h1 ▸ h2 ▸ hin⟩
  · rw [← hreturns]
    simp only [hcall]
    exact ⟨fun hall => hall _ _ ⟨rfl, rfl⟩, fun hr _ _ ⟨h1, h2⟩ => h1 ▸ h2 ▸ hr⟩

theorem calls_cons {c : Client} {i : Nat} (hc : c.Ready i) {ch : Chunk} {ds : List Chunk}
    {new fs : List CMD} {u : List Byte} {n : Nat} {p : ParseLoop}
    (h : CallEnd ⟨c.mBuffer, ch.bytes, 0, []⟩ new p.mBuffer)
    (hp : ParseDataNoCache n c.mBuffer ch.bytes = some p) (hret : p.ret ≠ -1)
    (hreturns : CallReturns c.mBuffer ch.bytes)
    (hds : CallsEnd (c.parsedChunk p) (i + 1) ds fs u) : CallsEnd c i (ch :: ds) (new ++ fs) u := by
  have hcall : ∀ buf d, Called c (numbered i (ch :: ds)) buf d ↔ (buf = c.mBuffer ∧ d = ch.bytes) ∨
      Called (c.parsedChunk p) (numbered (i + 1) ds) buf d := by
    intro buf d
    rw [called_cons hc]
    refine or_congr_right ⟨fun ⟨n', p', hp', _, h'⟩ => ?_, fun h' => ⟨n, p, hp, hret, h'⟩⟩
    rwa [show p' = p from loop_unique hp' hp] at h'
  refine ⟨?_, hds.notWhole, ?_, ?_⟩
  · rw [List.flatMap_cons, ← List.append_assoc]
    exact (h.walk.append _).trans hds.walk
  · rw [List.forall_mem_append, ← h.inBounds, ← hds.inBounds]
    simp only [hcall]
    constructor
    · exact fun hall => ⟨hall _ _ (Or.inl ⟨rfl, rfl⟩), fun b d hb => hall b d (Or.inr hb)⟩
    · rintro ⟨h1, h2⟩ b d (⟨rfl, rfl⟩ | hb)
      · exact h1
      · exact h2 b d hb
  · rw [← hds.returns]
    simp only [hcall]
    constructor
    · exact fun hall b d hb => hall b d (Or.inr hb)
    · rintro h2 b d (⟨rfl, rfl⟩ | hb)
      · exact hreturns
      · exact h2 b d hb

/-- **Together the calls walk over all the bytes that come.** -/
theorem calls_outcome (ds : List Chunk) : ∀ (c : Client) (i : Nat), c.Ready i →
    ∃ fs u, CallsEnd c i ds fs u := by
  induction ds with
  | nil =>
    intro c i hc
    have hno : ∀ buf d, ¬ Called c (numbered i []) buf d := fun buf d h => by cases h
    refine ⟨[], c.mBuffer, ?_, fun hw => hw.not_part hc.part,
      iff_of_true (fun buf d h => absurd h (hno buf d)) (by simp),
      iff_of_true (fun buf d h => absurd h (hno buf d)) fun hj => ?_⟩
    · rw [List.flatMap_nil, List.append_nil]
      exact .stop _
    · exact absurd hj.more (Nat.not_lt.mpr hc.len)
  | cons ch ds ih =>
    intro c i hc
    obtain ⟨new, u, h⟩ := call_outcome ch.bytes.length ⟨c.mBuffer, ch.bytes, 0, []⟩ (Nat.le_refl _)
      (show (0 : Int) ≠ -1 by decide) hc.part hc.len
    rcases h.ends with ⟨n, p, hp, hret, hpart, hlen, rfl, hprog⟩ | ⟨n, p, hp, hret, hbad, hprog⟩ |
      ⟨hnever, hjam⟩
    · obtain ⟨fs, u, hds⟩ := ih (c.parsedChunk p) (i + 1) (hc.parsedChunk hpart hlen)
      exact ⟨new ++ fs, u, calls_cons hc h hp hret ⟨⟨n, p, hp⟩, hprog⟩ hds⟩
    · have hbad' := hbad.append (ds.flatMap Chunk.bytes)
      refine ⟨new, _, calls_last hc h (fun n' p' hp' => ?_) ?_ fun hw => hw.not_bad hbad'⟩
      · rw [show p' = p from loop_unique hp' hp]
        exact hret
      · exact iff_of_true ⟨⟨n, p, hp⟩, hprog⟩ fun hj => hj.not_bad hbad'
    · have hjam' := hjam.append (ds.flatMap Chunk.bytes)
      refine ⟨new, _, calls_last hc h (fun n p hp => ?_) ?_ fun hw => hw.not_jam hjam'⟩
      · rw [show ParseDataNoCache n c.mBuffer ch.bytes = none from hnever n] at hp
        exact absurd hp (by simp)
      · refine iff_of_false (fun ⟨⟨n, p, hp⟩, _⟩ => ?_) fun hj => hj hjam'
        rw [show ParseDataNoCache n c.mBuffer ch.bytes = none from hnever n] at hp
        exact absurd hp (by simp)

/-! ## termination -/

/-- **Every call returns, each round consuming input, removing something from `mBuffer` or setting
`ret` to -1, just when no frame on the way claims a length that is accepted, does not fit into
`mBuffer` with its header, and is followed by more bytes than `mBuffer` holds.** -/
theorem returns_iff_no_jam (idle : List Message) (chunks : List Chunk) :
    (∀ buf d, Called (Client.fresh idle) (numbered 0 chunks) buf d → CallReturns buf d) ↔
      ¬ ∃ fs t, Walk (chunks.flatMap Chunk.bytes) fs t ∧ Jam t := by
  obtain ⟨fs, u, h⟩ := calls_outcome chunks (Client.fresh idle) 0 (.fresh idle)
  rw [h.returns]
  refine not_congr ⟨fun hj => ⟨fs, u, h.walk, hj⟩, ?_⟩
  rintro ⟨fs', t, hw, hj⟩
  rwa [h.walk.unique h.notWhole (fun hwhole => hwhole.not_jam hj) hw]

/-- a header that claims 8192 bytes, and 8176 further bytes -/
theorem not_all_calls_return : ¬ ∀ (idle : List Message) (chunks : List Chunk) (buf d : List Byte),
    Called (Client.fresh idle) (numbered 0 chunks) buf d → CallReturns buf d := by
  intro h
  let header : CMDH := ⟨.CommandTypeProxy, 8192, 0, 5, true⟩
  let first : Chunk := ⟨header.bytes ++ List.replicate 8174 0, by
    rw [List.length_append, CMDH.bytes_length]; unfold sizeofCMDH; omega, by
    rw [List.length_append, CMDH.bytes_length, List.length_replicate]; decide⟩
  let second : Chunk := ⟨[0, 0], by decide, by decide⟩
  have hs : [first, second].flatMap Chunk.bytes
      = header.bytes ++ (List.replicate 8174 0 ++ [0, 0]) := by
    show (header.bytes ++ List.replicate 8174 0) ++ ([0, 0] ++ []) = _
    rw [List.append_nil, List.append_assoc]
  have hl : headLen ([first, second].flatMap Chunk.bytes) = 8192 := by
    rw [hs]
    unfold headLen
    rw [CMDH.read_bytes]
    rfl
  obtain ⟨fs, u, hend⟩ := calls_outcome [first, second] (Client.fresh []) 0 (.fresh [])
  have hjam : Jam ([first, second].flatMap Chunk.bytes) := by
    refine ⟨by rw [hl]; decide, by rw [hl]; decide, by rw [hl]; decide, ?_⟩
    rw [hs, List.length_append, CMDH.bytes_length, List.length_append, List.length_replicate]
    decide
  refine hend.returns.mp (h [] [first, second]) ?_
  rwa [← Walk.unique (.stop _) (fun hw => hw.not_jam hjam) hend.notWhole hend.walk]

/-! ## bounds -/

/-- **Every call stays in `mBuffer` and in the local `CMD`, the NUL behind the parameter included,
just when every whole frame on the way has a parameter of less than `MAX_PARAM_LEN` bytes.** -/
theorem inBounds_iff_short (idle : List Message) (chunks : List Chunk) :
    (∀ buf d, Called (Client.fresh idle) (numbered 0 chunks) buf d → CallInBounds buf d) ↔
      ∀ fs t, Walk (chunks.flatMap Chunk.bytes) fs t →
        ∀ cmd ∈ fs, cmd.param.length < MAX_PARAM_LEN := by
  obtain ⟨fs, u, h⟩ := calls_outcome chunks (Client.fresh idle) 0 (.fresh idle)
  rw [h.inBounds]
  constructor
  · intro hfs fs' t hw cmd hmem
    obtain ⟨more, rfl, _⟩ := hw.to_end h.notWhole h.walk
    exact hfs cmd (List.mem_append_left _ hmem)
  · exact fun hall => hall fs u h.walk

/-- a frame with a parameter of 4096 bytes -/
theorem not_all_calls_inBounds :
    ¬ ∀ (idle : List Message) (chunks : List Chunk) (buf d : List Byte),
      Called (Client.fresh idle) (numbered 0 chunks) buf d → CallInBounds buf d := by
  intro h
  let header : CMDH := ⟨.CommandTypeProxy, 4096, 0, 5, true⟩
  let frame : Chunk := ⟨header.bytes ++ List.replicate 4096 0, by
    rw [List.length_append, CMDH.bytes_length]; unfold sizeofCMDH; omega, by
    rw [List.length_append, CMDH.bytes_length, List.length_replicate]; decide⟩
  have hs : [frame].flatMap Chunk.bytes = header.bytes ++ List.replicate 4096 0 :=
    List.append_nil _
  have hl : headLen ([frame].flatMap Chunk.bytes) = 4096 := by
    rw [hs]
    unfold headLen
    rw [CMDH.read_bytes]
    rfl
  have hlen : ([frame].flatMap Chunk.bytes).length = 4113 := by
    rw [hs, List.length_append, CMDH.bytes_length, List.length_replicate]
    rfl
  have hwhole : Whole ([frame].flatMap Chunk.bytes) :=
    ⟨by rw [hlen]; decide, by rw [hl]; decide, by rw [hl]; decide, by rw [hl, hlen]; decide⟩
  obtain ⟨fs, u, hend⟩ := calls_outcome [frame] (Client.fresh []) 0 (.fresh [])
  have hshort := hend.inBounds.mp (h [] [frame])
  obtain ⟨more, rfl, _⟩ := Walk.to_end (.step hwhole (.stop _)) hend.notWhole hend.walk
  have hlt := hshort (cmdAt _) (List.mem_append_left _ (List.mem_singleton_self _))
  rw [hwhole.param_length, hl] at hlt
  exact absurd hlt (by decide)

end VncProxy
