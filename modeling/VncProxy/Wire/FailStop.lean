import Mathlib.Data.List.Infix
import VncProxy.Wire.Calls
import VncProxy.Wire.Reassembly

/-!
# A stream with a bad header

The stream is some whole frames, a header whose `len` is negative or above `MAX_BUFFER_LEN`, and
further bytes.  Its chunks are handed to `ParseData` in any order.

* `FailingStream s fs tail`   the frames `fs` lead to the bad header at the start of `tail`;
* `HeaderCame chunks tail seen`  every chunk with a byte before the end of that header is in `seen`;
* `parseLoop_walk`            `ParseDataNoCache` returns with a part of a frame or at a bad header;
* `Client.Reads`, `Client.Failed`  the state between two calls, before and after the error;
* `ParseData_reads`           one call leads from the one to the other just when the header has come;
* `parseData_fail_stop`       the frames are dispatched, and from that call on nothing else is.
-/

namespace VncProxy

/-! ## the stream -/

/-- well-formed frames, a bad header, and whatever comes behind it -/
structure FailingStream (s : List Byte) (fs : List CMD) (tail : List Byte) : Prop where
  walk : Walk s fs tail
  short : ∀ c ∈ fs, c.param.length < MAX_PARAM_LEN
  bad : Bad tail

/-- every chunk that has a byte before the end of the bad header is among the numbers `seen` -/
def HeaderCame (chunks : List Chunk) (tail : List Byte) (seen : List Nat) : Prop :=
  ∀ i, i < chunks.length →
    ((chunks.take i).flatMap Chunk.bytes).length + tail.length
      < (chunks.flatMap Chunk.bytes).length + sizeofCMDH → i ∈ seen

theorem Walk.of_frames {fs : List CMD} (hfs : ∀ c ∈ fs, c.Sendable) (t : List Byte) :
    Walk (fs.flatMap CMD.frame ++ t) fs t := by
  induction fs with
  | nil => exact .stop t
  | cons c fs ih =>
    have hc := (hfs c (List.mem_cons_self ..)).toFits
    have hread := c.read_frame (fs.flatMap CMD.frame ++ t)
    have hlen : headLen (c.frame ++ (fs.flatMap CMD.frame ++ t)) = c.param.length := by
      unfold headLen
      rw [hread, hc.sized]
    have hframe := c.frame_length
    have hdrop : (c.frame ++ (fs.flatMap CMD.frame ++ t)).drop sizeofCMDH
        = c.param ++ (fs.flatMap CMD.frame ++ t) := by
      rw [CMD.frame, List.append_assoc, ← CMDH.bytes_length c.header, List.drop_left]
    have hwhole : Whole (c.frame ++ (fs.flatMap CMD.frame ++ t)) := by
      have hfit := hc.frame
      refine ⟨?_, by omega, ?_, ?_⟩
      · rw [List.length_append]
        omega
      · rw [hlen]
        omega
      · rw [hlen, List.length_append]
        omega
    have hcmd : cmdAt (c.frame ++ (fs.flatMap CMD.frame ++ t)) = c := by
      unfold cmdAt
      rw [hread, hlen, hdrop, Int.toNat_natCast, List.take_left]
    have hafter : afterCmd (c.frame ++ (fs.flatMap CMD.frame ++ t)) = fs.flatMap CMD.frame ++ t := by
      unfold afterCmd
      rw [hlen, Int.toNat_natCast, ← hframe, List.drop_left]
    have h := Walk.step hwhole (hafter ▸ ih fun c' hc' => hfs c' (List.mem_cons_of_mem _ hc'))
    rwa [hcmd, ← List.append_assoc, ← List.flatMap_cons] at h

section
variable {s tail : List Byte} {fs : List CMD}

/-- a walk over the first bytes of the stream to a bad header is the walk over its good frames -/
theorem FailingStream.at_bad (h : FailingStream s fs tail) {p r u : List Byte} {parsed : List CMD}
    (hs : s = p ++ r) (hw : Walk p parsed u) (hu : Bad u) :
    parsed = fs ∧ tail.length = u.length + r.length := by
  subst hs
  have hbad := hu.append r
  obtain ⟨more, hfs, hm⟩ := (hw.append r).to_end (fun hwhole => hwhole.not_bad h.bad) h.walk
  cases hm with
  | stop => exact ⟨by rw [hfs, List.append_nil], List.length_append⟩
  | step hwhole _ => exact absurd hbad hwhole.not_bad

/-- a walk to a part of a frame has not come to the end of the bad header -/
theorem FailingStream.at_part (h : FailingStream s fs tail) {p r buf : List Byte}
    {parsed : List CMD} (hs : s = p ++ r) (hw : Walk p parsed buf) (hpart : Part buf) :
    tail.length < r.length + sizeofCMDH ∧ parsed <+: fs := by
  subst hs
  obtain ⟨more, hfs, hm⟩ := (hw.append r).to_end (fun hwhole => hwhole.not_bad h.bad) h.walk
  refine ⟨?_, ⟨more, hfs.symm⟩⟩
  -- the bytes that are held are a part of a good frame, or of the bad header itself
  cases hm with
  | stop =>
    have hbad := h.bad.range
    rw [List.length_append]
    by_contra hge
    rw [headLen_append (by omega)] at hbad
    rcases hpart with hp | ⟨h1, h2, _⟩
    · omega
    · rcases hbad with hb | hb <;> omega
  | step hwhole hw' =>
    have hle := hw'.length_le
    have hall := hwhole.all
    have hafter : (afterCmd (buf ++ r)).length = (buf ++ r).length - (sizeofCMDH +
        (headLen (buf ++ r)).toNat) := List.length_drop
    rw [List.length_append] at hafter hall
    rcases hpart with hp | ⟨_, _, hp⟩
    · omega
    · by_cases hheader : sizeofCMDH ≤ buf.length
      · rw [headLen_append hheader] at hafter hall
        omega
      · omega

theorem FailingStream.no_jam (h : FailingStream s fs tail) {p r t : List Byte} {parsed : List CMD}
    (hs : s = p ++ r) (hw : Walk p parsed t) : ¬ Jam t := by
  intro hj
  subst hs
  have hj' := hj.append r
  have hsame := (hw.append r).unique (fun hwhole => hwhole.not_jam hj')
    (fun hwhole => hwhole.not_bad h.bad) h.walk
  exact hj'.not_bad (hsame ▸ h.bad)

end

/-! ## one call of `ParseDataNoCache` -/

/-- **Where no frame blocks `mBuffer` the call returns**, with a part of a frame or at a bad header. -/
theorem parseLoop_walk (k : Nat) : ∀ s : ParseLoop, s.last.length ≤ k → s.ret ≠ -1 →
    Part s.mBuffer → s.mBuffer.length ≤ MAX_BUFFER_LEN →
    (∀ fs t, Walk (s.mBuffer ++ s.last) fs t → ¬ Jam t) →
    ∃ p new, loop ParseLoop.cond ParseLoop.body k s = some p ∧ p.parsed = s.parsed ++ new ∧
      (p.ret ≠ -1 ∧ Part p.mBuffer ∧ p.mBuffer.length ≤ MAX_BUFFER_LEN ∧
          Walk (s.mBuffer ++ s.last) new p.mBuffer ∨
        p.ret = -1 ∧ ∃ u, Bad u ∧ Walk (s.mBuffer ++ s.last) new u) := by
  have hdone : ∀ (k : Nat) (s : ParseLoop), s.last = [] → s.ret ≠ -1 → Part s.mBuffer →
      s.mBuffer.length ≤ MAX_BUFFER_LEN →
      ∃ p new, loop ParseLoop.cond ParseLoop.body k s = some p ∧ p.parsed = s.parsed ++ new ∧
        (p.ret ≠ -1 ∧ Part p.mBuffer ∧ p.mBuffer.length ≤ MAX_BUFFER_LEN ∧
            Walk (s.mBuffer ++ s.last) new p.mBuffer ∨
          p.ret = -1 ∧ ∃ u, Bad u ∧ Walk (s.mBuffer ++ s.last) new u) := by
    intro k s hnil hret hpart hlen
    have hcond : s.cond = false := by
      show (decide (s.ret ≠ -1) && decide (0 < s.last.length)) = false
      rw [hnil]
      exact Bool.and_false _
    refine ⟨s, [], loop_done k hcond, (List.append_nil _).symm, .inl ⟨hret, hpart, hlen, ?_⟩⟩
    rw [hnil, List.append_nil]
    exact .stop _
  induction k with
  | zero =>
    intro s hk hret hpart hlen _
    exact hdone 0 s (List.eq_nil_of_length_eq_zero (Nat.le_zero.mp hk)) hret hpart hlen
  | succ k ih =>
    intro s hk hret hpart hlen hjam
    by_cases hnil : s.last = []
    · exact hdone _ s hnil hret hpart hlen
    have hroom : s.mBuffer.length < MAX_BUFFER_LEN := by
      rcases Nat.lt_or_ge s.mBuffer.length MAX_BUFFER_LEN with hroom | hfull
      · exact hroom
      · exact absurd (jam_of_full hpart (Nat.le_antisymm hlen hfull) hnil) (hjam [] _ (.stop _))
    have hcond := ParseLoop.cond_of_last hret hnil
    obtain ⟨new, t, ret', hw, hbody, hend, _⟩ := ParseLoop.round_walk hlen
    have hwalk := ParseLoop.walk_last hw
    have hless : (s.last.drop s.recv).length < s.last.length := by
      have hpos := List.length_pos_of_ne_nil hnil
      rw [List.length_drop]
      unfold ParseLoop.recv
      dsimp only
      split <;> omega
    rw [loop_round k hcond, hbody]
    rcases hend with ⟨ht, hr⟩ | ⟨ht, hr⟩
    · have hret' : ret' ≠ -1 := by
        rw [hr]
        split
        · exact hret
        · decide
      obtain ⟨p, more, hp, hparsed, hends⟩ := ih ⟨t, s.last.drop s.recv, ret', s.parsed ++ new⟩
        (show (s.last.drop s.recv).length ≤ k by omega) hret' ht
        (Nat.le_trans hw.length_le (ParseLoop.recv_fits hlen).1)
        fun fs u hu => hjam _ u (hwalk.trans hu)
      refine ⟨p, new ++ more, hp, by rw [hparsed, List.append_assoc], ?_⟩
      rcases hends with ⟨h1, h2, h3, h4⟩ | ⟨h1, u, h2, h3⟩
      · exact .inl ⟨h1, h2, h3, hwalk.trans h4⟩
      · exact .inr ⟨h1, u, h2, hwalk.trans h3⟩
    · refine ⟨_, new, loop_done k ?_, rfl, .inr ⟨hr, _, ht.append (s.last.drop s.recv), hwalk⟩⟩
      show (decide (ret' ≠ -1) && _) = false
      rw [hr]
      rfl

theorem parse_walk {S tail : List Byte} {fs : List CMD} (hS : FailingStream S fs tail) {n : Nat}
    {p d r : List Byte} {c : Client} (hs : S = p ++ (d ++ r)) (hw : Walk p c.parsed c.mBuffer)
    (hpart : Part c.mBuffer) (hlen : c.mBuffer.length ≤ MAX_BUFFER_LEN) (hn : d.length ≤ n) :
    ∃ buf parsed ret, c.parse n d = some ({ c with mBuffer := buf, parsed := parsed }, ret) ∧
      (ret ≠ -1 ∧ Part buf ∧ buf.length ≤ MAX_BUFFER_LEN ∧ Walk (p ++ d) parsed buf ∨
        ret = -1 ∧ parsed = fs ∧ tail.length + p.length + d.length ≥ S.length + sizeofCMDH) := by
  have hwd := hw.append d
  obtain ⟨q, new, hq, hparsed, hends⟩ := parseLoop_walk d.length ⟨c.mBuffer, d, 0, []⟩
    (Nat.le_refl _) (show (0 : Int) ≠ -1 by decide) hpart hlen fun fs' t ht =>
      hS.no_jam (by rw [hs, List.append_assoc]) (hwd.trans ht)
  refine ⟨q.mBuffer, c.parsed ++ q.parsed, q.ret, ?_, ?_⟩
  · show (ParseDataNoCache n c.mBuffer d).map _ = _
    rw [ParseDataNoCache, loop_mono hn hq]
    rfl
  · replace hparsed : q.parsed = new := hparsed
    rw [hparsed]
    rcases hends with ⟨h1, h2, h3, h4⟩ | ⟨h1, u, h2, h3⟩
    · exact .inl ⟨h1, h2, h3, hwd.trans h4⟩
    · obtain ⟨hfs, htail⟩ := hS.at_bad (by rw [hs, List.append_assoc]) (hwd.trans h3) h2
      have hheader := h2.header
      refine .inr ⟨h1, hfs, ?_⟩
      rw [hs, List.length_append, List.length_append]
      omega

/-! ## the state between two calls -/

structure Client.Reads (chunks : List Chunk) (seen : List Nat) (c : Client) : Prop where
  held : Held chunks seen c.miDataPacketRecvSeq c.mMessageMap
  walk : Walk ((chunks.take c.miDataPacketRecvSeq).flatMap Chunk.bytes) c.parsed c.mBuffer
  part : Part c.mBuffer
  len : c.mBuffer.length ≤ MAX_BUFFER_LEN
  noError : c.mbError = false

structure Client.Failed (fs : List CMD) (chunks : List Chunk) (tail : List Byte) (seen : List Nat)
    (c : Client) : Prop where
  error : c.mbError = true
  parsed : c.parsed = fs
  came : HeaderCame chunks tail seen

theorem Client.Reads.fresh (chunks : List Chunk) (idle : List Message) :
    (Client.fresh idle).Reads chunks [] where
  held := .fresh chunks
  walk := .stop _
  part := .inl (Nat.succ_pos _)
  len := Nat.zero_le _
  noError := rfl

theorem split_chunk {chunks : List Chunk} {i : Nat} {d : List Byte}
    (h : chunks[i]?.map Chunk.bytes = some d) :
    (chunks.take (i + 1)).flatMap Chunk.bytes = (chunks.take i).flatMap Chunk.bytes ++ d ∧
      chunks.flatMap Chunk.bytes = (chunks.take i).flatMap Chunk.bytes ++
        (d ++ (chunks.drop (i + 1)).flatMap Chunk.bytes) := by
  obtain ⟨ch, hch, rfl⟩ := Option.map_eq_some_iff.mp h
  have hdrop := (drop_chunk (i := i) (by rw [hch]; rfl)).1
  constructor
  · rw [List.take_add_one, hch, List.flatMap_append]
    exact congrArg _ (List.append_nil _)
  · rw [← hdrop, ← List.flatMap_append, List.take_append_drop]

section
variable {chunks : List Chunk} {fs : List CMD} {tail : List Byte}

/-- the chunk that completes the bad header is the last one of those that have a byte before its end -/
theorem headerCame_of {seen : List Nat} {i : Nat} (hbefore : ∀ j, j ≤ i → j ∈ seen)
    (h : tail.length + ((chunks.take (i + 1)).flatMap Chunk.bytes).length
      ≥ (chunks.flatMap Chunk.bytes).length + sizeofCMDH) : HeaderCame chunks tail seen := by
  intro j hj hlt
  by_cases hji : j ≤ i
  · exact hbefore j hji
  · have hle : ((chunks.take (i + 1)).flatMap Chunk.bytes).length
        ≤ ((chunks.take j).flatMap Chunk.bytes).length :=
      ((List.take_prefix_take_left (by omega)).flatMap Chunk.bytes).length_le
    omega

/-- as long as a chunk that is next is missing the header has not come -/
theorem Client.Reads.not_came (hS : FailingStream (chunks.flatMap Chunk.bytes) fs tail)
    {seen : List Nat} {c : Client} (h : c.Reads chunks seen) (hnext : c.miDataPacketRecvSeq ∉ seen) :
    ¬ HeaderCame chunks tail seen ∧ c.parsed <+: fs := by
  have hs : chunks.flatMap Chunk.bytes
      = (chunks.take c.miDataPacketRecvSeq).flatMap Chunk.bytes ++
        (chunks.drop c.miDataPacketRecvSeq).flatMap Chunk.bytes := by
    rw [← List.flatMap_append, List.take_append_drop]
  obtain ⟨hlen, hpre⟩ := hS.at_part hs h.walk h.part
  refine ⟨fun hcame => hnext (hcame _ ?_ ?_), hpre⟩
  · refine Nat.lt_of_le_of_ne h.held.next_le fun hall => ?_
    have hheader := hS.bad.header
    rw [hall, List.drop_length, List.flatMap_nil, List.length_nil] at hlen
    omega
  · rw [hs, List.length_append] at *
    omega

theorem Client.Reads.parse (hS : FailingStream (chunks.flatMap Chunk.bytes) fs tail) {n : Nat}
    (hn : MAX_BUFFER_LEN ≤ n) {seen : List Nat} {c : Client} (h : c.Reads chunks seen) {d : List Byte}
    (hd : chunks[c.miDataPacketRecvSeq]?.map Chunk.bytes = some d) :
    ∃ buf parsed ret, c.parse n d = some ({ c with mBuffer := buf, parsed := parsed }, ret) ∧
      (ret ≠ -1 ∧ Part buf ∧ buf.length ≤ MAX_BUFFER_LEN ∧
          Walk ((chunks.take (c.miDataPacketRecvSeq + 1)).flatMap Chunk.bytes) parsed buf ∨
        ret = -1 ∧ parsed = fs ∧ ∀ seen', (∀ i, i ≤ c.miDataPacketRecvSeq → i ∈ seen') →
          HeaderCame chunks tail seen') := by
  obtain ⟨htake, hall⟩ := split_chunk hd
  have hlen := (drop_chunk hd).2.2
  obtain ⟨buf, parsed, ret, hp, hends⟩ := parse_walk hS hall h.walk h.part h.len
    (show d.length ≤ n by omega)
  refine ⟨buf, parsed, ret, hp, ?_⟩
  rcases hends with ⟨h1, h2, h3, h4⟩ | ⟨h1, h2, h3⟩
  · exact .inl ⟨h1, h2, h3, htake ▸ h4⟩
  · refine .inr ⟨h1, h2, fun seen' hbefore => headerCame_of hbefore ?_⟩
    rw [htake, List.length_append]
    omega

/-- **The drain loop walks over the cached chunks** up to one that has not come, or to the header. -/
theorem drain_reads (hS : FailingStream (chunks.flatMap Chunk.bytes) fs tail) {n : Nat}
    (hn : MAX_BUFFER_LEN ≤ n) {seen : List Nat} (k : Nat) : ∀ (c : Client) (ret : Int),
    c.Reads chunks seen → ret ≠ -1 → c.mMessageMap.length < k →
    ∃ c' ret', drain n k c ret = some (c', ret') ∧
      (ret' ≠ -1 ∧ c'.Reads chunks seen ∧ c'.miDataPacketRecvSeq ∉ seen ∨
        ret' = -1 ∧ c'.parsed = fs ∧ HeaderCame chunks tail seen) := by
  induction k with
  | zero => intro c ret _ _ hk; exact absurd hk (Nat.not_lt_zero _)
  | succ k ih =>
    intro c ret h hret hk
    cases hfind : c.mMessageMap.find? (·.1 == c.miDataPacketRecvSeq) with
    | none =>
      exact ⟨c, ret, by simp only [drain, hfind], .inl ⟨hret, h, h.held.not_seen hfind⟩⟩
    | some e =>
      obtain ⟨i, mc⟩ := e
      have hmem := List.mem_of_find?_eq_some hfind
      have hi : i = c.miDataPacketRecvSeq := by
        have := List.find?_some hfind
        simpa using this
      subst hi
      have hheld := h.held.take_cached hmem
      obtain ⟨buf, parsed, ret1, hp, hends⟩ := h.parse hS hn (h.held.data _ hmem)
      rcases hends with ⟨h1, h2, h3, h4⟩ | ⟨h1, h2, h3⟩
      · have hreads : Client.Reads chunks seen
            { mBuffer := buf
              miDataPacketRecvSeq := c.miDataPacketRecvSeq + 1
              mpIdleMessageList := c.mpIdleMessageList ++ [mc]
              mMessageMap := c.mMessageMap.filter (·.1 != c.miDataPacketRecvSeq)
              mbError := c.mbError
              parsed := parsed } := ⟨hheld, h4, h2, h3, h.noError⟩
        obtain ⟨c', ret', hd, hend⟩ := ih _ ret1 hreads h1 (by
          have hl := (perm_cons_filter h.held.nodup hmem).length_eq
          rw [List.length_cons] at hl
          show (c.mMessageMap.filter _).length < k
          omega)
        refine ⟨c', ret', ?_, hend⟩
        simp only [drain, hfind, hp, Option.bind_some, if_pos h1]
        exact hd
      · have hcame := h3 seen fun i hi => hheld.before i (Nat.lt_succ_of_le hi)
        have hdrain : ∃ c', drain n (k + 1) c ret = some (c', ret1) ∧ c'.parsed = parsed := by
          simp only [drain, hfind, hp, Option.bind_some, if_neg (not_not_intro h1)]
          exact ⟨_, rfl, rfl⟩
        obtain ⟨c', hd, hparsed⟩ := hdrain
        exact ⟨c', ret1, hd, .inr ⟨h1, hparsed.trans h2, hcame⟩⟩

theorem Client.inOrder_reads (hS : FailingStream (chunks.flatMap Chunk.bytes) fs tail) {n : Nat}
    (hn : MAX_BUFFER_LEN + chunks.length ≤ n) {seen : List Nat} {c : Client}
    (h : c.Reads chunks seen) (hnext : c.miDataPacketRecvSeq ∉ seen) {m : Message}
    (hm : m.Carries chunks) (heq : c.miDataPacketRecvSeq = m.seq) :
    ∃ c' ret, c.inOrder n m = some (c', ret) ∧
      (ret ≠ -1 ∧ c'.Reads chunks (m.seq :: seen) ∧ c'.miDataPacketRecvSeq ∉ m.seq :: seen ∨
        ret = -1 ∧ c'.parsed = fs ∧ HeaderCame chunks tail (m.seq :: seen)) := by
  have hd := hm.1
  rw [← heq] at hd ⊢
  have hheld := h.held.take_next hnext (drop_chunk hd).2.1
  obtain ⟨buf, parsed, ret1, hp, hends⟩ := h.parse hS (Nat.le_of_add_right_le hn) hd
  rcases hends with ⟨h1, h2, h3, h4⟩ | ⟨h1, h2, h3⟩
  · have hreads : Client.Reads chunks (c.miDataPacketRecvSeq :: seen)
        { c with
          mBuffer := buf
          parsed := parsed
          miDataPacketRecvSeq := c.miDataPacketRecvSeq + 1 } := ⟨hheld, h4, h2, h3, h.noError⟩
    obtain ⟨c', ret', hdrain, hend⟩ := drain_reads hS (Nat.le_of_add_right_le hn) n _ ret1
      hreads h1 (by
        have hl := h.held.map_length
        have hpos : 0 < MAX_BUFFER_LEN := by decide
        show c.mMessageMap.length < n
        omega)
    refine ⟨c', ret', ?_, hend⟩
    simp only [Client.inOrder, hp, Option.bind_some, if_pos h1]
    exact hdrain
  · have hcame := h3 _ fun i hi => hheld.before i (Nat.lt_succ_of_le hi)
    refine ⟨{ c with mBuffer := buf, parsed := parsed }, ret1, ?_, .inr ⟨h1, h2, hcame⟩⟩
    simp only [Client.inOrder, hp, Option.bind_some, if_neg (not_not_intro h1)]

/-! ## one call of `ParseData` -/

theorem ParseData_of_error {n : Nat} {c : Client} (he : c.mbError = true) (m : Message) :
    ParseData n c m = some (c, -1) := by
  obtain ⟨buf, next, idle, map, err, parsed⟩ := c
  obtain rfl : err = true := he
  rfl

/-- **One call with a chunk not handed over before** ends before the bad header or behind it. -/
theorem ParseData_reads (hS : FailingStream (chunks.flatMap Chunk.bytes) fs tail) {n : Nat}
    (hn : MAX_BUFFER_LEN + chunks.length ≤ n) {seen : List Nat} {c : Client}
    (h : c.Reads chunks seen) (hnext : c.miDataPacketRecvSeq ∉ seen) {m : Message}
    (hm : m.Carries chunks) (hseen : m.seq ∉ seen)
    (hidle : c.miDataPacketRecvSeq ≠ m.seq → c.mpIdleMessageList ≠ []) :
    ∃ c' ret, ParseData n c m = some (c', ret) ∧
      (ret ≠ -1 ∧ c'.Reads chunks (m.seq :: seen) ∧ c'.miDataPacketRecvSeq ∉ m.seq :: seen ∨
        ret = -1 ∧ c'.Failed fs chunks tail (m.seq :: seen)) := by
  by_cases heq : c.miDataPacketRecvSeq = m.seq
  · obtain ⟨c', ret, h1, hend⟩ := Client.inOrder_reads hS hn h hnext hm heq
    rcases hend with ⟨h2, h3⟩ | ⟨h2, h3, h4⟩
    · refine ⟨c', ret, ?_, .inl ⟨h2, h3⟩⟩
      simp [ParseData, h.noError, heq, h1, h2]
    · refine ⟨{ c' with mbError := true }, ret, ?_, .inr ⟨h2, rfl, h3, h4⟩⟩
      simp [ParseData, h.noError, heq, h1, h2]
  · obtain ⟨mc, mc', idle, _, _, h1, hheld⟩ := Client.early_held h.held hm hseen (hidle heq)
    have hreads : Client.Reads chunks (m.seq :: seen)
        { c with
          mpIdleMessageList := idle
          mMessageMap := c.mMessageMap ++ [(m.seq, mc')] } :=
      ⟨hheld, h.walk, h.part, h.len, h.noError⟩
    refine ⟨_, 0, ?_, .inl ⟨by decide, hreads, ?_⟩⟩
    · simp [ParseData, h.noError, heq, h1]
    · intro hmem
      rcases List.mem_cons.mp hmem with h2 | h2
      · exact heq h2
      · exact hnext h2

/-! ## all chunks, in any order -/

/-- whenever a chunk of `ms` has to be cached there is an idle Message for it -/
def Stocked (n : Nat) : Client → List Message → Prop
  | _, [] => True
  | c, m :: ms => (c.mbError = false → c.miDataPacketRecvSeq ≠ m.seq → c.mpIdleMessageList ≠ []) ∧
      ∀ r, ParseData n c m = some r → Stocked n r.1 ms

theorem NeverStarved.stocked {n : Nat} (ms : List Message) :
    ∀ c : Client, NeverStarved n c ms → Stocked n c ms := by
  induction ms with
  | nil => intro c _; trivial
  | cons m ms ih => exact fun c h => ⟨fun _ => h.1, fun r hr => ih r.1 (h.2 r hr)⟩

/-- between two calls -/
def Client.Between (fs : List CMD) (chunks : List Chunk) (tail : List Byte) (seen : List Nat)
    (c : Client) : Prop :=
  c.Reads chunks seen ∧ c.miDataPacketRecvSeq ∉ seen ∨ c.Failed fs chunks tail seen

theorem HeaderCame.cons {seen : List Nat} (h : HeaderCame chunks tail seen) (i : Nat) :
    HeaderCame chunks tail (i :: seen) :=
  fun j hj hlt => List.mem_cons_of_mem _ (h j hj hlt)

/-- the calls return -1 from the one on with which the bad header has come -/
theorem ParseData_between (hS : FailingStream (chunks.flatMap Chunk.bytes) fs tail) {n : Nat}
    (hn : MAX_BUFFER_LEN + chunks.length ≤ n) {seen : List Nat} {c : Client}
    (h : c.Between fs chunks tail seen) {m : Message} (hm : m.Carries chunks) (hseen : m.seq ∉ seen)
    (hidle : c.mbError = false → c.miDataPacketRecvSeq ≠ m.seq → c.mpIdleMessageList ≠ []) :
    ∃ c' ret, ParseData n c m = some (c', ret) ∧ c'.Between fs chunks tail (m.seq :: seen) ∧
      c'.parsed <+: fs ∧ (ret = -1 ↔ HeaderCame chunks tail (m.seq :: seen)) ∧
      (ret = -1 → c'.mbError = true ∧ c'.parsed = fs) := by
  rcases h with ⟨h, hnext⟩ | h
  · obtain ⟨c', ret, hp, ⟨h1, h2, h3⟩ | ⟨h1, h2⟩⟩ :=
      ParseData_reads hS hn h hnext hm hseen (hidle h.noError)
    · obtain ⟨h4, h5⟩ := h2.not_came hS h3
      exact ⟨c', ret, hp, .inl ⟨h2, h3⟩, h5, iff_of_false h1 h4, fun h => absurd h h1⟩
    · exact ⟨c', ret, hp, .inr h2, h2.parsed ▸ List.prefix_rfl, iff_of_true h1 h2.came,
        fun _ => ⟨h2.error, h2.parsed⟩⟩
  · have hcame := h.came.cons m.seq
    exact ⟨c, -1, ParseData_of_error h.error m, .inr ⟨h.error, h.parsed, hcame⟩,
      h.parsed ▸ List.prefix_rfl, iff_of_true rfl hcame, fun _ => ⟨h.error, h.parsed⟩⟩

theorem feed_between (hS : FailingStream (chunks.flatMap Chunk.bytes) fs tail) {n : Nat}
    (hn : MAX_BUFFER_LEN + chunks.length ≤ n) (ms : List Message) :
    ∀ (c : Client) (seen : List Nat) (rest : List Message), c.Between fs chunks tail seen →
      (∀ m ∈ ms, m.Carries chunks) → (ms.map Message.seq).Nodup → (∀ m ∈ ms, m.seq ∉ seen) →
      Stocked n c (ms ++ rest) →
      ∃ c' seen', feed n c ms = some c' ∧ c'.Between fs chunks tail seen' ∧
        (∀ i, i ∈ seen' ↔ i ∈ ms.map Message.seq ∨ i ∈ seen) ∧ Stocked n c' rest := by
  induction ms with
  | nil =>
    intro c seen rest h _ _ _ hst
    exact ⟨c, seen, rfl, h, fun i => by simp, hst⟩
  | cons m ms ih =>
    intro c seen rest h hms hnd hseen hst
    obtain ⟨hm1, hm2⟩ := List.nodup_cons.mp hnd
    obtain ⟨c1, ret, hp, h1, _⟩ := ParseData_between hS hn h (hms m (List.mem_cons_self ..))
      (hseen m (List.mem_cons_self ..)) hst.1
    obtain ⟨c', seen', hf, h', hall, hst'⟩ := ih c1 (m.seq :: seen) rest h1
      (fun m' hm' => hms m' (List.mem_cons_of_mem _ hm')) hm2 (by
        intro m' hm' hmem
        rcases List.mem_cons.mp hmem with h2 | h2
        · exact hm1 (h2 ▸ List.mem_map_of_mem hm')
        · exact hseen m' (List.mem_cons_of_mem _ hm') h2) (hst.2 _ hp)
    refine ⟨c', seen', ?_, h', fun i => ?_, hst'⟩
    · show (ParseData n c m).bind _ = _
      rw [hp]
      exact hf
    · rw [hall, List.map_cons, List.mem_cons, List.mem_cons]
      tauto

end

/-- **Fail-stop decoding.**  The chunks of a stream with a bad header are handed over in any order:
the commands before the header are dispatched in order; a call returns -1 just when the header has
come, and from then on every call does and dispatches nothing. -/
theorem parseData_fail_stop {chunks : List Chunk} {fs : List CMD} {tail : List Byte}
    {ms idle : List Message} {n : Nat} (hn : MAX_BUFFER_LEN + chunks.length ≤ n)
    (hS : FailingStream (chunks.flatMap Chunk.bytes) fs tail) (hms : Delivers ms chunks)
    (hst : Stocked n (Client.fresh idle) ms) :
    (∃ c, feed n (Client.fresh idle) ms = some c ∧ c.parsed = fs ∧ c.mbError = true) ∧
      ∀ before m after, ms = before ++ m :: after → ∃ c c' ret,
        feed n (Client.fresh idle) before = some c ∧ ParseData n c m = some (c', ret) ∧
        c'.parsed <+: fs ∧
        (ret = -1 ↔ HeaderCame chunks tail ((before ++ [m]).map Message.seq)) ∧
        (ret = -1 → c'.parsed = fs ∧ ∀ m', ParseData n c' m' = some (c', -1)) := by
  have hfresh : (Client.fresh idle).Between fs chunks tail [] := by
    refine .inl ⟨.fresh chunks idle, by simp⟩
  have hnd : (ms.map Message.seq).Nodup := hms.1.nodup_iff.mpr List.nodup_range
  constructor
  · obtain ⟨c, seen, hf, h, hall, _⟩ := feed_between hS hn ms _ [] [] hfresh hms.2 hnd (by simp)
      (by rwa [List.append_nil])
    rcases h with ⟨h, hnext⟩ | h
    · refine absurd (fun i hi _ => ?_) (h.not_came hS hnext).1
      exact (hall i).mpr (.inl (hms.1.mem_iff.mpr (List.mem_range.mpr hi)))
    · exact ⟨c, hf, h.parsed, h.error⟩
  · rintro before m after rfl
    rw [List.map_append, List.map_cons, List.nodup_append] at hnd
    obtain ⟨hnd1, _, hdisj⟩ := hnd
    obtain ⟨c, seen, hf, h, hall, hst'⟩ := feed_between hS hn before _ [] (m :: after) hfresh
      (fun m' hm' => hms.2 m' (List.mem_append_left _ hm')) hnd1 (by simp) hst
    have hseen : m.seq ∉ seen := by
      intro hmem
      rcases (hall _).mp hmem with h1 | h1
      · exact hdisj _ h1 _ (List.mem_cons_self ..) rfl
      · exact absurd h1 (by simp)
    obtain ⟨c', ret, hp, _, hpre, hret, herr⟩ := ParseData_between hS hn h
      (hms.2 m (List.mem_append_right _ (List.mem_cons_self ..))) hseen hst'.1
    refine ⟨c, c', ret, hf, hp, hpre, ?_, fun hr => ?_⟩
    · rw [hret]
      have hmem : ∀ i, i ∈ m.seq :: seen ↔ i ∈ (before ++ [m]).map Message.seq := by
        intro i
        rw [List.map_append, List.mem_append, List.mem_cons, hall, or_comm]
        simp
      exact forall_congr' fun i => by rw [hmem]
    · obtain ⟨h1, h2⟩ := herr hr
      exact ⟨h2, fun m' => ParseData_of_error h1 m'⟩

/-- a Disconnect, a header that claims -1 bytes and two more bytes; the last chunk comes first -/
theorem parseData_fail_stop_three_chunks :
    ∃ (chunks : List Chunk) (ms : List Message) (fs : List CMD),
      ms.map Message.seq = [2, 0, 1] ∧ chunks.map (·.bytes.length) = [3, 20, 13] ∧
      fs.length = 1 ∧
      ∃ c, feed 9000 (Client.fresh [⟨0, 0, 0, 0, []⟩, ⟨1, 0, 0, 0, []⟩, ⟨2, 0, 0, 0, []⟩]) ms
          = some c ∧ c.parsed = fs ∧ c.mbError = true := by
  let good : CMD := ⟨⟨.CommandTypeProxyDisconnect, 0, 4, 9, true⟩, []⟩
  let bad : CMDH := ⟨.CommandTypeProxy, -1, 5, 9, false⟩
  let stream := good.frame ++ (bad.bytes ++ [1, 2])
  let chunks : List Chunk := [⟨stream.take 3, by decide, by decide⟩,
    ⟨(stream.drop 3).take 20, by decide, by decide⟩, ⟨stream.drop 23, by decide, by decide⟩]
  let ms : List Message := [⟨5, 9, 13, 2, stream.drop 23⟩, ⟨6, 9, 3, 0, stream.take 3⟩,
    ⟨7, 9, 20, 1, (stream.drop 3).take 20⟩]
  have hms : Delivers ms chunks := by
    refine ⟨by decide, ?_⟩
    intro m hm
    simp only [ms, List.mem_cons, List.not_mem_nil, or_false] at hm
    rcases hm with rfl | rfl | rfl <;> exact ⟨by decide, by decide⟩
  have hgood : ∀ c ∈ [good], c.Sendable := by
    intro c hc
    rw [List.mem_singleton.mp hc]
    exact ⟨rfl, by decide⟩
  have hS : FailingStream (chunks.flatMap Chunk.bytes) [good] (bad.bytes ++ [1, 2]) := by
    refine ⟨?_, fun c hc => (hgood c hc).fits, ⟨by decide, .inr (by decide)⟩⟩
    exact Walk.of_frames hgood (bad.bytes ++ [1, 2])
  obtain ⟨⟨c, hc, hparsed, herror⟩, _⟩ := parseData_fail_stop (n := 9000)
    (show MAX_BUFFER_LEN + chunks.length ≤ 9000 by decide) hS hms
    (NeverStarved.stocked ms _ (neverStarved_of_length ms (Client.fresh [⟨0, 0, 0, 0, []⟩,
      ⟨1, 0, 0, 0, []⟩, ⟨2, 0, 0, 0, []⟩]) (by decide)))
  exact ⟨chunks, ms, [good], rfl, by decide, rfl, c, hc, hparsed, herror⟩

end VncProxy
