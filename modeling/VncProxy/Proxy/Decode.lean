import VncProxy.Tcp.Handled
import VncProxy.Wire.Reassembly

/-!
# From the socket of the VNC connection to `ParseData`

The chunks of a connection go through the handle list to any handler thread, and each of these calls
`ParseData` on the one `Client`.

* `Stream.Measured`   the chunks are as long as they say;
* `pushedOf`          the bytes of the chunks of a connection, in the order of the handle list;
* `Decoded`           the chunks handled so far are those `ParseData` has seen, and what it has parsed is
                      the beginning of the commands whose frames the peer writes;
* `Decoded.quiet`, `Decoded.handle`  a step of any thread keeps this, and a call of `ParseData` does.
-/

namespace VncProxy.Tcp

variable {h k : Nat}

/-! ## the length of a chunk -/

/-- `1 ≤ len ≤ MAX_BUFFER_LEN - 1`, and so many bytes are there -/
structure Msg.Measures (m : Msg) (b : List Byte) : Prop where
  length : b.length = m.len
  pos : 0 < m.len
  lt : m.len < MAX_BUFFER_LEN

structure Stream.Measured (s : Stream h k) : Prop where
  hand : ∀ m ∈ s.server.main.rx.hand, m.Measures (s.buffer m.addr)
  pushed : ∀ e ∈ s.pushed, e.1.Measures e.2

theorem Rx.Step.hand_same {r r' : Rx} {f f' : Nat → Line} {room : Prop} {e : Rx.Event}
    (hstep : Rx.Step room r f e r' f') (hquiet : e.receives = []) {m : Msg} (hm : m ∈ r'.hand) :
    ∃ m0 ∈ r.hand, m0.addr = m.addr ∧ m0.len = m.len := by
  cases hstep with
  | recv => cases hquiet
  | same => exact ⟨m, hm, rfl, rfl⟩
  | tooMany fd m' f | fits fd m' f hroom =>
    obtain rfl := List.mem_singleton.mp hm
    exact ⟨m, List.mem_singleton_self m, rfl, rfl⟩
  | seq fd m' f =>
    obtain rfl := List.mem_singleton.mp hm
    exact ⟨m', List.mem_singleton_self m', rfl, rfl⟩
  | accept | acceptZero | reset | watch | refuse | unwatch | event | pop | leave | drop | dropped
  | droppedNext | push | pushNext => cases hm

theorem recv_hand {s s' : State h k} {a : Action h k} (hreceives : s.receives a ≠ [])
    (hstep : s.stepAny a = some s') : ∃ fd m n, a = .recv (.data n) ∧ 1 ≤ n ∧ n ≤ MAX_BUFFER_LEN - 1 ∧
      s.fills a = some m.addr ∧ s'.main.rx.hand = [{ m with len := n }] ∧ s.main = .recv fd m false := by
  unfold State.receives at hreceives
  split at hreceives
  · next n =>
    have hrecv : s.recv (.data n) = some s' := hstep
    unfold State.recv at hrecv
    cases hp : s.main with
    | recv fd m error =>
      rw [hp] at hrecv
      cases error with
      | true => cases hrecv
      | false =>
        dsimp only at hrecv
        split at hrecv
        · next hn =>
          obtain rfl := Option.some.inj hrecv
          refine ⟨fd, m, n, rfl, hn.1, hn.2, ?_, rfl, rfl⟩
          unfold State.fills
          dsimp only
          rw [hp]
        · cases hrecv
    | _ =>
      rw [hp] at hreceives
      exact absurd rfl hreceives
  · exact absurd rfl hreceives

theorem Stream.Measured.step {s s' : Stream h k} {a : Action h k × List Byte} (hi : s.Measured)
    (hnodup : s.server.objects.Nodup) (hstep : s.Step a s') : s'.Measured := by
  obtain ⟨e, he⟩ := rx_step hstep.server
  constructor
  · intro m hm
    by_cases hquiet : s.server.receives a.1 = []
    · obtain ⟨m0, hm0, haddr, hlen⟩ := he.step.hand_same (he.receives.symm.trans hquiet) hm
      have hmeasures := hi.hand m0 hm0
      rw [← haddr, hstep.kept_main hnodup hquiet (hand_holds _ hm0)]
      exact ⟨hmeasures.length.trans hlen, hlen ▸ hmeasures.pos, hlen ▸ hmeasures.lt⟩
    · obtain ⟨fd, m0, n, ha, h1, h2, hfills, hhand, -⟩ := recv_hand hquiet hstep.server
      rw [hhand] at hm
      obtain rfl := List.mem_singleton.mp hm
      have hfits := hstep.fits
      rw [ha] at hfits
      have hbuffer : s'.buffer m0.addr = a.2 := hstep.filled m0.addr hfills.symm
      refine ⟨?_, h1, ?_⟩
      · show (s'.buffer m0.addr).length = n
        rw [hbuffer]
        exact hfits
      · show n < MAX_BUFFER_LEN
        unfold MAX_BUFFER_LEN at h2 ⊢
        omega
  · intro e' he'
    rw [hstep.pushed] at he'
    rcases List.mem_append.mp he' with he' | he'
    · exact hi.pushed e' he'
    · obtain ⟨m, hm, rfl⟩ := List.mem_map.mp he'
      exact hi.hand m (pushes_hand hm).2

theorem Stream.Measured.init (h k pool watchers handleSize : Nat)
    (junk : Nat → Int × Bool × Nat × Nat) :
    (Stream.init h k pool watchers handleSize junk).Measured :=
  ⟨fun _ hm => absurd hm List.not_mem_nil, fun _ he => absurd he List.not_mem_nil⟩

/-! ## the chunks of a connection -/

/-- the chunks of the connection that have been put in the handle list -/
def Stream.entriesOf (s : Stream h k) (c : Conn) : List (Msg × List Byte) :=
  s.pushed.filter (·.1.conn = c)

def Stream.pushedOf (s : Stream h k) (c : Conn) : List (List Byte) := (s.entriesOf c).map Prod.snd

/-- the numbers of those that have been handled -/
def Stream.handledOf (s : Stream h k) (c : Conn) : List Nat :=
  (s.handled.filter (·.1.conn = c)).map (·.1.seq)

theorem flatten_pushedOf (s : Stream h k) (c : Conn) :
    (s.pushedOf c).flatten = bytesOf (tagged s.pushed) c := by
  unfold Stream.pushedOf Stream.entriesOf bytesOf tagged
  rw [List.filter_map, List.flatMap_map, List.flatMap_def]
  rfl

theorem ofConn_entriesOf (s : Stream h k) (c : Conn) :
    ofConn (s.pushed.map Prod.fst) c = (s.entriesOf c).map Prod.fst := by
  unfold ofConn Stream.entriesOf
  rw [List.filter_map]
  rfl

/-- the chunks have the numbers of their places -/
theorem Stream.Sound.seq_entriesOf {pool : Nat} {s : Stream h k} (hi : s.Sound pool) (c : Conn) {i : Nat}
    (hlt : i < (s.entriesOf c).length) : ((s.entriesOf c)[i]).1.seq = i := by
  have hseqs := hi.numbered.seqs c
  rw [ofConn_entriesOf, List.map_map, List.length_map] at hseqs
  have hget := congrArg (fun l => l[i]?) hseqs
  simp only [List.getElem?_map, List.getElem?_eq_getElem hlt, Option.map_some,
    List.getElem?_range hlt] at hget
  exact Option.some.inj hget

theorem Stream.Sound.entry {pool : Nat} {s : Stream h k} (hi : s.Sound pool) {e : Msg × List Byte}
    (he : e ∈ s.pushed) : (s.entriesOf e.1.conn)[e.1.seq]? = some e := by
  have hmem : e ∈ s.entriesOf e.1.conn := List.mem_filter.mpr ⟨he, by simp⟩
  obtain ⟨i, hlt, hget⟩ := List.getElem_of_mem hmem
  have hseq := hi.seq_entriesOf e.1.conn hlt
  rw [hget] at hseq
  rw [hseq, List.getElem?_eq_getElem hlt, hget]

theorem Stream.entriesOf_step {s s' : Stream h k} {a : Action h k × List Byte} (hstep : s.Step a s')
    (c : Conn) : ∃ l, s'.entriesOf c = s.entriesOf c ++ l := by
  unfold Stream.entriesOf
  rw [hstep.pushed, List.filter_append]
  exact ⟨_, rfl⟩

/-- a chunk that a handler has is none of those handled -/
theorem Stream.Sound.not_handled {pool : Nat} {s : Stream h k} (hi : s.Sound pool)
    (hcarried : s.Carried) {m : Msg} (hm : m ∈ s.server.chunks) : m.seq ∉ s.handledOf m.conn := by
  intro hmem
  obtain ⟨e, he, hseq⟩ := List.mem_map.mp hmem
  obtain ⟨he, hconn⟩ := List.mem_filter.mp he
  have hconn : e.1.conn = m.conn := by simpa using hconn
  have hpushed : ∀ e, e ∈ s.pushed ↔ e ∈ s.handled ∨ e ∈ s.server.chunks.map s.entry := fun e => by
    rw [← Multiset.mem_coe, hcarried.chunks, Multiset.mem_add, Multiset.mem_coe]
  have hentry : s.entry m ∈ s.server.chunks.map s.entry := Multiset.mem_map_of_mem _ hm
  have h1 := hi.entry ((hpushed e).mpr (.inl he))
  have h2 := hi.entry ((hpushed (s.entry m)).mpr (.inr hentry))
  -- both stand at the same place
  have hsame : e = s.entry m := by
    rw [hconn, hseq] at h1
    exact Option.some.inj (h1.symm.trans h2)
  have hnodup : s.pushed.Nodup := (nodup_of_numbered hi.numbered.seqs).of_map Prod.fst
  have hsplit := Multiset.coe_nodup.mpr hnodup
  rw [hcarried.chunks, Multiset.nodup_add] at hsplit
  exact Multiset.disjoint_left.mp hsplit.2.2 (Multiset.mem_coe.mpr he) (hsame ▸ hentry)

end VncProxy.Tcp

namespace VncProxy

open Tcp (Stream Conn Action Msg)

variable {h k : Nat}

/-! ## one stream, cut at other places behind the chunks handled -/

theorem Client.Ordered.rechunk {fs : List CMD} {chunks chunks' : List Chunk} {pool seen : List Nat}
    {c : Client} (hc : c.Ordered fs chunks pool seen) {l : List (List Byte)}
    (hl : l <+: chunks.map Chunk.bytes) (hl' : l <+: chunks'.map Chunk.bytes)
    (hseen : ∀ i ∈ seen, i < l.length)
    (hstream : chunks'.flatMap Chunk.bytes = chunks.flatMap Chunk.bytes) :
    c.Ordered fs chunks' pool seen := by
  have hnext : c.miDataPacketRecvSeq ≤ l.length := by
    by_contra hlt
    exact absurd (hseen _ (hc.before l.length (Nat.lt_of_not_le hlt))) (Nat.lt_irrefl _)
  obtain ⟨r, hr⟩ := hl
  obtain ⟨r', hr'⟩ := hl'
  have hget : ∀ i, i < l.length → chunks'[i]?.map Chunk.bytes = chunks[i]?.map Chunk.bytes := by
    intro i hi
    rw [← List.getElem?_map, ← List.getElem?_map, ← hr, ← hr', List.getElem?_append_left hi,
      List.getElem?_append_left hi]
  have hlength : l.length ≤ chunks'.length := by
    have hle := congrArg List.length hr'
    rw [List.length_append, List.length_map] at hle
    omega
  refine ⟨hnext.trans hlength, hc.before, hc.nodup, hc.cached, fun e he => ?_, ?_, hc.noError, hc.pool⟩
  · rw [hget e.1 (hseen _ ((hc.cached e.1).mp (List.mem_map_of_mem he)).1)]
    exact hc.data e he
  · -- both streams go on with the same bytes
    have hdrop : (chunks'.drop c.miDataPacketRecvSeq).flatMap Chunk.bytes
        = (chunks.drop c.miDataPacketRecvSeq).flatMap Chunk.bytes := by
      rw [List.flatMap_def, List.flatMap_def, List.map_drop, List.map_drop]
      rw [List.flatMap_def, List.flatMap_def, ← hr, ← hr', List.flatten_append, List.flatten_append]
        at hstream
      rw [← hr, ← hr', List.drop_append_of_le_length hnext, List.drop_append_of_le_length hnext,
        List.flatten_append, List.flatten_append, List.append_cancel_left hstream]
    rw [hdrop]
    exact hc.cut

/-- a byte that has not come yet -/
def Chunk.single (b : Byte) : Chunk := ⟨[b], Nat.one_pos, of_decide_eq_true rfl⟩

theorem exists_chunks {l : List (List Byte)} (hl : ∀ b ∈ l, 0 < b.length ∧ b.length < MAX_BUFFER_LEN)
    (rest : List Byte) : ∃ chunks : List Chunk, l <+: chunks.map Chunk.bytes ∧
      chunks.flatMap Chunk.bytes = l.flatten ++ rest := by
  induction l with
  | nil =>
    refine ⟨rest.map Chunk.single, List.nil_prefix, ?_⟩
    rw [List.flatMap_map, List.flatten_nil, List.nil_append]
    exact List.flatMap_singleton' rest
  | cons b l ih =>
    obtain ⟨chunks, hprefix, hstream⟩ := ih fun b hb => hl b (List.mem_cons_of_mem _ hb)
    obtain ⟨hpos, hlt⟩ := hl b List.mem_cons_self
    refine ⟨⟨b, hpos, hlt⟩ :: chunks, List.cons_prefix_cons.mpr ⟨rfl, hprefix⟩, ?_⟩
    rw [List.flatMap_cons, hstream, List.flatten_cons, List.append_assoc]

theorem length_chunks_le (chunks : List Chunk) :
    chunks.length ≤ (chunks.flatMap Chunk.bytes).length := by
  induction chunks with
  | nil => exact Nat.le_refl 0
  | cons c chunks ih =>
    have hpos := c.pos
    rw [List.flatMap_cons, List.length_append, List.length_cons]
    omega

/-! ## `ParseData` only appends to what it has parsed -/

theorem Client.parse_grows {n : Nat} {c : Client} {d : List Byte} {r : Client × Int}
    (hr : c.parse n d = some r) : c.parsed <+: r.1.parsed := by
  obtain ⟨p, -, rfl⟩ := Option.map_eq_some_iff.mp hr
  exact List.prefix_append ..

theorem drain_grows {n : Nat} (k : Nat) : ∀ (c : Client) (ret : Int) (r : Client × Int),
    drain n k c ret = some r → c.parsed <+: r.1.parsed := by
  induction k with
  | zero => intro c ret r hr; cases hr
  | succ k ih =>
    intro c ret r hr
    unfold drain at hr
    split at hr
    · cases hr
      exact List.prefix_rfl
    · obtain ⟨p, hp, hr⟩ := Option.bind_eq_some_iff.mp hr
      have hparse := Client.parse_grows hp
      dsimp only at hr
      split at hr
      · have hrest := ih _ _ _ hr
        exact hparse.trans hrest
      · cases hr
        exact hparse

theorem ParseData_grows {n : Nat} {c : Client} {m : Message} {r : Client × Int}
    (hr : ParseData n c m = some r) : c.parsed <+: r.1.parsed := by
  obtain ⟨p, hp, rfl⟩ := Option.map_eq_some_iff.mp hr
  have hgrows : c.parsed <+: p.1.parsed := by
    split at hp
    · cases hp
      exact List.prefix_rfl
    · split at hp
      · cases hp
        unfold Client.early
        split
        · exact List.prefix_rfl
        · unfold Client.insert
          split <;> exact List.prefix_rfl
      · obtain ⟨q, hq, hp⟩ := Option.bind_eq_some_iff.mp hp
        have hparse := Client.parse_grows hq
        split at hp
        · exact hparse.trans (drain_grows n { q.1 with miDataPacketRecvSeq := q.1.miDataPacketRecvSeq + 1 }
            _ _ hp)
        · cases hp
          exact hparse
  split <;> exact hgrows

/-! ## what `ParseData` has seen -/

/-- the Message that a handler thread passes on -/
def Tcp.Msg.message (m : Msg) (buffer : List Byte) : Message := ⟨m.addr, m.fd, m.len, m.seq, buffer⟩

/-- of the frames that the peer writes, the chunks handled so far are those that `c` has seen -/
def Decoded (fs : List CMD) (peer : Conn) (pool : List Nat) (s : Stream h k) (c : Client) : Prop :=
  ∃ chunks seen, chunks.flatMap Chunk.bytes = fs.flatMap CMD.frame ∧
    s.pushedOf peer <+: chunks.map Chunk.bytes ∧ c.Ordered fs chunks pool seen ∧
    c.miDataPacketRecvSeq ∉ seen ∧ ∀ i, i ∈ seen ↔ i ∈ s.handledOf peer

section
variable {fs : List CMD} {peer : Conn} {pool : List Nat} {s s' : Stream h k} {c : Client}
  {a : Action h k × List Byte}

theorem Decoded.fresh {idle : List Message} (hpushed : s.pushed = []) (hhandled : s.handled = []) :
    Decoded fs peer (idle.map Message.addr) s (Client.fresh idle) := by
  obtain ⟨chunks, -, hstream⟩ := exists_chunks (l := []) (fun _ hb => absurd hb List.not_mem_nil)
    (fs.flatMap CMD.frame)
  refine ⟨chunks, [], hstream, ?_, .fresh idle hstream, List.not_mem_nil, fun i => ?_⟩
  · unfold Stream.pushedOf Stream.entriesOf
    rw [hpushed]
    exact List.nil_prefix
  · unfold Stream.handledOf
    rw [hhandled]
    exact Iff.rfl

/-- what has been parsed is the beginning of what the peer writes -/
theorem Decoded.parsed (hd : Decoded fs peer pool s c) : c.parsed <+: fs := by
  obtain ⟨chunks, seen, -, -, hc, -⟩ := hd
  obtain ⟨rest, hfs, -⟩ := hc.cut
  exact ⟨rest, hfs.symm⟩

theorem handledOf_lt {n : Nat} (hsound : s.Sound n) (hcarried : s.Carried) {i : Nat}
    (hi : i ∈ s.handledOf peer) : i < (s.pushedOf peer).length := by
  obtain ⟨e, he, rfl⟩ := List.mem_map.mp hi
  obtain ⟨he, hconn⟩ := List.mem_filter.mp he
  have hconn : e.1.conn = peer := by simpa using hconn
  have hpushed : e ∈ s.pushed := by
    rw [← Multiset.mem_coe, hcarried.chunks, Multiset.mem_add, Multiset.mem_coe]
    exact .inl he
  have hget := hsound.entry hpushed
  rw [hconn] at hget
  have hlt := (List.getElem?_eq_some_iff.mp hget).1
  unfold Stream.pushedOf
  rw [List.length_map]
  exact hlt

/-- the chunks of the connection, and what is still to come behind them -/
theorem Tcp.Stream.Measured.chunks (hmeasured : s'.Measured)
    (hstream : (s'.pushedOf peer).flatten <+: fs.flatMap CMD.frame) : ∃ chunks : List Chunk,
      s'.pushedOf peer <+: chunks.map Chunk.bytes ∧
      chunks.flatMap Chunk.bytes = fs.flatMap CMD.frame := by
  obtain ⟨rest, hrest⟩ := hstream
  obtain ⟨chunks, hprefix, hchunks⟩ := exists_chunks (l := s'.pushedOf peer) (fun b hb => by
    obtain ⟨e, he, rfl⟩ := List.mem_map.mp hb
    have hm := hmeasured.pushed e (List.mem_filter.mp he).1
    rw [hm.length]
    exact ⟨hm.pos, hm.lt⟩) rest
  exact ⟨chunks, hprefix, hchunks.trans hrest⟩

theorem Decoded.grow {n : Nat} (hd : Decoded fs peer pool s c) (hsound : s.Sound n)
    (hcarried : s.Carried) (hstep : s.Step a s') (hmeasured : s'.Measured)
    (hstream : (s'.pushedOf peer).flatten <+: fs.flatMap CMD.frame) :
    ∃ chunks seen, chunks.flatMap Chunk.bytes = fs.flatMap CMD.frame ∧
      s'.pushedOf peer <+: chunks.map Chunk.bytes ∧ c.Ordered fs chunks pool seen ∧
      c.miDataPacketRecvSeq ∉ seen ∧ ∀ i, i ∈ seen ↔ i ∈ s.handledOf peer := by
  obtain ⟨chunks, seen, hchunks, hprefix, hc, hnext, hseen⟩ := hd
  obtain ⟨chunks', hprefix', hchunks'⟩ := hmeasured.chunks hstream
  obtain ⟨l, hl⟩ := Stream.entriesOf_step hstep peer
  have hgrow : s.pushedOf peer <+: s'.pushedOf peer := by
    unfold Stream.pushedOf
    rw [hl, List.map_append]
    exact List.prefix_append ..
  refine ⟨chunks', seen, hchunks', hprefix', ?_, hnext, hseen⟩
  exact hc.rechunk hprefix (hgrow.trans hprefix')
    (fun i hi => handledOf_lt hsound hcarried ((hseen i).mp hi)) (hchunks'.trans hchunks.symm)

theorem Decoded.quiet {n : Nat} (hd : Decoded fs peer pool s c) (hsound : s.Sound n)
    (hcarried : s.Carried) (hstep : s.Step a s') (hmeasured : s'.Measured)
    (hstream : (s'.pushedOf peer).flatten <+: fs.flatMap CMD.frame)
    (hquiet : s.server.handles a.1 = []) : Decoded fs peer pool s' c := by
  obtain ⟨chunks, seen, hchunks, hprefix, hc, hnext, hseen⟩ :=
    hd.grow hsound hcarried hstep hmeasured hstream
  refine ⟨chunks, seen, hchunks, hprefix, hc, hnext, fun i => (hseen i).trans ?_⟩
  unfold Stream.handledOf
  rw [hstep.handled, hquiet, List.map_nil, List.append_nil]

/-- **A call of `ParseData` by any handler thread**, with an idle Message for a chunk that is early. -/
theorem Decoded.handle {n fuel : Nat} (hfs : ∀ f ∈ fs, f.Fits)
    (hfuel : MAX_BUFFER_LEN + (fs.flatMap CMD.frame).length ≤ fuel)
    (hd : Decoded fs peer pool s c) (hsound : s.Sound n) (hcarried : s.Carried)
    (hmeasures : s.Measured) (hstep : s.Step a s') (hmeasured : s'.Measured)
    (hstream : (s'.pushedOf peer).flatten <+: fs.flatMap CMD.frame) {m : Msg}
    (hm : m ∈ s.server.chunks) (hhandles : s.server.handles a.1 = [m]) (hpeer : m.conn = peer)
    (hidle : c.miDataPacketRecvSeq ≠ m.seq → c.mpIdleMessageList ≠ []) :
    ∃ c' ret, ParseData fuel c (m.message (s.buffer m.addr)) = some (c', ret) ∧ ret ≠ -1 ∧
      Decoded fs peer pool s' c' := by
  obtain ⟨chunks, seen, hchunks, hprefix, hc, hnext, hseen⟩ :=
    hd.grow hsound hcarried hstep hmeasured hstream
  have hentry : s.entry m ∈ s.pushed := by
    rw [← Multiset.mem_coe, hcarried.chunks, Multiset.mem_add]
    exact .inr (Multiset.mem_map_of_mem _ hm)
  have hmeas : m.Measures (s.buffer m.addr) := hmeasures.pushed _ hentry
  have hdata : (m.message (s.buffer m.addr)).data = s.buffer m.addr := by
    show (s.buffer m.addr).take m.len = s.buffer m.addr
    rw [← hmeas.length, List.take_length]
  have hcarries : (m.message (s.buffer m.addr)).Carries chunks := by
    refine ⟨?_, hmeas.length.symm.trans (congrArg List.length hdata.symm)⟩
    have hget := hsound.entry hentry
    rw [hdata]
    show chunks[m.seq]?.map Chunk.bytes = some (s.buffer m.addr)
    obtain ⟨l, hl⟩ := Stream.entriesOf_step hstep peer
    obtain ⟨r, hr⟩ := hprefix
    have hlt := (List.getElem?_eq_some_iff.mp hget).1
    rw [show (s.entry m).1.conn = peer from hpeer] at hget hlt
    rw [← List.getElem?_map, ← hr, Stream.pushedOf, hl, List.map_append, List.append_assoc,
      List.getElem?_append_left (by rw [List.length_map]; exact hlt), List.getElem?_map,
      show (s.entriesOf peer)[m.seq]? = some (s.entry m) from hget]
    rfl
  have hnew : m.seq ∉ seen := fun hmem =>
    hsound.not_handled hcarried hm (hpeer ▸ (hseen m.seq).mp hmem)
  have hlen : MAX_BUFFER_LEN + chunks.length ≤ fuel := by
    have hle := length_chunks_le chunks
    rw [hchunks] at hle
    omega
  obtain ⟨c', ret, hparse, hret, hc', hnext'⟩ := ParseData_ordered hfs hlen hc hnext hcarries hnew hidle
  refine ⟨c', ret, hparse, hret, chunks, m.seq :: seen, hchunks, hprefix, hc', hnext', fun i => ?_⟩
  unfold Stream.handledOf
  rw [hstep.handled, hhandles, List.filter_append, List.map_append, List.mem_append, List.mem_cons,
    hseen i, or_comm]
  refine or_congr Iff.rfl ?_
  have hown : [s.entry m].filter (fun e => e.1.conn = peer) = [s.entry m] :=
    List.filter_cons_of_pos (decide_eq_true hpeer)
  rw [List.map_singleton, hown]
  exact List.mem_singleton.symm

theorem mem_handledOf {n : Nat} (hsound : s.Sound n) (hcarried : s.Carried)
    (hchunks : s.server.chunks = 0) {i : Nat} (hi : i < (s.pushedOf peer).length) :
    i ∈ s.handledOf peer := by
  unfold Stream.pushedOf at hi
  rw [List.length_map] at hi
  have hmem : (s.entriesOf peer)[i] ∈ s.entriesOf peer := List.getElem_mem hi
  obtain ⟨hpushed, hconn⟩ := List.mem_filter.mp hmem
  have hconn : ((s.entriesOf peer)[i]).1.conn = peer := by simpa using hconn
  have hhandled : (s.entriesOf peer)[i] ∈ s.handled := by
    have hall := hpushed
    rw [← Multiset.mem_coe, hcarried.chunks, hchunks, Multiset.map_zero, add_zero] at hall
    exact Multiset.mem_coe.mp hall
  have hseq := hsound.seq_entriesOf peer hi
  exact List.mem_map.mpr ⟨_, List.mem_filter.mpr ⟨hhandled, decide_eq_true hconn⟩, hseq⟩

/-- **When every chunk has been handled and all frames have come, all commands have been parsed.** -/
theorem Decoded.all {n : Nat} (hd : Decoded fs peer pool s c) (hsound : s.Sound n)
    (hcarried : s.Carried) (hchunks : s.server.chunks = 0)
    (hstream : (s.pushedOf peer).flatten = fs.flatMap CMD.frame) : c.parsed = fs := by
  obtain ⟨chunks, seen, hflat, ⟨r, hr⟩, hc, hnext, hseen⟩ := hd
  -- no chunk is left that could come
  have hr0 : r = [] := by
    have h1 := hflat
    rw [List.flatMap_def, ← hr, List.flatten_append, hstream] at h1
    have h2 : r.flatten = [] := List.append_cancel_left (h1.trans (List.append_nil _).symm)
    refine List.eq_nil_iff_forall_not_mem.mpr fun b hb => ?_
    obtain ⟨ch, -, rfl⟩ := List.mem_map.mp (hr ▸ List.mem_append_right _ hb)
    have h3 := List.flatten_eq_nil_iff.mp h2 _ hb
    exact absurd (congrArg List.length h3) (Nat.ne_of_gt ch.pos)
  have hlength : chunks.length = (s.pushedOf peer).length := by
    rw [← List.length_map (f := Chunk.bytes), ← hr, hr0, List.append_nil]
  have hend : c.miDataPacketRecvSeq = chunks.length := by
    refine Nat.le_antisymm hc.next_le (Nat.le_of_not_lt fun hlt => hnext ?_)
    exact (hseen _).mpr (mem_handledOf hsound hcarried hchunks (hlength ▸ hlt))
  have hcut := hc.cut
  rw [hend, List.drop_length, List.flatMap_nil] at hcut
  exact (hcut.at_end fun f _ => List.ne_nil_of_length_pos
    (by rw [CMD.frame_length]; exact Nat.add_pos_left (by decide) _)).2

end

end VncProxy
