import VncProxy.Http.Accept

/-!
# No byte is lost

* `held`            the bytes a parser holds;
* `Stores`          a call stores its whole chunk behind them, and takes the header off when it ends;
* `Feed.Stores`     it does whenever it returns 0 or 1, and with 1 the body is that of the stream;
* `stored_iff`      no access is out of range and no call loses a byte just when all chunks fit;
* `not_stored`      a chunk that does not fit is cut off.
-/

namespace VncProxy

open DataHttpParser

namespace DataHttpParser

def held (p : DataHttpParser) : List Byte := p.mBuffer.take p.mIndex

/-- the chunk is stored behind the bytes held; if the header ends with it, what is left is the body -/
def Stores (p : DataHttpParser) (c : List Byte) : Prop :=
  if (p.ParseData c).1.mbReceiveHeaderFinish = p.mbReceiveHeaderFinish then
    (p.ParseData c).1.held = p.held ++ c
  else ∃ k, headerEnd (p.held ++ c) = some k ∧ (p.ParseData c).1.held = (p.held ++ c).drop k

theorem Holds.held {p : DataHttpParser} {u : List Byte} (hp : Holds p u) : p.held = u := by
  unfold DataHttpParser.held
  rw [hp.buffer, hp.index, List.take_left]

theorem Reads.held {p : DataHttpParser} {f : Facts} {body : List Byte} (hp : Reads p f body) :
    p.held = body := by
  unfold DataHttpParser.held
  rw [hp.index, hp.buffer]

/-! ## one call -/

/-- before the blank line a chunk is stored if `mBuffer` has room for it -/
theorem Holds.stores {p : DataHttpParser} {u c : List Byte} (hp : Holds p u) (hc : c ≠ [])
    (hfit : u.length + c.length ≤ MAX_BUFFER_LEN) : p.Stores c := by
  obtain ⟨hnone, hsome⟩ := hp.ParseData hc hfit
  unfold Stores
  rw [hp.finish, hp.held]
  cases hend : headerEnd (cstr (u ++ c)) with
  | none =>
    obtain ⟨hholds, -⟩ := hnone hend
    rw [if_pos hholds.finish]
    exact hholds.held
  | some k =>
    obtain ⟨hreads, -⟩ := hsome k hend
    obtain ⟨v, hv⟩ := cstr_le (u ++ c)
    rw [hreads.finish, if_neg (by decide)]
    exact ⟨k, hv ▸ headerEnd_append v hend, hreads.held⟩

/-- behind the blank line the NUL needs room too -/
theorem Reads.stores {p : DataHttpParser} {f : Facts} {body c : List Byte} (hp : Reads p f body)
    (hc : p.Fits c) : p.Stores c := by
  have hreads := hp.fits hc
  unfold Stores
  rw [hreads.finish, hp.finish, if_pos rfl, hreads.held, hp.held]

/-- **A chunk that fits is stored.** -/
theorem Got.stores {p : DataHttpParser} {u c : List Byte} (hp : Got p u) (hne : c ≠ []) (hc : p.Fits c) :
    p.Stores c := by
  rcases hp with ⟨hp, -⟩ | ⟨k, w, -, -, hp⟩
  · have hroom := (hp.room hc hne).1
    exact hp.stores hne (by omega)
  · exact hp.stores hc

/-- **When 1 is returned, the body is that of the bytes.** -/
theorem Got.body {p : DataHttpParser} {u : List Byte} (hp : Got p u) (hcomplete : p.complete = true)
    {n : Nat} (hn : p.GetContentLength = n) : ∃ k, headerEnd u = some k ∧ k + n ≤ u.length ∧
      p.GetBody.take n = (u.drop k).take n := by
  rcases hp with ⟨hp, -⟩ | ⟨k, w, hw, hend, hp⟩
  · unfold complete at hcomplete
    rw [hp.finish] at hcomplete
    exact absurd hcomplete Bool.false_ne_true
  · obtain ⟨v, hv⟩ := (cstr_le w).trans hw
    have hk : headerEnd u = some k := hv ▸ headerEnd_append v hend
    have hle := (headerEnd_le hk).2
    have hlength : (read (cstr w)).contentLength = n := hp.facts ▸ hn
    have hbody : (u.drop k).length = n := by
      rcases hp.complete.mp hcomplete with h | h
      · omega
      · omega
    refine ⟨k, hk, ?_, ?_⟩
    · rw [List.length_drop] at hbody
      omega
    · rw [← hbody]
      exact hp.buffer.trans (List.take_length).symm

/-! ## a chunk that does not fit -/

theorem ParseData_take (p : DataHttpParser) (c : List Byte) :
    p.ParseData c = p.ParseData (c.take (MAX_BUFFER_LEN - p.mIndex)) := by
  have hlen : min (c.take (MAX_BUFFER_LEN - p.mIndex)).length (MAX_BUFFER_LEN - p.mIndex) =
      min c.length (MAX_BUFFER_LEN - p.mIndex) := by
    rw [List.length_take]
    omega
  have htake : (c.take (MAX_BUFFER_LEN - p.mIndex)).take (min c.length (MAX_BUFFER_LEN - p.mIndex)) =
      c.take (min c.length (MAX_BUFFER_LEN - p.mIndex)) := by
    rw [List.take_take]
    congr 1
    omega
  unfold ParseData
  simp only [hlen, htake]

/-- no more than what is stored of a chunk is stored of it -/
theorem Stores.take_eq {p : DataHttpParser} {c : List Byte} {n : Nat}
    (hcall : p.ParseData c = p.ParseData (c.take n)) (htake : p.Stores (c.take n)) (h : p.Stores c) :
    c.take n = c := by
  unfold Stores at htake h
  rw [← hcall] at htake
  split at h
  · next hfinish =>
    rw [if_pos hfinish] at htake
    exact List.append_cancel_left (htake.symm.trans h)
  · next hfinish =>
    rw [if_neg hfinish] at htake
    obtain ⟨k, hk, hheld⟩ := h
    obtain ⟨k', hk', hheld'⟩ := htake
    have hsplit : p.held ++ c.take n ++ c.drop n = p.held ++ c := by
      rw [List.append_assoc, List.take_append_drop]
    have heq : headerEnd (p.held ++ c) = some k' := hsplit ▸ headerEnd_append (c.drop n) hk'
    obtain rfl := Option.some.inj (hk.symm.trans heq)
    have hle := (headerEnd_le hk').2
    have hlen := congrArg List.length (hheld'.symm.trans hheld)
    rw [List.length_drop, List.length_drop, List.length_append, List.length_append] at hlen
    rw [List.length_append] at hle
    refine (List.take_prefix n c).eq_of_length_le ?_
    omega

theorem Holds.not_stores {p : DataHttpParser} {u c : List Byte} (hp : Holds p u)
    (hroom : u.length < MAX_BUFFER_LEN) (hcut : MAX_BUFFER_LEN < u.length + c.length) :
    ¬ p.Stores c := by
  have hlen : (c.take (MAX_BUFFER_LEN - p.mIndex)).length = MAX_BUFFER_LEN - u.length := by
    rw [List.length_take, hp.index]
    omega
  have hne : c.take (MAX_BUFFER_LEN - p.mIndex) ≠ [] := List.ne_nil_of_length_pos (by omega)
  intro h
  have heq := Stores.take_eq (p.ParseData_take c) (hp.stores hne (by omega)) h
  rw [heq] at hlen
  omega

end DataHttpParser

/-! ## all calls -/

/-- with 0 or 1 the chunk is stored, and -1 is returned when it is not; with 1 the body is what came
behind the blank line -/
structure Feed.Stores (s : Feed) (c : List Byte) : Prop where
  stored : (s.parser.ParseData c).2 = 0 ∨ (s.parser.ParseData c).2 = 1 → s.parser.Stores c
  refused : ¬ s.parser.Stores c → (s.parser.ParseData c).2 = -1
  body : (s.parser.ParseData c).2 = 1 → ∀ n : Nat, (s.parser.ParseData c).1.GetContentLength = n →
    ∃ k, headerEnd (s.fed ++ c) = some k ∧ k + n ≤ (s.fed ++ c).length ∧
      (s.parser.ParseData c).1.GetBody.take n = ((s.fed ++ c).drop k).take n

/-- **A call with a chunk that fits loses no byte.** -/
theorem Feed.Kept.stores {s : Feed} (hs : s.Kept) {c : List Byte} (hfit : s.parser.Fits c) :
    s.Stores c := by
  by_cases hc : c = []
  · have hret := (s.parser.ParseData_full c).mpr (.inl hc)
    refine ⟨fun h01 => ?_, fun _ => hret, fun h1 => ?_⟩
    · rw [hret] at h01
      exact absurd h01 (by decide)
    · rw [hret] at h1
      exact absurd h1 (by decide)
  · have hstores := hs.1.stores hc hfit
    refine ⟨fun _ => hstores, fun hnot => absurd hstores hnot, fun h1 n hn => ?_⟩
    refine (hs.1.ParseData hfit).body ?_ hn
    have hpos := List.length_pos_iff.mpr hc
    have hroom := (hfit hc).1
    rw [s.parser.ParseData_of_fits c (by omega)] at h1
    by_contra hnot
    rw [if_neg hnot] at h1
    exact absurd h1 (by decide)

/-- **No access is out of range and no byte is lost, just when** every chunk leaves two bytes of
`mBuffer` free, and the first line, when the blank line has come, one byte of `firstLineBuff`. -/
theorem stored_iff (l : List (List Byte)) :
    RunOk Feed.step (fun s c => (∀ a ∈ s.parser.accesses c, a.InRange) ∧ s.Stores c) Feed.init l ↔
      RunOk Feed.step (fun s c => s.parser.Fits c) Feed.init l := by
  refine runOk_congr (I := Feed.Kept) ?_ (fun s c hs => ?_) Feed.Kept.init l
  · intro s c s' hs hc h
    obtain rfl := Option.some.inj h
    exact hs.step hc
  · rw [inRange_iff hs.2]
    exact and_iff_left_of_imp hs.stores

/-- **The end of the third of three chunks** of 4095 bytes is lost. -/
theorem not_stored : ¬ ∀ l, RunOk Feed.step Feed.Stores Feed.init l := by
  intro hall
  obtain ⟨c, hc, hcr⟩ : ∃ c : List Byte, c.length = 4095 ∧ 13 ∉ c :=
    ⟨List.replicate 4095 65, List.length_replicate, fun h => absurd (List.eq_of_mem_replicate h)
      (by decide)⟩
  have hne : c ≠ [] := List.ne_nil_of_length_pos (by omega)
  have hend : ∀ u : List Byte, 13 ∉ u → headerEnd (cstr u) = none := by
    intro u hu
    by_contra h
    obtain ⟨k, hk⟩ := Option.ne_none_iff_exists'.mp h
    obtain ⟨blank, hblank, -⟩ := Option.map_eq_some_iff.mp hk
    have hmem : (13 : Byte) ∈ cstr u := List.mem_of_mem_drop
      ((find_drop hblank).subset (List.mem_cons_self ..))
    exact hu ((cstr_le u).subset hmem)
  have hfirst : Holds (new.ParseData c).1 c := by
    refine ((Holds.new.ParseData hne ?_).1 (hend c hcr)).1
    rw [hc]
    decide
  have hlen : (c ++ c).length = 8190 := by rw [List.length_append, hc]
  have hsecond : Holds ((new.ParseData c).1.ParseData c).1 (c ++ c) := by
    refine ((hfirst.ParseData hne ?_).1 (hend _ ?_)).1
    · rw [hc]
      decide
    · rw [List.mem_append, or_self]
      exact hcr
  have hthird := (((hall [c, c, c]).2 _ rfl).2 _ rfl).1
  -- 8190 bytes are held, and two more are stored
  have hcut := hsecond.not_stores (c := c) (by rw [hlen]; decide) (by rw [hlen, hc]; decide)
  rcases (ParseData_full _ c).mp (hthird.refused hcut) with h0 | h0
  · exact hne h0
  · exact absurd (hlen.symm.trans (hsecond.index.symm.trans h0)) (by decide)

end VncProxy
