import VncProxy.Http.Facts
import VncProxy.Lib.Run

/-!
# The arrays of `ParseData`

The bytes of the commands go to `mBuffer`, which is then read as a C string, and the first line goes to
`firstLineBuff`.

* `Access`, `DataHttpParser.accesses`  what one call writes, and what it reads as a string;
* `DataHttpParser.Fits`     the condition on a chunk;
* `DataHttpParser.Bounded`  what the calls keep;
* `inRange_iff`             the accesses of one call are in range just when its chunk fits;
* `Holds.fits`, `Reads.fits`  what a call with a chunk that fits makes of the bytes;
* `arrays_in_range_iff`     those of all calls just when each chunk does.
-/

namespace VncProxy

namespace DataHttpParser

inductive Access where
  /-- a write of `mBuffer[i]` -/
  | mBuffer (i : Nat)
  /-- a write of `firstLineBuff[i]` -/
  | firstLineBuff (i : Nat)
  /-- `mBuffer`, with this content, is read as a C string -/
  | string (buffer : List Byte)

def Access.InRange : Access → Prop
  | .mBuffer i => i < MAX_BUFFER_LEN
  | .firstLineBuff i => i < 4096
  | .string buffer => 0 ∈ buffer

/-- `strcpy(firstLineBuff, line)`, with the NUL -/
def copyAccesses (line : List Byte) : List Access :=
  (List.range (line.length + 1)).map .firstLineBuff

/-- `memcpy(mBuffer, mBuffer + headerIndex, mIndex)` and the NUL behind it -/
def moveAccesses (p : DataHttpParser) (headerIndex : Nat) : List Access :=
  if headerIndex ≤ p.mIndex then
    (List.range (p.mIndex - headerIndex)).map .mBuffer ++ [.mBuffer (p.mIndex - headerIndex)]
  else []

/-- the accesses of `ParseHeaderPart` -/
def headerAccesses (p : DataHttpParser) : List Access :=
  let headers := cstr p.mBuffer
  .string p.mBuffer ::
    match find [13, 10, 13, 10] headers with
    | none => []
    | some blank =>
      (match find [13, 10] headers with
        | none => []
        | some pos => copyAccesses (headers.take pos)) ++ p.moveAccesses (blank + 4)

theorem take_fits (p : DataHttpParser) (buffer : List Byte) :
    p.mIndex + (buffer.take (min buffer.length (MAX_BUFFER_LEN - p.mIndex))).length
      ≤ MAX_BUFFER_LEN := by
  have := p.index_le
  rw [List.length_take]
  omega

def accesses (p : DataHttpParser) (buffer : List Byte) : List Access :=
  let recvLen := min buffer.length (MAX_BUFFER_LEN - p.mIndex)
  if 0 < recvLen then
    let q := p.store (buffer.take recvLen) (p.take_fits buffer)
    (List.range recvLen).map (fun i => .mBuffer (p.mIndex + i)) ++
      [.mBuffer (p.mIndex + recvLen + 1)] ++
        if q.mbReceiveHeaderFinish then [] else q.headerAccesses
  else []

/-- what the parser holds and what comes leave two bytes of `mBuffer` free, and if the blank line comes
the first line leaves one byte of `firstLineBuff` free -/
def Fits (p : DataHttpParser) (buffer : List Byte) : Prop :=
  buffer ≠ [] → p.mIndex + buffer.length + 2 ≤ MAX_BUFFER_LEN ∧
    (p.mbReceiveHeaderFinish = false →
      headerEnd (cstr (p.mBuffer.take p.mIndex ++ buffer)) ≠ none →
        (firstLine (cstr (p.mBuffer.take p.mIndex ++ buffer))).length < 4096)

instance (p : DataHttpParser) (buffer : List Byte) : Decidable (p.Fits buffer) :=
  inferInstanceAs (Decidable (_ → _ ∧ (_ → _ → _)))

def Bounded (p : DataHttpParser) : Prop :=
  p.mIndex + 2 ≤ MAX_BUFFER_LEN ∧ ((∃ u, Holds p u) ∨ ∃ f body, Reads p f body)

theorem Bounded.new : Bounded new := ⟨by decide, .inl ⟨[], .new⟩⟩

/-! ## the accesses of one call -/

theorem copyAccesses_inRange (line : List Byte) :
    (∀ a ∈ copyAccesses line, a.InRange) ↔ line.length < 4096 := by
  unfold copyAccesses
  simp only [List.mem_map, List.mem_range, forall_exists_index, and_imp, forall_apply_eq_imp_iff₂]
  constructor
  · intro h
    exact h line.length (Nat.lt_succ_self _)
  · intro h i hi
    show i < 4096
    omega

theorem moveAccesses_inRange (p : DataHttpParser) {k : Nat} (hk : 0 < k) :
    ∀ a ∈ p.moveAccesses k, a.InRange := by
  have hle := p.index_le
  intro a ha
  unfold moveAccesses at ha
  split at ha
  · rcases List.mem_append.mp ha with ha | ha
    · obtain ⟨i, hi, rfl⟩ := List.mem_map.mp ha
      have := List.mem_range.mp hi
      show i < MAX_BUFFER_LEN
      omega
    · rw [List.mem_singleton.mp ha]
      show p.mIndex - k < MAX_BUFFER_LEN
      omega
  · cases ha

/-- the accesses behind the copy of the chunk, before the blank line was there -/
theorem Holds.headerAccesses_inRange {p : DataHttpParser} {u : List Byte} (hp : Holds p u)
    (hu : u.length < MAX_BUFFER_LEN) :
    (∀ a ∈ p.headerAccesses, a.InRange) ↔
      (headerEnd (cstr u) ≠ none → (firstLine (cstr u)).length < 4096) := by
  have hcstr : cstr p.mBuffer = cstr u := by rw [hp.buffer, cstr_zeros]
  have hnul : (0 : Byte) ∈ p.mBuffer := by
    rw [hp.buffer]
    refine List.mem_append_right _ (List.mem_replicate.mpr ⟨?_, rfl⟩)
    omega
  unfold headerAccesses
  rw [hcstr, List.forall_mem_cons, and_iff_right (show (Access.string p.mBuffer).InRange from hnul)]
  cases hblank : find [13, 10, 13, 10] (cstr u) with
  | none =>
    have hnone : headerEnd (cstr u) = none := Option.map_eq_none_iff.mpr hblank
    exact iff_of_true nofun fun h => absurd hnone h
  | some blank =>
    have hsome : headerEnd (cstr u) = some (blank + 4) := Option.map_eq_some_iff.mpr ⟨blank, hblank, rfl⟩
    have hmove := p.moveAccesses_inRange (k := blank + 4) (by omega)
    rw [hsome, forall_prop_of_true (Option.some_ne_none _)]
    unfold firstLine
    show (∀ a ∈ (match find crlf (cstr u) with
      | none => []
      | some pos => copyAccesses ((cstr u).take pos)) ++ p.moveAccesses (blank + 4), a.InRange) ↔ _
    cases hcrlf : find crlf (cstr u) with
    | none => exact absurd hcrlf (find_crlf_of_headerEnd hsome)
    | some pos =>
      dsimp only
      rw [List.forall_mem_append, and_iff_left hmove, copyAccesses_inRange]

theorem store_inRange (i n : Nat) :
    (∀ a ∈ (List.range n).map (fun j => Access.mBuffer (i + j)) ++ [.mBuffer (i + n + 1)], a.InRange) ↔
      i + n + 1 < MAX_BUFFER_LEN := by
  rw [List.forall_mem_append, List.forall_mem_singleton]
  constructor
  · exact And.right
  · intro h
    refine ⟨fun a ha => ?_, h⟩
    obtain ⟨j, hj, rfl⟩ := List.mem_map.mp ha
    have := List.mem_range.mp hj
    show i + j < MAX_BUFFER_LEN
    omega

/-- **The accesses of a call are in range just when its chunk fits.** -/
theorem inRange_iff {p : DataHttpParser} (hp : p.Bounded) (c : List Byte) :
    (∀ a ∈ p.accesses c, a.InRange) ↔ p.Fits c := by
  obtain ⟨hindex, hstate⟩ := hp
  by_cases hc : c = []
  · subst hc
    refine iff_of_true ?_ fun h => absurd rfl h
    unfold accesses
    rw [if_neg (by simp)]
    exact nofun
  · have hpos := List.length_pos_iff.mpr hc
    unfold Fits accesses
    rw [forall_prop_of_true hc, if_pos (by omega), List.forall_mem_append, store_inRange]
    by_cases hfit : p.mIndex + c.length + 2 ≤ MAX_BUFFER_LEN
    · have hlen : min c.length (MAX_BUFFER_LEN - p.mIndex) = c.length := by omega
      simp only [hlen, List.take_length]
      rw [and_iff_right (by omega), and_iff_right hfit]
      rcases hstate with ⟨u, hu⟩ | ⟨f, body, hbody⟩
      · have hheld : p.mBuffer.take p.mIndex = u := by
          rw [hu.buffer, hu.index, List.take_left]
        have hstore := hu.store (show p.mIndex + c.length ≤ MAX_BUFFER_LEN by omega)
        rw [hu.finish, forall_prop_of_true rfl, hstore.finish, if_neg Bool.false_ne_true, hheld]
        refine hstore.headerAccesses_inRange ?_
        rw [List.length_append, ← hu.index]
        omega
      · have hstore := hbody.store (show p.mIndex + c.length ≤ MAX_BUFFER_LEN by omega) (by omega)
        rw [hbody.finish, hstore.finish, if_pos rfl]
        exact iff_of_true (fun _ h => absurd h List.not_mem_nil) fun h => absurd h (by decide)
    · refine iff_of_false (fun h => ?_) fun h => hfit h.1
      have := h.1
      omega

/-! ## a chunk that fits -/

/-- what has come and the chunk leave two bytes free, and the first line of a header fits -/
theorem Holds.room {p : DataHttpParser} {u c : List Byte} (hp : Holds p u) (hc : p.Fits c) (hne : c ≠ []) :
    u.length + c.length + 2 ≤ MAX_BUFFER_LEN ∧
      (headerEnd (cstr (u ++ c)) ≠ none → (firstLine (cstr (u ++ c))).length < 4096) := by
  obtain ⟨hroom, hline⟩ := hc hne
  have hheld : p.mBuffer.take p.mIndex = u := by rw [hp.buffer, hp.index, List.take_left]
  rw [hp.index] at hroom
  rw [hheld] at hline
  exact ⟨hroom, hline hp.finish⟩

theorem Holds.fits {p : DataHttpParser} {u c : List Byte} (hp : Holds p u)
    (hu : headerEnd (cstr u) = none) (hc : p.Fits c) :
    (headerEnd (cstr (u ++ c)) = none → Holds (p.ParseData c).1 (u ++ c)) ∧
      ∀ k, headerEnd (cstr (u ++ c)) = some k →
        Reads (p.ParseData c).1 (read (cstr (u ++ c))) ((u ++ c).drop k) := by
  by_cases hne : c = []
  · subst hne
    rw [p.ParseData_of_not_fits [] (by simp), List.append_nil]
    refine ⟨fun _ => hp, fun k hk => ?_⟩
    rw [hu] at hk
    cases hk
  · have hroom := (hp.room hc hne).1
    obtain ⟨hnone, hsome⟩ := hp.ParseData hne (by omega)
    exact ⟨fun h => (hnone h).1, fun k hk => (hsome k hk).1⟩

theorem Reads.fits {p : DataHttpParser} {f : Facts} {body c : List Byte} (hp : Reads p f body)
    (hc : p.Fits c) : Reads (p.ParseData c).1 f (body ++ c) := by
  by_cases hne : c = []
  · subst hne
    rw [p.ParseData_of_not_fits [] (by simp), List.append_nil]
    exact hp
  · exact (hp.ParseData hne (hp.index ▸ (hc hne).1)).1

/-! ## all calls -/

theorem Bounded.ParseData {p : DataHttpParser} (hp : p.Bounded) {c : List Byte} (hc : p.Fits c) :
    (p.ParseData c).1.Bounded := by
  obtain ⟨hindex, hstate⟩ := hp
  by_cases hnil : c = []
  · subst hnil
    rw [p.ParseData_of_not_fits [] (by simp)]
    exact ⟨hindex, hstate⟩
  · have hfit := (hc hnil).1
    rcases hstate with ⟨u, hu⟩ | ⟨f, body, hbody⟩
    · have hlen : u.length + c.length + 2 ≤ MAX_BUFFER_LEN := hu.index ▸ hfit
      obtain ⟨hnone, hsome⟩ := hu.ParseData hnil (by omega)
      cases hend : headerEnd (cstr (u ++ c)) with
      | none =>
        obtain ⟨hholds, _⟩ := hnone hend
        refine ⟨?_, .inl ⟨_, hholds⟩⟩
        rw [hholds.index, List.length_append]
        exact hlen
      | some k =>
        obtain ⟨hreads, _⟩ := hsome k hend
        refine ⟨?_, .inr ⟨_, _, hreads⟩⟩
        rw [hreads.index, List.length_drop, List.length_append]
        omega
    · have hlen : body.length + c.length + 2 ≤ MAX_BUFFER_LEN := hbody.index ▸ hfit
      obtain ⟨hreads, _⟩ := hbody.ParseData hnil (by omega)
      refine ⟨?_, .inr ⟨_, _, hreads⟩⟩
      rw [hreads.index, List.length_append]
      exact hlen

def call (p : DataHttpParser) (c : List Byte) : Option DataHttpParser := some (p.ParseData c).1

theorem Bounded.runOk_iff {p : DataHttpParser} (hp : p.Bounded) (l : List (List Byte)) :
    RunOk call (fun p c => ∀ a ∈ p.accesses c, a.InRange) p l ↔ RunOk call Fits p l := by
  refine runOk_congr (I := Bounded) ?_ (fun q c hq => inRange_iff hq c) hp l
  intro q c q' hq hc h
  obtain rfl := Option.some.inj h
  exact hq.ParseData hc

end DataHttpParser

open DataHttpParser

/-- no call for these chunks makes an access out of range -/
def CallsInRange (cs : List (List Byte)) : Prop :=
  RunOk call (fun p c => ∀ a ∈ p.accesses c, a.InRange) new cs

/-- each chunk fits -/
def CallsFit (cs : List (List Byte)) : Prop := RunOk call Fits new cs

instance (cs : List (List Byte)) : Decidable (CallsFit cs) :=
  inferInstanceAs (Decidable (RunOk call Fits new cs))

theorem callsInRange_iff (cs : List (List Byte)) : CallsInRange cs ↔ CallsFit cs :=
  Bounded.new.runOk_iff cs

/-- **All accesses of the calls for one parser are in range, just when each chunk leaves two bytes of
`mBuffer` free, and the first line, when the blank line has come, one byte of `firstLineBuff`.** -/
theorem arrays_in_range_iff (l : List (List Byte)) :
    RunOk call (fun p c => ∀ a ∈ p.accesses c, a.InRange) new l ↔ RunOk call Fits new l :=
  Bounded.new.runOk_iff l

/-- one chunk of `MAX_BUFFER_LEN - 1` bytes: the NUL is written behind `mBuffer` -/
theorem not_arrays_in_range : ¬ ∀ l : List (List Byte), (∀ c ∈ l, c.length < MAX_BUFFER_LEN) →
    RunOk call (fun p c => ∀ a ∈ p.accesses c, a.InRange) new l := by
  intro hall
  obtain ⟨c, hc⟩ : ∃ c : List Byte, c.length = 8191 := ⟨List.replicate 8191 65, List.length_replicate⟩
  have hsize : ∀ c' ∈ [c], c'.length < MAX_BUFFER_LEN := by
    intro c' hc'
    rw [List.mem_singleton.mp hc', hc]
    decide
  have hfit := ((inRange_iff .new c).mp (hall [c] hsize).1 (List.ne_nil_of_length_pos (by omega))).1
  rw [hc] at hfit
  exact absurd hfit (by decide)

end VncProxy
