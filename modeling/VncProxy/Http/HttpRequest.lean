import VncProxy.Lib.Bytes
import VncProxy.Lib.Run
import VncProxy.Lib.While

/-!
# The buffers of `HttpRequest`

A request keeps the body to be sent and the body that has come in two arrays whose size is doubled
until a new block fits.

* `GrowBuffer`      an array with the two `int`s that go with it;
* `Grown`           it holds these bytes and the NUL behind them;
* `Doubled`         what the calls keep: the capacity is a power of two, 2^30 at most;
* `Kind`            the body that has come, and the one to be sent;
* `grown_iff`       all calls end and leave a grown buffer just when 2^30 bytes are not reached.
-/

namespace VncProxy

def MAX_RESPONED_BUFFER : Int := 4 * 1024

structure GrowBuffer where
  buffer : List Byte
  size : Int
  capacity : Int

namespace GrowBuffer

def init (junk : Nat → Byte) : GrowBuffer where
  buffer := newChar MAX_RESPONED_BUFFER junk
  size := 0
  capacity := MAX_RESPONED_BUFFER

/-- `n` rounds at most of the loop that doubles the capacity and sets `bFlag` -/
def doubling (need : Int) (n : Nat) (s : Int × Bool) : Option (Int × Bool) :=
  loop (fun s => decide (need ≥ s.1)) (fun s => (int32 (s.1 * 2), true)) n s

/-- a block is added; the loop is run for `n` rounds at most -/
def add (n : Nat) (b : GrowBuffer) (buf : List Byte) (junk : Nat → Byte) : Option GrowBuffer :=
  (doubling (int32 (buf.length + b.size)) n (b.capacity, false)).map fun (capacity, bFlag) =>
    let buffer :=
      if bFlag then memcpy (newChar capacity junk) 0 (b.buffer.take b.size.toNat) else b.buffer
    let size := int32 (b.size + buf.length)
    { buffer := (memcpy buffer b.size.toNat buf).set size.toNat 0
      size := size
      capacity := capacity }

/-- the bytes are in the array with a NUL behind them -/
structure Grown (b : GrowBuffer) (bs : List Byte) : Prop where
  capacity : 0 < b.capacity
  room : b.size < b.capacity
  size : b.size = bs.length
  bytes : b.buffer.take bs.length = bs
  nul : b.buffer[bs.length]? = some 0

/-- the capacity is a power of two, and the bytes are in the array -/
structure Doubled (b : GrowBuffer) (bs : List Byte) : Prop where
  capacity : ∃ k, k ≤ 30 ∧ b.capacity = (2 ^ k : Nat)
  length : (b.buffer.length : Int) = b.capacity
  room : b.size < b.capacity
  size : b.size = bs.length
  bytes : b.buffer.take bs.length = bs

/-! ## the loop -/

theorem int32_double {k : Nat} (hk : k < 30) :
    int32 ((2 ^ k : Nat) * 2) = (2 ^ (k + 1) : Nat) := by
  have hpow : 2 ^ (k + 1) ≤ 2 ^ 30 := Nat.pow_le_pow_right (by decide) hk
  have hsucc : 2 ^ (k + 1) = 2 ^ k * 2 := Nat.pow_succ ..
  rw [int32_of_fits (by omega) (by omega)]
  omega

theorem doubling_done {need : Int} (hneed : need < 2 ^ 30) {d k n : Nat} (hd : k + d = 30)
    (hn : d ≤ n) (f : Bool) : ∃ (j : Nat) (f' : Bool),
      doubling need n ((2 ^ k : Nat), f) = some (((2 ^ j : Nat) : Int), f') ∧
      j ≤ 30 ∧ need < (2 ^ j : Nat) ∧ (f' = true ∨ j = k ∧ f' = f) := by
  induction d generalizing k n f with
  | zero =>
    obtain rfl : k = 30 := hd
    exact ⟨30, f, loop_done n (decide_eq_false (by omega)), Nat.le_refl _, hneed, .inr ⟨rfl, rfl⟩⟩
  | succ d ih =>
    by_cases hfit : need < (2 ^ k : Nat)
    · exact ⟨k, f, loop_done n (decide_eq_false (by omega)), by omega, hfit, .inr ⟨rfl, rfl⟩⟩
    · obtain ⟨n, rfl⟩ : ∃ m, n = m + 1 := ⟨n - 1, by omega⟩
      obtain ⟨j, f', hloop, hj, hlt, hflag⟩ := ih (k := k + 1) (n := n) (by omega) (by omega) true
      refine ⟨j, f', ?_, hj, hlt, .inl ?_⟩
      · unfold doubling
        rw [loop_round, int32_double (by omega)]
        · exact hloop
        · exact decide_eq_true (by omega)
      · rcases hflag with h | ⟨-, h⟩
        · exact h
        · exact h

/-- the capacities the loop runs through: -2^31 comes after 2^30, and then 0 for ever -/
def Capacity (c : Int) : Prop := (∃ k, k ≤ 30 ∧ c = (2 ^ k : Nat)) ∨ c = -2 ^ 31 ∨ c = 0

theorem Capacity.double {c : Int} (hc : Capacity c) : Capacity (int32 (c * 2)) := by
  rcases hc with ⟨k, hk, rfl⟩ | rfl | rfl
  · rcases Nat.lt_or_eq_of_le hk with hk | rfl
    · exact .inl ⟨k + 1, hk, int32_double hk⟩
    · exact .inr (.inl (by decide))
  · exact .inr (.inr (by decide))
  · exact .inr (.inr (by decide))

theorem doubling_endless {need c : Int} (hneed : 2 ^ 30 ≤ need) (hc : Capacity c) (f : Bool) (n : Nat) :
    doubling need n (c, f) = none := by
  refine loop_endless (I := fun s => Capacity s.1) (fun s hs => hs.double) ?_ hc n
  rintro ⟨c, f⟩ (⟨k, hk, rfl⟩ | rfl | rfl)
  · have hpow : 2 ^ k ≤ 2 ^ 30 := Nat.pow_le_pow_right (by decide) hk
    simp only [decide_eq_true_eq]
    omega
  · simp only [decide_eq_true_eq]
    omega
  · simp only [decide_eq_true_eq]
    omega

/-! ## one block -/

theorem memcpy_nul {a bs buf : List Byte} (hbs : a.take bs.length = bs)
    (hroom : bs.length + buf.length < a.length) :
    ((memcpy a bs.length buf).set (bs.length + buf.length) 0).length = a.length ∧
    ((memcpy a bs.length buf).set (bs.length + buf.length) 0).take (bs ++ buf).length = bs ++ buf ∧
    ((memcpy a bs.length buf).set (bs.length + buf.length) 0)[(bs ++ buf).length]? = some 0 := by
  have hlen : (memcpy a bs.length buf).length = a.length := memcpy_length (by omega)
  refine ⟨?_, ?_, ?_⟩
  · rw [List.length_set, hlen]
  · rw [List.length_append, List.take_set_of_le (Nat.le_refl _)]
    unfold memcpy
    rw [hbs, ← List.length_append, List.take_left]
  · rw [List.length_append, List.getElem?_set_self (by omega)]

theorem Doubled.array {b : GrowBuffer} {bs : List Byte} (hb : b.Doubled bs) (junk : Nat → Byte) {j : Nat}
    {f : Bool} (hfit : bs.length ≤ 2 ^ j) (hflag : f = true ∨ b.capacity = (2 ^ j : Nat) ∧ f = false) :
    ∃ a : List Byte,
      (if f then memcpy (newChar (2 ^ j : Nat) junk) 0 (b.buffer.take bs.length) else b.buffer) = a ∧
      a.length = 2 ^ j ∧ a.take bs.length = bs := by
  rw [hb.bytes]
  refine ⟨_, rfl, ?_⟩
  rcases hflag with rfl | ⟨hcap, rfl⟩
  · have hnew : (newChar (2 ^ j : Nat) junk).length = 2 ^ j := by
      rw [newChar_length, Int.toNat_natCast]
    rw [if_pos rfl, memcpy_length (by omega), hnew, memcpy_take_self]
    exact ⟨rfl, rfl⟩
  · have hold := hb.length
    rw [if_neg Bool.false_ne_true]
    exact ⟨by omega, hb.bytes⟩

/-- **A block with which 2^30 bytes are not reached is added.** -/
theorem Doubled.add {b : GrowBuffer} {bs buf : List Byte} (hb : b.Doubled bs)
    (hlen : bs.length + buf.length < 2 ^ 30) (junk : Nat → Byte) {n : Nat} (hn : 30 ≤ n) :
    ∃ b', b.add n buf junk = some b' ∧ b'.Doubled (bs ++ buf) ∧ b'.Grown (bs ++ buf) := by
  obtain ⟨k, hk, hcap⟩ := hb.capacity
  have hneed : int32 (buf.length + b.size) = buf.length + bs.length := by
    rw [hb.size]
    exact int32_of_fits (by omega) (by omega)
  have hsize : int32 (b.size + buf.length) = bs.length + buf.length := by
    rw [hb.size]
    exact int32_of_fits (by omega) (by omega)
  have htoNat : b.size.toNat = bs.length := by
    rw [hb.size, Int.toNat_natCast]
  have hlt : (buf.length + bs.length : Int) < 2 ^ 30 := by omega
  obtain ⟨j, f, hloop, hj, hfit, hflag⟩ :=
    doubling_done hlt (Nat.add_sub_of_le hk) (show 30 - k ≤ n by omega) false
  obtain ⟨a, ha, halen, hbytes⟩ := hb.array junk (by omega)
    (hflag.imp_right fun h => ⟨h.1 ▸ hcap, h.2⟩)
  obtain ⟨hlength, hbytes, hnul⟩ := memcpy_nul hbytes (show bs.length + buf.length < a.length by omega)
  have hroom : ((bs.length : Int) + buf.length) < (2 ^ j : Nat) := by omega
  have hsum : ((bs.length : Int) + buf.length) = ((bs ++ buf).length : Int) := by
    rw [List.length_append, Int.natCast_add]
  refine ⟨⟨(memcpy a bs.length buf).set (bs.length + buf.length) 0, bs.length + buf.length,
    (2 ^ j : Nat)⟩, ?_, ?_, ?_⟩
  · unfold GrowBuffer.add
    rw [hneed, hcap, hloop, hsize, Option.map_some, htoNat]
    dsimp only
    rw [ha, ← Int.natCast_add, Int.toNat_natCast]
  · refine ⟨⟨j, hj, rfl⟩, ?_, hroom, hsum, hbytes⟩
    show ((List.length _ : Nat) : Int) = _
    rw [hlength, halen]
  · exact ⟨Int.natCast_pos.mpr (Nat.two_pow_pos j), hroom, hsum, hbytes, hnul⟩

/-- **The call with which 2^30 bytes are reached does not end.** -/
theorem Doubled.add_endless {b : GrowBuffer} {bs buf : List Byte} (hb : b.Doubled bs)
    (hlen : 2 ^ 30 ≤ bs.length + buf.length) (hint : bs.length + buf.length < 2 ^ 31)
    (junk : Nat → Byte) (n : Nat) : b.add n buf junk = none := by
  have hneed : int32 (buf.length + b.size) = buf.length + bs.length := by
    rw [hb.size]
    exact int32_of_fits (by omega) (by omega)
  unfold GrowBuffer.add
  rw [hneed, doubling_endless (by omega) (.inl hb.capacity), Option.map_none]

/-- the result does not depend on the rounds that are allowed -/
theorem add_unique {b b1 b2 : GrowBuffer} {buf : List Byte} {junk : Nat → Byte} {n m : Nat}
    (h1 : b.add n buf junk = some b1) (h2 : b.add m buf junk = some b2) : b1 = b2 := by
  obtain ⟨s1, hs1, rfl⟩ := Option.map_eq_some_iff.mp h1
  obtain ⟨s2, hs2, rfl⟩ := Option.map_eq_some_iff.mp h2
  rw [loop_unique hs1 hs2]

theorem Doubled.init (junk : Nat → Byte) : (GrowBuffer.init junk).Doubled [] where
  capacity := ⟨12, by decide, rfl⟩
  length := by
    unfold GrowBuffer.init
    rw [newChar_length]
    exact Int.toNat_of_nonneg (by decide)
  room := show (0 : Int) < MAX_RESPONED_BUFFER by decide
  size := rfl
  bytes := rfl

theorem Grown.init_iff (junk : Nat → Byte) : (GrowBuffer.init junk).Grown [] ↔ junk 0 = 0 := by
  have hfirst : (GrowBuffer.init junk).buffer[([] : List Byte).length]? = some (junk 0) := by
    unfold GrowBuffer.init newChar
    rw [List.getElem?_map, List.length_nil, List.getElem?_range (by decide), Option.map_some]
  constructor
  · intro h
    exact Option.some.inj (hfirst.symm.trans h.nul)
  · intro h
    have hpos : 0 < MAX_RESPONED_BUFFER := by decide
    exact ⟨hpos, hpos, rfl, rfl, hfirst.trans (congrArg some h)⟩

end GrowBuffer

/-! ## the requests -/

structure HttpRequest where
  /-- `mpRespondBuffer`, `miCurrentSize` and `miCurrentCapacity` -/
  respond : GrowBuffer
  /-- `mpRequestBuffer`, `miRequestCurrentSize` and `miRequestCurrentCapacity` -/
  request : GrowBuffer
  miRequestCurrentSend : Int

namespace HttpRequest

def InitRespondBuffer (r : HttpRequest) (junk : Nat → Byte) : HttpRequest :=
  { r with respond := .init junk }

/-- with `size = |buf|` -/
def AddRespondBuffer (n : Nat) (r : HttpRequest) (buf : List Byte) (junk : Nat → Byte) :
    Option HttpRequest :=
  (r.respond.add n buf junk).map fun b => { r with respond := b }

def InitRequestBuffer (r : HttpRequest) (junk : Nat → Byte) : HttpRequest :=
  { r with request := .init junk, miRequestCurrentSend := 0 }

/-- nothing is done for an empty block -/
def AddRequestBuffer (n : Nat) (r : HttpRequest) (buf : List Byte) (junk : Nat → Byte) :
    Option HttpRequest :=
  if 0 < buf.length then (r.request.add n buf junk).map fun b => { r with request := b }
  else some r

end HttpRequest

inductive Kind where
  | respond
  | request

namespace Kind

def buffer : Kind → HttpRequest → GrowBuffer
  | .respond, r => r.respond
  | .request, r => r.request

def Init : Kind → HttpRequest → (Nat → Byte) → HttpRequest
  | .respond => HttpRequest.InitRespondBuffer
  | .request => HttpRequest.InitRequestBuffer

def Add : Kind → Nat → HttpRequest → List Byte → (Nat → Byte) → Option HttpRequest
  | .respond => HttpRequest.AddRespondBuffer
  | .request => HttpRequest.AddRequestBuffer

end Kind

theorem Kind.add_unique {kind : Kind} {r r1 r2 : HttpRequest} {buf : List Byte} {junk : Nat → Byte}
    {n m : Nat} (h1 : kind.Add n r buf junk = some r1) (h2 : kind.Add m r buf junk = some r2) :
    r1 = r2 := by
  cases kind with
  | respond =>
    obtain ⟨b1, hb1, rfl⟩ := Option.map_eq_some_iff.mp h1
    obtain ⟨b2, hb2, rfl⟩ := Option.map_eq_some_iff.mp h2
    rw [GrowBuffer.add_unique hb1 hb2]
  | request =>
    change (if 0 < buf.length then _ else _) = _ at h1 h2
    split at h1
    · next hpos =>
      rw [if_pos hpos] at h2
      obtain ⟨b1, hb1, rfl⟩ := Option.map_eq_some_iff.mp h1
      obtain ⟨b2, hb2, rfl⟩ := Option.map_eq_some_iff.mp h2
      rw [GrowBuffer.add_unique hb1 hb2]
    · next hpos =>
      rw [if_neg hpos] at h2
      exact Option.some.inj (h1.symm.trans h2)

/-- a block, and what `new` finds in the memory -/
structure Block where
  buf : List Byte
  junk : Nat → Byte

/-- a request and the bytes of the blocks added to it -/
structure Adding where
  request : HttpRequest
  added : List Byte

namespace Kind

/-- one call; behind 32 rounds a capacity is 0 for ever -/
def step (kind : Kind) (s : Adding) (block : Block) : Option Adding :=
  (kind.Add 32 s.request block.buf block.junk).map (⟨·, s.added ++ block.buf⟩)

def Grows (kind : Kind) (s : Adding) (block : Block) : Prop :=
  ∃ n r, kind.Add n s.request block.buf block.junk = some r ∧
    (kind.buffer r).Grown (s.added ++ block.buf)

/-- the bytes are in an array whose capacity has been doubled -/
def Kept (kind : Kind) (s : Adding) : Prop := (kind.buffer s.request).Doubled s.added

/-- **The call with which 2^30 bytes are reached does not end**, whatever the number of rounds. -/
theorem Kept.endless {kind : Kind} {s : Adding} (hs : kind.Kept s) (block : Block)
    (hlen : 2 ^ 30 ≤ s.added.length + block.buf.length)
    (hint : s.added.length + block.buf.length < 2 ^ 31) (n : Nat) :
    kind.Add n s.request block.buf block.junk = none := by
  have hloop := hs.add_endless hlen hint block.junk n
  cases kind with
  | respond =>
    show (s.request.respond.add n block.buf block.junk).map _ = none
    rw [show s.request.respond.add n block.buf block.junk = none from hloop, Option.map_none]
  | request =>
    have hne : 0 < block.buf.length := by
      obtain ⟨k, hk, hcap⟩ := hs.capacity
      have hpow : 2 ^ k ≤ 2 ^ 30 := Nat.pow_le_pow_right (by decide) hk
      have hroom := hs.room
      rw [hs.size, hcap] at hroom
      omega
    show (if 0 < block.buf.length then _ else _) = none
    rw [if_pos hne, show s.request.request.add n block.buf block.junk = none from hloop,
      Option.map_none]

/-- **A block with which 2^30 bytes are not reached is added.** -/
theorem Kept.step {kind : Kind} {s : Adding} (hs : kind.Kept s) {block : Block}
    (hlen : s.added.length + block.buf.length < 2 ^ 30) :
    ∃ r, kind.Add 32 s.request block.buf block.junk = some r ∧
      (kind.buffer r).Doubled (s.added ++ block.buf) ∧
        ((kind = .request → block.buf = [] → (kind.buffer s.request).Grown s.added) ↔
          (kind.buffer r).Grown (s.added ++ block.buf)) := by
  obtain ⟨b, hadd, hdoubled, hgrown⟩ := hs.add hlen block.junk (show 30 ≤ 32 by decide)
  cases kind with
  | respond =>
    refine ⟨{ s.request with respond := b }, ?_, hdoubled, iff_of_true nofun hgrown⟩
    show (s.request.respond.add 32 block.buf block.junk).map _ = _
    rw [show s.request.respond.add 32 block.buf block.junk = some b from hadd, Option.map_some]
  | request =>
    by_cases hnil : block.buf = []
    · rw [hnil, List.append_nil]
      exact ⟨s.request, rfl, hs, fun h => h rfl rfl, fun h _ _ => h⟩
    · refine ⟨{ s.request with request := b }, ?_, hdoubled,
        iff_of_true (fun _ h => absurd h hnil) hgrown⟩
      show (if 0 < block.buf.length then _ else _) = _
      rw [if_pos (List.length_pos_iff.mpr hnil),
        show s.request.request.add 32 block.buf block.junk = some b from hadd, Option.map_some]

end Kind

def total (blocks : List Block) : Nat := (blocks.map (·.buf.length)).sum

theorem Kind.Kept.runOk_iff {kind : Kind} {s : Adding} (hs : kind.Kept s) {blocks : List Block}
    (hint : s.added.length + total blocks < 2 ^ 31 - 1) :
    RunOk kind.step kind.Grows s blocks ↔ s.added.length + total blocks < 2 ^ 30 ∧
      (kind = .request → ∀ block ∈ blocks.head?, block.buf = [] →
        (kind.buffer s.request).Grown s.added) := by
  induction blocks generalizing s with
  | nil =>
    obtain ⟨k, hk, hcap⟩ := hs.capacity
    have hpow : 2 ^ k ≤ 2 ^ 30 := Nat.pow_le_pow_right (by decide) hk
    have hroom := hs.room
    rw [hs.size, hcap] at hroom
    refine iff_of_true trivial ⟨?_, fun _ block h => absurd h (by simp)⟩
    show s.added.length + 0 < 2 ^ 30
    omega
  | cons block blocks ih =>
    have htotal : total (block :: blocks) = block.buf.length + total blocks := List.sum_cons
    rw [htotal] at hint ⊢
    show kind.Grows s block ∧ _ ↔ _
    by_cases hlen : s.added.length + block.buf.length < 2 ^ 30
    · obtain ⟨r, hadd, hdoubled, hgrown⟩ := hs.step hlen
      have hstep : kind.step s block = some ⟨r, s.added ++ block.buf⟩ := by
        unfold Kind.step
        rw [hadd, Option.map_some]
      have hgrows : kind.Grows s block ↔ (kind.buffer r).Grown (s.added ++ block.buf) := by
        constructor
        · rintro ⟨n, r', hadd', h⟩
          rwa [Kind.add_unique hadd hadd']
        · exact fun h => ⟨32, r, hadd, h⟩
      have hrest := ih (s := ⟨r, s.added ++ block.buf⟩) hdoubled
        (by rw [List.length_append]; omega)
      rw [List.length_append, Nat.add_assoc] at hrest
      simp only [List.head?_cons, Option.mem_some_iff, forall_eq']
      rw [hgrown, hgrows, and_comm]
      refine and_congr_left fun h => ?_
      rw [hstep]
      simp only [Option.some.injEq, forall_eq']
      rw [hrest, and_iff_left fun _ _ _ _ => h]
    · refine iff_of_false ?_ fun h => by omega
      rintro ⟨⟨n, r, hadd, -⟩, -⟩
      rw [hs.endless block (by omega) (by omega)] at hadd
      cases hadd

theorem Kind.kept_init (kind : Kind) (r : HttpRequest) (junk : Nat → Byte) :
    kind.Kept ⟨kind.Init r junk, []⟩ := by
  cases kind with
  | respond => exact .init junk
  | request => exact .init junk

/-- **Every call ends and leaves all bytes and a NUL in an array that is larger, just when** the blocks
are less than 2^30 bytes, and the first block of a body to be sent is not empty, or the memory for it
starts with a NUL. -/
theorem grown_iff (kind : Kind) (r : HttpRequest) (junk : Nat → Byte) (blocks : List Block)
    (hint : total blocks < 2 ^ 31 - 1) :
    RunOk kind.step kind.Grows ⟨kind.Init r junk, []⟩ blocks ↔ total blocks < 2 ^ 30 ∧
      (kind = .request → ∀ block ∈ blocks.head?, block.buf = [] → junk 0 = 0) := by
  have hsum : ([] : List Byte).length + total blocks < 2 ^ 31 - 1 := by
    rwa [List.length_nil, Nat.zero_add]
  have hrun := (kind.kept_init r junk).runOk_iff hsum
  have hgrown : kind = .request → ((kind.buffer (kind.Init r junk)).Grown [] ↔ junk 0 = 0) := by
    rintro rfl
    exact GrowBuffer.Grown.init_iff junk
  rw [hrun, List.length_nil, Nat.zero_add]
  refine and_congr_right fun _ => forall_congr' fun hkind => ?_
  rw [hgrown hkind]

/-- a body to be sent in memory that was not cleared -/
def unsent : Adding := ⟨Kind.request.Init ⟨.init fun _ => 0, .init fun _ => 0, 0⟩ fun _ => 1, []⟩

def threeBlocks : List Block :=
  [⟨[65], fun _ => 1⟩, ⟨List.replicate 4096 66, fun _ => 1⟩, ⟨[67, 68], fun _ => 1⟩]

/-- the capacity is doubled for the second of three blocks -/
theorem grown_doubled : ∃ s, run Kind.request.step unsent threeBlocks = some s ∧
    s.request.request.capacity = 2 * MAX_RESPONED_BUFFER ∧
    RunOk Kind.request.step Kind.request.Grows unsent threeBlocks := by
  obtain ⟨s, hrun, hcapacity⟩ : ∃ s, run Kind.request.step unsent threeBlocks = some s ∧
      s.request.request.capacity = 2 * MAX_RESPONED_BUFFER := by
    decide +kernel
  have hfirst : ∀ block ∈ threeBlocks.head?, block.buf ≠ [] := by decide +kernel
  exact ⟨s, hrun, hcapacity, (grown_iff .request _ _ threeBlocks (by decide +kernel)).mpr
    ⟨by decide +kernel, fun _ block hblock hnil => absurd hnil (hfirst block hblock)⟩⟩

/-- **A body of 2^30 bytes** is never stored: the capacity becomes negative, then 0. -/
theorem not_grown : ¬ ∀ (kind : Kind) (r : HttpRequest) (junk : Nat → Byte) (blocks : List Block),
    total blocks < 2 ^ 31 - 1 → RunOk kind.step kind.Grows ⟨kind.Init r junk, []⟩ blocks := by
  intro hall
  obtain ⟨c, hc⟩ : ∃ c : List Byte, c.length = 2 ^ 30 := ⟨_, List.length_replicate (a := 65)⟩
  have htotal : total [⟨c, fun _ => 0⟩] = 2 ^ 30 := by
    show c.length + 0 = _
    rw [Nat.add_zero, hc]
  have hkept := Kind.respond.kept_init ⟨.init fun _ => 0, .init fun _ => 0, 0⟩ fun _ => 0
  obtain ⟨n, r, hadd, -⟩ := (hall .respond ⟨.init fun _ => 0, .init fun _ => 0, 0⟩ (fun _ => 0)
    [⟨c, fun _ => 0⟩] (by rw [htotal]; decide)).1
  rw [hkept.endless ⟨c, fun _ => 0⟩ (by rw [hc]; decide) (by rw [hc]; decide)] at hadd
  cases hadd

end VncProxy
