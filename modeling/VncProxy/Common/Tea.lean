import Mathlib.Logic.Function.Iterate
import VncProxy.Lib.CString
import VncProxy.Lib.Memory

/-!
# `TeaEncode` and `TeaDecode`

* `Target`                    how long a `long` is;
* `encipher`, `decipher`      32 rounds on the two longs of a block;
* `TeaEncode`, `TeaDecode`    as in `Arithmetic`, on the memory at `p_out` and behind it;
* `decipherRound_undoes`      a round is undone, so all are when the sum is right;
* `goesBack_iff`              it is right for a block just when it is for all;
* `tea_iff`                   the round trip works just where a `long` has 32 bits.
-/

namespace VncProxy

/-- the data models of the compiler -/
inductive Target
  | ilp32
  | lp64
  deriving DecidableEq

/-- `sizeof(long)` -/
def Target.long : Target → Nat
  | .ilp32 => 4
  | .lp64 => 8

/-! ## the rounds -/

/-- the longs of `aKey` -/
structure TeaKey (w : Nat) where
  a : BitVec w
  b : BitVec w
  c : BitVec w
  d : BitVec w
  deriving DecidableEq

/-- the local variables of `encipher` and `decipher` -/
structure TeaState (w : Nat) where
  y : BitVec w
  z : BitVec w
  sum : BitVec w
  deriving DecidableEq

section

variable {w : Nat}

def cnDelta (w : Nat) : BitVec w := BitVec.ofNat w 0x9E3779B9

/-- `(x << 4) + p ^ x + sum ^ (x >> 5) + q`, where `+` binds tighter than `^` -/
def mix (p q sum x : BitVec w) : BitVec w :=
  ((x <<< 4) + p) ^^^ (x + sum) ^^^ (x.sshiftRight 5 + q)

def encipherRound (key : TeaKey w) (s : TeaState w) : TeaState w :=
  let sum := s.sum + cnDelta w
  let y := s.y + mix key.a key.b sum s.z
  let z := s.z + mix key.c key.d sum y
  { y := y, z := z, sum := sum }

def decipherRound (key : TeaKey w) (s : TeaState w) : TeaState w :=
  let z := s.z - mix key.c key.d s.sum s.y
  let y := s.y - mix key.a key.b s.sum z
  { y := y, z := z, sum := s.sum - cnDelta w }

/-- what `encipher` makes of the longs of a block -/
def encipherLongs (key : TeaKey w) (v : BitVec w × BitVec w) : BitVec w × BitVec w :=
  let s := (encipherRound key)^[32] { y := v.1, z := v.2, sum := 0 }
  (s.y, s.z)

def decipherLongs (key : TeaKey w) (v : BitVec w × BitVec w) : BitVec w × BitVec w :=
  let s := (decipherRound key)^[32] { y := v.1, z := v.2, sum := BitVec.ofNat w 0xC6EF3720 }
  (s.y, s.z)

end

/-! ## the functions of `Arithmetic` -/

/-- the longs at `aKey` -/
def readKey (n : Nat) (aKey : Mem) : TeaKey (8 * n) where
  a := load aKey 0 n
  b := load aKey n n
  c := load aKey (2 * n) n
  d := load aKey (3 * n) n

def encipher (t : Target) (aKey m : Mem) (i : Nat) : Mem :=
  modify t.long (encipherLongs (readKey t.long aKey)) m i

def decipher (t : Target) (aKey m : Mem) (i : Nat) : Mem :=
  modify t.long (decipherLongs (readKey t.long aKey)) m i

/-- `f` for `i = 0`, `8`, .. below `len` -/
def forEach8 (f : Mem → Nat → Mem) (len : Nat) (m : Mem) : Mem :=
  (List.range ((len + 7) / 8)).foldl (fun m i => f m (8 * i)) m

/-- the array `key` and the memory behind it -/
def keyArray (p_key : List Byte) (behind : Mem) : Mem := fun i =>
  if i < 16 then ((cstr p_key).take 16).getD i 0 else behind i

/-- the bytes that `memcpy` and `memset` write -/
def padded (data : List Byte) : List Byte :=
  data ++ List.replicate (if data.length % 8 ≠ 0 then 8 - data.length % 8 else 0) 0

/-- `TeaEncode`: the value it returns and the memory at `p_out`; `none` is `NULL` -/
def TeaEncode (t : Target) (behind : Mem) (p_in : Option (List Byte)) (p_key : List Byte)
    (p_out : Option Mem) : Int × Option Mem :=
  match p_in with
  | none => (-1, p_out)
  | some data =>
    if data.length = 0 then (-1, p_out)
    else
      let i_out_len := (padded data).length
      (i_out_len, p_out.map fun m =>
        forEach8 (encipher t (keyArray p_key behind)) i_out_len (copy m (padded data)))

def TeaDecode (t : Target) (behind : Mem) (p_in : Option (List Byte)) (p_key : List Byte)
    (p_out : Option Mem) : Int × Option Mem :=
  match p_in with
  | none => (-1, p_out)
  | some data =>
    if data.length = 0 then (-1, p_out)
    else if data.length % 8 ≠ 0 then (-2, p_out)
    else
      (data.length, p_out.map fun m =>
        forEach8 (decipher t (keyArray p_key behind)) data.length (copy m data))

/-- the first round of `decipher` goes back behind the last one of `encipher` -/
def GoesBack {w : Nat} (key : TeaKey w) (v : BitVec w × BitVec w) : Prop :=
  let before := (encipherRound key)^[31] { y := v.1, z := v.2, sum := 0 }
  let u := encipherLongs key v
  let back := decipherRound key { y := u.1, z := u.2, sum := BitVec.ofNat w 0xC6EF3720 }
  back.y = before.y ∧ back.z = before.z

/-- `TeaDecode` gives the data and the zeros back, when `p_out'` is followed by what `TeaEncode` has left
behind its output -/
def RoundTrip (t : Target) : Prop :=
  ∀ (behind : Mem) (data p_key : List Byte) (p_out : Mem), data ≠ [] →
    ∃ m, TeaEncode t behind (some data) p_key (some p_out) =
        (((padded data).length : Int), some m) ∧
      ∀ p_out' : Mem, (∀ i, (padded data).length ≤ i → p_out' i = m i) →
        ∃ m', TeaDecode t behind (some (bytes m (padded data).length)) p_key (some p_out') =
            (((padded data).length : Int), some m') ∧
          bytes m' (padded data).length = padded data

def Undoes (t : Target) : Prop :=
  ∀ (aKey m : Mem) (i : Nat), decipher t aKey (encipher t aKey m i) i = m

/-! ## rounds are undone -/

section

variable {w : Nat} (key : TeaKey w)

/-- **A round is undone.** -/
theorem decipherRound_undoes (s : TeaState w) : decipherRound key (encipherRound key s) = s := by
  cases s with
  | mk y z sum =>
    simp only [decipherRound, encipherRound, BitVec.add_sub_cancel]

theorem rounds_undone (n : Nat) (s : TeaState w) :
    (decipherRound key)^[n] ((encipherRound key)^[n] s) = s :=
  Function.LeftInverse.iterate (decipherRound_undoes key) n s

theorem rounds_sum (n : Nat) (y z : BitVec w) :
    ((encipherRound key)^[n] { y := y, z := z, sum := 0 }).sum = BitVec.ofNat w (n * 0x9E3779B9) := by
  induction n with
  | zero =>
    rw [Nat.zero_mul]
    rfl
  | succ n ih =>
    rw [Function.iterate_succ_apply', Nat.succ_mul, BitVec.ofNat_add, ← ih]
    rfl

/-- **The first round goes back, just when** `decipher` starts with the sum that `encipher` ends with. -/
theorem goesBack_iff (v : BitVec w × BitVec w) :
    GoesBack key v ↔ BitVec.ofNat w 0xC6EF3720 = BitVec.ofNat w (32 * 0x9E3779B9) := by
  obtain ⟨s, hs⟩ : ∃ s, s = (encipherRound key)^[31] { y := v.1, z := v.2, sum := 0 } := ⟨_, rfl⟩
  have hlast : (encipherRound key)^[32] { y := v.1, z := v.2, sum := 0 } = encipherRound key s := by
    rw [Function.iterate_succ_apply', hs]
  have hend : (encipherRound key s).sum = BitVec.ofNat w (32 * 0x9E3779B9) := by
    rw [← hlast]
    exact rounds_sum key 32 v.1 v.2
  have hundo := decipherRound_undoes key s
  unfold GoesBack encipherLongs
  dsimp only
  rw [hlast, ← hs]
  constructor
  · rintro ⟨-, hz⟩
    -- the two sums stand in the same place of `mix`
    have hmix := (BitVec.sub_right_inj _).mp (hz.trans (congrArg TeaState.z hundo).symm)
    have hxor := (BitVec.xor_right_inj _).mp ((BitVec.xor_left_inj _).mp hmix)
    exact ((BitVec.add_right_inj _).mp hxor).trans hend
  · intro hsum
    rw [hsum, ← hend]
    exact ⟨congrArg TeaState.y hundo, congrArg TeaState.z hundo⟩

/-- **All are undone, when** `decipher` starts with the sum that `encipher` ends with. -/
theorem decipherLongs_encipherLongs
    (hsum : BitVec.ofNat w 0xC6EF3720 = BitVec.ofNat w (32 * 0x9E3779B9)) (v : BitVec w × BitVec w) :
    decipherLongs key (encipherLongs key v) = v := by
  have hback := rounds_undone key 32 { y := v.1, z := v.2, sum := 0 }
  have hend := rounds_sum key 32 v.1 v.2
  unfold decipherLongs encipherLongs
  dsimp only
  rw [hsum, ← hend, hback]

end

/-! ## 32 bits -/

theorem ilp32_undoes : Undoes .ilp32 := by
  intro aKey m i
  unfold decipher encipher
  rw [modify_modify]
  refine modify_self (fun v => decipherLongs_encipherLongs _ ?_ v) m i
  decide

/-- blocks at other places -/
theorem ilp32_comm (aKey m : Mem) {i j : Nat} (h : i ≠ j) :
    decipher .ilp32 aKey (encipher .ilp32 aKey m (8 * i)) (8 * j) =
      encipher .ilp32 aKey (decipher .ilp32 aKey m (8 * j)) (8 * i) := by
  have hlong : Target.ilp32.long = 4 := rfl
  exact modify_comm (by omega)

theorem ilp32_forEach8 (aKey m : Mem) (len : Nat) :
    forEach8 (decipher .ilp32 aKey) len (forEach8 (encipher .ilp32 aKey) len m) = m :=
  foldl_undo (fun s i => ilp32_undoes aKey s (8 * i)) (fun s _ _ h => ilp32_comm aKey s h) _ m

theorem padded_length (data : List Byte) :
    (padded data).length % 8 = 0 ∧ data.length ≤ (padded data).length := by
  unfold padded
  rw [List.length_append, List.length_replicate]
  split
  · omega
  · omega

theorem teaDecode_bytes (t : Target) (behind : Mem) (p_key : List Byte) {m p_out : Mem} {n : Nat}
    (hpos : n ≠ 0) (hblocks : n % 8 = 0) (hbehind : ∀ i, n ≤ i → p_out i = m i) :
    TeaDecode t behind (some (bytes m n)) p_key (some p_out) =
      ((n : Int), some (forEach8 (decipher t (keyArray p_key behind)) n m)) := by
  unfold TeaDecode
  dsimp only
  rw [bytes_length, if_neg hpos, if_neg (not_not.mpr hblocks), Option.map_some, copy_bytes hbehind]

theorem teaEncode_data (t : Target) (behind : Mem) {data : List Byte} (p_key : List Byte) (p_out : Mem)
    (hne : data ≠ []) :
    TeaEncode t behind (some data) p_key (some p_out) =
      (((padded data).length : Int), some (forEach8 (encipher t (keyArray p_key behind))
        (padded data).length (copy p_out (padded data)))) := by
  have hlen : ¬ data.length = 0 := by rwa [List.length_eq_zero_iff]
  unfold TeaEncode
  dsimp only
  rw [if_neg hlen, Option.map_some]

theorem ilp32_roundTrip : RoundTrip .ilp32 := by
  intro behind data p_key p_out hne
  obtain ⟨hblocks, hle⟩ := padded_length data
  have hpos := List.length_pos_iff.mpr hne
  refine ⟨_, teaEncode_data .ilp32 behind p_key p_out hne, fun p_out' hbehind => ?_⟩
  refine ⟨_, teaDecode_bytes .ilp32 behind p_key (by omega) hblocks hbehind, ?_⟩
  rw [ilp32_forEach8, bytes_copy]

/-! ## 64 bits -/

def zeros : Mem := fun _ => 0

def zeroKey : TeaKey 64 := { a := 0, b := 0, c := 0, d := 0 }

theorem lp64_zeros {aKey : Mem} (hkey : readKey 8 aKey = zeroKey) :
    load (decipher .lp64 aKey (encipher .lp64 aKey zeros 0) 0) 0 8 ≠ 0 := by
  have hzeros : (load zeros 0 8, load zeros (0 + 8) 8) = ((0, 0) : BitVec 64 × BitVec 64) := by
    decide +kernel
  have hvalue : (decipherLongs zeroKey (encipherLongs zeroKey (0, 0))).1 ≠ 0 := by
    decide +kernel
  have hlong : Target.lp64.long = 8 := rfl
  have hload := load_modify (n := 8) (f := fun v => decipherLongs zeroKey (encipherLongs zeroKey v)) zeros 0
  rw [hzeros] at hload
  unfold decipher encipher
  rw [hlong, modify_modify, hkey]
  exact (congrArg Prod.fst hload).trans_ne hvalue

theorem lp64_not_undoes : ¬ Undoes .lp64 := by
  intro hall
  have hkey : readKey 8 zeros = zeroKey := by
    decide +kernel
  refine lp64_zeros hkey ?_
  rw [hall zeros zeros 0]
  decide +kernel

theorem lp64_not_roundTrip : ¬ RoundTrip .lp64 := by
  intro hall
  have hkey : readKey 8 (keyArray [] zeros) = zeroKey := by
    decide +kernel
  have hpadded : padded [0] = bytes zeros 8 := by
    decide
  have hone : ∀ (f : Mem → Nat → Mem) (m : Mem), forEach8 f 8 m = f m 0 := fun _ _ => rfl
  have hblock := hall zeros [0] [] zeros (List.cons_ne_nil 0 [])
  rw [teaEncode_data _ _ _ _ (List.cons_ne_nil 0 []), hpadded, bytes_length, hone,
    copy_bytes fun _ _ => rfl] at hblock
  obtain ⟨m, henc, hdec⟩ := hblock
  obtain ⟨m', hdec, hback⟩ := hdec m fun _ _ => rfl
  rw [teaDecode_bytes _ _ _ (by decide) (by decide) fun _ _ => rfl, hone] at hdec
  obtain rfl := Option.some.inj (congrArg Prod.snd henc)
  obtain rfl := Option.some.inj (congrArg Prod.snd hdec)
  refine lp64_zeros hkey ?_
  rw [load_congr fun x _ hx => bytes_eq.mp hback x (by omega)]
  decide +kernel

/-- **The round trip works just where a `long` has 32 bits**, and there whatever is in the memory; elsewhere
no block is spared, as the first round of `decipher` goes astray on each. -/
theorem tea_iff (t : Target) :
    (RoundTrip t ↔ t = .ilp32) ∧ (Undoes t ↔ t = .ilp32) ∧
      ∀ (key : TeaKey (8 * t.long)) (v : BitVec (8 * t.long) × BitVec (8 * t.long)),
        GoesBack key v ↔ t = .ilp32 := by
  cases t with
  | ilp32 =>
    refine ⟨iff_of_true ilp32_roundTrip rfl, iff_of_true ilp32_undoes rfl, fun key v => ?_⟩
    rw [goesBack_iff]
    decide
  | lp64 =>
    refine ⟨iff_of_false lp64_not_roundTrip nofun, iff_of_false lp64_not_undoes nofun, fun key v => ?_⟩
    rw [goesBack_iff]
    decide

/-- **Where a `long` has 64 bits** neither the data nor a block come back. -/
theorem not_tea : ¬ RoundTrip .lp64 ∧ ¬ Undoes .lp64 := ⟨lp64_not_roundTrip, lp64_not_undoes⟩

end VncProxy
