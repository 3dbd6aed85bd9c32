import Mathlib.Algebra.Order.Ring.Int
import Mathlib.Data.List.Basic
import Mathlib.Data.List.TakeDrop

/-!
# Bytes, little-endian words and `memcpy`

A memory block is the list of its bytes.

* `le32`, `ofLe32`   the four bytes of a 32-bit word in memory and the word read back;
* `int32`            the value of an `int` in 32 bits;
* `newChar`          an array that is not initialised;
* `memcpy dst i src` the block after `src` is copied to `dst + i`.
-/

namespace VncProxy

abbrev Byte := BitVec 8

/-- the bytes of a word in memory, least significant first -/
def le32 (w : BitVec 32) : List Byte :=
  [w.extractLsb' 0 8, w.extractLsb' 8 8, w.extractLsb' 16 8, w.extractLsb' 24 8]

/-- the word read from its four bytes -/
def ofLe32 (b0 b1 b2 b3 : Byte) : BitVec 32 := b3 ++ b2 ++ b1 ++ b0

theorem ofLe32_le32 (w : BitVec 32) :
    ofLe32 (w.extractLsb' 0 8) (w.extractLsb' 8 8) (w.extractLsb' 16 8) (w.extractLsb' 24 8)
      = w := by
  apply BitVec.eq_of_getLsbD_eq
  intro i hi
  unfold ofLe32
  rw [BitVec.getLsbD_append, BitVec.getLsbD_append, BitVec.getLsbD_append]
  simp only [BitVec.getLsbD_extractLsb']
  by_cases h0 : i < 8
  · simp [h0]
  by_cases h1 : i < 16
  · simp [h0, show i - 8 < 8 by omega, show 8 + (i - 8) = i by omega]
  by_cases h2 : i < 24
  · simp [h0, show ¬ i - 8 < 8 by omega, show i - 8 - 8 < 8 by omega,
      show 16 + (i - 8 - 8) = i by omega]
  · simp [h0, show ¬ i - 8 < 8 by omega, show ¬ i - 8 - 8 < 8 by omega,
      show 24 + (i - 8 - 8 - 8) = i by omega, show i - 8 - 8 - 8 < 8 by omega]

/-- the value in 32 bits -/
def int32 (x : Int) : Int := (BitVec.ofInt 32 x).toInt

theorem int32_of_fits {x : Int} (hlo : -2 ^ 31 ≤ x) (hhi : x < 2 ^ 31) : int32 x = x := by
  unfold int32
  rw [BitVec.toInt_ofInt]
  exact Int.bmod_eq_of_le (by omega) (by omega)

/-- `new char[n]`, with what is in the memory -/
def newChar (n : Int) (junk : Nat → Byte) : List Byte := (List.range n.toNat).map junk

theorem newChar_length (n : Int) (junk : Nat → Byte) : (newChar n junk).length = n.toNat := by
  unfold newChar
  rw [List.length_map, List.length_range]

/-- the block `dst` after `memcpy(dst + i, src, |src|)` -/
def memcpy (dst : List Byte) (i : Nat) (src : List Byte) : List Byte :=
  dst.take i ++ src ++ dst.drop (i + src.length)

theorem memcpy_length {dst src : List Byte} {i : Nat} (h : i + src.length ≤ dst.length) :
    (memcpy dst i src).length = dst.length := by
  simp only [memcpy, List.length_append, List.length_take, List.length_drop]
  omega

theorem memcpy_take_self (dst src : List Byte) :
    (memcpy dst 0 src).take src.length = src := by
  simp [memcpy]

theorem memcpy_drop {dst src : List Byte} {i k : Nat} (hi : i ≤ dst.length) (hk : i + src.length ≤ k) :
    (memcpy dst i src).drop k = dst.drop k := by
  have hlen : (dst.take i ++ src).length = i + src.length := by
    rw [List.length_append, List.length_take, Nat.min_eq_left hi]
  unfold memcpy
  rw [List.drop_append, List.drop_of_length_le (hlen.trans_le hk), List.nil_append, hlen,
    List.drop_drop, Nat.add_sub_cancel' hk]

theorem memcpy_drop_self {dst : List Byte} (src : List Byte) {i : Nat} (hi : i ≤ dst.length) :
    (memcpy dst i src).drop i = memcpy (dst.drop i) 0 src := by
  have hlen : (dst.take i).length = i := by rw [List.length_take, Nat.min_eq_left hi]
  unfold memcpy
  rw [List.append_assoc, List.drop_left' hlen, List.take_zero, List.nil_append, Nat.zero_add,
    List.drop_drop]

theorem memcpy_memcpy_take {dst a b : List Byte} (h : a.length + b.length ≤ dst.length) :
    (memcpy (memcpy dst 0 a) a.length b).take (a.length + b.length) = a ++ b := by
  have hl : (memcpy dst 0 a).length = dst.length := memcpy_length (by omega)
  show ((memcpy dst 0 a).take a.length ++ b ++ _).take (a.length + b.length) = a ++ b
  rw [memcpy_take_self, ← List.length_append, List.take_left]

end VncProxy
