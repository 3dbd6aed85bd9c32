import Mathlib.Logic.Function.Iterate
import VncProxy.Lib.Bytes

/-!
# Reflected cyclic redundancy checks

The remainder of a polynomial division, with the bits of each byte in the order least significant first.

* `crcBit p x`        one step of the division by `p`;
* `crcByte p x b`     the eight steps for a byte;
* `crcBit_xor`        the steps are linear;
* `crcBits_high`      they only shift where the low bits are zeros;
* `crcByte_eq`        so a byte needs one look into a table of 256 remainders.
-/

namespace VncProxy

section

variable {w : Nat} (p : BitVec w)

def crcBit (x : BitVec w) : BitVec w :=
  if x.getLsbD 0 then (x >>> 1) ^^^ p else x >>> 1

def crcByte (x : BitVec w) (b : Byte) : BitVec w := (crcBit p)^[8] (x ^^^ b.setWidth w)

theorem crcBit_xor (x y : BitVec w) : crcBit p (x ^^^ y) = crcBit p x ^^^ crcBit p y := by
  unfold crcBit
  rw [BitVec.getLsbD_xor, BitVec.ushiftRight_xor_distrib]
  cases hx : x.getLsbD 0 with
  | false =>
    cases hy : y.getLsbD 0 with
    | false => rfl
    | true =>
      simp only [Bool.false_xor, ite_true, Bool.false_eq_true, ite_false]
      exact BitVec.xor_assoc ..
  | true =>
    cases hy : y.getLsbD 0 with
    | false =>
      simp only [Bool.xor_false, ite_true, Bool.false_eq_true, ite_false]
      ac_rfl
    | true =>
      have hcancel : p ^^^ p = 0#w := BitVec.xor_self
      simp only [Bool.xor_self, Bool.false_eq_true, ite_false, ite_true]
      calc x >>> 1 ^^^ y >>> 1 = x >>> 1 ^^^ y >>> 1 ^^^ (p ^^^ p) := by rw [hcancel, BitVec.xor_zero]
        _ = x >>> 1 ^^^ p ^^^ (y >>> 1 ^^^ p) := by ac_rfl

theorem crcBits_xor (n : Nat) (x y : BitVec w) :
    (crcBit p)^[n] (x ^^^ y) = (crcBit p)^[n] x ^^^ (crcBit p)^[n] y := by
  induction n generalizing x y with
  | zero => rfl
  | succ n ih =>
    rw [Function.iterate_succ_apply, Function.iterate_succ_apply, Function.iterate_succ_apply,
      crcBit_xor, ih]

theorem crcBits_high {n : Nat} {x : BitVec w} (hx : ∀ i < n, x.getLsbD i = false) :
    (crcBit p)^[n] x = x >>> n := by
  induction n with
  | zero => exact (BitVec.ushiftRight_zero x).symm
  | succ n ih =>
    have hlow : (x >>> n).getLsbD 0 = false := by
      rw [BitVec.getLsbD_ushiftRight, Nat.add_zero]
      exact hx n (Nat.lt_succ_self n)
    rw [Function.iterate_succ_apply', ih fun i hi => hx i (Nat.lt_succ_of_lt hi), crcBit, hlow,
      if_neg Bool.false_ne_true, BitVec.shiftRight_add]

theorem split_low (x : BitVec w) : x = (x.setWidth 8).setWidth w ^^^ ((x >>> 8) <<< 8) := by
  apply BitVec.eq_of_getLsbD_eq
  intro i hi
  rw [BitVec.getLsbD_xor, BitVec.getLsbD_setWidth, BitVec.getLsbD_setWidth, BitVec.getLsbD_shiftLeft,
    BitVec.getLsbD_ushiftRight]
  by_cases hlow : i < 8
  · simp [hlow, hi]
  · have hback : 8 + (i - 8) = i := by omega
    simp [hlow, hi, hback]

/-- **Eight steps** are those of the low byte, and a shift. -/
theorem crcBits_eight (x : BitVec w) :
    (crcBit p)^[8] x = (crcBit p)^[8] ((x.setWidth 8).setWidth w) ^^^ (x >>> 8) := by
  have hzeros : ∀ i < 8, ((x >>> 8) <<< 8).getLsbD i = false := by
    intro i hi
    rw [BitVec.getLsbD_shiftLeft]
    simp [hi]
  have hback : (x >>> 8) <<< 8 >>> 8 = x >>> 8 := by
    apply BitVec.eq_of_getLsbD_eq
    intro i _
    rw [BitVec.getLsbD_ushiftRight, BitVec.getLsbD_shiftLeft, Nat.add_sub_cancel_left,
      BitVec.getLsbD_ushiftRight]
    by_cases hin : 8 + i < w
    · simp [hin]
    · simp [hin, BitVec.getLsbD_of_ge x (8 + i) (by omega)]
  calc (crcBit p)^[8] x = (crcBit p)^[8] ((x.setWidth 8).setWidth w ^^^ ((x >>> 8) <<< 8)) := by
        rw [← split_low x]
    _ = (crcBit p)^[8] ((x.setWidth 8).setWidth w) ^^^ (x >>> 8) := by
        rw [crcBits_xor, crcBits_high p hzeros, hback]

/-- **A byte** by the table of the remainders of all bytes. -/
theorem crcByte_eq (x : BitVec w) (b : Byte) :
    crcByte p x b =
      (crcBit p)^[8] (((x ^^^ b.setWidth w).setWidth 8).setWidth w) ^^^ (x >>> 8) := by
  have hbyte : b.setWidth w >>> 8 = 0#w := by
    apply BitVec.eq_of_getLsbD_eq
    intro i _
    rw [BitVec.getLsbD_ushiftRight, BitVec.getLsbD_setWidth, BitVec.getLsbD_of_ge b (8 + i) (by omega),
      Bool.and_false, BitVec.getLsbD_zero]
  unfold crcByte
  rw [crcBits_eight, BitVec.ushiftRight_xor_distrib, hbyte, BitVec.xor_zero]

end

end VncProxy
