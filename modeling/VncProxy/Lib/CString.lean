import Mathlib.Data.List.Infix
import Mathlib.Data.List.TakeWhile
import VncProxy.Lib.Bytes

/-!
# Strings of the C and C++ libraries

A string is the list of its bytes, without the NUL.

* `find`                 `std::string::find`;
* `cstr`                 the string that starts in an array;
* `strtok`               the tokens of `strtok_r` for one delimiter;
* `isspace`, `isdigit`, `atoi`  the `C` locale;
* `snprintf`, `strcat`   the bytes they write;
* `find_append`, `find_take`, `find_take_none`   the first occurrence in a string and in its start;
* `cstr_snprintf`, `cstr_strcat`   the string that is in the array then.
-/

namespace VncProxy

/-- `s.find(t)` -/
def find (t : List Byte) : List Byte → Option Nat
  | [] => if t = [] then some 0 else none
  | b :: s => if t.isPrefixOf (b :: s) then some 0 else (find t s).map (· + 1)

/-- the C string that starts with these bytes of an array -/
def cstr (l : List Byte) : List Byte := l.takeWhile (· != 0)

/-- the tokens `strtok_r` returns one after the other for the delimiter `d` -/
def strtok (d : Byte) : List Byte → List (List Byte)
  | [] => []
  | b :: s =>
    if b = d then strtok d s
    else
      match s, strtok d s with
      | [], _ => [[b]]
      | c :: _, r => if c = d then [b] :: r else
        match r with
        | [] => [[b]]
        | w :: r => (b :: w) :: r

def isspace (b : Byte) : Bool := b = 32 || (9 ≤ b && b ≤ 13)

def isdigit (b : Byte) : Bool := 48 ≤ b && b ≤ 57

/-- the decimal number of a run of digits -/
def digits (l : List Byte) : Nat :=
  (l.takeWhile isdigit).foldl (fun n b => 10 * n + (b.toNat - 48)) 0

/-- `(int)strtol(s, NULL, 10)`: `strtol` stops at the bounds of `long` -/
def atoi (s : List Byte) : Int :=
  let n : Int :=
    match s.dropWhile isspace with
    | [] => 0
    | b :: r =>
      if b = 45 then max (-digits r) (-(2 ^ 63))
      else min (digits (if b = 43 then r else b :: r)) (2 ^ 63 - 1)
  (BitVec.ofInt 32 n).toInt

/-- the bytes of an ASCII string -/
def ascii (s : String) : List Byte := s.toList.map fun c => BitVec.ofNat 8 c.toNat

/-- what `snprintf(p, n, …)` and `vsnprintf` write to `p` when the formatted text is `text` -/
def snprintf (n : Nat) (text : List Byte) : List Byte :=
  if n = 0 then [] else text.take (n - 1) ++ [0]

/-- what `strcat(dst, src)` writes behind the string in `dst` -/
def strcat (src : List Byte) : List Byte := src ++ [0]

/-! ## the first occurrence -/

theorem isPrefixOf_append {t s : List Byte} (u : List Byte) (h : t.isPrefixOf s = true) :
    t.isPrefixOf (s ++ u) = true := by
  rw [List.isPrefixOf_iff_prefix] at h ⊢
  exact h.trans (List.prefix_append s u)

theorem find_cons (t : List Byte) (b : Byte) (s : List Byte) :
    find t (b :: s) = if t.isPrefixOf (b :: s) then some 0 else (find t s).map (· + 1) := rfl

theorem find_le {t s : List Byte} {k : Nat} (h : find t s = some k) : k + t.length ≤ s.length := by
  induction s generalizing k with
  | nil =>
    unfold find at h
    split at h
    · next ht =>
      cases h
      rw [ht]
      exact Nat.le_refl _
    · cases h
  | cons b s ih =>
    rw [find_cons] at h
    split at h
    · next ht =>
      obtain rfl := Option.some.inj h
      rw [Nat.zero_add]
      exact (List.isPrefixOf_iff_prefix.mp ht).length_le
    · obtain ⟨k', hk', rfl⟩ := Option.map_eq_some_iff.mp h
      have := ih hk'
      rw [List.length_cons]
      omega

theorem find_drop {t s : List Byte} {k : Nat} (h : find t s = some k) : t <+: s.drop k := by
  induction s generalizing k with
  | nil =>
    unfold find at h
    split at h
    · next ht =>
      rw [ht]
      exact List.nil_prefix
    · cases h
  | cons b s ih =>
    rw [find_cons] at h
    split at h
    · next hp =>
      obtain rfl := Option.some.inj h
      exact List.isPrefixOf_iff_prefix.mp hp
    · obtain ⟨k', hk', rfl⟩ := Option.map_eq_some_iff.mp h
      exact ih hk'

theorem find_start {t s : List Byte} (h : t <+: s) : find t s = some 0 := by
  cases s with
  | nil =>
    unfold find
    rw [if_pos (List.prefix_nil.mp h)]
  | cons b s => rw [find_cons, if_pos (List.isPrefixOf_iff_prefix.mpr h)]

theorem find_eq_none {t s : List Byte} : find t s = none ↔ ¬ t <:+: s := by
  induction s with
  | nil =>
    unfold find
    rw [List.infix_nil]
    split
    · next h => simp [h]
    · next h => simp [h]
  | cons b s ih =>
    rw [find_cons, List.infix_cons_iff, not_or, ← ih, ← List.isPrefixOf_iff_prefix]
    split
    · next h => simp [h]
    · next h => simp [h]

theorem find_append {t s : List Byte} {k : Nat} (u : List Byte) (ht : t ≠ []) (h : find t s = some k) :
    find t (s ++ u) = some k := by
  induction s generalizing k with
  | nil =>
    rw [find, if_neg ht] at h
    cases h
  | cons b s ih =>
    rw [find_cons] at h
    rw [List.cons_append, find_cons, ← List.cons_append]
    split at h
    · next hp => rw [if_pos (isPrefixOf_append u hp), h]
    · next hp =>
      obtain ⟨k', hk', rfl⟩ := Option.map_eq_some_iff.mp h
      have hlen : ¬ t.isPrefixOf ((b :: s) ++ u) = true := by
        intro hp'
        have hle := find_le hk'
        rw [List.isPrefixOf_iff_prefix] at hp' hp
        refine hp (List.prefix_of_prefix_length_le hp' (List.prefix_append _ _) ?_)
        rw [List.length_cons]
        omega
      rw [if_neg hlen, ih hk']
      rfl

theorem find_take {t s : List Byte} {k n : Nat} (ht : t ≠ []) (h : find t s = some k)
    (hn : k + t.length ≤ n) : find t (s.take n) = some k := by
  induction s generalizing k n with
  | nil =>
    rw [find, if_neg ht] at h
    cases h
  | cons b s ih =>
    obtain ⟨n, rfl⟩ : ∃ n', n = n' + 1 := by
      have := List.length_pos_iff.mpr ht
      exact ⟨n - 1, by omega⟩
    rw [find_cons] at h
    rw [List.take_succ_cons, find_cons, ← List.take_succ_cons]
    split at h
    · next hp =>
      obtain rfl := Option.some.inj h
      rw [if_pos]
      rw [List.isPrefixOf_iff_prefix] at hp ⊢
      exact List.prefix_take_iff.mpr ⟨hp, by omega⟩
    · next hp =>
      obtain ⟨k', hk', rfl⟩ := Option.map_eq_some_iff.mp h
      have hnp : ¬ t.isPrefixOf ((b :: s).take (n + 1)) = true := by
        intro hp'
        rw [List.isPrefixOf_iff_prefix] at hp' hp
        exact hp (hp'.trans (List.take_prefix _ _))
      rw [if_neg hnp, ih hk' (by omega)]
      rfl

theorem find_take_none {t s : List Byte} {k n : Nat} (ht : t ≠ []) (h : find t s = some k)
    (hn : n < k + t.length) : find t (s.take n) = none := by
  cases hf : find t (s.take n) with
  | none => rfl
  | some k' =>
    have h1 := find_append (s.drop n) ht hf
    rw [List.take_append_drop, h] at h1
    obtain rfl := Option.some.inj h1
    have h2 := find_le hf
    rw [List.length_take] at h2
    omega

theorem find_byte {b : Byte} {s : List Byte} (h : b ∉ s) (u : List Byte) :
    find [b] (s ++ b :: u) = some s.length := by
  induction s with
  | nil => exact find_start ⟨u, rfl⟩
  | cons c s ih =>
    rw [List.mem_cons, not_or] at h
    have hnot : ¬ [b].isPrefixOf (c :: (s ++ b :: u)) = true := by
      rw [List.isPrefixOf_iff_prefix]
      rintro ⟨v, hv⟩
      exact h.1 (List.cons.inj hv).1
    rw [List.cons_append, find_cons, if_neg hnot, ih h.2]
    rfl

/-- what has not the first byte of the pattern is passed over -/
theorem find_skip {b : Byte} (t : List Byte) {s : List Byte} (h : b ∉ s) (u : List Byte) :
    find (b :: t) (s ++ u) = (find (b :: t) u).map (· + s.length) := by
  induction s with
  | nil => exact Option.map_id'.symm
  | cons c s ih =>
    rw [List.mem_cons, not_or] at h
    have hnot : ¬ (b :: t).isPrefixOf (c :: (s ++ u)) = true := by
      rw [List.isPrefixOf_iff_prefix]
      exact fun hp => h.1 (List.cons_prefix_cons.mp hp).1
    rw [List.cons_append, find_cons, if_neg hnot, ih h.2, Option.map_map]
    rfl

/-! ## the string in an array -/

theorem cstr_take (s : List Byte) (n : Nat) : cstr (s.take n) = (cstr s).take n := by
  unfold cstr
  exact (List.take_takeWhile ..).symm

theorem cstr_le (s : List Byte) : cstr s <+: s := List.takeWhile_prefix _

theorem cstr_append_prefix (s u : List Byte) : cstr s <+: cstr (s ++ u) := by
  have h := cstr_take (s ++ u) s.length
  rw [List.take_left] at h
  rw [h]
  exact List.take_prefix _ _

theorem cstr_zeros (s : List Byte) (n : Nat) : cstr (s ++ List.replicate n 0) = cstr s := by
  induction s with
  | nil =>
    cases n with
    | zero => rfl
    | succ n => rfl
  | cons b s ih =>
    unfold cstr at ih ⊢
    rw [List.cons_append, List.takeWhile_cons, List.takeWhile_cons, ih]

theorem cstr_of_not_mem {s : List Byte} (h : (0 : Byte) ∉ s) : cstr s = s := by
  unfold cstr
  rw [List.takeWhile_eq_self_iff]
  intro b hb
  simp only [bne_iff_ne, ne_eq]
  rintro rfl
  exact h hb

theorem not_mem_cstr (s : List Byte) : (0 : Byte) ∉ cstr s := by
  intro h
  have := List.mem_takeWhile_imp h
  simp at this

/-- what is behind a NUL does not belong to the string -/
theorem cstr_append_nul (s u : List Byte) : cstr (s ++ 0 :: u) = cstr s := by
  induction s with
  | nil => rfl
  | cons b s ih =>
    unfold cstr at ih ⊢
    rw [List.cons_append, List.takeWhile_cons, List.takeWhile_cons, ih]

theorem cstr_append {s : List Byte} (h : (0 : Byte) ∉ s) (u : List Byte) :
    cstr (s ++ u) = s ++ cstr u := by
  unfold cstr
  apply List.takeWhile_append_of_pos
  intro b hb
  rw [bne_iff_ne]
  rintro rfl
  exact h hb

theorem snprintf_length_le (n : Nat) (text : List Byte) : (snprintf n text).length ≤ n := by
  unfold snprintf
  split
  · exact Nat.zero_le n
  · rw [List.length_append, List.length_take, List.length_singleton]
    omega

/-- **`snprintf` leaves the start of the text that fits with a NUL.** -/
theorem cstr_snprintf {n : Nat} (hn : 0 < n) (text dst : List Byte) :
    cstr (memcpy dst 0 (snprintf n text)) = (cstr text).take (n - 1) := by
  unfold snprintf memcpy
  rw [if_neg (Nat.ne_of_gt hn), List.take_zero, List.nil_append, List.append_assoc,
    List.singleton_append, cstr_append_nul, cstr_take]

/-- **`strcat` puts a string behind the one in the array.** -/
theorem cstr_strcat (src dst : List Byte) :
    cstr (memcpy dst (cstr dst).length (strcat src)) = cstr dst ++ cstr src := by
  have htake : dst.take (cstr dst).length = cstr dst :=
    List.prefix_iff_eq_take.mp (cstr_le dst) |>.symm
  unfold strcat memcpy
  rw [htake, ← List.append_assoc, List.append_assoc (cstr dst ++ src), List.singleton_append,
    cstr_append_nul, cstr_append (not_mem_cstr dst)]

end VncProxy
