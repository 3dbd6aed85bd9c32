import VncProxy.Lib.CString
import VncProxy.Lib.While

/-!
# `split` and `splitWithVector`

* `split`, `splitWithVector`   as in `StringHandle`, for a number of rounds at most;
* `Rest`                       the end of a string behind the occurrences of a pattern;
* `Overlaps`                   a pattern occurs across the end of a string and the pattern behind it;
* `split_rest`                 what the loop makes of a string;
* `split_iff`                  joining undoes it just when the pattern does not overlap the rest.
-/

namespace VncProxy

/-- a `std::string`, whose `max_size()` is below 2^63 -/
abbrev StdString := { s : List Byte // s.length < 2 ^ 63 }

/-- the value as a `size_t` -/
def sizeT (x : Int) : Nat := (x % 2 ^ 64).toNat

/-- `std::string::npos` -/
def npos : Nat := 2 ^ 64 - 1

/-- `s.find(pattern, i)` -/
def findFrom (s pattern : List Byte) (i : Nat) : Nat :=
  match find pattern (s.drop i) with
  | some k => i + k
  | none => npos

def splitRound (str pattern : List Byte) (s : Nat × List (List Byte)) : Nat × List (List Byte) :=
  let pos := findFrom str pattern s.1
  if pos < str.length then
    (sizeT (sizeT (pos + pattern.length - 1) + 1), s.2 ++ [(str.drop s.1).take (pos - s.1)])
  else (sizeT (s.1 + 1), s.2)

/-- the loop over `str + pattern` -/
def splitLoop (str pattern : List Byte) (n : Nat) (s : Nat × List (List Byte)) :
    Option (Nat × List (List Byte)) :=
  loop (fun s => decide (s.1 < (str ++ pattern).length)) (splitRound (str ++ pattern) pattern) n s

def split (n : Nat) (str pattern : StdString) : Option (List (List Byte)) :=
  (splitLoop str.1 pattern.1 n (0, [])).map (·.2)

def splitWithVector (n : Nat) (str pattern : StdString) : Option (List (List Byte)) :=
  (splitLoop str.1 pattern.1 n (0, [])).map (·.2)

/-- the rest of a string behind the leftmost occurrences of the pattern, none of which overlap -/
inductive Rest (pattern : List Byte) : List Byte → List Byte → Prop
  | last {str : List Byte} (h : find pattern str = none) : Rest pattern str str
  | next {str rest : List Byte} {k : Nat} (h : find pattern str = some k)
      (hrest : Rest pattern (str.drop (k + pattern.length)) rest) : Rest pattern str rest

/-- the pattern begins with an end of the rest, and goes on with its own beginning -/
def Overlaps (pattern rest : List Byte) : Prop :=
  ∃ u, u ≠ [] ∧ u <:+ rest ∧ pattern <+: u ++ pattern

/-- the loop ends, and if the pattern is not empty the pieces joined with it are the string -/
def UndoesJoin (f : Nat → StdString → StdString → Option (List (List Byte)))
    (str pattern : StdString) : Prop :=
  ∃ n result, f n str pattern = some result ∧
    (pattern.1 ≠ [] → pattern.1.intercalate result = str.1)

/-! ## occurrences -/

theorem find_first {t s : List Byte} {j : Nat} (h : t <+: s.drop j) :
    ∃ k, find t s = some k ∧ k ≤ j := by
  induction s generalizing j with
  | nil =>
    rw [List.drop_nil] at h
    exact ⟨0, find_start h, Nat.zero_le j⟩
  | cons b s ih =>
    rw [find_cons]
    by_cases hp : t.isPrefixOf (b :: s) = true
    · exact ⟨0, if_pos hp, Nat.zero_le j⟩
    · rw [if_neg hp]
      cases j with
      | zero => exact absurd (List.isPrefixOf_iff_prefix.mpr h) hp
      | succ j =>
        obtain ⟨k, hk, hle⟩ := ih h
        rw [hk]
        exact ⟨k + 1, rfl, Nat.succ_le_succ hle⟩

/-- the pattern is found in front of itself, and before that just when it overlaps the rest -/
theorem find_sentinel (pattern rest : List Byte) :
    ∃ k, find pattern (rest ++ pattern) = some k ∧ k ≤ rest.length ∧
      (k < rest.length ↔ Overlaps pattern rest) := by
  have hself : pattern <+: (rest ++ pattern).drop rest.length := by
    rw [List.drop_left]
  obtain ⟨k, hk, hle⟩ := find_first hself
  refine ⟨k, hk, hle, ?_, ?_⟩
  · intro hlt
    have hthere := find_drop hk
    rw [List.drop_append_of_le_length hle] at hthere
    refine ⟨rest.drop k, ?_, List.drop_suffix k rest, hthere⟩
    rwa [ne_eq, List.drop_eq_nil_iff, Nat.not_le]
  · rintro ⟨u, hu, ⟨w, rfl⟩, hp⟩
    have hthere : pattern <+: (w ++ u ++ pattern).drop w.length := by
      rwa [List.append_assoc, List.drop_left]
    obtain ⟨j, hj, hjle⟩ := find_first hthere
    obtain rfl := Option.some.inj (hk.symm.trans hj)
    have hpos := List.length_pos_iff.mpr hu
    rw [List.length_append]
    omega

theorem exists_rest {pattern : List Byte} (hne : pattern ≠ []) (str : List Byte) :
    ∃ rest, Rest pattern str rest := by
  have hpos := List.length_pos_iff.mpr hne
  induction hlen : str.length using Nat.strong_induction_on generalizing str with
  | _ n ih =>
    cases hfind : find pattern str with
    | none => exact ⟨str, .last hfind⟩
    | some k =>
      have hle := find_le hfind
      have hshort : (str.drop (k + pattern.length)).length < n := by
        rw [List.length_drop]
        omega
      obtain ⟨rest, hrest⟩ := ih _ hshort _ rfl
      exact ⟨rest, .next hfind hrest⟩

theorem intercalate_concat (pattern p : List Byte) (ps : List (List Byte)) :
    pattern.intercalate (ps ++ [p]) = ps.flatMap (· ++ pattern) ++ p := by
  induction ps with
  | nil => exact List.intercalate_singleton
  | cons q ps ih =>
    have hsome : ps ++ [p] ≠ [] := List.append_ne_nil_of_right_ne_nil ps (List.cons_ne_nil p [])
    rw [List.cons_append, List.intercalate_cons_of_ne_nil hsome, ih, List.flatMap_cons,
      List.append_assoc, List.append_assoc, List.append_assoc]

/-! ## the loop -/

theorem splitLoop_round {str pattern : List Byte} {i : Nat} (hi : i < (str ++ pattern).length) (n : Nat)
    (ps : List (List Byte)) :
    splitLoop str pattern (n + 1) (i, ps) =
      splitLoop str pattern n (splitRound (str ++ pattern) pattern (i, ps)) :=
  loop_round n (decide_eq_true hi)

theorem splitLoop_done {str pattern : List Byte} {i : Nat} (hi : (str ++ pattern).length ≤ i) (n : Nat)
    (ps : List (List Byte)) : splitLoop str pattern n (i, ps) = some (i, ps) :=
  loop_done n (decide_eq_false (Nat.not_lt.mpr hi))

section

variable {str pattern : List Byte} (hsize : (str ++ pattern).length < npos)
include hsize

theorem splitRound_found (hne : pattern ≠ []) {i k : Nat} (ps : List (List Byte))
    (hfind : find pattern ((str ++ pattern).drop i) = some k) :
    splitRound (str ++ pattern) pattern (i, ps) =
      (i + k + pattern.length, ps ++ [((str ++ pattern).drop i).take k]) := by
  have hpos := List.length_pos_iff.mpr hne
  have hle := find_le hfind
  rw [List.length_drop] at hle
  have hat : findFrom (str ++ pattern) pattern i = i + k := by
    rw [findFrom, hfind]
  have hbound : i + k + pattern.length < 2 ^ 64 := by
    unfold npos at hsize
    omega
  have hnext : sizeT (sizeT ((i + k : Nat) + pattern.length - 1) + 1) = i + k + pattern.length := by
    unfold sizeT
    omega
  unfold splitRound
  dsimp only
  rw [hat, if_pos (by omega), hnext, Nat.add_sub_cancel_left]

theorem splitRound_idle {i : Nat} (hi : i < (str ++ pattern).length) (ps : List (List Byte))
    (hfind : find pattern ((str ++ pattern).drop i) = none) :
    splitRound (str ++ pattern) pattern (i, ps) = (i + 1, ps) := by
  have hat : findFrom (str ++ pattern) pattern i = npos := by
    rw [findFrom, hfind]
  have hnext : sizeT (i + 1) = i + 1 := by
    unfold sizeT
    unfold npos at hsize
    omega
  unfold splitRound
  dsimp only
  rw [hat, if_neg (by omega), hnext]

theorem splitLoop_idle {i : Nat} (hi : (str ++ pattern).length < i + pattern.length)
    (ps : List (List Byte)) :
    ∃ n j, splitLoop str pattern n (i, ps) = some (j, ps) := by
  induction hd : (str ++ pattern).length - i generalizing i with
  | zero => exact ⟨0, i, splitLoop_done (by omega) 0 ps⟩
  | succ d ih =>
    have hlt : i < (str ++ pattern).length := by omega
    have hnone : find pattern ((str ++ pattern).drop i) = none := by
      cases hfind : find pattern ((str ++ pattern).drop i) with
      | none => rfl
      | some k =>
        have hle := find_le hfind
        rw [List.length_drop] at hle
        omega
    obtain ⟨n, j, hj⟩ := ih (i := i + 1) (by omega) (by omega)
    refine ⟨n + 1, j, ?_⟩
    rw [splitLoop_round hlt, splitRound_idle hsize hlt ps hnone]
    exact hj

/-- **The loop from a place behind an occurrence**, with the pieces up to there: it gives the string back
just when the pattern does not overlap the rest. -/
theorem split_rest (hne : pattern ≠ []) {s rest : List Byte} (hrest : Rest pattern s rest) {i : Nat}
    (hi : i ≤ str.length) (hs : str.drop i = s) {ps : List (List Byte)}
    (hps : ps.flatMap (· ++ pattern) = str.take i) :
    ∃ n j result, splitLoop str pattern n (i, ps) = some (j, result) ∧
      (pattern.intercalate result = str ↔ ¬ Overlaps pattern rest) := by
  have hpos := List.length_pos_iff.mpr hne
  have hlen : (str ++ pattern).length = str.length + pattern.length := List.length_append
  induction hrest generalizing i ps with
  | @last s h =>
    have hdrop : (str ++ pattern).drop i = s ++ pattern := by
      rw [List.drop_append_of_le_length hi, hs]
    have hslen : s.length = str.length - i := by
      rw [← hs, List.length_drop]
    obtain ⟨k, hk, hle, hover⟩ := find_sentinel pattern s
    -- an occurrence inside of the rest would have been found in it
    have hacross : s.length < k + pattern.length := by
      by_contra hin
      have htake := find_take hne hk (n := s.length) (by omega)
      rw [List.take_left, h] at htake
      cases htake
    have hround := splitRound_found hsize hne ps (hdrop ▸ hk)
    rw [hdrop, List.take_append_of_le_length hle] at hround
    obtain ⟨n, j, hj⟩ := splitLoop_idle hsize (i := i + k + pattern.length) (by omega) (ps ++ [s.take k])
    refine ⟨n + 1, j, ps ++ [s.take k], ?_, ?_⟩
    · rw [splitLoop_round (by omega), hround]
      exact hj
    · have hstr : str = str.take i ++ s := by
        rw [← hs, List.take_append_drop]
      rw [← hover, Nat.not_lt, intercalate_concat, hps]
      nth_rewrite 2 [hstr]
      rw [List.append_cancel_left_eq, List.take_eq_self_iff]
  | @next s rest k h hrest ih =>
    have hdrop : (str ++ pattern).drop i = s ++ pattern := by
      rw [List.drop_append_of_le_length hi, hs]
    have hslen : s.length = str.length - i := by
      rw [← hs, List.length_drop]
    have hle := find_le h
    have hthere : (s.drop k).take pattern.length = pattern :=
      (List.prefix_iff_eq_take.mp (find_drop h)).symm
    have hround := splitRound_found hsize hne ps (hdrop ▸ find_append pattern hne h)
    rw [hdrop, List.take_append_of_le_length (by omega)] at hround
    -- the string up to there is what was before, the piece and the pattern
    have hpieces : (ps ++ [s.take k]).flatMap (· ++ pattern) = str.take (i + k + pattern.length) := by
      rw [List.flatMap_append, hps, Nat.add_assoc, List.take_add, hs, List.take_add, hthere]
      simp
    have hbehind : str.drop (i + k + pattern.length) = s.drop (k + pattern.length) := by
      rw [← hs, List.drop_drop, Nat.add_assoc]
    obtain ⟨n, j, result, hloop, hjoin⟩ := ih (by omega) hbehind hpieces
    refine ⟨n + 1, j, result, ?_, hjoin⟩
    rw [splitLoop_round (by omega), hround]
    exact hloop

end

/-! ## any pattern -/

/-- an empty pattern is found at once, and again and again -/
theorem split_empty {str : List Byte} (hne : str ≠ []) (n : Nat) : splitLoop str [] n (0, []) = none := by
  have hpos : 0 < (str ++ []).length := by
    rw [List.append_nil]
    exact List.length_pos_iff.mpr hne
  refine loop_endless (I := fun s => s.1 = 0) ?_ ?_ rfl n
  · rintro ⟨i, ps⟩ rfl
    have hat : findFrom (str ++ []) [] 0 = 0 := by
      rw [findFrom, List.drop_zero, find_start List.nil_prefix]
    unfold splitRound
    dsimp only
    rw [hat, if_pos hpos]
    rfl
  · rintro ⟨i, ps⟩ rfl
    exact decide_eq_true hpos

theorem splitLoop_iff (str pattern : StdString) :
    (∃ n result, (splitLoop str.1 pattern.1 n (0, [])).map (·.2) = some result ∧
      (pattern.1 ≠ [] → pattern.1.intercalate result = str.1)) ↔
    (pattern.1 = [] → str.1 = []) ∧
      (pattern.1 ≠ [] → ∀ rest, Rest pattern.1 str.1 rest → ¬ Overlaps pattern.1 rest) := by
  obtain ⟨str, hstr⟩ := str
  obtain ⟨pattern, hpattern⟩ := pattern
  dsimp only
  by_cases hne : pattern = []
  · subst hne
    constructor
    · rintro ⟨n, result, hsplit, -⟩
      refine ⟨fun _ => ?_, fun h => absurd rfl h⟩
      by_contra hstr
      rw [split_empty hstr] at hsplit
      cases hsplit
    · rintro ⟨hempty, -⟩
      obtain rfl := hempty rfl
      exact ⟨0, [], rfl, fun h => absurd rfl h⟩
  · have hsize : (str ++ pattern).length < npos := by
      rw [List.length_append, npos]
      omega
    have hrun : ∀ {rest}, Rest pattern str rest → ∃ n j result,
        splitLoop str pattern n (0, []) = some (j, result) ∧
          (pattern.intercalate result = str ↔ ¬ Overlaps pattern rest) :=
      fun hrest => split_rest hsize hne hrest (Nat.zero_le _) rfl rfl
    constructor
    · rintro ⟨n, result, hsplit, hjoin⟩
      refine ⟨fun h => absurd h hne, fun _ rest hrest => ?_⟩
      obtain ⟨m, j, result', hloop, hiff⟩ := hrun hrest
      obtain ⟨s, hs, rfl⟩ := Option.map_eq_some_iff.mp hsplit
      obtain rfl := loop_unique hs hloop
      exact hiff.mp (hjoin hne)
    · rintro ⟨-, hover⟩
      obtain ⟨rest, hrest⟩ := exists_rest hne str
      obtain ⟨n, j, result, hloop, hiff⟩ := hrun hrest
      refine ⟨n, result, ?_, fun _ => hiff.mpr (hover hne rest hrest)⟩
      rw [hloop]
      rfl

/-- **Joining undoes `split` and `splitWithVector`, just when** an empty pattern is for an empty string
only, and another one does not overlap the rest of the string. -/
theorem split_iff (str pattern : StdString) :
    (UndoesJoin split str pattern ↔ (pattern.1 = [] → str.1 = []) ∧
      (pattern.1 ≠ [] → ∀ rest, Rest pattern.1 str.1 rest → ¬ Overlaps pattern.1 rest)) ∧
    (UndoesJoin splitWithVector str pattern ↔ (pattern.1 = [] → str.1 = []) ∧
      (pattern.1 ≠ [] → ∀ rest, Rest pattern.1 str.1 rest → ¬ Overlaps pattern.1 rest)) :=
  ⟨splitLoop_iff str pattern, splitLoop_iff str pattern⟩

/-- **`split("a", "aa")`** is an empty piece. -/
theorem not_split : ¬ ∀ str pattern : StdString, UndoesJoin split str pattern := by
  intro hall
  obtain ⟨n, result, hsplit, hjoin⟩ := hall ⟨[97], by decide⟩ ⟨[97, 97], by decide⟩
  obtain ⟨s, hs, rfl⟩ := Option.map_eq_some_iff.mp hsplit
  have hrun : splitLoop [97] [97, 97] 2 (0, []) = some (3, [[]]) := by
    decide
  obtain rfl := loop_unique hs hrun
  exact absurd (hjoin (by decide)) (by decide)

end VncProxy
