import Mathlib.Data.List.Dedup
import Mathlib.Data.List.DropRight
import VncProxy.Http.DataHttpParser

/-!
# HTTP requests in a byte string

What the bytes of a connection say by the rules of HTTP, without the parser.

* `lines`         the lines with a CRLF behind them, `WholeLines.lines_append` those of two strings;
* `fieldLines`    those behind the first line;
* `bodyLength`    how long the body is, by the fields of a header;
* `requestEnd`    where the request ends with which a byte string begins, if it is complete;
* `requests`      the number of complete requests it begins with, one behind the other.
-/

namespace VncProxy

/-! ## lines -/

def crlf : List Byte := [13, 10]

/-- the blank line, with the end of the line before it -/
def blankLine : List Byte := [13, 10, 13, 10]

theorem crlf_ne_nil : crlf ≠ [] := List.cons_ne_nil _ _

theorem blankLine_ne_nil : blankLine ≠ [] := List.cons_ne_nil _ _

theorem find_crlf_append {s : List Byte} (hs : find crlf s ≠ none) (u : List Byte) :
    find crlf (s ++ u) ≠ none := by
  obtain ⟨pos, hpos⟩ := Option.ne_none_iff_exists'.mp hs
  rw [find_append u crlf_ne_nil hpos]
  exact Option.some_ne_none _

/-- the lines with a CRLF behind them; each uses up two bytes at least -/
def linesOf : Nat → List Byte → List (List Byte)
  | 0, _ => []
  | fuel + 1, s =>
    match find crlf s with
    | none => []
    | some pos => s.take pos :: linesOf fuel (s.drop (pos + 2))

def lines (s : List Byte) : List (List Byte) := linesOf s.length s

theorem linesOf_fuel {n m : Nat} {s : List Byte} (hn : s.length ≤ n) (hm : s.length ≤ m) :
    linesOf n s = linesOf m s := by
  induction n generalizing m s with
  | zero =>
    have hs : s = [] := List.eq_nil_of_length_eq_zero (Nat.le_zero.mp hn)
    subst hs
    cases m <;> rfl
  | succ n ih =>
    cases m with
    | zero =>
      have hs : s = [] := List.eq_nil_of_length_eq_zero (Nat.le_zero.mp hm)
      subst hs
      rfl
    | succ m =>
      unfold linesOf
      cases hf : find crlf s with
      | none => rfl
      | some pos =>
        have hle : pos + 2 ≤ s.length := find_le hf
        dsimp only
        rw [ih (m := m) (by rw [List.length_drop]; omega) (by rw [List.length_drop]; omega)]

theorem linesOf_append (n : Nat) (s u : List Byte) : linesOf n s <+: linesOf n (s ++ u) := by
  induction n generalizing s with
  | zero => exact List.nil_prefix
  | succ n ih =>
    unfold linesOf
    cases hf : find crlf s with
    | none => exact List.nil_prefix
    | some pos =>
      have hle : pos + 2 ≤ s.length := find_le hf
      rw [find_append u crlf_ne_nil hf]
      dsimp only
      rw [List.take_append_of_le_length (by omega), List.drop_append_of_le_length hle]
      exact List.cons_prefix_cons.mpr ⟨rfl, ih _⟩

theorem lines_cut {s : List Byte} {pos : Nat} (h : find crlf s = some pos) :
    lines s = s.take pos :: lines (s.drop (pos + 2)) := by
  have hle : pos + 2 ≤ s.length := find_le h
  obtain ⟨n, hn⟩ : ∃ n, s.length = n + 1 := ⟨s.length - 1, by omega⟩
  have hlen : (s.drop (pos + 2)).length ≤ n := by
    rw [List.length_drop]
    omega
  unfold lines
  rw [hn, linesOf, h]
  dsimp only
  rw [linesOf_fuel hlen (Nat.le_refl _)]

/-- the string is empty or ends with a CRLF -/
def WholeLines (s : List Byte) : Prop := s = [] ∨ crlf <:+ s

theorem WholeLines.behind {s : List Byte} (hs : WholeLines s) {pos : Nat} (h : find crlf s = some pos) :
    WholeLines (s.drop (pos + 2)) := by
  rcases hs with rfl | hs
  · rw [List.drop_nil]
    exact .inl rfl
  · rcases List.suffix_or_suffix_of_suffix hs (List.drop_suffix (pos + 2) s) with h1 | h1
    · exact .inr h1
    · -- less than a CRLF is left: both bytes, or none, since the CRLF found is the last one
      obtain ⟨v, hv⟩ := find_drop h
      have hrest : s.drop (pos + 2) = v := by
        rw [← List.drop_drop, ← hv]
        rfl
      rw [hrest] at h1 ⊢
      obtain ⟨w, hw⟩ := h1
      match w, hw with
      | [], hw => exact .inr ⟨[], hw.symm⟩
      | [b], hw =>
        obtain rfl : v = [10] := (List.cons.inj hw).2
        have hsuffix : crlf <:+ crlf ++ [10] := by
          refine List.suffix_of_suffix_length_le hs (hv ▸ List.drop_suffix pos s) ?_
          simp [crlf]
        exact absurd hsuffix (by decide)
      | [b, c], hw => exact .inl (List.cons.inj (List.cons.inj hw).2).2
      | b :: c :: d :: w, hw => simp [crlf] at hw

theorem WholeLines.lines_append {s : List Byte} (hs : WholeLines s) (u : List Byte) :
    lines (s ++ u) = lines s ++ lines u := by
  obtain ⟨n, hn⟩ : ∃ n, s.length ≤ n := ⟨_, Nat.le_refl _⟩
  induction n generalizing s with
  | zero =>
    obtain rfl : s = [] := List.eq_nil_of_length_eq_zero (Nat.le_zero.mp hn)
    rfl
  | succ n ih =>
    cases hf : find crlf s with
    | none =>
      rcases hs with rfl | hs
      · rfl
      · exact absurd hs.isInfix (find_eq_none.mp hf)
    | some pos =>
      have hle : pos + 2 ≤ s.length := find_le hf
      rw [lines_cut hf, lines_cut (find_append u crlf_ne_nil hf),
        List.take_append_of_le_length (by omega), List.drop_append_of_le_length hle,
        ih (hs.behind hf) (by rw [List.length_drop]; omega)]
      rfl

def firstLine (s : List Byte) : List Byte :=
  match find crlf s with
  | none => s
  | some pos => s.take pos

def fieldLines (s : List Byte) : List (List Byte) :=
  match find crlf s with
  | none => []
  | some pos => lines (s.drop (pos + 2))

theorem fieldLines_append (s u : List Byte) : fieldLines s <+: fieldLines (s ++ u) := by
  unfold fieldLines
  cases hf : find crlf s with
  | none => exact List.nil_prefix
  | some pos =>
    have hle : pos + 2 ≤ s.length := find_le hf
    rw [find_append u crlf_ne_nil hf]
    dsimp only
    rw [List.drop_append_of_le_length hle]
    unfold lines
    rw [linesOf_fuel (Nat.le_refl _) (show (s.drop (pos + 2)).length ≤
      (s.drop (pos + 2) ++ u).length by rw [List.length_append]; omega)]
    exact linesOf_append _ _ _

theorem find_crlf_of_blank {s : List Byte} {blank : Nat} (h : find blankLine s = some blank) :
    find crlf s ≠ none := by
  intro hnone
  have hstart : crlf <+: s.drop blank := List.IsPrefix.trans ⟨crlf, rfl⟩ (find_drop h)
  exact find_eq_none.mp hnone (hstart.isInfix.trans (List.drop_suffix blank s).isInfix)

/-! ## the header of a request -/

def headerEnd (s : List Byte) : Option Nat := (find blankLine s).map (· + 4)

theorem headerEnd_le {s : List Byte} {k : Nat} (h : headerEnd s = some k) : 4 ≤ k ∧ k ≤ s.length := by
  obtain ⟨blank, hb, rfl⟩ := Option.map_eq_some_iff.mp h
  have := find_le hb
  simp only [blankLine, List.length_cons, List.length_nil] at this
  omega

theorem headerEnd_append {s : List Byte} {k : Nat} (u : List Byte) (h : headerEnd s = some k) :
    headerEnd (s ++ u) = some k := by
  obtain ⟨blank, hb, rfl⟩ := Option.map_eq_some_iff.mp h
  unfold headerEnd
  rw [find_append u blankLine_ne_nil hb]
  rfl

theorem headerEnd_take {s : List Byte} {k : Nat} (hk : headerEnd s = some k) :
    headerEnd (s.take k) = some k := by
  obtain ⟨blank, hb, rfl⟩ := Option.map_eq_some_iff.mp hk
  unfold headerEnd
  rw [find_take blankLine_ne_nil hb (Nat.le_refl (blank + 4))]
  rfl

theorem find_crlf_of_headerEnd {s : List Byte} {k : Nat} (h : headerEnd s = some k) :
    find crlf s ≠ none := by
  obtain ⟨blank, hb, rfl⟩ := Option.map_eq_some_iff.mp h
  exact find_crlf_of_blank hb

def lower (b : Byte) : Byte := if 65 ≤ b && b ≤ 90 then b + 32 else b

def isblank (b : Byte) : Bool := b = 32 || b = 9

def trim (s : List Byte) : List Byte := (s.dropWhile isblank).rdropWhile isblank

/-- a word of visible characters -/
def isWord (s : List Byte) : Bool := s ≠ [] && s.all fun b => 33 ≤ b && b ≤ 126

/-- a word without separators: the name of a method or of a field -/
def isToken (s : List Byte) : Bool :=
  isWord s && s.all fun b => !(ascii "\"(),/:;<=>?@[\\]\x7b\x7d").contains b

def isText (s : List Byte) : Bool := s.all fun b => b = 9 || (32 ≤ b && b ≠ 127)

/-- a method, a target and the version, with one space between them -/
def isRequestLine (line : List Byte) : Bool :=
  match find [32] line with
  | none => false
  | some i =>
    let rest := line.drop (i + 1)
    match find [32] rest with
    | none => false
    | some j =>
      let version := rest.drop (j + 1)
      isToken (line.take i) && isWord (rest.take j) &&
        (version = ascii "HTTP/1.1" || version = ascii "HTTP/1.0")

def field (line : List Byte) : Option (List Byte × List Byte) :=
  match find [58] line with
  | none => none
  | some pos =>
    let value := trim (line.drop (pos + 1))
    if isToken (line.take pos) && isText value then some ((line.take pos).map lower, value) else none

/-- the different values of the fields with this name -/
def values (name : List Byte) (fs : List (List Byte × List Byte)) : List (List Byte) :=
  ((fs.filter (·.1 = name)).map (·.2)).dedup

inductive BodyLength where
  | bytes (n : Nat)
  | chunked

/-- no more than `n` bytes, and not in chunks -/
def BodyLength.AtMost : BodyLength → Nat → Prop
  | .bytes m, n => m ≤ n
  | .chunked, _ => False

instance : ∀ (b : BodyLength) (n : Nat), Decidable (b.AtMost n)
  | .bytes m, n => inferInstanceAs (Decidable (m ≤ n))
  | .chunked, _ => inferInstanceAs (Decidable False)

/-- the length of the body behind the header `hd`; none if it is not the header of a request, or names
no length that can be told -/
def bodyLength (hd : List Byte) : Option BodyLength :=
  if isRequestLine (firstLine hd) then
    match ((fieldLines hd).filter (· ≠ [])).mapM field with
    | none => none
    | some fs =>
      match values (ascii "transfer-encoding") fs, values (ascii "content-length") fs with
      | [], [] => some (.bytes 0)
      | [], [v] => if v ≠ [] && v.all isdigit then some (.bytes (digits v)) else none
      | [coding], [] => if coding.map lower = ascii "chunked" then some .chunked else none
      | _, _ => none
  else none

/-! ## requests -/

def hexDigit (b : Byte) : Option Nat :=
  if isdigit b then some (b.toNat - 48)
  else if 97 ≤ lower b && lower b ≤ 102 then some ((lower b).toNat - 87)
  else none

/-- the size in the line in front of a chunk; an extension may follow it -/
def chunkSize (line : List Byte) : Option Nat :=
  match trim (line.takeWhile (· ≠ 59)) with
  | [] => none
  | size => size.foldlM (fun n b => (hexDigit b).map (16 * n + ·)) 0

/-- where the lines up to an empty one end -/
def trailerEnd : Nat → List Byte → Option Nat
  | 0, _ => none
  | fuel + 1, s =>
    match find crlf s with
    | none => none
    | some 0 => some 2
    | some pos => (trailerEnd fuel (s.drop (pos + 2))).map (pos + 2 + ·)

/-- where a chunked body ends, with its trailer -/
def chunkedEnd : Nat → List Byte → Option Nat
  | 0, _ => none
  | fuel + 1, s =>
    match find crlf s with
    | none => none
    | some pos =>
      match chunkSize (s.take pos) with
      | none => none
      | some 0 => (trailerEnd s.length (s.drop (pos + 2))).map (pos + 2 + ·)
      | some n =>
        if crlf.isPrefixOf (s.drop (pos + 2 + n)) then
          (chunkedEnd fuel (s.drop (pos + 2 + n + 2))).map (pos + 2 + n + 2 + ·)
        else none

/-- where the request ends with which the bytes begin; none if they begin with no complete one -/
def requestEnd (s : List Byte) : Option Nat :=
  match headerEnd s with
  | none => none
  | some k =>
    match bodyLength (s.take k) with
    | none => none
    | some (.bytes n) => if k + n ≤ s.length then some (k + n) else none
    | some .chunked => (chunkedEnd s.length (s.drop k)).map (k + ·)

/-- the complete requests, one behind the other; each uses up a byte at least -/
def requestsOf : Nat → List Byte → Nat
  | 0, _ => 0
  | fuel + 1, s =>
    match requestEnd s with
    | none => 0
    | some n => 1 + requestsOf fuel (s.drop n)

def requests (s : List Byte) : Nat := requestsOf s.length s

theorem requests_pos {s : List Byte} {k n : Nat} (hk : headerEnd s = some k)
    (hn : bodyLength (s.take k) = some (.bytes n)) (hbody : k + n ≤ s.length) : 1 ≤ requests s := by
  obtain ⟨m, hm⟩ : ∃ m, s.length = m + 1 := ⟨s.length - 1, by have := headerEnd_le hk; omega⟩
  have hend : requestEnd s = some (k + n) := by
    unfold requestEnd
    rw [hk]
    dsimp only
    rw [hn]
    dsimp only
    rw [if_pos hbody]
  unfold requests
  rw [hm]
  unfold requestsOf
  rw [hend]
  exact Nat.le_add_right 1 _

end VncProxy
