import VncProxy.Http.Arrays

/-!
# The same request in other chunks

* `parseChunks`    the calls of `ParseData` until one returns something else than 0;
* `ChunksInRange`  the accesses of these calls are in range, `Holds.chunksInRange` when the first line
                   fits;
* `Result`         what can be asked of the parser then;
* `chunking_iff`   no access is out of range and the result does not depend on the chunks just when the
                   first line fits and, at each cut behind the blank line, no header line is still to
                   come and the request is not complete;
* `not_chunking`   a line of the body that comes with the header is taken for a header.
-/

namespace VncProxy

open DataHttpParser

/-! ## feeding chunks -/

def parseChunks (p : DataHttpParser) : List (List Byte) → DataHttpParser × Int
  | [] => (p, 0)
  | c :: cs => if (p.ParseData c).2 ≠ 0 then p.ParseData c else parseChunks (p.ParseData c).1 cs

/-- the accesses of the calls of `parseChunks` are in range -/
def ChunksInRange (p : DataHttpParser) : List (List Byte) → Prop
  | [] => True
  | c :: cs =>
    (∀ a ∈ p.accesses c, a.InRange) ∧ ((p.ParseData c).2 = 0 → ChunksInRange (p.ParseData c).1 cs)

structure Result where
  ret : Int
  url : List Byte
  httpType : Option HttpType
  headers : List (List Byte)
  contentLength : Int
  body : List Byte
deriving DecidableEq

def result (x : DataHttpParser × Int) : Result where
  ret := x.2
  url := x.1.GetUrl
  httpType := x.1.GetHttpType
  headers := x.1.GetHeaders
  contentLength := x.1.GetContentLength
  body := x.1.mBuffer.take x.1.mIndex

/-- the places at which chunks that start at `n` end -/
def cuts (n : Nat) : List (List Byte) → List Nat
  | [] => []
  | c :: cs => (n + c.length) :: cuts (n + c.length) cs

theorem cuts_ge {n j : Nat} {cs : List (List Byte)} (hj : j ∈ cuts n cs) : n ≤ j := by
  induction cs generalizing n with
  | nil => cases hj
  | cons c cs ih =>
    rcases List.mem_cons.mp hj with rfl | hj
    · exact Nat.le_add_right _ _
    · exact Nat.le_trans (Nat.le_add_right _ _) (ih hj)

theorem cuts_shift (n k : Nat) (cs : List (List Byte)) :
    cuts (n + k) cs = (cuts n cs).map (· + k) := by
  induction cs generalizing n with
  | nil => rfl
  | cons c cs ih =>
    show (n + k + c.length) :: cuts (n + k + c.length) cs = (n + c.length + k) :: _
    rw [Nat.add_right_comm, ih]

/-- behind the blank line: is the request complete with what has come, or with one of the chunks -/
def settle (p : DataHttpParser) (cs : List (List Byte)) : DataHttpParser × Int :=
  if p.complete then (p, 1) else parseChunks p cs

theorem parseChunks_cons {p q : DataHttpParser} {c : List Byte} (cs : List (List Byte))
    (hq : p.ParseData c = (q, if q.complete then 1 else 0)) : parseChunks p (c :: cs) = settle q cs := by
  unfold parseChunks settle
  rw [hq]
  by_cases hc : q.complete = true
  · rw [if_pos hc, if_pos hc, if_pos (show (1 : Int) ≠ 0 by decide)]
  · rw [if_neg hc, if_neg hc, if_neg (by simp)]

/-- what has been read when the calls stop -/
structure Stopped (x : DataHttpParser × Int) (f : Facts) (body : List Byte) : Prop where
  reads : Reads x.1 f body
  ret : x.2 = if f.Done body.length then 1 else 0

theorem Stopped.pair {x : DataHttpParser × Int} {f : Facts} {body : List Byte} (hx : Stopped x f body) :
    x = (x.1, if x.1.complete then 1 else 0) :=
  Prod.ext rfl (hx.ret.trans (if_congr hx.reads.complete rfl rfl).symm)

theorem settle_stopped {p : DataHttpParser} {f : Facts} {body : List Byte} (hp : Reads p f body)
    {cs : List (List Byte)} (hcs : ∀ c ∈ cs, c ≠ [])
    (hfit : (body ++ cs.flatten).length + 2 ≤ MAX_BUFFER_LEN) :
    ∃ body', Stopped (settle p cs) f body' ∧
      (body' = body ++ cs.flatten ↔
        ∀ j ∈ body.length :: cuts body.length cs, j < (body ++ cs.flatten).length → ¬ f.Done j) := by
  induction cs generalizing p body with
  | nil =>
    refine ⟨body, ⟨?_, ?_⟩, ?_⟩
    · unfold settle parseChunks
      split <;> exact hp
    · unfold settle parseChunks
      by_cases hc : p.complete = true
      · rw [if_pos hc, if_pos (hp.complete.mp hc)]
      · rw [if_neg hc, if_neg (fun hd => hc (hp.complete.mpr hd))]
    · rw [List.flatten_nil, List.append_nil]
      refine ⟨fun _ j hj hlt => ?_, fun _ => rfl⟩
      rw [List.mem_singleton.mp hj] at hlt
      exact absurd hlt (Nat.lt_irrefl _)
  | cons c cs ih =>
    have hc : c ≠ [] := hcs c (List.mem_cons_self ..)
    have hpos := List.length_pos_iff.mpr hc
    rw [List.flatten_cons, ← List.append_assoc] at hfit ⊢
    have hbc : body.length + c.length + 2 ≤ MAX_BUFFER_LEN := by
      rw [List.length_append, List.length_append] at hfit
      omega
    by_cases hcomplete : p.complete = true
    · -- the calls have stopped before the chunk
      have hdone := hp.complete.mp hcomplete
      refine ⟨body, ?_, ?_⟩
      · unfold settle
        rw [if_pos hcomplete]
        exact ⟨hp, (if_pos hdone).symm⟩
      · refine ⟨fun heq => ?_, fun hall => ?_⟩
        · have hlen := congrArg List.length heq
          rw [List.length_append, List.length_append] at hlen
          omega
        · refine absurd hdone (hall body.length (List.mem_cons_self ..) ?_)
          rw [List.length_append, List.length_append]
          omega
    · obtain ⟨hreads, hret⟩ := hp.ParseData hc hbc
      have hq := Stopped.pair ⟨hreads, hret⟩
      obtain ⟨body', hstop, hiff⟩ := ih hreads (fun c' h => hcs c' (List.mem_cons_of_mem _ h)) hfit
      refine ⟨body', ?_, hiff.trans ?_⟩
      · unfold settle
        rw [if_neg hcomplete, parseChunks_cons cs hq]
        exact hstop
      · rw [show (body ++ c).length = body.length + c.length from List.length_append]
        refine ⟨fun hall j hj hlt => ?_, fun hall j hj hlt => ?_⟩
        · rcases List.mem_cons.mp hj with rfl | hj
          · exact fun hd => hcomplete (hp.complete.mpr hd)
          · exact hall j hj hlt
        · exact hall j (List.mem_cons_of_mem _ hj) hlt

theorem headerEnd_cstr_take {r : List Byte} {k n : Nat} (hk : headerEnd (cstr r) = some k) :
    headerEnd (cstr (r.take n)) = if k ≤ n then some k else none := by
  rw [cstr_take]
  obtain ⟨blank, hb, rfl⟩ := Option.map_eq_some_iff.mp hk
  unfold headerEnd
  split
  · next hn => rw [find_take blankLine_ne_nil hb hn]; rfl
  · next hn => rw [find_take_none blankLine_ne_nil hb (Nat.lt_of_not_le hn)]; rfl

theorem headerEnd_cstr_append {u v : List Byte} {k : Nat} (hk : headerEnd (cstr u) = some k) :
    headerEnd (cstr (u ++ v)) = some k := by
  obtain ⟨w, hw⟩ := cstr_append_prefix u v
  rw [← hw]
  exact headerEnd_append w hk

theorem parseChunks_none {p : DataHttpParser} {u : List Byte} (hp : Holds p u) {cs : List (List Byte)}
    (hcs : ∀ c ∈ cs, c ≠ []) (hfit : (u ++ cs.flatten).length ≤ MAX_BUFFER_LEN)
    (hnone : headerEnd (cstr (u ++ cs.flatten)) = none) :
    Holds (parseChunks p cs).1 (u ++ cs.flatten) ∧ (parseChunks p cs).2 = 0 := by
  induction cs generalizing p u with
  | nil =>
    rw [List.flatten_nil, List.append_nil]
    exact ⟨hp, rfl⟩
  | cons c cs ih =>
    rw [List.flatten_cons, ← List.append_assoc] at hfit hnone ⊢
    have hbc : u.length + c.length ≤ MAX_BUFFER_LEN := by
      rw [List.length_append, List.length_append] at hfit
      omega
    have hnone' : headerEnd (cstr (u ++ c)) = none := by
      cases hk : headerEnd (cstr (u ++ c)) with
      | none => rfl
      | some k =>
        rw [headerEnd_cstr_append hk] at hnone
        cases hnone
    obtain ⟨hholds, hret⟩ := (hp.ParseData (hcs c (List.mem_cons_self ..)) hbc).1 hnone'
    unfold parseChunks
    rw [hret, if_neg (by simp)]
    exact ih hholds (fun c' h => hcs c' (List.mem_cons_of_mem _ h)) hfit hnone

/-- the header of `r` is read at `j0`, the first cut behind it; `x` is what the calls end with -/
structure ReadAt (r : List Byte) (k n : Nat) (cs : List (List Byte)) (x : DataHttpParser × Int)
    (j0 : Nat) : Prop where
  mem : j0 ∈ cuts n cs
  le : k ≤ j0
  first : ∀ j ∈ cuts n cs, k ≤ j → j0 ≤ j
  stopped : ∃ body, Stopped x (read (cstr (r.take j0))) body ∧
    (body = r.drop k ↔ ∀ j ∈ cuts n cs, k ≤ j → j < r.length →
      ¬ (read (cstr (r.take j0))).Done (j - k))

/-- the blank line comes: the header is read at the first cut behind it -/
theorem parseChunks_some {p : DataHttpParser} {u : List Byte} (hp : Holds p u)
    {cs : List (List Byte)} (hcs : ∀ c ∈ cs, c ≠ []) {r : List Byte} (hr : r = u ++ cs.flatten)
    (hfit : r.length + 2 ≤ MAX_BUFFER_LEN) {k : Nat} (hk : headerEnd (cstr r) = some k)
    (hu : u.length < k) : ∃ j0, ReadAt r k u.length cs (parseChunks p cs) j0 := by
  have hkr := Nat.le_trans (headerEnd_le hk).2 (cstr_le r).length_le
  induction cs generalizing p u with
  | nil =>
    rw [hr, List.flatten_nil, List.append_nil] at hkr
    omega
  | cons c cs ih =>
    have hr' : r = (u ++ c) ++ cs.flatten := by rw [hr, List.flatten_cons, List.append_assoc]
    have htake : r.take (u ++ c).length = u ++ c := by rw [hr', List.take_left]
    have hlen : (u ++ c).length = u.length + c.length := List.length_append
    have hle : (u ++ c).length ≤ r.length := htake ▸ (List.take_prefix _ _).length_le
    have hend := headerEnd_cstr_take (n := (u ++ c).length) hk
    rw [htake] at hend
    obtain ⟨hnot, hsome⟩ := hp.ParseData (hcs c (List.mem_cons_self ..)) (by omega)
    have hcs' : ∀ c' ∈ cs, c' ≠ [] := fun c' h => hcs c' (List.mem_cons_of_mem _ h)
    by_cases hkc : k ≤ (u ++ c).length
    · -- the header is read with this chunk
      rw [if_pos hkc] at hend
      obtain ⟨hreads, hret⟩ := hsome k hend
      have hq := Stopped.pair ⟨hreads, hret⟩
      have hrest : (u ++ c).drop k ++ cs.flatten = r.drop k := by
        rw [hr', List.drop_append_of_le_length hkc]
      have hrestlen : ((u ++ c).drop k ++ cs.flatten).length = r.length - k := by
        rw [hrest, List.length_drop]
      obtain ⟨body, hstop, hiff⟩ := settle_stopped hreads hcs' (by omega)
      have hshift : cuts (u ++ c).length cs = (cuts ((u ++ c).length - k) cs).map (· + k) := by
        rw [← cuts_shift, Nat.sub_add_cancel hkc]
      simp only [hrest, List.length_drop] at hiff
      refine ⟨(u ++ c).length, ?_, hkc, ?_, body, ?_, hiff.trans ?_⟩
      · exact hlen ▸ List.mem_cons_self ..
      · intro j hj _
        rcases List.mem_cons.mp hj with rfl | hj
        · exact Nat.le_of_eq hlen
        · exact hlen ▸ cuts_ge hj
      · rw [htake, parseChunks_cons cs hq]
        exact hstop
      · rw [htake]
        refine ⟨fun hall j hj hkj hlt => ?_, fun hall j hj hlt => ?_⟩
        · refine hall (j - k) ?_ (by omega)
          rcases List.mem_cons.mp hj with rfl | hj
          · rw [← hlen]
            exact List.mem_cons_self ..
          · rw [← hlen, hshift] at hj
            obtain ⟨j', hj', rfl⟩ := List.mem_map.mp hj
            rw [Nat.add_sub_cancel]
            exact List.mem_cons_of_mem _ hj'
        · have h := hall (j + k) ?_ (Nat.le_add_left _ _) (by omega)
          · rwa [Nat.add_sub_cancel] at h
          · rcases List.mem_cons.mp hj with rfl | hj
            · rw [Nat.sub_add_cancel hkc, hlen]
              exact List.mem_cons_self ..
            · refine List.mem_cons_of_mem _ ?_
              rw [← hlen, hshift]
              exact List.mem_map_of_mem hj
    · -- it is read later, and this cut is before the blank line
      rw [if_neg hkc] at hend
      obtain ⟨hholds, hret⟩ := hnot hend
      obtain ⟨j0, h⟩ := ih hholds hcs' hr' (Nat.lt_of_not_le hkc)
      have hstep : parseChunks p (c :: cs) = parseChunks (p.ParseData c).1 cs := by
        show (if (p.ParseData c).2 ≠ 0 then _ else _) = _
        rw [hret, if_neg (by simp)]
      have hcuts : ∀ j, k ≤ j → (j ∈ cuts u.length (c :: cs) ↔ j ∈ cuts (u ++ c).length cs) := by
        intro j hkj
        show j ∈ (u.length + c.length) :: cuts (u.length + c.length) cs ↔ _
        rw [hlen, List.mem_cons]
        exact or_iff_right (by omega)
      obtain ⟨body, hstop, hiff⟩ := h.stopped
      refine ⟨j0, (hcuts j0 h.le).mpr h.mem, h.le, fun j hj hkj => h.first j ((hcuts j hkj).mp hj) hkj,
        body, hstep ▸ hstop, hiff.trans ?_⟩
      exact ⟨fun hall j hj hkj => hall j ((hcuts j hkj).mp hj) hkj,
        fun hall j hj hkj => hall j ((hcuts j hkj).mpr hj) hkj⟩

/-! ## what is asked of the parser -/

theorem GetUrl_facts {p q : DataHttpParser} (h : p.facts = q.facts) : p.GetUrl = q.GetUrl := by
  obtain ⟨hhost, hpath, -, htype, -⟩ := Facts.mk.inj h
  unfold GetUrl
  rw [hhost, hpath, htype]

theorem result_facts {x y : DataHttpParser × Int} (hret : x.2 = y.2) (hfacts : x.1.facts = y.1.facts)
    (hbody : x.1.mBuffer.take x.1.mIndex = y.1.mBuffer.take y.1.mIndex) : result x = result y := by
  obtain ⟨-, -, hlen, htype, hheaders⟩ := Facts.mk.inj hfacts
  show Result.mk .. = Result.mk ..
  rw [hret, GetUrl_facts hfacts, hbody]
  unfold GetHttpType GetHeaders GetContentLength
  rw [hlen, htype, hheaders]

theorem Holds.result {x y : DataHttpParser × Int} {u : List Byte} (hx : Holds x.1 u) (hy : Holds y.1 u)
    (hret : x.2 = y.2) : result x = result y :=
  result_facts hret (hx.facts.trans hy.facts.symm)
    (by rw [hx.buffer, hx.index, hy.buffer, hy.index])

theorem Stopped.body {x : DataHttpParser × Int} {f : Facts} {body : List Byte}
    (hx : Stopped x f body) : x.1.mBuffer.take x.1.mIndex = body :=
  hx.reads.index ▸ hx.reads.buffer

theorem Stopped.result {x y : DataHttpParser × Int} {f : Facts} {body : List Byte}
    (hx : Stopped x f body) (hy : Stopped y f body) : result x = result y :=
  result_facts (hx.ret.trans hy.ret.symm) (hx.reads.facts.trans hy.reads.facts.symm)
    (hx.body.trans hy.body.symm)

theorem Stopped.of_result {x y : DataHttpParser × Int} {f g : Facts} {body body' : List Byte}
    (hx : Stopped x f body) (hy : Stopped y g body') (h : VncProxy.result x = VncProxy.result y) :
    f.headers = g.headers ∧ body = body' := by
  obtain ⟨-, -, -, hheaders, -, hbody⟩ := Result.mk.inj h
  exact ⟨hx.reads.facts ▸ hy.reads.facts ▸ hheaders, hx.body ▸ hy.body ▸ hbody⟩

/-! ## the header at a cut -/

theorem firstLine_append {s : List Byte} (u : List Byte) (hs : find crlf s ≠ none) :
    firstLine (s ++ u) = firstLine s := by
  unfold firstLine
  cases hf : find crlf s with
  | none => exact absurd hf hs
  | some pos =>
    have hle : pos + 2 ≤ s.length := find_le hf
    rw [find_append u crlf_ne_nil hf]
    exact List.take_append_of_le_length (by omega)

theorem fields_append (s u : List Byte) : fields s <+: fields (s ++ u) :=
  (fieldLines_append s u).filter _

theorem cstr_take_prefix (r : List Byte) {i j : Nat} (hij : i ≤ j) :
    ∃ u, cstr (r.take j) = cstr (r.take i) ++ u := by
  rw [cstr_take, cstr_take]
  obtain ⟨u, hu⟩ := List.take_prefix_take_left (l := cstr r) hij
  exact ⟨u, hu.symm⟩

/-- the length the lines of a whole byte string name, -1 when its first line is not served -/
def contentLength (r : List Byte) : Int :=
  if served (firstLine (cstr r)) then namedLength (fieldLines (cstr r)) else -1

/-- at a cut `j` behind the header of `k` bytes: all header lines have come, and neither is the length
unknown nor has the body come whole -/
structure Settled (r : List Byte) (k j : Nat) : Prop where
  fields : served (firstLine (cstr r)) = true → fields (cstr (r.take j)) = fields (cstr r)
  known : contentLength r ≠ -1
  part : (j : Int) - k ≠ contentLength r

theorem contentLength_eq {r : List Byte} {k : Nat} (hk : headerEnd (cstr r) = some k) :
    (read (cstr r)).contentLength = contentLength r :=
  read_contentLength (find_crlf_of_headerEnd hk)

/-- behind the blank line only the header lines can differ -/
theorem read_take {r : List Byte} {k j : Nat} (hk : headerEnd (cstr r) = some k) (hkj : k ≤ j) :
    (read (cstr (r.take j))).headers = (read (cstr r)).headers ↔
      (served (firstLine (cstr r)) = true → fields (cstr (r.take j)) = fields (cstr r)) := by
  have hkj' : headerEnd (cstr (r.take j)) = some k := by rw [headerEnd_cstr_take hk, if_pos hkj]
  have hcrlf := find_crlf_of_headerEnd hkj'
  obtain ⟨u, hu⟩ : ∃ u, cstr r = cstr (r.take j) ++ u := by
    obtain ⟨u, hu⟩ := cstr_append_prefix (r.take j) (r.drop j)
    rw [List.take_append_drop] at hu
    exact ⟨u, hu.symm⟩
  have hfirst : firstLine (cstr (r.take j)) = firstLine (cstr r) := by
    rw [hu, firstLine_append u hcrlf]
  rw [read_headers hcrlf, read_headers (find_crlf_of_headerEnd hk)]
  unfold readLines
  rw [hfirst]
  split
  · next h => exact ⟨fun heq _ => heq, fun himp => himp h⟩
  · next h => exact ⟨fun _ h' => absurd h' h, fun _ => rfl⟩

theorem read_take_eq {r : List Byte} {k j : Nat} (hk : headerEnd (cstr r) = some k) (hkj : k ≤ j)
    (h : (read (cstr (r.take j))).headers = (read (cstr r)).headers) :
    read (cstr (r.take j)) = read (cstr r) := by
  have hkj' : headerEnd (cstr (r.take j)) = some k := by rw [headerEnd_cstr_take hk, if_pos hkj]
  have hcrlf := find_crlf_of_headerEnd hkj'
  refine read_congr hcrlf (find_crlf_of_headerEnd hk) ?_ ((read_take hk hkj).mp h)
  obtain ⟨u, hu⟩ := cstr_append_prefix (r.take j) (r.drop j)
  rw [List.take_append_drop] at hu
  rw [← hu, firstLine_append u hcrlf]

/-- once all header lines have come they have come at every later cut -/
theorem fields_later {r : List Byte} {i j : Nat} (hij : i ≤ j)
    (h : fields (cstr (r.take i)) = fields (cstr r)) :
    fields (cstr (r.take j)) = fields (cstr r) := by
  obtain ⟨u, hu⟩ := cstr_take_prefix r hij
  obtain ⟨v, hv⟩ := cstr_append_prefix (r.take j) (r.drop j)
  rw [List.take_append_drop] at hv
  have h1 : fields (cstr (r.take i)) <+: fields (cstr (r.take j)) := hu ▸ fields_append _ u
  have h2 : fields (cstr (r.take j)) <+: fields (cstr r) := hv ▸ fields_append _ v
  exact h2.eq_of_length_le (h ▸ h1.length_le)

theorem parseChunks_one (r : List Byte) : parseChunks new [r] = new.ParseData r := by
  show (if (new.ParseData r).2 ≠ 0 then new.ParseData r else ((new.ParseData r).1, 0)) = _
  split
  · rfl
  · next h => exact Prod.ext rfl (not_not.mp h).symm

/-- no call at all against one that returns -1 -/
theorem result_ne_of_nil {chunks : List (List Byte)} (hchunks : ∀ c ∈ chunks, c ≠ [])
    (hflat : chunks.flatten = []) : result (parseChunks new chunks) ≠ result (new.ParseData []) := by
  intro h
  have hret : (parseChunks new chunks).2 = (new.ParseData []).2 := (Result.mk.inj h).1
  have hnil : chunks = [] := by
    cases chunks with
    | nil => rfl
    | cons c cs =>
      rw [List.flatten_cons, List.append_eq_nil_iff] at hflat
      exact absurd hflat.1 (hchunks c (List.mem_cons_self ..))
  rw [hnil, (ParseData_full new []).mpr (.inl rfl)] at hret
  cases hret

theorem result_of_none {r : List Byte} (hr0 : r ≠ []) (hfit : r.length ≤ MAX_BUFFER_LEN)
    (hnone : headerEnd (cstr r) = none) {chunks : List (List Byte)} (hchunks : ∀ c ∈ chunks, c ≠ [])
    (hflat : r = [] ++ chunks.flatten) :
    result (parseChunks new chunks) = result (new.ParseData r) := by
  have hrs : ∀ c ∈ [r], c ≠ [] := fun c hc => List.mem_singleton.mp hc ▸ hr0
  obtain ⟨hx, hx0⟩ := parseChunks_none .new hchunks (hflat ▸ hfit) (hflat ▸ hnone)
  obtain ⟨hy, hy0⟩ := parseChunks_none .new hrs (by simpa using hfit) (by simpa using hnone)
  rw [parseChunks_one] at hy hy0
  refine Holds.result (u := r) ?_ ?_ (hx0.trans hy0.symm)
  · exact hflat ▸ hx
  · simpa using hy

/-- the one call reads the header at the end of `r` and keeps the rest -/
theorem ParseData_stopped {r : List Byte} (hr0 : r ≠ []) (hfit : r.length + 2 ≤ MAX_BUFFER_LEN) {k : Nat}
    (hk : headerEnd (cstr r) = some k) : Stopped (new.ParseData r) (read (cstr r)) (r.drop k) := by
  have hrs : ∀ c ∈ [r], c ≠ [] := fun c hc => List.mem_singleton.mp hc ▸ hr0
  have hpos : ([] : List Byte).length < k := Nat.lt_of_lt_of_le (by decide) (headerEnd_le hk).1
  obtain ⟨j1, hj1⟩ := parseChunks_some .new hrs (by simp) hfit hk hpos
  have hj1r : j1 = r.length := by simpa [cuts] using hj1.mem
  obtain ⟨rest, hy, hrest⟩ := hj1.stopped
  obtain rfl : rest = r.drop k := hrest.mpr fun j hj _ hlt => by
    have hjr : j = r.length := by simpa [cuts] using hj
    omega
  rw [hj1r, List.take_length, parseChunks_one] at hy
  exact hy

theorem not_done_iff {r : List Byte} {k j : Nat} (hk : headerEnd (cstr r) = some k) (hkj : k ≤ j) :
    ¬ (read (cstr r)).Done (j - k) ↔
      contentLength r ≠ -1 ∧ (j : Int) - k ≠ contentLength r := by
  unfold Facts.Done
  rw [contentLength_eq hk, not_or, Nat.cast_sub hkj]

/-- the calls end as the one call does just when the cuts behind the header are settled -/
theorem ReadAt.result_iff {r : List Byte} {k j0 : Nat} {chunks : List (List Byte)}
    {x y : DataHttpParser × Int} (hx : ReadAt r k 0 chunks x j0)
    (hy : Stopped y (read (cstr r)) (r.drop k)) (hk : headerEnd (cstr r) = some k) :
    result x = result y ↔ ∀ j ∈ cuts 0 chunks, k ≤ j → j < r.length → Settled r k j := by
  obtain ⟨body, hstop, hbody⟩ := hx.stopped
  refine ⟨fun h j hj hkj hlt => ?_, fun hall => ?_⟩
  · obtain ⟨hheaders, rfl⟩ := hstop.of_result hy h
    have hdone := hbody.mp rfl j hj hkj hlt
    rw [read_take_eq hk hx.le hheaders, not_done_iff hk hkj] at hdone
    refine ⟨fun hserved => ?_, hdone.1, hdone.2⟩
    exact fields_later (hx.first j hj hkj) ((read_take hk hx.le).mp hheaders hserved)
  · have hread : read (cstr (r.take j0)) = read (cstr r) := by
      by_cases hlt : j0 < r.length
      · exact read_take_eq hk hx.le ((read_take hk hx.le).mpr (hall j0 hx.mem hx.le hlt).fields)
      · rw [List.take_of_length_le (Nat.le_of_not_lt hlt)]
    rw [hread] at hstop hbody
    obtain rfl := hbody.mpr fun j hj hkj hlt =>
      (not_done_iff hk hkj).mpr ⟨(hall j hj hkj hlt).known, (hall j hj hkj hlt).part⟩
    exact hstop.result hy

/-! ## the arrays -/

/-- the first line of a header leaves a byte of `firstLineBuff` for the NUL -/
def FirstLineFits (r : List Byte) : Prop :=
  headerEnd (cstr r) ≠ none → (firstLine (cstr r)).length < 4096

instance (r : List Byte) : Decidable (FirstLineFits r) := inferInstanceAs (Decidable (_ → _))

theorem FirstLineFits.before {u v : List Byte} (h : FirstLineFits (u ++ v)) : FirstLineFits u := by
  intro hend
  obtain ⟨k, hk⟩ := Option.ne_none_iff_exists'.mp hend
  obtain ⟨w, hw⟩ := cstr_append_prefix u v
  have hline := h (headerEnd_cstr_append hk ▸ Option.some_ne_none k)
  rwa [← hw, firstLine_append w (find_crlf_of_headerEnd hk)] at hline

theorem new_inRange_iff {r : List Byte} (hr0 : r ≠ []) (hfit : r.length + 2 ≤ MAX_BUFFER_LEN) :
    (∀ a ∈ new.accesses r, a.InRange) ↔ FirstLineFits r := by
  have hindex : new.mIndex + r.length + 2 ≤ MAX_BUFFER_LEN := by
    show 0 + r.length + 2 ≤ _
    rwa [Nat.zero_add]
  rw [inRange_iff .new]
  constructor
  · intro h
    exact (h hr0).2 rfl
  · intro h _
    exact ⟨hindex, fun _ => h⟩

namespace DataHttpParser

theorem Reads.chunksInRange {p : DataHttpParser} {f : Facts} {body : List Byte} (hp : Reads p f body)
    {cs : List (List Byte)} (hcs : ∀ c ∈ cs, c ≠ [])
    (hfit : (body ++ cs.flatten).length + 2 ≤ MAX_BUFFER_LEN) : ChunksInRange p cs := by
  induction cs generalizing p body with
  | nil => exact trivial
  | cons c cs ih =>
    rw [List.flatten_cons, ← List.append_assoc] at hfit
    have hbc : body.length + c.length + 2 ≤ MAX_BUFFER_LEN := by
      rw [List.length_append, List.length_append] at hfit
      omega
    have hbounded : p.Bounded := ⟨by rw [hp.index]; omega, .inr ⟨f, body, hp⟩⟩
    refine ⟨(inRange_iff hbounded c).mpr fun _ => ⟨hp.index ▸ hbc, fun hfinish => ?_⟩, fun _ => ?_⟩
    · rw [hp.finish] at hfinish
      cases hfinish
    · exact ih (hp.ParseData (hcs c (List.mem_cons_self ..)) hbc).1
        (fun c' h => hcs c' (List.mem_cons_of_mem _ h)) hfit

/-- **The calls stay inside of the arrays** when the first line fits. -/
theorem Holds.chunksInRange {p : DataHttpParser} {u : List Byte} (hp : Holds p u)
    {cs : List (List Byte)} (hcs : ∀ c ∈ cs, c ≠ [])
    (hfit : (u ++ cs.flatten).length + 2 ≤ MAX_BUFFER_LEN) (hline : FirstLineFits (u ++ cs.flatten)) :
    ChunksInRange p cs := by
  induction cs generalizing p u with
  | nil => exact trivial
  | cons c cs ih =>
    rw [List.flatten_cons, ← List.append_assoc] at hfit hline
    have hbc : u.length + c.length + 2 ≤ MAX_BUFFER_LEN := by
      rw [List.length_append, List.length_append] at hfit
      omega
    have hheld : p.mBuffer.take p.mIndex = u := by rw [hp.buffer, hp.index, List.take_left]
    have hbounded : p.Bounded := ⟨by rw [hp.index]; omega, .inl ⟨u, hp⟩⟩
    have hcs' : ∀ c' ∈ cs, c' ≠ [] := fun c' h => hcs c' (List.mem_cons_of_mem _ h)
    obtain ⟨hnone, hsome⟩ := hp.ParseData (hcs c (List.mem_cons_self ..)) (by omega)
    refine ⟨(inRange_iff hbounded c).mpr fun _ => ⟨hp.index ▸ hbc, fun _ => ?_⟩, fun _ => ?_⟩
    · rw [hheld]
      exact hline.before
    · cases hk : headerEnd (cstr (u ++ c)) with
      | none => exact ih (hnone hk).1 hcs' hfit hline
      | some k =>
        refine (hsome k hk).1.chunksInRange hcs' ?_
        rw [List.length_append, List.length_drop]
        rw [List.length_append] at hfit
        omega

end DataHttpParser

/-- **No access is out of range and the result does not depend on the chunks, just when** the first line
fits and each cut behind the blank line is `Settled`. -/
theorem chunking_iff (r : List Byte) (hr : r.length ≤ MAX_BUFFER_LEN - 2) (chunks : List (List Byte))
    (hchunks : ∀ c ∈ chunks, c ≠ []) (hflat : chunks.flatten = r) :
    (ChunksInRange new chunks ∧ (∀ a ∈ new.accesses r, a.InRange)) ∧
        result (parseChunks new chunks) = result (new.ParseData r) ↔
      r ≠ [] ∧ FirstLineFits r ∧ ∀ k, headerEnd (cstr r) = some k →
        ∀ j ∈ cuts 0 chunks, k ≤ j → j < r.length → Settled r k j := by
  have hfit : r.length + 2 ≤ MAX_BUFFER_LEN := by
    have : (2 : Nat) ≤ MAX_BUFFER_LEN := by decide
    omega
  by_cases hr0 : r = []
  · subst hr0
    exact ⟨fun h => absurd h.2 (result_ne_of_nil hchunks hflat), fun h => absurd rfl h.1⟩
  · have hflat' : r = [] ++ chunks.flatten := hflat.symm
    have hrange : ChunksInRange new chunks ∧ (∀ a ∈ new.accesses r, a.InRange) ↔ FirstLineFits r := by
      rw [new_inRange_iff hr0 hfit]
      refine ⟨And.right, fun hline => ⟨Holds.new.chunksInRange hchunks ?_ ?_, hline⟩⟩
      · exact hflat' ▸ hfit
      · exact hflat' ▸ hline
    rw [hrange, and_iff_right hr0]
    refine and_congr_right fun _ => ?_
    cases hk : headerEnd (cstr r) with
    | none =>
      exact ⟨fun _ k hk' => (by cases hk'),
        fun _ => result_of_none hr0 (by omega) hk hchunks hflat'⟩
    | some k =>
      have hpos : ([] : List Byte).length < k := Nat.lt_of_lt_of_le (by decide) (headerEnd_le hk).1
      obtain ⟨j0, hj0⟩ := parseChunks_some .new hchunks hflat' hfit hk hpos
      have hiff := hj0.result_iff (ParseData_stopped hr0 hfit hk) hk
      refine hiff.trans ⟨fun hall k' hk' => ?_, fun hall => hall k rfl⟩
      obtain rfl := Option.some.inj hk'
      exact hall

/-- a header cut before its blank line, and a body that is cut -/
theorem chunking_post :
    result (parseChunks new [ascii "POST / HTTP/1.1\r\nContent-Le", ascii "ngth: 3\r\n\r\n", ascii "ab",
      ascii "c"]) = result (new.ParseData (ascii "POST / HTTP/1.1\r\nContent-Length: 3\r\n\r\nabc")) := by
  refine ((chunking_iff _ (by decide) _ (by decide) (by decide)).mpr
    ⟨by decide, by decide, fun k hk j hj hkj hlt => ?_⟩).2
  obtain rfl : k = 38 := Option.some.inj (hk.symm.trans (by decide))
  have hj' : j = 27 ∨ j = 38 ∨ j = 40 ∨ j = 41 := by
    change j ∈ [27, 38, 40, 41] at hj
    simpa using hj
  have hlt' : j < 41 := hlt
  obtain rfl | rfl : j = 38 ∨ j = 40 := by omega
  · exact ⟨fun _ => by decide, by decide, by decide⟩
  · exact ⟨fun _ => by decide, by decide, by decide⟩

/-- **A line of the body** that comes with the header is recorded as a header, one that comes in a
chunk of its own is not. -/
theorem not_chunking : ¬ ∀ (r : List Byte) (chunks : List (List Byte)),
    r.length ≤ MAX_BUFFER_LEN - 2 → (∀ c ∈ chunks, c ≠ []) → chunks.flatten = r →
      result (parseChunks new chunks) = result (new.ParseData r) := by
  intro h
  have hresult := h (ascii "POST / HTTP/1.1\r\nContent-Length: 3\r\n\r\na\r\n")
    [ascii "POST / HTTP/1.1\r\nContent-Length: 3\r\n\r\n", ascii "a\r\n"]
    (by decide) (by decide) (by decide)
  exact absurd hresult (by decide +kernel)

end VncProxy
