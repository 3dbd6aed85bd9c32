import VncProxy.Http.Url

/-!
# A request that is printed and parsed

* `Asked`            a request of a browser, `Asked.bytes` what it sends, and `Asked.facts` what is in it;
* `Asked.WellFormed` the conditions on it;
* `headerEnd_bytes`  where the header ends, `read_back` what is read from any string that starts with it;
* `parseChunks_bytes`  the request in any chunks: no access is out of range, 0 for every chunk but the
                     last, and then all of it.
-/

namespace VncProxy

open DataHttpParser

/-- a `GET` or a `POST` with its header lines -/
structure Asked where
  bPost : Bool
  form : Form
  host : List Byte
  path : List Byte
  version : List Byte
  headers : List (List Byte)
  body : List Byte

namespace Asked

def method (a : Asked) : List Byte := if a.bPost then ascii "POST" else ascii "GET"

def target (a : Asked) : List Byte := a.form.target a.host a.path

def requestLine (a : Asked) : List Byte := a.method ++ 32 :: (a.target ++ 32 :: a.version)

def headerLines (l : List (List Byte)) : List Byte := l.flatMap (· ++ crlf) ++ crlf

def header (a : Asked) : List Byte := a.requestLine ++ (crlf ++ headerLines a.headers)

def bytes (a : Asked) : List Byte := a.header ++ a.body

def Clean (line : List Byte) : Prop := 0 ∉ line ∧ 13 ∉ line

instance (line : List Byte) : Decidable (Clean line) := inferInstanceAs (Decidable (_ ∧ _))

/-- one line names the host and one the length of the body, which there is none of where no line does -/
structure WellFormed (a : Asked) : Prop where
  path : a.form = .origin → ascii "/" <+: a.path
  space : 32 ∉ a.target
  requestLine : Clean a.requestLine
  headers : ∀ line ∈ a.headers, line ≠ [] ∧ Clean line ∧ Anchored line
  host : a.headers.filter (ascii "Host: " <+: ·) = [ascii "Host: " ++ a.host]
  length : (∃ v, a.headers.filter (ascii "Content-Length: " <+: ·) = [ascii "Content-Length: " ++ v] ∧
      atoi v = a.body.length) ∨
    a.headers.filter (ascii "Content-Length: " <+: ·) = [] ∧ a.body = []
  /-- the url names one scheme, and a path does not hold the host -/
  url : ¬ http <:+: a.host ++ a.path ∧ (a.form = .origin → ¬ a.host <:+: a.path)
  /-- a body that comes with the header is not to hold a line -/
  body : find crlf (cstr a.body) = none
  line : a.requestLine.length < 4096
  fits : a.bytes.length + 2 ≤ MAX_BUFFER_LEN

def contentLength (a : Asked) : Int := a.headers.foldl lengthField (-1)

def facts (a : Asked) : Facts where
  host := a.host
  path := cutScheme a.target
  contentLength := a.contentLength
  httpType := some (if a.bPost then .POST else .GET)
  headers := a.headers

/-! ## the blank line -/

theorem headerLines_cons (x : List Byte) (l : List (List Byte)) :
    headerLines (x :: l) = x ++ (crlf ++ headerLines l) := by
  unfold headerLines
  rw [List.flatMap_cons, List.append_assoc, List.append_assoc]

/-- a CRLF is no blank line where none comes behind it -/
theorem find_blank_crlf {rest : List Byte} (hrest : ¬ crlf <+: rest) :
    find blankLine (crlf ++ rest) = (find blankLine rest).map (· + 2) := by
  have hcr : ¬ blankLine.isPrefixOf (13 :: 10 :: rest) = true := by
    rw [List.isPrefixOf_iff_prefix]
    exact fun h => hrest (List.cons_prefix_cons.mp (List.cons_prefix_cons.mp h).2).2
  have hlf : ¬ blankLine.isPrefixOf (10 :: rest) = true := by
    rw [List.isPrefixOf_iff_prefix]
    exact fun h => absurd (List.cons_prefix_cons.mp h).1 (by decide)
  show find blankLine (13 :: 10 :: rest) = _
  rw [find_cons, if_neg hcr, find_cons, if_neg hlf, Option.map_map]
  rfl

theorem headerEnd_headerLines {line : List Byte} (hline : 13 ∉ line) {l : List (List Byte)}
    (hl : ∀ x ∈ l, x ≠ [] ∧ 13 ∉ x) (z : List Byte) :
    headerEnd (line ++ (crlf ++ (headerLines l ++ z)))
      = some (line ++ (crlf ++ headerLines l)).length := by
  induction l generalizing line with
  | nil =>
    have hstart : find blankLine (crlf ++ (headerLines [] ++ z)) = some 0 := find_start ⟨z, rfl⟩
    unfold headerEnd blankLine at *
    rw [find_skip _ hline, hstart, List.length_append]
    show some (0 + line.length + 4) = some (line.length + 4)
    rw [Nat.zero_add]
  | cons x l ih =>
    obtain ⟨⟨hx, hx13⟩, hl⟩ := List.forall_mem_cons.mp hl
    rw [headerLines_cons, List.append_assoc x, List.append_assoc crlf]
    have hrest : ¬ crlf <+: x ++ (crlf ++ (headerLines l ++ z)) := by
      obtain ⟨b, x, rfl⟩ := List.exists_cons_of_ne_nil hx
      exact fun h => hx13 ((List.cons_prefix_cons.mp h).1 ▸ List.mem_cons_self)
    obtain ⟨k, hk, hk4⟩ := Option.map_eq_some_iff.mp (ih hx13 hl)
    have hskip : find blankLine (line ++ (crlf ++ (x ++ (crlf ++ (headerLines l ++ z)))))
        = some (k + 2 + line.length) := by
      have hcrlf := find_blank_crlf hrest
      rw [hk] at hcrlf
      unfold blankLine at hcrlf ⊢
      rw [find_skip _ hline, hcrlf]
      rfl
    unfold headerEnd
    rw [hskip]
    show some (k + 2 + line.length + 4) = _
    have hlen : (line ++ (crlf ++ (x ++ (crlf ++ headerLines l)))).length = line.length + (2 + (k + 4)) := by
      rw [hk4, List.length_append, List.length_append]
      rfl
    rw [hlen]
    exact congrArg some (by omega)

section
variable {a : Asked}

/-- **The header ends with its blank line**, whatever comes behind. -/
theorem headerEnd_header (ha : a.WellFormed) (z : List Byte) :
    headerEnd (a.header ++ z) = some a.header.length := by
  unfold header
  rw [List.append_assoc, List.append_assoc]
  exact headerEnd_headerLines ha.requestLine.2
    (fun line hline => ⟨(ha.headers line hline).1, (ha.headers line hline).2.1.2⟩) z

theorem nul_header (ha : a.WellFormed) : 0 ∉ a.header := by
  unfold header headerLines
  have hcrlf : (0 : Byte) ∉ crlf := by decide
  simp only [List.mem_append, List.mem_flatMap, not_or, not_exists, not_and]
  exact ⟨ha.requestLine.1, hcrlf, fun line hline => ⟨(ha.headers line hline).2.1.1, hcrlf⟩, hcrlf⟩

theorem cstr_header (ha : a.WellFormed) (z : List Byte) : cstr (a.header ++ z) = a.header ++ cstr z :=
  cstr_append (nul_header ha) z

/-! ## what is read -/

theorem find_crlf_clean {line : List Byte} (hline : 13 ∉ line) (z : List Byte) :
    find crlf (line ++ (crlf ++ z)) = some line.length := by
  unfold crlf
  rw [find_skip _ hline, find_start ⟨z, rfl⟩]
  exact congrArg some (Nat.zero_add _)

theorem drop_line (line z : List Byte) : (line ++ (crlf ++ z)).drop (line.length + 2) = z := by
  rw [← List.drop_drop, List.drop_left]
  rfl

theorem lines_headerLines {l : List (List Byte)} (hl : ∀ x ∈ l, 13 ∉ x) {z : List Byte}
    (hz : find crlf z = none) : lines (headerLines l ++ z) = l ++ [[]] := by
  induction l with
  | nil =>
    have hlast : lines z = [] := by
      unfold lines
      cases z with
      | nil => rfl
      | cons b z =>
        rw [List.length_cons, linesOf, hz]
    show lines ([] ++ (crlf ++ z)) = _
    rw [lines_cut (find_crlf_clean List.not_mem_nil z)]
    exact congrArg (List.cons []) hlast
  | cons x l ih =>
    obtain ⟨hx, hl⟩ := List.forall_mem_cons.mp hl
    rw [headerLines_cons, List.append_assoc x, List.append_assoc crlf,
      lines_cut (find_crlf_clean hx _), List.take_left, drop_line, ih hl]
    rfl

theorem lines_header (ha : a.WellFormed) {z : List Byte} (hz : find crlf z = none) :
    firstLine (a.header ++ z) = a.requestLine ∧ fields (a.header ++ z) = a.headers := by
  have hfound : find crlf (a.header ++ z) = some a.requestLine.length := by
    unfold header
    rw [List.append_assoc, List.append_assoc]
    exact find_crlf_clean ha.requestLine.2 _
  have hdrop : (a.header ++ z).drop (a.requestLine.length + 2) = headerLines a.headers ++ z := by
    unfold header
    rw [List.append_assoc, List.append_assoc crlf, drop_line]
  constructor
  · unfold firstLine
    rw [hfound]
    unfold header
    exact (List.take_append_of_le_length (by rw [List.length_append]; omega)).trans List.take_left
  · unfold fields fieldLines
    rw [hfound]
    dsimp only
    rw [hdrop, lines_headerLines (fun x hx => (ha.headers x hx).2.1.2) hz, List.filter_append]
    have hall : ∀ line ∈ a.headers, decide (line ≠ []) = true := fun line hline =>
      decide_eq_true (ha.headers line hline).1
    rw [List.filter_eq_self.mpr hall]
    exact List.append_nil _

theorem foldl_named {β : Type} {name : List Byte} (f : List Byte → β) {l : List (List Byte)} {v : List Byte}
    (hl : l.filter (name <+: ·) = [name ++ v]) (x : β) :
    l.foldl (fun x line => if name <+: line then f (line.drop name.length) else x) x = f v := by
  have hfilter : (l.filter fun line => decide (name <+: line)).foldl
      (fun _ line => f (line.drop name.length)) x = _ := List.foldl_filter
  rw [hl] at hfilter
  simp only [decide_eq_true_eq] at hfilter
  rw [← hfilter]
  show f ((name ++ v).drop name.length) = f v
  rw [List.drop_left]

theorem named_host (ha : a.WellFormed) : a.headers.foldl hostField [] = a.host := by
  have hline : ∀ host line, line ∈ a.headers → hostField host line =
      if ascii "Host: " <+: line then id (line.drop (ascii "Host: ").length) else host :=
    fun host line hline => (ha.headers line hline).2.2.hostField host
  exact (List.foldl_ext _ _ _ hline).trans (foldl_named id ha.host [])

theorem named_length (ha : a.WellFormed) :
    a.contentLength = a.body.length ∨ a.contentLength = -1 ∧ a.body = [] := by
  have hline : ∀ n line, line ∈ a.headers → lengthField n line =
      if ascii "Content-Length: " <+: line then atoi (line.drop (ascii "Content-Length: ").length) else n :=
    fun n line hline => (ha.headers line hline).2.2.lengthField n
  unfold contentLength
  rw [List.foldl_ext _ _ _ hline]
  rcases ha.length with ⟨v, hv, hlen⟩ | ⟨hnone, hbody⟩
  · exact .inl ((foldl_named atoi hv (-1)).trans hlen)
  · refine .inr ⟨?_, hbody⟩
    rw [List.filter_eq_nil_iff] at hnone
    have hkeep : ∀ n line, line ∈ a.headers →
        (if ascii "Content-Length: " <+: line then atoi (line.drop (ascii "Content-Length: ").length)
          else n) = n := fun n line hline => if_neg fun h => hnone line hline (decide_eq_true h)
    rw [List.foldl_ext _ _ _ hkeep, List.foldl_fixed]

theorem tokens (ha : a.WellFormed) :
    strtok 32 a.requestLine = a.method :: a.target :: strtok 32 a.version := by
  have htarget : a.target ≠ [] := by
    unfold target
    cases hform : a.form with
    | origin =>
      obtain ⟨rest, hrest⟩ := ha.path hform
      exact fun h => List.cons_ne_nil _ _ (hrest.trans h)
    | absolute => exact List.cons_ne_nil _ _
  have hmethod : a.method ≠ [] ∧ 32 ∉ a.method := by
    unfold method
    split <;> exact ⟨by decide, by decide⟩
  unfold requestLine
  rw [strtok_append hmethod.1 hmethod.2, strtok_append htarget ha.space]

/-- **What is read of the header** is what was printed, in whatever string it comes with that has no line
behind it. -/
theorem read_back (ha : a.WellFormed) {z : List Byte} (hz : find crlf z = none) :
    read (a.header ++ z) = a.facts := by
  obtain ⟨hfirst, hfields⟩ := lines_header ha hz
  have hcrlf : find crlf (a.header ++ z) ≠ none := find_crlf_of_headerEnd (headerEnd_header ha z)
  have htokens := tokens ha
  have hserved : served a.requestLine = true := by
    unfold served
    rw [htokens]
    unfold method
    cases a.bPost <;> rfl
  have hlines : readLines (a.header ++ z) = a.headers := by
    unfold readLines
    rw [hfirst, if_pos hserved, hfields]
  obtain ⟨hpath, htype⟩ := read_tokens hcrlf (hfirst.symm ▸ htokens)
  have htype' : (new.parseType a.method).1.mHttpType = some (if a.bPost then .POST else .GET) := by
    unfold method
    cases a.bPost <;> decide
  show Facts.mk (read _).host (read _).path (read _).contentLength (read _).httpType (read _).headers = _
  rw [read_host hcrlf, hpath, read_length hcrlf, htype.trans htype', read_headers hcrlf, hlines,
    named_host ha]
  rfl

/-! ## in chunks -/

theorem parseChunks_behind (ha : a.WellFormed) {cs : List (List Byte)} (hcs : ∀ c ∈ cs, c ≠ [])
    (hstart : cs.flatten <+: a.bytes) (hk : a.header.length ≤ cs.flatten.length) :
    Stopped (parseChunks new cs) a.facts (cs.flatten.drop a.header.length) := by
  have hsplit : ∀ r, r <+: a.bytes → a.header.length ≤ r.length →
      ∃ z, r = a.header ++ z ∧ z <+: a.body := by
    intro r hr hle
    obtain ⟨z, rfl⟩ := List.prefix_of_prefix_length_le (List.prefix_append _ _) hr hle
    exact ⟨z, rfl, (List.prefix_append_right_inj _).mp hr⟩
  -- the header is read with the same facts wherever a chunk ends behind it
  have hread : ∀ r, r <+: a.bytes → a.header.length ≤ r.length → read (cstr r) = a.facts := by
    intro r hr hle
    obtain ⟨z, rfl, hz⟩ := hsplit r hr hle
    rw [cstr_header ha]
    refine read_back ha (find_eq_none.mpr fun hin => find_eq_none.mp ha.body (hin.trans ?_))
    obtain ⟨w, hw⟩ := hz
    have hbegins := cstr_append_prefix z w
    exact hw ▸ hbegins.isInfix
  obtain ⟨z, hr, hz⟩ := hsplit _ hstart hk
  have hkc : headerEnd (cstr cs.flatten) = some a.header.length := by
    rw [hr, cstr_header ha]
    exact headerEnd_header ha _
  have hfit : cs.flatten.length + 2 ≤ MAX_BUFFER_LEN :=
    (Nat.add_le_add_right hstart.length_le 2).trans ha.fits
  have hpos : ([] : List Byte).length < a.header.length :=
    Nat.lt_of_lt_of_le (by decide) (headerEnd_le hkc).1
  obtain ⟨j0, hj0⟩ := parseChunks_some .new hcs (List.nil_append _).symm hfit hkc hpos
  obtain ⟨body, hstop, hbody⟩ := hj0.stopped
  have hfacts : read (cstr (cs.flatten.take j0)) = a.facts := by
    refine hread _ ((List.take_prefix _ _).trans hstart) ?_
    rw [List.length_take]
    exact Nat.le_min.mpr ⟨hj0.le, hk⟩
  rw [hfacts] at hstop hbody
  obtain rfl := hbody.mpr fun j _ hkj hlt hdone => by
    have hzlen : cs.flatten.length = a.header.length + z.length := by
      rw [hr, List.length_append]
    have hzle := hz.length_le
    rcases named_length ha with hlen | ⟨-, hnil⟩
    · rcases hdone with h1 | h2
      · have : a.facts.contentLength = a.body.length := hlen
        omega
      · have : a.facts.contentLength = a.body.length := hlen
        omega
    · rw [hnil] at hzle
      have : ([] : List Byte).length = 0 := rfl
      omega
  exact hstop

theorem parseChunks_part (ha : a.WellFormed) {cs : List (List Byte)} (hcs : ∀ c ∈ cs, c ≠ [])
    (hstart : cs.flatten <+: a.bytes) (hlt : cs.flatten.length < a.bytes.length) :
    (parseChunks new cs).2 = 0 := by
  have hbytes : a.bytes.length = a.header.length + a.body.length := List.length_append
  by_cases hk : a.header.length ≤ cs.flatten.length
  · rw [(parseChunks_behind ha hcs hstart hk).ret, if_neg]
    intro hdone
    rw [List.length_drop] at hdone
    rcases named_length ha with hlen | ⟨-, hnil⟩
    · have hfacts : a.facts.contentLength = a.body.length := hlen
      unfold Facts.Done at hdone
      omega
    · rw [hnil, List.length_nil] at hbytes
      omega
  · have hnone : headerEnd (cstr cs.flatten) = none := by
      by_contra hsome
      obtain ⟨k, hk'⟩ := Option.ne_none_iff_exists'.mp hsome
      obtain ⟨v, hv⟩ := hstart
      have hheader : headerEnd (cstr a.bytes) = some a.header.length := by
        unfold bytes
        rw [cstr_header ha]
        exact headerEnd_header ha _
      have hwhole := headerEnd_cstr_append (v := v) hk'
      rw [hv, hheader] at hwhole
      have hle := (headerEnd_le hk').2.trans (cstr_le _).length_le
      rw [← Option.some.inj hwhole] at hle
      exact hk hle
    refine (parseChunks_none .new hcs ?_ hnone).2
    exact hstart.length_le.trans ((Nat.le_add_right _ 2).trans ha.fits)

theorem GetUrl_facts (ha : a.WellFormed) {p : DataHttpParser} (hp : p.facts = a.facts) :
    p.GetUrl = http ++ (a.host ++ a.path) := by
  have htype : p.mHttpType = some (if a.bPost then .POST else .GET) := congrArg Facts.httpType hp
  have hhost : p.mHost = a.host := congrArg Facts.host hp
  have hpath : p.mPath = cutScheme a.target := congrArg Facts.path hp
  have hnot : p.mHttpType ≠ some .CONNECT := by
    rw [htype]
    cases a.bPost <;> decide
  rw [GetUrl_eq hnot, hhost, hpath]
  have hok := (Form.ok_self a.form a.host a.path).mpr ha.url
  unfold target
  cases hform : a.form with
  | origin =>
    have hne : a.host ≠ [] := fun h => ha.url.2 hform (h ▸ List.nil_infix)
    rw [hform] at hok
    exact (origin_iff _ _ hne).mpr hok
  | absolute =>
    rw [hform] at hok
    exact (absolute_iff _ _ _).mpr hok

theorem chunksInRange_bytes (ha : a.WellFormed) {cs : List (List Byte)} (hcs : ∀ c ∈ cs, c ≠ [])
    (hflat : cs.flatten = a.bytes) : ChunksInRange new cs := by
  refine Holds.new.chunksInRange hcs ?_ fun _ => ?_
  · rw [List.nil_append, hflat]
    exact ha.fits
  · have hcrlf : find crlf a.header ≠ none := by
      have hend := find_crlf_of_headerEnd (headerEnd_header ha [])
      rwa [List.append_nil] at hend
    have hline := (lines_header ha (z := []) rfl).1
    rw [List.append_nil] at hline
    rw [List.nil_append, hflat]
    unfold bytes
    rw [cstr_header ha, firstLine_append _ hcrlf, hline]
    exact ha.line

/-- **Print and parse**, in whatever chunks: no access is out of range, nothing is complete before the last
of them, and then method, url, headers and body are those that were asked for. -/
theorem parseChunks_bytes (ha : a.WellFormed) {cs : List (List Byte)} (hcs : ∀ c ∈ cs, c ≠ [])
    (hflat : cs.flatten = a.bytes) :
    ChunksInRange new cs ∧ (∀ i < cs.length, (parseChunks new (cs.take i)).2 = 0) ∧
      (parseChunks new cs).2 = 1 ∧ (parseChunks new cs).1.facts = a.facts ∧
      (parseChunks new cs).1.mBuffer.take (parseChunks new cs).1.mIndex = a.body := by
  have hbehind : cs.flatten.drop a.header.length = a.body := by
    rw [hflat]
    exact List.drop_left
  have hle : a.header.length ≤ cs.flatten.length := by
    rw [hflat]
    exact (List.prefix_append _ _).length_le
  have hstop := parseChunks_behind ha hcs (hflat ▸ List.prefix_rfl) hle
  rw [hbehind] at hstop
  refine ⟨chunksInRange_bytes ha hcs hflat, fun i hi => ?_, ?_, hstop.reads.facts, hstop.body⟩
  · have hsplit : (cs.take i).flatten ++ (cs.drop i).flatten = a.bytes := by
      rw [← List.flatten_append, List.take_append_drop, hflat]
    have hrest : 0 < (cs.drop i).flatten.length := by
      obtain ⟨c, l, hl⟩ := List.exists_cons_of_length_pos
        (show 0 < (cs.drop i).length by rw [List.length_drop]; omega)
      have hc : c ≠ [] := hcs c (List.mem_of_mem_drop (hl ▸ List.mem_cons_self))
      rw [hl, List.flatten_cons, List.length_append]
      exact Nat.add_pos_left (List.length_pos_iff.mpr hc) _
    refine parseChunks_part ha (fun c hc => hcs c (List.mem_of_mem_take hc)) ⟨_, hsplit⟩ ?_
    rw [← hsplit, List.length_append]
    omega
  · rw [hstop.ret, if_pos]
    rcases named_length ha with hlen | ⟨hnone, -⟩
    · exact .inr hlen.symm
    · exact .inl hnone

end

end Asked

end VncProxy
