import VncProxy.Http.Request

/-!
# What `DataHttpParser` keeps of the bytes it is given

* `Facts`          what the parser has read from the header;
* `readLines`      the lines it has read, which decide host, headers and length;
* `Holds`, `Reads` the parser before and behind the blank line, computed from the bytes alone;
* `Holds.ParseData`, `Reads.ParseData`  what one call makes of them.
-/

namespace VncProxy

/-! ## the header -/

structure Facts where
  host : List Byte
  path : List Byte
  contentLength : Int
  httpType : Option HttpType
  headers : List (List Byte)
deriving DecidableEq

/-- the whole body has come, or no header names its length -/
def Facts.Done (f : Facts) (n : Nat) : Prop := f.contentLength = -1 ∨ (n : Int) = f.contentLength

instance (f : Facts) (n : Nat) : Decidable (f.Done n) := inferInstanceAs (Decidable (_ ∨ _))

/-- the first line starts with a method the parser knows, or has no word -/
def served (line : List Byte) : Bool :=
  match strtok 32 line with
  | [] => true
  | type :: _ => type = ascii "GET" || type = ascii "POST" || type = ascii "CONNECT"

/-- what a line says to the parser about the length of the body -/
def lengthField (n : Int) (line : List Byte) : Int :=
  match find (ascii "Content-Length: ") line with
  | some pos => atoi (line.drop (pos + 16))
  | none => n

/-- the length it reads last, -1 if it reads none -/
def namedLength (l : List (List Byte)) : Int := l.foldl lengthField (-1)

/-- the lines behind the first that are recorded as headers -/
def fields (headers : List Byte) : List (List Byte) := (fieldLines headers).filter (· ≠ [])

namespace DataHttpParser

def facts (p : DataHttpParser) : Facts :=
  ⟨p.mHost, p.mPath, p.miContentLength, p.mHttpType, p.mHeaders⟩

/-- the part of `ParseHeaderPart` that reads the header -/
def readHeader (p : DataHttpParser) (headers : List Byte) : DataHttpParser :=
  match find crlf headers with
  | none => p
  | some pos =>
    let (p, bFlag) := p.ParseFirstLine (headers.take pos)
    if bFlag then ParseHeaders headers.length p (headers.drop (pos + 2)) else p

theorem ParseHeaderPart_eq (p : DataHttpParser) : p.ParseHeaderPart =
    match headerEnd (cstr p.mBuffer) with
    | none => p
    | some k => ({ p with mbReceiveHeaderFinish := true }.readHeader (cstr p.mBuffer)).moveBody k := by
  unfold ParseHeaderPart headerEnd
  show (match find blankLine (cstr p.mBuffer) with | none => p | some blank => _) = _
  cases find blankLine (cstr p.mBuffer) with
  | none => rfl
  | some blank => rfl

theorem ParseHeaders_lines (n : Nat) (p : DataHttpParser) (headers : List Byte) :
    ParseHeaders n p headers = (linesOf n headers).foldl parseHeader p := by
  induction n generalizing p headers with
  | zero => rfl
  | succ n ih =>
    unfold ParseHeaders linesOf
    show (match find crlf headers with | none => p | some pos => _) = _
    cases find crlf headers with
    | none => rfl
    | some pos => exact ih _ _

theorem foldl_parseHeader (p : DataHttpParser) (l : List (List Byte)) :
    l.foldl parseHeader p = (l.filter (· ≠ [])).foldl parseHeader p := by
  induction l generalizing p with
  | nil => rfl
  | cons line l ih =>
    by_cases hline : line = []
    · subst hline
      exact ih p
    · rw [List.filter_cons_of_pos (by simpa using hline)]
      exact ih _

theorem ParseFirstLine_served (p : DataHttpParser) (line : List Byte) :
    (p.ParseFirstLine line).2 = served line := by
  have htype : ∀ type, (p.parseType type).2
      = (type = ascii "GET" || type = ascii "POST" || type = ascii "CONNECT") := by
    intro type
    unfold parseType
    split
    · next h => simp [h]
    · next h1 =>
      split
      · next h => simp [h]
      · next h2 =>
        split
        · next h => simp [h]
        · next h3 => simp [h1, h2, h3]
  unfold ParseFirstLine served
  cases strtok 32 line with
  | nil => rfl
  | cons type l =>
    cases l with
    | nil => exact htype type
    | cons path l => exact htype type

theorem readHeader_eq {headers : List Byte} (p : DataHttpParser)
    (hcrlf : find crlf headers ≠ none) : p.readHeader headers =
    (if served (firstLine headers) then fields headers else []).foldl parseHeader
      (p.ParseFirstLine (firstLine headers)).1 := by
  unfold readHeader fields fieldLines firstLine
  cases hf : find crlf headers with
  | none => exact absurd hf hcrlf
  | some pos =>
    have hle : pos + 2 ≤ headers.length := find_le hf
    dsimp only
    rw [ParseFirstLine_served]
    split
    · rw [ParseHeaders_lines, foldl_parseHeader, lines,
        linesOf_fuel (n := headers.length) (by rw [List.length_drop]; omega) (Nat.le_refl _)]
    · rfl

/-! ### what reading the header changes -/

structure SameBytes (p q : DataHttpParser) : Prop where
  buffer : q.mBuffer = p.mBuffer
  index : q.mIndex = p.mIndex
  finish : q.mbReceiveHeaderFinish = p.mbReceiveHeaderFinish

theorem SameBytes.trans {p q r : DataHttpParser} (h : SameBytes p q) (h' : SameBytes q r) :
    SameBytes p r :=
  ⟨h'.buffer.trans h.buffer, h'.index.trans h.index, h'.finish.trans h.finish⟩

theorem sameBytes_parseType (p : DataHttpParser) (type : List Byte) :
    SameBytes p (p.parseType type).1 := by
  unfold parseType
  split
  · exact ⟨rfl, rfl, rfl⟩
  · split
    · exact ⟨rfl, rfl, rfl⟩
    · split <;> exact ⟨rfl, rfl, rfl⟩

theorem sameBytes_parsePath (p : DataHttpParser) (path : List Byte) :
    SameBytes p (p.parsePath path) := by
  unfold parsePath
  split <;> exact ⟨rfl, rfl, rfl⟩

theorem sameBytes_ParseFirstLine (p : DataHttpParser) (line : List Byte) :
    SameBytes p (p.ParseFirstLine line).1 := by
  unfold ParseFirstLine
  cases strtok 32 line with
  | nil => exact ⟨rfl, rfl, rfl⟩
  | cons type l =>
    cases l with
    | nil => exact sameBytes_parseType p type
    | cons path l => exact (sameBytes_parseType p type).trans (sameBytes_parsePath _ path)

theorem sameBytes_parseHeader (p : DataHttpParser) (header : List Byte) :
    SameBytes p (p.parseHeader header) := by
  unfold parseHeader
  split
  · exact ⟨rfl, rfl, rfl⟩
  · cases find (ascii "Host: ") header <;> cases find (ascii "Content-Length: ") header <;>
      exact ⟨rfl, rfl, rfl⟩

theorem sameBytes_headers (p : DataHttpParser) (l : List (List Byte)) :
    SameBytes p (l.foldl parseHeader p) := by
  induction l generalizing p with
  | nil => exact ⟨rfl, rfl, rfl⟩
  | cons header l ih => exact (sameBytes_parseHeader p header).trans (ih _)

/-! ### it does not look at the bytes the parser holds -/

theorem facts_parseType {p q : DataHttpParser} (h : p.facts = q.facts) (type : List Byte) :
    (p.parseType type).1.facts = (q.parseType type).1.facts := by
  obtain ⟨hhost, hpath, hlen, -, hheaders⟩ := Facts.mk.inj h
  have hset : ∀ t, ({ p with mHttpType := t } : DataHttpParser).facts =
      ({ q with mHttpType := t } : DataHttpParser).facts := by
    intro t
    show Facts.mk .. = Facts.mk ..
    rw [hhost, hpath, hlen, hheaders]
  unfold parseType
  split
  · exact hset _
  · split
    · exact hset _
    · split
      · exact hset _
      · exact h

theorem facts_parsePath {p q : DataHttpParser} (h : p.facts = q.facts) (path : List Byte) :
    (p.parsePath path).facts = (q.parsePath path).facts := by
  obtain ⟨hhost, -, hlen, htype, hheaders⟩ := Facts.mk.inj h
  have hset : ∀ w, ({ p with mPath := w } : DataHttpParser).facts =
      ({ q with mPath := w } : DataHttpParser).facts := by
    intro w
    show Facts.mk .. = Facts.mk ..
    rw [hhost, hlen, htype, hheaders]
  unfold parsePath
  split
  · exact hset _
  · exact hset _

theorem facts_ParseFirstLine {p q : DataHttpParser} (h : p.facts = q.facts) (line : List Byte) :
    (p.ParseFirstLine line).1.facts = (q.ParseFirstLine line).1.facts := by
  unfold ParseFirstLine
  cases strtok 32 line with
  | nil => exact h
  | cons type l =>
    cases l with
    | nil => exact facts_parseType h type
    | cons path l => exact facts_parsePath (facts_parseType h type) path

theorem facts_parseHeader {p q : DataHttpParser} (h : p.facts = q.facts) (header : List Byte) :
    (p.parseHeader header).facts = (q.parseHeader header).facts := by
  obtain ⟨hhost, hpath, hlen, htype, hheaders⟩ := Facts.mk.inj h
  unfold parseHeader
  split
  · exact h
  · cases find (ascii "Host: ") header <;> cases find (ascii "Content-Length: ") header <;>
      (show Facts.mk .. = Facts.mk ..) <;> simp only [hhost, hpath, hlen, htype, hheaders]

theorem facts_headers {p q : DataHttpParser} (h : p.facts = q.facts) (l : List (List Byte)) :
    (l.foldl parseHeader p).facts = (l.foldl parseHeader q).facts := by
  induction l generalizing p q with
  | nil => exact h
  | cons header l ih => exact ih (facts_parseHeader h header)

/-! ### the headers and the length -/

theorem parseHeader_headers (p : DataHttpParser) {header : List Byte} (h : header ≠ []) :
    (p.parseHeader header).mHeaders = p.mHeaders ++ [header] := by
  unfold parseHeader
  rw [if_neg h]
  cases find (ascii "Host: ") header <;> cases find (ascii "Content-Length: ") header <;> rfl

theorem parseHeader_length (p : DataHttpParser) {header : List Byte} (h : header ≠ []) :
    (p.parseHeader header).miContentLength = lengthField p.miContentLength header := by
  unfold parseHeader lengthField
  rw [if_neg h]
  cases find (ascii "Host: ") header <;> cases find (ascii "Content-Length: ") header <;> rfl

/-- what a line says about the host -/
def hostField (host : List Byte) (line : List Byte) : List Byte :=
  match find (ascii "Host: ") line with
  | some pos => line.drop (pos + 6)
  | none => host

theorem parseHeader_host (p : DataHttpParser) {header : List Byte} (h : header ≠ []) :
    (p.parseHeader header).mHost = hostField p.mHost header := by
  unfold parseHeader hostField
  rw [if_neg h]
  cases find (ascii "Host: ") header <;> cases find (ascii "Content-Length: ") header <;> rfl

theorem headers_field {β : Type} (f : DataHttpParser → β) (g : β → List Byte → β)
    (hg : ∀ p {line}, line ≠ [] → f (p.parseHeader line) = g (f p) line) (p : DataHttpParser)
    {l : List (List Byte)} (hl : ∀ line ∈ l, line ≠ []) :
    f (l.foldl parseHeader p) = l.foldl g (f p) := by
  induction l generalizing p with
  | nil => rfl
  | cons line l ih =>
    rw [List.foldl_cons, List.foldl_cons, ih _ fun line' h => hl line' (List.mem_cons_of_mem _ h),
      hg p (hl line (List.mem_cons_self ..))]

theorem headers_headers (p : DataHttpParser) {l : List (List Byte)} (hl : ∀ line ∈ l, line ≠ []) :
    (l.foldl parseHeader p).mHeaders = p.mHeaders ++ l := by
  rw [headers_field (·.mHeaders) (fun headers line => headers ++ [line]) parseHeader_headers p hl,
    List.foldl_append_eq_append, ← List.flatMap_def, List.flatMap_singleton']

theorem headers_length (p : DataHttpParser) {l : List (List Byte)} (hl : ∀ line ∈ l, line ≠ []) :
    (l.foldl parseHeader p).miContentLength = l.foldl lengthField p.miContentLength :=
  headers_field (·.miContentLength) lengthField parseHeader_length p hl

theorem headers_host (p : DataHttpParser) {l : List (List Byte)} (hl : ∀ line ∈ l, line ≠ []) :
    (l.foldl parseHeader p).mHost = l.foldl hostField p.mHost :=
  headers_field (·.mHost) hostField parseHeader_host p hl

theorem ParseFirstLine_headers (p : DataHttpParser) (line : List Byte) :
    (p.ParseFirstLine line).1.mHeaders = p.mHeaders ∧ (p.ParseFirstLine line).1.mHost = p.mHost ∧
      (p.ParseFirstLine line).1.miContentLength = p.miContentLength := by
  have htype : ∀ type, (p.parseType type).1.mHeaders = p.mHeaders ∧
      (p.parseType type).1.mHost = p.mHost ∧
        (p.parseType type).1.miContentLength = p.miContentLength := by
    intro type
    unfold parseType
    split
    · exact ⟨rfl, rfl, rfl⟩
    · split
      · exact ⟨rfl, rfl, rfl⟩
      · split <;> exact ⟨rfl, rfl, rfl⟩
  have hpath : ∀ (q : DataHttpParser) path, (q.parsePath path).mHeaders = q.mHeaders ∧
      (q.parsePath path).mHost = q.mHost ∧ (q.parsePath path).miContentLength = q.miContentLength := by
    intro q path
    unfold parsePath
    split <;> exact ⟨rfl, rfl, rfl⟩
  unfold ParseFirstLine
  cases strtok 32 line with
  | nil => exact ⟨rfl, rfl, rfl⟩
  | cons type l =>
    cases l with
    | nil => exact htype type
    | cons path l =>
      obtain ⟨h1, h2, h3⟩ := hpath (p.parseType type).1 path
      exact ⟨h1.trans (htype type).1, h2.trans (htype type).2.1, h3.trans (htype type).2.2⟩

def read (headers : List Byte) : Facts := (new.readHeader headers).facts

theorem readHeader_sameBytes {p : DataHttpParser} {headers : List Byte}
    (hcrlf : find crlf headers ≠ none) : SameBytes p (p.readHeader headers) := by
  rw [readHeader_eq p hcrlf]
  exact (sameBytes_ParseFirstLine p _).trans (sameBytes_headers _ _)

theorem readHeader_facts {p : DataHttpParser} (hp : p.facts = new.facts) {headers : List Byte}
    (hcrlf : find crlf headers ≠ none) : (p.readHeader headers).facts = read headers := by
  unfold read
  rw [readHeader_eq p hcrlf, readHeader_eq new hcrlf]
  exact facts_headers (facts_ParseFirstLine hp _) _

theorem mem_fields {headers line : List Byte} (h : line ∈ fields headers) : line ≠ [] := by
  simpa using (List.mem_filter.mp h).2

/-- the lines that are read: none behind a first line that is not served -/
def readLines (headers : List Byte) : List (List Byte) :=
  if served (firstLine headers) then fields headers else []

theorem mem_readLines {headers line : List Byte} (h : line ∈ readLines headers) : line ≠ [] := by
  unfold readLines at h
  split at h
  · exact mem_fields h
  · cases h

theorem read_host {headers : List Byte} (hcrlf : find crlf headers ≠ none) :
    (read headers).host = (readLines headers).foldl hostField [] := by
  show (new.readHeader headers).mHost = _
  rw [readHeader_eq new hcrlf]
  show ((readLines headers).foldl parseHeader _).mHost = _
  rw [headers_host _ fun _ => mem_readLines, (ParseFirstLine_headers new _).2.1]
  rfl

theorem read_headers {headers : List Byte} (hcrlf : find crlf headers ≠ none) :
    (read headers).headers = readLines headers := by
  show (new.readHeader headers).mHeaders = _
  rw [readHeader_eq new hcrlf]
  show ((readLines headers).foldl parseHeader _).mHeaders = _
  rw [headers_headers _ fun _ => mem_readLines, (ParseFirstLine_headers new _).1]
  rfl

theorem read_length {headers : List Byte} (hcrlf : find crlf headers ≠ none) :
    (read headers).contentLength = (readLines headers).foldl lengthField (-1) := by
  show (new.readHeader headers).miContentLength = _
  rw [readHeader_eq new hcrlf]
  show ((readLines headers).foldl parseHeader _).miContentLength = _
  rw [headers_length _ fun _ => mem_readLines, (ParseFirstLine_headers new _).2.2]
  rfl

theorem read_contentLength {headers : List Byte} (hcrlf : find crlf headers ≠ none) :
    (read headers).contentLength =
      if served (firstLine headers) then namedLength (fieldLines headers) else -1 := by
  have hempty : ∀ l : List (List Byte), ∀ n, (l.filter (· ≠ [])).foldl lengthField n
      = l.foldl lengthField n := by
    intro l
    induction l with
    | nil => exact fun n => rfl
    | cons line l ih =>
      intro n
      by_cases hline : line = []
      · subst hline
        exact ih n
      · rw [List.filter_cons_of_pos (by simpa using hline)]
        exact ih _
  rw [read_length hcrlf]
  unfold readLines
  split
  · exact hempty _ _
  · rfl

/-- it is decided by the first line and the headers that are recorded -/
theorem read_congr {s t : List Byte} (hs : find crlf s ≠ none) (ht : find crlf t ≠ none)
    (hfirst : firstLine s = firstLine t)
    (hfields : served (firstLine t) = true → fields s = fields t) : read s = read t := by
  unfold read
  rw [readHeader_eq new hs, readHeader_eq new ht, hfirst]
  split
  · next h => rw [hfields h]
  · rfl

/-! ## the bytes -/

/-- the parser before the blank line, after the bytes `u` -/
structure Holds (p : DataHttpParser) (u : List Byte) : Prop where
  finish : p.mbReceiveHeaderFinish = false
  facts : p.facts = new.facts
  index : p.mIndex = u.length
  buffer : p.mBuffer = u ++ List.replicate (MAX_BUFFER_LEN - u.length) 0

/-- the parser behind the blank line, after the bytes `body` -/
structure Reads (p : DataHttpParser) (f : Facts) (body : List Byte) : Prop where
  finish : p.mbReceiveHeaderFinish = true
  facts : p.facts = f
  index : p.mIndex = body.length
  buffer : p.mBuffer.take body.length = body

theorem Holds.new : Holds new [] := ⟨rfl, rfl, rfl, rfl⟩

theorem Reads.complete {p : DataHttpParser} {f : Facts} {body : List Byte} (hp : Reads p f body) :
    p.complete = true ↔ f.Done body.length := by
  unfold DataHttpParser.complete Facts.Done
  rw [hp.finish, hp.index, ← hp.facts, Bool.true_and, Bool.or_eq_true, decide_eq_true_iff,
    decide_eq_true_iff]
  rfl

theorem Holds.store {p : DataHttpParser} {u c : List Byte} (hp : Holds p u)
    (hfit : p.mIndex + c.length ≤ MAX_BUFFER_LEN) : Holds (p.store c hfit) (u ++ c) where
  finish := by
    unfold DataHttpParser.store
    dsimp only
    rw [hp.finish, ite_self]
  facts := hp.facts
  index := by
    rw [List.length_append, ← hp.index]
    rfl
  buffer := by
    have hlen : u.length + c.length ≤ MAX_BUFFER_LEN := hp.index ▸ hfit
    show (memcpy p.mBuffer p.mIndex c).set (p.mIndex + c.length + 1) 0 = _
    have hcpy : memcpy p.mBuffer p.mIndex c
        = (u ++ c) ++ List.replicate (MAX_BUFFER_LEN - (u ++ c).length) 0 := by
      unfold memcpy
      rw [hp.buffer, hp.index, List.take_left, List.drop_append, List.drop_replicate,
        List.drop_eq_nil_of_le (by omega), List.nil_append, List.length_append]
      congr 2
      omega
    rw [hcpy, hp.index, List.set_append_right _ _ (by rw [List.length_append]; omega),
      List.set_replicate_self]

theorem Reads.store {p : DataHttpParser} {f : Facts} {body c : List Byte} (hp : Reads p f body)
    (hfit : p.mIndex + c.length ≤ MAX_BUFFER_LEN) (hnul : p.mIndex + c.length + 1 ≠ MAX_BUFFER_LEN) :
    Reads (p.store c hfit) f (body ++ c) where
  finish := (if_neg hnul).trans hp.finish
  facts := hp.facts
  index := by
    rw [List.length_append, ← hp.index]
    rfl
  buffer := by
    show ((memcpy p.mBuffer p.mIndex c).set (p.mIndex + c.length + 1) 0).take _ = _
    rw [List.length_append, List.take_set_of_le (by rw [hp.index]; omega), hp.index]
    unfold memcpy
    rw [hp.buffer, ← List.length_append, List.take_left]

theorem moveBody_reads {q : DataHttpParser} {u z : List Byte} {k : Nat}
    (hfinish : q.mbReceiveHeaderFinish = true) (hindex : q.mIndex = u.length)
    (hbuffer : q.mBuffer = u ++ z) (hk : k ≤ u.length) :
    Reads (q.moveBody k) q.facts (u.drop k) := by
  have hq : k ≤ q.mIndex := hindex ▸ hk
  unfold moveBody
  rw [if_pos hq]
  refine ⟨hfinish, rfl, ?_, ?_⟩
  · rw [List.length_drop]
    exact congrArg (· - k) hindex
  · have hsrc : (q.mBuffer.drop k).take (q.mIndex - k) = u.drop k := by
      rw [hbuffer, hindex, List.drop_append_of_le_length hk, ← List.length_drop, List.take_left]
    show ((memcpy q.mBuffer 0 ((q.mBuffer.drop k).take (q.mIndex - k))).set (q.mIndex - k) 0).take _ = _
    rw [hsrc, hindex, List.length_drop, List.take_set_of_le (Nat.le_refl _), ← List.length_drop,
      memcpy_take_self]

theorem Holds.header {p : DataHttpParser} {u : List Byte} (hp : Holds p u) {k : Nat}
    (hk : headerEnd (cstr u) = some k) :
    Reads p.ParseHeaderPart (read (cstr u)) (u.drop k) := by
  have hcstr : cstr p.mBuffer = cstr u := by rw [hp.buffer, cstr_zeros]
  have hku : k ≤ u.length := Nat.le_trans (headerEnd_le hk).2 (cstr_le u).length_le
  have hcrlf : find crlf (cstr u) ≠ none := find_crlf_of_headerEnd hk
  have hsame := readHeader_sameBytes (p := { p with mbReceiveHeaderFinish := true }) hcrlf
  have hreads := moveBody_reads hsame.finish (hsame.index.trans hp.index)
    (hsame.buffer.trans hp.buffer) hku
  rw [ParseHeaderPart_eq, hcstr, hk, ← readHeader_facts (p := { p with mbReceiveHeaderFinish := true })
    hp.facts hcrlf]
  exact hreads

/-! ## one call -/

theorem ParseData_fits {p : DataHttpParser} {c : List Byte} (hc : c ≠ [])
    (hfit : p.mIndex + c.length ≤ MAX_BUFFER_LEN) : p.ParseData c =
    let p' := p.store c hfit
    let p' := if p'.mbReceiveHeaderFinish then p' else p'.ParseHeaderPart
    (p', if p'.complete then 1 else 0) := by
  have hpos := List.length_pos_iff.mpr hc
  have hlen : min c.length (MAX_BUFFER_LEN - p.mIndex) = c.length := by omega
  unfold ParseData
  simp only [hlen, List.take_length]
  rw [dif_pos hpos]

/-- **Before the blank line** a chunk is kept, or its blank line ends the header. -/
theorem Holds.ParseData {p : DataHttpParser} {u c : List Byte} (hp : Holds p u) (hc : c ≠ [])
    (hfit : u.length + c.length ≤ MAX_BUFFER_LEN) :
    (headerEnd (cstr (u ++ c)) = none → Holds (p.ParseData c).1 (u ++ c) ∧ (p.ParseData c).2 = 0) ∧
    ∀ k, headerEnd (cstr (u ++ c)) = some k →
      Reads (p.ParseData c).1 (read (cstr (u ++ c))) ((u ++ c).drop k) ∧
      (p.ParseData c).2 = if (read (cstr (u ++ c))).Done ((u ++ c).drop k).length then 1 else 0 := by
  have hfit' : p.mIndex + c.length ≤ MAX_BUFFER_LEN := hp.index ▸ hfit
  have hstore := hp.store hfit'
  have heq := ParseData_fits hc hfit'
  dsimp only at heq
  rw [hstore.finish] at heq
  refine ⟨fun hnone => ?_, fun k hk => ?_⟩
  · have hpart : (p.store c hfit').ParseHeaderPart = p.store c hfit' := by
      have hcstr : cstr (p.store c hfit').mBuffer = cstr (u ++ c) := by rw [hstore.buffer, cstr_zeros]
      rw [ParseHeaderPart_eq, hcstr, hnone]
    rw [heq]
    dsimp only
    rw [if_neg Bool.false_ne_true, hpart]
    refine ⟨hstore, ?_⟩
    unfold complete
    rw [hstore.finish]
    rfl
  · have hreads := hstore.header hk
    rw [heq]
    dsimp only
    rw [if_neg Bool.false_ne_true]
    exact ⟨hreads, if_congr hreads.complete rfl rfl⟩

/-- **Behind the blank line** a chunk that leaves room for the NUL is added to the body. -/
theorem Reads.ParseData {p : DataHttpParser} {f : Facts} {body c : List Byte} (hp : Reads p f body)
    (hc : c ≠ []) (hfit : body.length + c.length + 2 ≤ MAX_BUFFER_LEN) :
    Reads (p.ParseData c).1 f (body ++ c) ∧
      (p.ParseData c).2 = if f.Done (body ++ c).length then 1 else 0 := by
  rw [← hp.index] at hfit
  have hfit' : p.mIndex + c.length ≤ MAX_BUFFER_LEN := by omega
  have hstore := hp.store hfit' (by omega)
  have heq := ParseData_fits hc hfit'
  dsimp only at heq
  rw [hstore.finish, if_pos rfl] at heq
  rw [heq]
  exact ⟨hstore, if_congr hstore.complete rfl rfl⟩

end DataHttpParser

end VncProxy
