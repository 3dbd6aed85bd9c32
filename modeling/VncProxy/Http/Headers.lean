import VncProxy.Http.Chunks

/-!
# Where the headers come from

* `after`        the parser after all chunks, whatever `ParseData` returned;
* `upto`         the chunks up to the one in which the header ends, whose lines are all read;
* `after_facts`  what the parser has read then;
* `HeaderOnly`   headers, host and length come from the header lines that start with their names;
* `header_only_iff`  the condition for it.
-/

namespace VncProxy

open DataHttpParser

/-- the parser after the chunks, whatever `ParseData` returned -/
def after (cs : List (List Byte)) : DataHttpParser := cs.foldl (fun p c => (p.ParseData c).1) new

/-- the chunks up to the one that holds the `k`-th byte -/
def upto : Nat → List (List Byte) → List Byte
  | _, [] => []
  | k, c :: cs => if k ≤ c.length then c else c ++ upto (k - c.length) cs

/-- what is in `mBuffer` behind the header of `k` bytes when it is read -/
def behind (k : Nat) (cs : List (List Byte)) : List Byte := (cstr (upto k cs)).drop k

/-! ## lines -/

/-- the line can change `mHost` -/
def SetsHost (line : List Byte) : Prop := ∃ p : DataHttpParser, (p.parseHeader line).mHost ≠ p.mHost

/-- the line can change `miContentLength` -/
def SetsLength (line : List Byte) : Prop :=
  ∃ p : DataHttpParser, (p.parseHeader line).miContentLength ≠ p.miContentLength

/-- the host in a line that starts with its name -/
def hostLine (host : List Byte) (line : List Byte) : List Byte :=
  if ascii "Host: " <+: line then line.drop 6 else host

/-- the length in a line that starts with its name -/
def lengthLine (n : Int) (line : List Byte) : Int :=
  if ascii "Content-Length: " <+: line then atoi (line.drop 16) else n

/-- a line with the name of the host or the length in it starts with the name -/
def Anchored (line : List Byte) : Prop :=
  (find (ascii "Host: ") line ≠ none → ascii "Host: " <+: line) ∧
    (find (ascii "Content-Length: ") line ≠ none → ascii "Content-Length: " <+: line)

instance (line : List Byte) : Decidable (Anchored line) :=
  inferInstanceAs (Decidable ((_ → _) ∧ (_ → _)))

theorem setsHost_iff {line : List Byte} (hline : line ≠ []) :
    SetsHost line ↔ find (ascii "Host: ") line ≠ none := by
  unfold SetsHost
  constructor
  · rintro ⟨p, hp⟩ hnone
    rw [parseHeader_host p hline] at hp
    unfold hostField at hp
    rw [hnone] at hp
    exact hp rfl
  · intro hfind
    obtain ⟨pos, hpos⟩ := Option.ne_none_iff_exists'.mp hfind
    -- a host that is longer than the line is not the one it names
    refine ⟨{ new with mHost := 0 :: line }, ?_⟩
    rw [parseHeader_host _ hline]
    unfold hostField
    rw [hpos]
    intro heq
    have hlen : (line.drop (pos + 6)).length = (0 :: line).length := congrArg List.length heq
    rw [List.length_drop, List.length_cons] at hlen
    omega

theorem setsLength_iff {line : List Byte} (hline : line ≠ []) :
    SetsLength line ↔ find (ascii "Content-Length: ") line ≠ none := by
  unfold SetsLength
  constructor
  · rintro ⟨p, hp⟩ hnone
    rw [parseHeader_length p hline] at hp
    unfold lengthField at hp
    rw [hnone] at hp
    exact hp rfl
  · intro hfind
    obtain ⟨pos, hpos⟩ := Option.ne_none_iff_exists'.mp hfind
    refine ⟨{ new with miContentLength := atoi (line.drop (pos + 16)) + 1 }, ?_⟩
    rw [parseHeader_length _ hline]
    unfold lengthField
    rw [hpos]
    show atoi (line.drop (pos + 16)) ≠ atoi (line.drop (pos + 16)) + 1
    omega

/-- a name that only stands at the start is found there -/
theorem find_anchored {name line : List Byte} (h : find name line ≠ none → name <+: line) :
    find name line = if name <+: line then some 0 else none := by
  split
  · next hp => exact find_start hp
  · next hp =>
    by_contra hne
    exact hp (h hne)

theorem Anchored.hostField {line : List Byte} (h : Anchored line) (host : List Byte) :
    hostField host line = hostLine host line := by
  unfold DataHttpParser.hostField hostLine
  rw [find_anchored h.1]
  by_cases hp : ascii "Host: " <+: line
  · rw [if_pos hp, if_pos hp]
  · rw [if_neg hp, if_neg hp]

theorem Anchored.lengthField {line : List Byte} (h : Anchored line) (n : Int) :
    lengthField n line = lengthLine n line := by
  unfold VncProxy.lengthField lengthLine
  rw [find_anchored h.2]
  by_cases hp : ascii "Content-Length: " <+: line
  · rw [if_pos hp, if_pos hp]
  · rw [if_neg hp, if_neg hp]

/-! ## the calls -/

namespace DataHttpParser

/-- behind the blank line nothing more is read -/
theorem Reads.calls {p : DataHttpParser} {f : Facts} {body : List Byte} (hp : Reads p f body)
    {cs : List (List Byte)} (hfits : RunOk call Fits p cs) :
    (cs.foldl (fun p c => (p.ParseData c).1) p).facts = f := by
  induction cs generalizing p body with
  | nil => exact hp.facts
  | cons c cs ih => exact ih (hp.fits hfits.1) (hfits.2 _ rfl)

/-- a start of the bytes in which a blank line is found holds the whole header -/
theorem header_take {w s : List Byte} {k k' : Nat} (hw : w <+: s) (hk : headerEnd s = some k)
    (hk' : headerEnd (cstr w) = some k') : s.take k <+: cstr w := by
  obtain ⟨v, hv⟩ := (cstr_le w).trans hw
  have heq : headerEnd s = some k' := hv ▸ headerEnd_append v hk'
  obtain rfl := Option.some.inj (hk.symm.trans heq)
  rw [← hv, List.take_append_of_le_length (headerEnd_le hk').2]
  exact List.take_prefix _ _

theorem header_before {w s : List Byte} {k : Nat} (hw : w <+: s) (hk : headerEnd s = some k)
    (hlt : w.length < k) : headerEnd (cstr w) = none := by
  have hkle := headerEnd_le hk
  cases hend : headerEnd (cstr w) with
  | none => rfl
  | some k' =>
    have hle := ((header_take hw hk hend).trans (cstr_le w)).length_le
    rw [List.length_take] at hle
    omega

/-- the chunks up to the one in which the header ends fit, and it is read with that one -/
theorem Holds.found {p : DataHttpParser} {u : List Byte} (hp : Holds p u) {cs : List (List Byte)}
    (hfits : RunOk call Fits p cs) {s : List Byte} (hs : s = u ++ cs.flatten) {k : Nat}
    (hk : headerEnd s = some k) (hu : u.length < k) :
    (u ++ upto (k - u.length) cs).length + 2 ≤ MAX_BUFFER_LEN ∧
      FirstLineFits (u ++ upto (k - u.length) cs) ∧
        (0 ∉ s.take k → (cs.foldl (fun p c => (p.ParseData c).1) p).facts
          = read (cstr (u ++ upto (k - u.length) cs))) := by
  have hkle := headerEnd_le hk
  induction cs generalizing p u with
  | nil =>
    rw [hs, List.flatten_nil, List.append_nil] at hkle
    omega
  | cons c cs ih =>
    have hs' : s = (u ++ c) ++ cs.flatten := by rw [hs, List.flatten_cons, List.append_assoc]
    have hlen : (u ++ c).length = u.length + c.length := List.length_append
    obtain ⟨hnone, hsome⟩ := hp.fits (header_before (hs ▸ List.prefix_append _ _) hk hu) hfits.1
    by_cases hkc : k ≤ (u ++ c).length
    · -- the header ends in this chunk
      have hne : c ≠ [] := by
        rintro rfl
        rw [List.append_nil] at hkc
        omega
      obtain ⟨hroom, hline⟩ := hp.room hfits.1 hne
      unfold upto
      rw [if_pos (show k - u.length ≤ c.length by omega)]
      refine ⟨by omega, hline, fun h0 => ?_⟩
      have htake : (u ++ c).take k = s.take k := by rw [hs', List.take_append_of_le_length hkc]
      have hheader : headerEnd (cstr (u ++ c)) = some k := by
        rw [← List.take_append_drop k (u ++ c), htake]
        refine headerEnd_cstr_append ?_
        rw [cstr_of_not_mem h0]
        exact headerEnd_take hk
      exact (hsome k hheader).calls (hfits.2 _ rfl)
    · -- it ends later
      have hholds := hnone (header_before ⟨_, hs'.symm⟩ hk (by omega))
      have hrest := ih hholds (hfits.2 _ rfl) hs' (by omega)
      rw [hlen, ← Nat.sub_sub, List.append_assoc] at hrest
      unfold upto
      rw [if_neg (show ¬ k - u.length ≤ c.length by omega)]
      exact hrest

theorem Holds.not_found {p : DataHttpParser} {u : List Byte} (hp : Holds p u) {cs : List (List Byte)}
    (hfits : RunOk call Fits p cs) {s : List Byte} (hs : s = u ++ cs.flatten) {k : Nat}
    (hk : headerEnd s = some k) (h0 : 0 ∈ s.take k) :
    (cs.foldl (fun p c => (p.ParseData c).1) p).facts = DataHttpParser.new.facts := by
  have hend : ∀ v, v <+: s → headerEnd (cstr v) = none := by
    intro v hv
    cases hend : headerEnd (cstr v) with
    | none => rfl
    | some k' => exact absurd ((header_take hv hk hend).subset h0) (not_mem_cstr _)
  induction cs generalizing p u with
  | nil => exact hp.facts
  | cons c cs ih =>
    have hs' : s = (u ++ c) ++ cs.flatten := by rw [hs, List.flatten_cons, List.append_assoc]
    obtain ⟨hnone, -⟩ := hp.fits (hend u ⟨_, hs.symm⟩) hfits.1
    exact ih (hnone (hend _ ⟨_, hs'.symm⟩)) (hfits.2 _ rfl) hs'

end DataHttpParser

theorem pos_of_headerEnd {s : List Byte} {k : Nat} (hk : headerEnd s = some k) :
    ([] : List Byte).length < k :=
  Nat.lt_of_lt_of_le (by decide) (headerEnd_le hk).1

/-- **What the parser has read** after all chunks. -/
theorem after_facts {cs : List (List Byte)} (hfits : CallsFit cs) {k : Nat}
    (hk : headerEnd cs.flatten = some k) :
    (after cs).facts = if 0 ∉ cs.flatten.take k then read (cstr (upto k cs)) else new.facts := by
  unfold after
  split
  · next h => exact (Holds.new.found hfits rfl hk (pos_of_headerEnd hk)).2.2 h
  · next h => exact Holds.new.not_found (u := []) hfits rfl hk (not_not.mp h)

/-! ## the lines -/

theorem upto_take {k : Nat} {cs : List (List Byte)} (hk : k ≤ cs.flatten.length) :
    (upto k cs).take k = cs.flatten.take k := by
  induction cs generalizing k with
  | nil => rfl
  | cons c cs ih =>
    rw [List.flatten_cons, List.length_append] at hk
    rw [List.flatten_cons]
    unfold upto
    split
    · next h => rw [List.take_append_of_le_length h]
    · next h =>
      have hrest := ih (k := k - c.length) (by omega)
      rw [List.take_append, List.take_append, hrest]

/-- the string that is read is the header and what is behind it -/
theorem upto_split {cs : List (List Byte)} {k : Nat} (hk : headerEnd cs.flatten = some k)
    (h0 : 0 ∉ cs.flatten.take k) : cstr (upto k cs) = cs.flatten.take k ++ behind k cs := by
  have hle := headerEnd_le hk
  have hlen : (cs.flatten.take k).length = k := by
    rw [List.length_take]
    omega
  have hv := List.take_append_drop k (upto k cs)
  rw [upto_take hle.2] at hv
  obtain ⟨w, hw⟩ := cstr_append_prefix (cs.flatten.take k) ((upto k cs).drop k)
  rw [cstr_of_not_mem h0, hv] at hw
  unfold behind
  rw [← hw, List.drop_left' hlen]

theorem wholeLines_header {s : List Byte} {k : Nat} (hk : headerEnd s = some k) :
    WholeLines (s.take k) := by
  obtain ⟨blank, hb, rfl⟩ := Option.map_eq_some_iff.mp hk
  obtain ⟨v, hv⟩ := find_drop hb
  right
  rw [List.take_add, ← hv]
  exact ⟨s.take blank ++ crlf, List.append_assoc ..⟩

theorem fields_header {hd : List Byte} (hhd : WholeLines hd) (hcrlf : find crlf hd ≠ none)
    (r : List Byte) : fields (hd ++ r) = fields hd ++ (lines r).filter (· ≠ []) := by
  obtain ⟨pos, hpos⟩ := Option.ne_none_iff_exists'.mp hcrlf
  have hle : pos + 2 ≤ hd.length := find_le hpos
  unfold fields fieldLines
  rw [find_append r crlf_ne_nil hpos, hpos]
  dsimp only
  rw [List.drop_append_of_le_length hle, (hhd.behind hpos).lines_append r, List.filter_append]

/-- headers, host and length as these lines give them -/
structure ReadFrom (l : List (List Byte)) (p : DataHttpParser) : Prop where
  headers : p.GetHeaders = l
  host : p.mHost = l.foldl hostField []
  length : p.GetContentLength = l.foldl lengthField (-1)

theorem ReadFrom.ofFacts {l : List (List Byte)} {p : DataHttpParser} {f : Facts} (h : p.facts = f)
    (hheaders : f.headers = l) (hhost : f.host = l.foldl hostField [])
    (hlength : f.contentLength = l.foldl lengthField (-1)) : ReadFrom l p := by
  subst h
  exact ⟨hheaders, hhost, hlength⟩

/-- the header is read, and the lines in it -/
def Served (hd : List Byte) : Prop := 0 ∉ hd ∧ served (firstLine hd) = true

instance (hd : List Byte) : Decidable (Served hd) := inferInstanceAs (Decidable (_ ∧ _))

/-- the lines the parser takes for headers -/
def recorded (k : Nat) (cs : List (List Byte)) : List (List Byte) :=
  if Served (cs.flatten.take k) then
    fields (cs.flatten.take k) ++ (lines (behind k cs)).filter (· ≠ [])
  else []

/-- **Headers, host and length** after all chunks. -/
theorem after_readFrom {cs : List (List Byte)} (hfits : CallsFit cs) {k : Nat}
    (hk : headerEnd cs.flatten = some k) : ReadFrom (recorded k cs) (after cs) := by
  have hfacts := after_facts hfits hk
  by_cases hfound : 0 ∉ cs.flatten.take k
  · have hcrlf := find_crlf_of_headerEnd (headerEnd_take hk)
    have hcrlf' := find_crlf_append hcrlf (behind k cs)
    have hlines : readLines (cs.flatten.take k ++ behind k cs) = recorded k cs := by
      have hserved : served (firstLine (cs.flatten.take k)) = true ↔ Served (cs.flatten.take k) :=
        (and_iff_right hfound).symm
      unfold readLines recorded
      rw [firstLine_append _ hcrlf, fields_header (wholeLines_header hk) hcrlf]
      exact if_congr hserved rfl rfl
    rw [if_pos hfound, upto_split hk hfound] at hfacts
    rw [← hlines]
    exact .ofFacts hfacts (read_headers hcrlf') (read_host hcrlf') (read_length hcrlf')
  · have hnil : recorded k cs = [] := if_neg fun h => hfound h.1
    rw [if_neg hfound] at hfacts
    rw [hnil]
    exact .ofFacts hfacts rfl rfl rfl

theorem after_header {hd : List Byte} (hfits : CallsFit [hd]) (hhd : headerEnd hd = some hd.length) :
    ReadFrom (if Served hd then fields hd else []) (after [hd]) := by
  have hflat : [hd].flatten = hd := List.append_nil hd
  have hbehind : behind hd.length [hd] = [] := by
    unfold behind upto
    rw [if_pos (Nat.le_refl _)]
    exact List.drop_eq_nil_of_le (cstr_le _).length_le
  have hrecorded : recorded hd.length [hd] = if Served hd then fields hd else [] := by
    unfold recorded
    rw [hflat, List.take_length, hbehind]
    exact if_congr Iff.rfl (List.append_nil _) rfl
  rw [← hrecorded]
  exact after_readFrom hfits (hflat.symm ▸ hhd)

theorem CallsFit.header {cs : List (List Byte)} (hfits : CallsFit cs) {k : Nat}
    (hk : headerEnd cs.flatten = some k) : CallsFit [cs.flatten.take k] := by
  obtain ⟨hroom, hline, -⟩ := Holds.new.found hfits rfl hk (pos_of_headerEnd hk)
  rw [List.nil_append, List.length_nil, Nat.sub_zero] at hroom hline
  have htake := upto_take (headerEnd_le hk).2
  have hle : (cs.flatten.take k).length ≤ (upto k cs).length := htake ▸ (List.take_prefix _ _).length_le
  have hfirst : FirstLineFits (cs.flatten.take k) := by
    rw [← List.take_append_drop k (upto k cs), htake] at hline
    exact hline.before
  refine runOk_one fun _ => ⟨?_, fun _ => hfirst⟩
  show 0 + (cs.flatten.take k).length + 2 ≤ _
  omega

/-- headers, host and length come from the header `hd` alone, host and length from the lines that start
with their names -/
structure HeaderOnly (hd : List Byte) (p : DataHttpParser) : Prop where
  headers : p.GetHeaders = fields hd
  hostLines : ∀ line ∈ p.GetHeaders, SetsHost line → ascii "Host: " <+: line
  lengthLines : ∀ line ∈ p.GetHeaders, SetsLength line → ascii "Content-Length: " <+: line
  host : p.mHost = (fields hd).foldl hostLine []
  length : p.GetContentLength = (fields hd).foldl lengthLine (-1)
  alone : p.GetHeaders = (after [hd]).GetHeaders ∧ p.mHost = (after [hd]).mHost ∧
    p.GetContentLength = (after [hd]).GetContentLength

/-- the lines of a served header name host and length at their start only, and behind it are no other
lines; of another header there are none -/
def Plain (k : Nat) (cs : List (List Byte)) : Prop :=
  if Served (cs.flatten.take k) then
    (∀ line ∈ fields (cs.flatten.take k), Anchored line) ∧ ∀ line ∈ lines (behind k cs), line = []
  else fields (cs.flatten.take k) = []

instance (k : Nat) (cs : List (List Byte)) : Decidable (Plain k cs) := by
  unfold Plain
  infer_instance

/-- lines that are anchored are read by their names -/
theorem ReadFrom.headerOnly {hd : List Byte} {l : List (List Byte)} {p : DataHttpParser}
    (hp : ReadFrom l p) (halone : ReadFrom l (after [hd])) (hl : fields hd = l)
    (hlines : ∀ line ∈ l, Anchored line) : HeaderOnly hd p := by
  subst hl
  refine ⟨hp.headers, ?_, ?_, ?_, ?_, ?_⟩
  · rw [hp.headers]
    intro line hline hset
    exact (hlines line hline).1 ((setsHost_iff (mem_fields hline)).mp hset)
  · rw [hp.headers]
    intro line hline hset
    exact (hlines line hline).2 ((setsLength_iff (mem_fields hline)).mp hset)
  · rw [hp.host]
    exact List.foldl_ext _ _ _ fun host line h => (hlines line h).hostField host
  · rw [hp.length]
    exact List.foldl_ext _ _ _ fun n line h => (hlines line h).lengthField n
  · exact ⟨hp.headers.trans halone.headers.symm, hp.host.trans halone.host.symm,
      hp.length.trans halone.length.symm⟩

/-- **No access is out of range, and headers, host and length are read from the header lines only, just
when** the chunks fit, the lines of a served header are anchored, and no other line is in the buffer
behind it. -/
theorem header_only_iff {cs : List (List Byte)} {k : Nat} (hk : headerEnd cs.flatten = some k) :
    CallsInRange cs ∧ HeaderOnly (cs.flatten.take k) (after cs) ↔ CallsFit cs ∧ Plain k cs := by
  rw [callsInRange_iff]
  refine and_congr_right fun hfits => ?_
  have hread := after_readFrom hfits hk
  have hhd : headerEnd (cs.flatten.take k) = some (cs.flatten.take k).length := by
    rw [headerEnd_take hk, List.length_take, Nat.min_eq_left (headerEnd_le hk).2]
  have halone := after_header (hfits.header hk) hhd
  unfold Plain
  unfold recorded at hread
  by_cases hserved : Served (cs.flatten.take k)
  · rw [if_pos hserved] at hread halone ⊢
    constructor
    · intro h
      have hnil := hread.headers.symm.trans h.headers
      rw [List.append_right_eq_self, List.filter_eq_nil_iff] at hnil
      refine ⟨fun line hline => ⟨fun hfind => ?_, fun hfind => ?_⟩, fun line hline => ?_⟩
      · exact h.hostLines line (h.headers ▸ hline) ((setsHost_iff (mem_fields hline)).mpr hfind)
      · exact h.lengthLines line (h.headers ▸ hline) ((setsLength_iff (mem_fields hline)).mpr hfind)
      · simpa using hnil line hline
    · rintro ⟨hlines, hrest⟩
      have hnil : (lines (behind k cs)).filter (· ≠ []) = [] := by
        rw [List.filter_eq_nil_iff]
        intro line hline
        simpa using hrest line hline
      rw [hnil, List.append_nil] at hread
      exact hread.headerOnly halone rfl hlines
  · rw [if_neg hserved] at hread halone ⊢
    constructor
    · intro h
      exact h.headers.symm.trans hread.headers
    · intro hnil
      exact hread.headerOnly halone hnil nofun

/-- two headers in two chunks, the second with the first bytes of the body -/
theorem header_only_post : HeaderOnly (ascii "POST / HTTP/1.1\r\nHost: a\r\nContent-Length: 5\r\n\r\n")
    (after [ascii "POST / HTTP/1.1\r\nHost: a\r\nConte", ascii "nt-Length: 5\r\n\r\nab",
      ascii "\r\nc"]) := by
  have hk : headerEnd [ascii "POST / HTTP/1.1\r\nHost: a\r\nConte", ascii "nt-Length: 5\r\n\r\nab",
      ascii "\r\nc"].flatten = some 47 := by
    decide
  exact ((header_only_iff hk).mpr ⟨by decide +kernel, by decide +kernel⟩).2

/-- **A line of the body** sets the host. -/
theorem not_header_only : ¬ ∀ (cs : List (List Byte)) (k : Nat), headerEnd cs.flatten = some k →
    HeaderOnly (cs.flatten.take k) (after cs) := by
  intro hall
  have hheaders :=
    (hall [ascii "POST / HTTP/1.1\r\nHost: a\r\n\r\nHost: b\r\n"] 28 (by decide)).headers
  exact absurd hheaders (by decide +kernel)

end VncProxy
