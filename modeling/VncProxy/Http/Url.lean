import VncProxy.Http.Headers
import Mathlib.Data.List.Infix

/-!
# The url of a request

* `Form`, `Asks`    the two forms of a request target, and what a header asks for;
* `cutScheme`       the part of the target that is kept as `mPath`;
* `GetUrl_eq`       the url is right just when `mHost` and `mPath` make it up, with or without the scheme;
* `url_iff`         when it is, for each form.
-/

namespace VncProxy

open DataHttpParser

def http : List Byte := ascii "http://"

/-- the part of a request target that is kept as `mPath` -/
def cutScheme (target : List Byte) : List Byte :=
  match find http target with
  | some pos => target.drop (pos + 7)
  | none => target

/-! ## the first line -/

theorem strtok_delim (d : Byte) (s : List Byte) : strtok d (d :: s) = strtok d s := by
  cases s with
  | nil => exact if_pos rfl
  | cons c s => exact if_pos rfl

theorem strtok_append {d : Byte} {w : List Byte} (hw : w ≠ []) (hd : d ∉ w) (s : List Byte) :
    strtok d (w ++ d :: s) = w :: strtok d s := by
  induction w with
  | nil => exact absurd rfl hw
  | cons b w ih =>
    rw [List.mem_cons, not_or] at hd
    have hb : b ≠ d := Ne.symm hd.1
    cases w with
    | nil =>
      show strtok d (b :: d :: s) = _
      rw [strtok, if_neg hb, if_pos rfl, strtok_delim]
    | cons c w =>
      have hc : c ≠ d := fun h => hd.2 (h ▸ List.mem_cons_self ..)
      have hrest := ih (List.cons_ne_nil _ _) hd.2
      show strtok d (b :: c :: (w ++ d :: s)) = _
      rw [List.cons_append] at hrest
      rw [strtok, if_neg hb, if_neg hc, hrest]

theorem parseHeader_line (p : DataHttpParser) (header : List Byte) :
    (p.parseHeader header).mPath = p.mPath ∧ (p.parseHeader header).mHttpType = p.mHttpType := by
  unfold parseHeader
  split
  · exact ⟨rfl, rfl⟩
  · cases find (ascii "Host: ") header <;> cases find (ascii "Content-Length: ") header <;>
      exact ⟨rfl, rfl⟩

theorem headers_line (p : DataHttpParser) (l : List (List Byte)) :
    (l.foldl parseHeader p).mPath = p.mPath ∧ (l.foldl parseHeader p).mHttpType = p.mHttpType := by
  induction l generalizing p with
  | nil => exact ⟨rfl, rfl⟩
  | cons header l ih =>
    obtain ⟨hpath, htype⟩ := ih (p.parseHeader header)
    obtain ⟨hpath', htype'⟩ := parseHeader_line p header
    exact ⟨hpath.trans hpath', htype.trans htype'⟩

theorem parsePath_cut (p : DataHttpParser) (target : List Byte) :
    (p.parsePath target).mPath = cutScheme target ∧
      (p.parsePath target).mHttpType = p.mHttpType := by
  unfold parsePath cutScheme http
  cases find (ascii "http://") target <;> exact ⟨rfl, rfl⟩

theorem read_tokens {headers type target : List Byte} {rest : List (List Byte)}
    (hcrlf : find crlf headers ≠ none)
    (htokens : strtok 32 (firstLine headers) = type :: target :: rest) :
    (read headers).path = cutScheme target ∧
      (read headers).httpType = (new.parseType type).1.mHttpType := by
  have hfirst : (new.ParseFirstLine (firstLine headers)).1 =
      (new.parseType type).1.parsePath target := by
    unfold ParseFirstLine
    rw [htokens]
  obtain ⟨hpath, htype⟩ := parsePath_cut (new.parseType type).1 target
  show (new.readHeader headers).mPath = _ ∧ (new.readHeader headers).mHttpType = _
  rw [readHeader_eq new hcrlf, (headers_line _ _).1, (headers_line _ _).2, hfirst, hpath, htype]
  exact ⟨rfl, rfl⟩

theorem read_line {headers method target version : List Byte} (hcrlf : find crlf headers ≠ none)
    (hmethod : method = ascii "GET" ∨ method = ascii "POST") (htarget : target ≠ [])
    (hspace : 32 ∉ target)
    (hline : firstLine headers = method ++ 32 :: (target ++ 32 :: version)) :
    (read headers).path = cutScheme target ∧ (read headers).httpType ≠ some .CONNECT := by
  have htokens : strtok 32 (firstLine headers) = method :: target :: strtok 32 version := by
    rw [hline, strtok_append ?_ ?_, strtok_append htarget hspace]
    · rcases hmethod with rfl | rfl <;> decide
    · rcases hmethod with rfl | rfl <;> decide
  obtain ⟨hpath, htype⟩ := read_tokens hcrlf htokens
  rw [hpath, htype]
  refine ⟨rfl, ?_⟩
  rcases hmethod with rfl | rfl <;> decide

/-! ## the url -/

/-- the host in front of the path, unless the path holds it -/
def withHost (host path : List Byte) : List Byte := if host <:+: path then path else host ++ path

theorem GetUrl_of_not_connect {p : DataHttpParser} (hp : p.mHttpType ≠ some .CONNECT) :
    p.GetUrl = if http <:+: withHost p.mHost p.mPath then withHost p.mHost p.mPath
      else http ++ withHost p.mHost p.mPath := by
  have hhost : (if p.mHost.length ≠ 0 then
      if find p.mHost p.mPath = none then p.mHost ++ p.mPath else p.mPath else p.mPath) =
      withHost p.mHost p.mPath := by
    unfold withHost
    by_cases hheld : p.mHost <:+: p.mPath
    · rw [if_pos hheld, if_neg fun h => find_eq_none.mp h hheld, ite_self]
    · have hne : p.mHost.length ≠ 0 := by
        intro h0
        rw [List.eq_nil_of_length_eq_zero h0] at hheld
        exact hheld (List.nil_infix)
      rw [if_neg hheld, if_pos hne, if_pos (find_eq_none.mpr hheld)]
  unfold GetUrl
  dsimp only
  rw [hhost, if_neg hp]
  show (if find http _ = none then http ++ _ else _) = _
  by_cases hheld : http <:+: withHost p.mHost p.mPath
  · rw [if_pos hheld, if_neg fun h => find_eq_none.mp h hheld]
  · rw [if_neg hheld, if_pos (find_eq_none.mpr hheld)]

/-- **The url is the one asked for** when host and path make it up already, or all of it behind a scheme
that they do not hold. -/
theorem GetUrl_eq {p : DataHttpParser} (hp : p.mHttpType ≠ some .CONNECT) (u : List Byte) :
    p.GetUrl = http ++ u ↔ withHost p.mHost p.mPath = http ++ u ∨
      withHost p.mHost p.mPath = u ∧ ¬ http <:+: u := by
  rw [GetUrl_of_not_connect hp]
  split
  · next h =>
    refine ⟨.inl, fun h' => h'.resolve_right ?_⟩
    rintro ⟨rfl, hnot⟩
    exact hnot h
  · next h =>
    rw [List.append_cancel_left_eq]
    constructor
    · rintro rfl
      exact .inr ⟨rfl, h⟩
    · rintro (heq | ⟨heq, -⟩)
      · exact absurd (heq ▸ (List.prefix_append http u).isInfix) h
      · exact heq

/-! ## what a header asks for -/

/-- the forms of a request target -/
inductive Form where
  /-- a path -/
  | origin
  /-- the whole url -/
  | absolute

def Form.target : Form → List Byte → List Byte → List Byte
  | .origin, _, path => path
  | .absolute, h, path => http ++ (h ++ path)

/-- the header asks for this target of the host `h`: its first line is that of a `GET` or `POST`, and
`h` is the host its lines name -/
structure Asks (hd target h : List Byte) : Prop where
  line : ∃ method version, (method = ascii "GET" ∨ method = ascii "POST") ∧
    firstLine hd = method ++ 32 :: (target ++ 32 :: version)
  space : 32 ∉ target
  host : (fields hd).foldl hostLine [] = h
  ne : h ≠ []

/-- `host` is the host that is read: a path does not hold it and is put behind it, and they are the url
behind the scheme, which is in neither, or the whole url; a url holds it, and no other scheme -/
def Form.Ok : Form → List Byte → List Byte → List Byte → Prop
  | .origin, host, h, path => ¬ host <:+: cutScheme path ∧
      (host = h ∧ ¬ http <:+: h ++ path ∨ host ++ cutScheme path = http ++ (h ++ path))
  | .absolute, host, h, path => ¬ http <:+: h ++ path ∧ (host <:+: h ++ path ∨ host = http)

theorem cutScheme_le (target : List Byte) : (cutScheme target).length ≤ target.length := by
  unfold cutScheme
  split
  · rw [List.length_drop]
    exact Nat.sub_le _ _
  · exact Nat.le_refl _

theorem cutScheme_of_not {target : List Byte} (h : ¬ http <:+: target) : cutScheme target = target := by
  unfold cutScheme
  rw [find_eq_none.mpr h]

theorem cutScheme_http (u : List Byte) : cutScheme (http ++ u) = u := by
  unfold cutScheme
  rw [find_start (List.prefix_append http u)]
  exact List.drop_left' rfl

theorem origin_iff (host path : List Byte) {h : List Byte} (hh : h ≠ []) :
    (withHost host (cutScheme path) = http ++ (h ++ path) ∨
      withHost host (cutScheme path) = h ++ path ∧ ¬ http <:+: h ++ path) ↔
      Form.origin.Ok host h path := by
  have hle := cutScheme_le path
  have hpos := List.length_pos_iff.mpr hh
  unfold withHost Form.Ok
  dsimp only
  split
  · next hheld =>
    -- the path alone is too short
    refine iff_of_false ?_ fun hok => hok.1 hheld
    rintro (heq | ⟨heq, -⟩)
    · have hlen := congrArg List.length heq
      rw [List.length_append, List.length_append] at hlen
      omega
    · have hlen := congrArg List.length heq
      rw [List.length_append] at hlen
      omega
  · next hheld =>
    rw [and_iff_right hheld, or_comm]
    refine or_congr_left (and_congr_left fun hnot => ?_)
    have hpath : ¬ http <:+: path := fun hin => hnot (hin.trans (List.suffix_append h path).isInfix)
    rw [cutScheme_of_not hpath, List.append_cancel_right_eq]

theorem absolute_iff (host h path : List Byte) :
    (withHost host (cutScheme (http ++ (h ++ path))) = http ++ (h ++ path) ∨
      withHost host (cutScheme (http ++ (h ++ path))) = h ++ path ∧ ¬ http <:+: h ++ path) ↔
      Form.absolute.Ok host h path := by
  have hne : h ++ path ≠ http ++ (h ++ path) := by
    intro heq
    have hlen := congrArg List.length heq
    rw [List.length_append, List.length_append, List.length_append] at hlen
    have : http.length = 7 := rfl
    omega
  rw [cutScheme_http]
  unfold withHost Form.Ok
  dsimp only
  split
  · next hheld =>
    constructor
    · rintro (heq | ⟨-, hnot⟩)
      · exact absurd heq hne
      · exact ⟨hnot, .inl hheld⟩
    · rintro ⟨hnot, -⟩
      exact .inr ⟨rfl, hnot⟩
  · next hheld =>
    have hhost : host ++ (h ++ path) ≠ h ++ path := by
      intro heq
      rw [List.append_left_eq_self] at heq
      exact hheld (heq ▸ List.nil_infix)
    rw [List.append_cancel_right_eq, or_iff_left fun heq => hhost heq.1]
    constructor
    · rintro rfl
      exact ⟨hheld, .inr rfl⟩
    · rintro ⟨-, hin | heq⟩
      · exact absurd hin hheld
      · exact heq

/-- when the host that is read is the one that is named -/
theorem Form.ok_self (form : Form) (h path : List Byte) :
    form.Ok h h path ↔ ¬ http <:+: h ++ path ∧ (form = .origin → ¬ h <:+: path) := by
  cases form with
  | origin =>
    have hlen : h ++ cutScheme path ≠ http ++ (h ++ path) := by
      intro heq
      have hlen := congrArg List.length heq
      rw [List.length_append, List.length_append, List.length_append] at hlen
      have := cutScheme_le path
      have : http.length = 7 := rfl
      omega
    unfold Form.Ok
    dsimp only
    rw [or_iff_left hlen, eq_self_iff_true, true_and, and_comm, forall_prop_of_true rfl]
    refine and_congr_right fun hnot => ?_
    rw [cutScheme_of_not fun hin => hnot (hin.trans (List.suffix_append h path).isInfix)]
  | absolute =>
    exact and_congr_right fun _ => iff_of_true (.inl (List.prefix_append h path).isInfix) nofun

/-- **No access is out of range and `GetUrl` gives the url that is asked for, just when** the chunks fit,
the header has no NUL, and `Form.Ok` holds of the host read with it. -/
theorem url_iff {cs : List (List Byte)} {k : Nat} (hk : headerEnd cs.flatten = some k) (form : Form)
    {h path : List Byte} (hasks : Asks (cs.flatten.take k) (form.target h path) h)
    (hpath : form = .origin → ascii "/" <+: path) :
    CallsInRange cs ∧ (after cs).GetUrl = http ++ (h ++ path) ↔ CallsFit cs ∧
      0 ∉ cs.flatten.take k ∧ form.Ok ((recorded k cs).foldl hostField []) h path := by
  rw [callsInRange_iff]
  refine and_congr_right fun hfits => ?_
  have hfacts := after_facts hfits hk
  by_cases hfound : 0 ∉ cs.flatten.take k
  · have hcrlf := find_crlf_of_headerEnd (headerEnd_take hk)
    obtain ⟨method, version, hmethod, hline⟩ := hasks.line
    have htarget : form.target h path ≠ [] := by
      cases form with
      | origin =>
        obtain ⟨rest, rfl⟩ := hpath rfl
        exact List.cons_ne_nil _ _
      | absolute => exact List.cons_ne_nil _ _
    rw [if_pos hfound, upto_split hk hfound] at hfacts
    rw [← firstLine_append (behind k cs) hcrlf] at hline
    obtain ⟨hp, htype⟩ := read_line (find_crlf_append hcrlf _) hmethod htarget hasks.space hline
    rw [← hfacts] at hp htype
    rw [GetUrl_eq htype, and_iff_right hfound, ← (after_readFrom hfits hk).host,
      show (after cs).mPath = _ from hp]
    cases form with
    | origin => exact origin_iff _ _ hasks.ne
    | absolute => exact absolute_iff _ _ _
  · -- nothing is read, and the url is the scheme alone
    rw [if_neg hfound] at hfacts
    refine iff_of_false ?_ fun hok => hfound hok.1
    rw [GetUrl_facts hfacts]
    intro heq
    have hlen : http.length = (http ++ (h ++ path)).length := congrArg List.length heq
    have hpos := List.length_pos_iff.mpr hasks.ne
    rw [List.length_append, List.length_append] at hlen
    omega

/-- a path with a query -/
theorem url_query : (after [ascii "GET /x?y=1 HTTP/1.1\r\nHost: a.b\r\n\r\n"]).GetUrl =
    http ++ (ascii "a.b" ++ ascii "/x?y=1") := by
  have hasks : Asks ([ascii "GET /x?y=1 HTTP/1.1\r\nHost: a.b\r\n\r\n"].flatten.take 34)
      (Form.origin.target (ascii "a.b") (ascii "/x?y=1")) (ascii "a.b") :=
    ⟨⟨ascii "GET", ascii "HTTP/1.1", .inl rfl, by decide⟩, by decide, by decide, by decide⟩
  have hhost : (recorded 34 [ascii "GET /x?y=1 HTTP/1.1\r\nHost: a.b\r\n\r\n"]).foldl hostField [] =
      ascii "a.b" := by decide +kernel
  refine ((url_iff (k := 34) (by decide) .origin hasks fun _ => by decide).mpr
    ⟨by decide +kernel, by decide, ?_⟩).2
  rw [hhost, Form.ok_self]
  exact ⟨find_eq_none.mp (by decide), fun _ => find_eq_none.mp (by decide)⟩

/-- **The host is lost** when the path holds it: `/a` of the host `a`. -/
theorem not_url : ¬ ∀ (cs : List (List Byte)) (k : Nat) (form : Form) (h path : List Byte),
    headerEnd cs.flatten = some k → Asks (cs.flatten.take k) (form.target h path) h →
      (form = .origin → ascii "/" <+: path) → (after cs).GetUrl = http ++ (h ++ path) := by
  intro hall
  have hurl := hall [ascii "GET /a HTTP/1.1\r\nHost: a\r\n\r\n"] 28 .origin (ascii "a") (ascii "/a")
    (by decide) ⟨⟨ascii "GET", ascii "HTTP/1.1", .inl rfl, by decide⟩, by decide, by decide, by decide⟩
    (fun _ => by decide)
  exact absurd hurl (by decide +kernel)

end VncProxy
