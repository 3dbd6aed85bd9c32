import VncProxy.Http.Url
import VncProxy.Lib.Run

/-!
# Which requests are accepted

* `Feed`            a parser and the bytes it has been fed, whatever `ParseData` returned;
* `RequestLine`     a line that asks for a target with a method;
* `Got`             what the parser holds, or has read, of the bytes while all chunks fit;
* `Feed.Accepts`    a call returns 1 behind a request line only, and -1 behind another line;
* `accepted_iff`    it does in all calls just when the chunks fit and no other line comes in front of a
                    blank line.
-/

namespace VncProxy

open DataHttpParser

/-! ## feeding a parser -/

structure Feed where
  parser : DataHttpParser
  /-- all bytes of the chunks -/
  fed : List Byte

def Feed.init : Feed := ⟨new, []⟩

def Feed.step (s : Feed) (c : List Byte) : Option Feed :=
  some ⟨(s.parser.ParseData c).1, s.fed ++ c⟩

/-! ## request lines -/

def HttpType.token : HttpType → List Byte
  | .GET => ascii "GET"
  | .POST => ascii "POST"
  | .CONNECT => ascii "CONNECT"
  | .UNKNOW => []

/-- the line is a method, a space and a target, with or without something behind a further space -/
structure RequestLine (line : List Byte) (type : HttpType) (target : List Byte) : Prop where
  known : type ≠ .UNKNOW
  ne : target ≠ []
  space : 32 ∉ target
  line : line = type.token ++ 32 :: target ∨
    ∃ rest, line = type.token ++ 32 :: (target ++ 32 :: rest)

def WellFormed (line : List Byte) : Prop := ∃ type target, RequestLine line type target

theorem strtok_word {d : Byte} {w : List Byte} (hw : w ≠ []) (hd : d ∉ w) : strtok d w = [w] := by
  induction w with
  | nil => exact absurd rfl hw
  | cons b w ih =>
    rw [List.mem_cons, not_or] at hd
    have hb : b ≠ d := Ne.symm hd.1
    cases w with
    | nil =>
      rw [strtok, if_neg hb]
    | cons c w =>
      have hc : c ≠ d := fun h => hd.2 (h ▸ List.mem_cons_self ..)
      have hrest := ih (List.cons_ne_nil _ _) hd.2
      rw [strtok, if_neg hb, if_neg hc, hrest]

theorem HttpType.token_word {type : HttpType} (h : type ≠ .UNKNOW) :
    type.token ≠ [] ∧ 32 ∉ type.token := by
  cases type with
  | GET => decide
  | POST => decide
  | CONNECT => decide
  | UNKNOW => exact absurd rfl h

theorem parseType_token (p : DataHttpParser) {type : HttpType} (h : type ≠ .UNKNOW) :
    (p.parseType type.token).1.mHttpType = some type := by
  cases type with
  | GET => rfl
  | POST => rfl
  | CONNECT => rfl
  | UNKNOW => exact absurd rfl h

theorem RequestLine.tokens {line target : List Byte} {type : HttpType}
    (h : RequestLine line type target) : ∃ rest, strtok 32 line = type.token :: target :: rest := by
  obtain ⟨hne, hspace⟩ := HttpType.token_word h.known
  rcases h.line with rfl | ⟨rest, rfl⟩
  · exact ⟨[], by rw [strtok_append hne hspace, strtok_word h.ne h.space]⟩
  · exact ⟨strtok 32 rest, by rw [strtok_append hne hspace, strtok_append h.ne h.space]⟩

theorem RequestLine.start {line target : List Byte} {type : HttpType}
    (h : RequestLine line type target) : type.token <+: line := by
  rcases h.line with rfl | ⟨rest, rfl⟩
  · exact List.prefix_append _ _
  · exact List.prefix_append _ _

/-! ## what the parser has read -/

namespace DataHttpParser

/-- the parser has got all the bytes `u`, and its header as it was when the blank line had come -/
def Got (p : DataHttpParser) (u : List Byte) : Prop :=
  (Holds p u ∧ headerEnd (cstr u) = none) ∨
    ∃ k w, w <+: u ∧ headerEnd (cstr w) = some k ∧ Reads p (read (cstr w)) (u.drop k)

theorem Got.new : Got new [] := .inl ⟨.new, rfl⟩

/-- **A chunk that fits is got.** -/
theorem Got.ParseData {p : DataHttpParser} {u c : List Byte} (hp : Got p u) (hc : p.Fits c) :
    Got (p.ParseData c).1 (u ++ c) := by
  rcases hp with ⟨hp, hend⟩ | ⟨k, w, hw, hend, hp⟩
  · obtain ⟨hnone, hsome⟩ := hp.fits hend hc
    cases hk : headerEnd (cstr (u ++ c)) with
    | none => exact .inl ⟨hnone hk, hk⟩
    | some k => exact .inr ⟨k, _, List.prefix_refl _, hk, hsome k hk⟩
  · have hle := Nat.le_trans (headerEnd_le hend).2 ((cstr_le w).trans hw).length_le
    refine .inr ⟨k, w, hw.trans (List.prefix_append _ _), hend, ?_⟩
    rw [List.drop_append_of_le_length hle]
    exact hp.fits hc

end DataHttpParser

/-- the parser has got all bytes, and two bytes of `mBuffer` are free -/
def Feed.Kept (s : Feed) : Prop := Got s.parser s.fed ∧ s.parser.Bounded

theorem Feed.Kept.init : Feed.init.Kept := ⟨.new, .new⟩

theorem Feed.Kept.step {s : Feed} (hs : s.Kept) {c : List Byte} (hc : s.parser.Fits c) :
    Feed.Kept ⟨(s.parser.ParseData c).1, s.fed ++ c⟩ :=
  ⟨hs.1.ParseData hc, hs.2.ParseData hc⟩

/-! ## what is accepted -/

/-- 1 is returned behind a request line only, whose method and target have been read, and -1 behind a
header with another first line -/
structure Feed.Accepts (s : Feed) (c : List Byte) : Prop where
  one : (s.parser.ParseData c).2 = 1 → ∃ type target,
    RequestLine (firstLine (s.fed ++ c)) type target ∧
      (s.parser.ParseData c).1.mHttpType = some type ∧
        (s.parser.ParseData c).1.mPath = cutScheme target
  other : headerEnd (s.fed ++ c) ≠ none → ¬ WellFormed (firstLine (s.fed ++ c)) →
    (s.parser.ParseData c).2 = -1

def Feed.Asks (s : Feed) (c : List Byte) : Prop :=
  c ≠ [] → headerEnd (s.fed ++ c) ≠ none → WellFormed (firstLine (s.fed ++ c))

theorem Feed.Kept.read {s : Feed} (hs : s.Kept) (hfinish : s.parser.mbReceiveHeaderFinish = true) :
    headerEnd s.fed ≠ none ∧ ∀ type target, RequestLine (firstLine s.fed) type target →
      s.parser.mHttpType = some type ∧ s.parser.mPath = cutScheme target := by
  rcases hs.1 with ⟨hholds, -⟩ | ⟨k, u, hu, hk, hreads⟩
  · exact absurd hfinish (by rw [hholds.finish]; exact Bool.false_ne_true)
  · obtain ⟨v, hv⟩ := (cstr_le u).trans hu
    have hfacts := hreads.facts
    have hcrlf := find_crlf_of_headerEnd hk
    rw [← hv, firstLine_append v hcrlf, headerEnd_append v hk]
    refine ⟨Option.some_ne_none k, fun type target hline => ?_⟩
    obtain ⟨rest, htokens⟩ := hline.tokens
    obtain ⟨hpath, htype⟩ := read_tokens hcrlf htokens
    rw [← hfacts] at hpath htype
    exact ⟨htype.trans (parseType_token _ hline.known), hpath⟩

/-- **A call with a chunk that fits accepts a request line only, just when no other line comes.** -/
theorem Feed.accepts_iff {s : Feed} (hs : s.Kept) {c : List Byte} (hfit : s.parser.Fits c) :
    s.Accepts c ↔ s.Asks c := by
  have hroom : s.parser.mIndex < MAX_BUFFER_LEN := by
    have := hs.2.1
    omega
  constructor
  · intro h hc hend
    by_contra hnot
    rcases (s.parser.ParseData_full c).mp (h.other hend hnot) with h0 | h0
    · exact hc h0
    · exact absurd h0 (Nat.ne_of_lt hroom)
  · intro h
    by_cases hc : c = []
    · have hret := (s.parser.ParseData_full c).mpr (.inl hc)
      exact ⟨fun h1 => absurd (hret.symm.trans h1) (by decide), fun _ _ => hret⟩
    · have hline := h hc
      refine ⟨fun h1 => ?_, fun hend hnot => absurd (hline hend) hnot⟩
      obtain ⟨hend, hread⟩ := (hs.step hfit).read (s.parser.ParseData_one c h1)
      obtain ⟨type, target, hrequest⟩ := hline hend
      exact ⟨type, target, hrequest, hread type target hrequest⟩

/-- **No access is out of range and only requests are accepted, just when** each chunk fits and none that
is not empty ends a header whose first line is not a request line, or comes behind one. -/
theorem accepted_iff (l : List (List Byte)) :
    RunOk Feed.step (fun s c => (∀ a ∈ s.parser.accesses c, a.InRange) ∧ s.Accepts c) Feed.init l ↔
      RunOk Feed.step (fun s c => s.parser.Fits c ∧ s.Asks c) Feed.init l := by
  refine runOk_congr (I := Feed.Kept) ?_ (fun s c hs => ?_) Feed.Kept.init l
  · intro s c s' hs hc h
    obtain rfl := Option.some.inj h
    exact hs.step hc.1
  · rw [inRange_iff hs.2]
    exact and_congr_right fun hfit => Feed.accepts_iff hs hfit

/-- **A request with the method `PUT`** is accepted. -/
theorem not_accepted : ¬ ∀ l, RunOk Feed.step Feed.Accepts Feed.init l := by
  intro hall
  have hone := (hall [ascii "PUT / HTTP/1.1\r\n\r\n"]).1.one (by decide +kernel)
  obtain ⟨type, target, hline, -⟩ := hone
  have hstart : type.token <+: ascii "PUT / HTTP/1.1" := hline.start
  cases type with
  | GET => exact absurd hstart (by decide)
  | POST => exact absurd hstart (by decide)
  | CONNECT => exact absurd hstart (by decide)
  | UNKNOW => exact hline.known rfl

end VncProxy
