import VncProxy.Http.Chunks

/-!
# How often a request is started

`OnRecvProxyBuffer` starts an `HttpRequest` each time `ParseData` returns 1.

* `Issue`        the parser of a connection, the bytes it was given and how often it returned 1;
* `Issue.Ok`     the condition on a chunk;
* `issued_once`  in a run of chunks that meet it `ParseData` never returned 1 more often than there
                 are complete requests in the bytes;
* `not_issued_once`  a chunk behind a request without a body starts it again.
-/

namespace VncProxy

open DataHttpParser

structure Issue where
  parser : DataHttpParser
  fed : List Byte
  ones : Nat

namespace Issue

def init : Issue := ⟨new, [], 0⟩

def step (s : Issue) (c : List Byte) : Option Issue :=
  some
    { parser := (s.parser.ParseData c).1
      fed := s.fed ++ c
      ones := if (s.parser.ParseData c).2 = 1 then s.ones + 1 else s.ones }

/-- the header of `k` bytes ends in the last chunk of `r`, and the lines in it name a length to the
parser: with none the request is complete, and with one the body is not longer than that -/
def HeaderOk (r : List Byte) (k : Nat) : Prop :=
  (contentLength r = -1 → 1 ≤ requests r) ∧
    (0 ≤ contentLength r → ∃ b ∈ bodyLength (r.take k), b.AtMost (contentLength r).toNat)

instance (r : List Byte) (k : Nat) : Decidable (HeaderOk r k) :=
  inferInstanceAs (Decidable ((_ → _) ∧ (_ → _)))

/-- the chunk fits; behind the header it completes another request when the length is -1, and a header
that ends in it is as `HeaderOk` says -/
def Ok (s : Issue) (c : List Byte) : Prop :=
  s.parser.Fits c ∧
    (c ≠ [] →
      if s.parser.mbReceiveHeaderFinish then
        s.parser.miContentLength = -1 → requests s.fed < requests (s.fed ++ c)
      else ∀ k ∈ headerEnd (cstr (s.fed ++ c)), HeaderOk (s.fed ++ c) k)

instance (s : Issue) (c : List Byte) : Decidable (s.Ok c) := by
  unfold Ok
  infer_instance

/-- `ParseData` has not returned 1 more often than there are complete requests -/
def Once (s : Issue) : Prop := s.ones ≤ requests s.fed

/-! ## the invariant -/

/-- behind the header of `k` bytes: with no length each 1 stands for a request of its own, and with a
length there is at most one 1, and the body is then complete -/
structure Behind (s : Issue) (f : Facts) (k : Nat) : Prop where
  header : headerEnd s.fed = some k
  reads : Reads s.parser f (s.fed.drop k)
  unknown : f.contentLength = -1 → s.ones ≤ requests s.fed
  length : 0 ≤ f.contentLength →
    ∃ b ∈ bodyLength (s.fed.take k), b.AtMost f.contentLength.toNat
  once : f.contentLength ≠ -1 → s.ones = 0 ∨ s.ones = 1 ∧ 0 ≤ f.contentLength ∧
    f.contentLength ≤ (s.fed.drop k).length

def Inv (s : Issue) : Prop :=
  (Holds s.parser s.fed ∧ headerEnd (cstr s.fed) = none ∧ s.ones = 0) ∨ ∃ f k, s.Behind f k

theorem Inv.once {s : Issue} (hi : s.Inv) : s.Once := by
  unfold Once
  rcases hi with ⟨-, -, h0⟩ | ⟨f, k, h⟩
  · rw [h0]
    exact Nat.zero_le _
  · by_cases hlen : f.contentLength = -1
    · exact h.unknown hlen
    · rcases h.once hlen with h0 | ⟨h1, hpos, hle⟩
      · rw [h0]
        exact Nat.zero_le _
      · rw [h1]
        obtain ⟨b, hbody, hb⟩ := h.length hpos
        cases b with
        | bytes n =>
          have hn : n ≤ f.contentLength.toNat := hb
          refine requests_pos h.header hbody ?_
          have hk := headerEnd_le h.header
          rw [List.length_drop] at hle
          omega
        | chunked => exact hb.elim

theorem Behind.step {s : Issue} {f : Facts} {k : Nat} (h : s.Behind f k) {c : List Byte} (hc : c ≠ [])
    (hfit : s.parser.Fits c) (hnew : f.contentLength = -1 → requests s.fed < requests (s.fed ++ c)) :
    Behind ⟨(s.parser.ParseData c).1, s.fed ++ c,
      if (s.parser.ParseData c).2 = 1 then s.ones + 1 else s.ones⟩ f k := by
  have hk := headerEnd_le h.header
  have hpos := List.length_pos_iff.mpr hc
  obtain ⟨hreads, hret⟩ := h.reads.ParseData hc (h.reads.index ▸ (hfit hc).1)
  have hdrop : (s.fed ++ c).drop k = s.fed.drop k ++ c := List.drop_append_of_le_length hk.2
  have hlen : (s.fed.drop k ++ c).length = (s.fed.drop k).length + c.length := List.length_append
  have hones : (s.parser.ParseData c).2 = 1 ↔ f.Done (s.fed.drop k ++ c).length := by
    rw [hret]
    split
    · next hd => exact ⟨fun _ => hd, fun _ => rfl⟩
    · next hd => exact ⟨fun h0 => absurd h0 (by decide), fun hd' => absurd hd' hd⟩
  refine ⟨headerEnd_append c h.header, hdrop ▸ hreads, fun hn => ?_, fun hn => ?_, fun hn => ?_⟩
  · have := h.unknown hn
    have := hnew hn
    dsimp only
    split <;> omega
  · dsimp only
    rw [List.take_append_of_le_length hk.2]
    exact h.length hn
  · show (if _ then s.ones + 1 else s.ones) = 0 ∨ (if _ then s.ones + 1 else s.ones) = 1 ∧ _ ∧
      _ ≤ (((s.fed ++ c).drop k).length : Int)
    rw [hdrop]
    by_cases hd : (s.parser.ParseData c).2 = 1
    · rw [if_pos hd]
      -- the body is complete with this chunk, so it was not before
      have hbody := (hones.mp hd).resolve_left hn
      rcases h.once hn with h0 | ⟨-, -, hle⟩
      · exact .inr ⟨by omega, by omega, by omega⟩
      · omega
    · rw [if_neg hd]
      rcases h.once hn with h0 | ⟨h1, h2, h3⟩
      · exact .inl h0
      · exact .inr ⟨h1, h2, by omega⟩

theorem Behind.first {s : Issue} (hp : Holds s.parser s.fed) (h0 : s.ones = 0) {c : List Byte}
    (hc : c ≠ []) (hfit : s.parser.Fits c) {k : Nat} (hk : headerEnd (cstr (s.fed ++ c)) = some k)
    (hok : HeaderOk (s.fed ++ c) k) :
    Behind ⟨(s.parser.ParseData c).1, s.fed ++ c,
      if (s.parser.ParseData c).2 = 1 then s.ones + 1 else s.ones⟩ (read (cstr (s.fed ++ c))) k := by
  have hroom := (hp.room hfit hc).1
  obtain ⟨hreads, hret⟩ := (hp.ParseData hc (by omega)).2 k hk
  have hheader : headerEnd (s.fed ++ c) = some k := by
    obtain ⟨u, hu⟩ := cstr_le (s.fed ++ c)
    rw [← hu]
    exact headerEnd_append u hk
  obtain ⟨hnone, hsome⟩ := hok
  rw [← contentLength_eq hk] at hnone hsome
  refine ⟨hheader, hreads, fun hn => ?_, hsome, fun hn => ?_⟩
  · -- a request without a length is complete with its header
    have := hnone hn
    dsimp only
    split <;> omega
  · dsimp only
    by_cases hd : (s.parser.ParseData c).2 = 1
    · have hbody : (((s.fed ++ c).drop k).length : Int) = (read (cstr (s.fed ++ c))).contentLength := by
        rw [hret] at hd
        split at hd
        · next hdone => exact hdone.resolve_left hn
        · exact absurd hd (by decide)
      rw [if_pos hd]
      exact .inr ⟨by omega, by omega, by omega⟩
    · rw [if_neg hd]
      exact .inl h0

/-- **A chunk that meets the condition keeps the invariant.** -/
theorem Inv.step {s s' : Issue} {c : List Byte} (hi : s.Inv) (hok : s.Ok c)
    (hstep : s.step c = some s') : s'.Inv := by
  obtain rfl := Option.some.inj hstep
  obtain ⟨hfit, hok⟩ := hok
  by_cases hc : c = []
  · subst hc
    rw [ParseData_of_not_fits s.parser [] (by simp), List.append_nil]
    exact hi
  · have hok := hok hc
    rcases hi with ⟨hp, hend, h0⟩ | ⟨f, k, h⟩
    · rw [hp.finish, if_neg Bool.false_ne_true] at hok
      cases hk : headerEnd (cstr (s.fed ++ c)) with
      | none =>
        have hroom := (hp.room hfit hc).1
        obtain ⟨hholds, hret⟩ := (hp.ParseData hc (by omega)).1 hk
        refine .inl ⟨hholds, hk, ?_⟩
        dsimp only
        rw [hret, if_neg (by decide)]
        exact h0
      | some k => exact .inr ⟨_, k, Behind.first hp h0 hc hfit hk (hok k hk)⟩
    · rw [h.reads.finish, if_pos rfl] at hok
      refine .inr ⟨f, k, h.step hc hfit fun hn => hok ?_⟩
      rw [← hn, ← h.reads.facts]
      rfl

end Issue

/-! ## all runs -/

/-- **Each request is started once**, in every run of chunks that meet the condition. -/
theorem issued_once {l : List (List Byte)} {s : Issue} (hok : RunOk Issue.step Issue.Ok Issue.init l)
    (hrun : run Issue.step Issue.init l = some s) : s.Once :=
  (inv_runOk (I := Issue.Inv) (fun _ _ _ hi hok hstep => hi.step hok hstep)
    (.inl ⟨.new, rfl, rfl⟩) hok hrun).once

/-- a request with a body, in three chunks -/
theorem issued_once_post :
    ∃ s, run Issue.step Issue.init [ascii "POST / HTTP/1.1\r\nContent-Le", ascii "ngth: 3\r\n\r\na",
      ascii "bc"] = some s ∧ s.Once := by
  have hok : RunOk Issue.step Issue.Ok Issue.init [ascii "POST / HTTP/1.1\r\nContent-Le",
      ascii "ngth: 3\r\n\r\na", ascii "bc"] := by
    decide +kernel
  exact ⟨_, rfl, issued_once hok rfl⟩

/-- **The same request again**: one byte behind a request without a body. -/
theorem not_issued_once :
    ∃ s, run Issue.step Issue.init [ascii "GET / HTTP/1.1\r\n\r\n", ascii "x"] = some s ∧
      s.ones = 2 ∧ requests s.fed = 1 ∧ ¬ s.Once := by
  obtain ⟨s, hrun, hones, hrequests⟩ : ∃ s, run Issue.step Issue.init
      [ascii "GET / HTTP/1.1\r\n\r\n", ascii "x"] = some s ∧ s.ones = 2 ∧ requests s.fed = 1 := by
    decide +kernel
  refine ⟨s, hrun, hones, hrequests, fun honce => ?_⟩
  unfold Issue.Once at honce
  rw [hones, hrequests] at honce
  exact absurd honce (by decide)

end VncProxy
