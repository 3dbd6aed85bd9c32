import VncProxy.Wire.ParseData

/-!
# `ParseDataNoCache` on arbitrary bytes

What the peer sends is cut off frame by frame wherever it claims to be, so the calls are described
by a walk over the bytes that have come: whole frames one behind the other, up to a place where
the reader can go no further.

* `Whole`, `Part`, `Bad`, `Jam`   what stands at such a place;
* `Walk s fs t`          the whole frames `fs` lead from `s` to `t`;
* `CmdLoop.run_walk`     the inner loop walks until it holds a part of a frame or a bad header;
* `call_outcome`         a call walks over `mBuffer` and the chunk; it returns with a part of a frame,
                         returns -1 at a bad header, or goes on for ever at a jam;
* `calls_outcome`        the same of all calls for a list of chunks.
-/

namespace VncProxy

/-! ## what stands at the head of the bytes -/

/-- `header->len` -/
def headLen (s : List Byte) : Int := (CMDH.read s).len.toInt

/-- the command that is copied out of `mBuffer` -/
def cmdAt (s : List Byte) : CMD :=
  ⟨CMDH.read s, (s.drop sizeofCMDH).take (headLen s).toNat⟩

/-- what is left behind it -/
def afterCmd (s : List Byte) : List Byte := s.drop (sizeofCMDH + (headLen s).toNat)

/-- a whole frame, and one that `mBuffer` can hold -/
structure Whole (s : List Byte) : Prop where
  header : sizeofCMDH ≤ s.length
  nonneg : 0 ≤ headLen s
  fits : sizeofCMDH + (headLen s).toNat ≤ MAX_BUFFER_LEN
  all : sizeofCMDH + (headLen s).toNat ≤ s.length

structure Bad (s : List Byte) : Prop where
  header : sizeofCMDH ≤ s.length
  range : headLen s > MAX_BUFFER_LEN ∨ headLen s < 0

/-- the header is accepted, the frame is longer than `mBuffer`, and there are more bytes than
`mBuffer` can hold -/
structure Jam (s : List Byte) : Prop where
  nonneg : 0 ≤ headLen s
  accepted : headLen s ≤ MAX_BUFFER_LEN
  tooLong : MAX_BUFFER_LEN < sizeofCMDH + (headLen s).toNat
  more : MAX_BUFFER_LEN < s.length

/-- no whole frame yet: the header has not come, or it is accepted and bytes are missing -/
def Part (s : List Byte) : Prop :=
  s.length < sizeofCMDH ∨
    0 ≤ headLen s ∧ headLen s ≤ MAX_BUFFER_LEN ∧ s.length < sizeofCMDH + (headLen s).toNat

theorem headLen_append {s : List Byte} (h : sizeofCMDH ≤ s.length) (r : List Byte) :
    headLen (s ++ r) = headLen s := by
  unfold headLen
  have h1 := CMDH.read_take (s ++ r) s.length h (by rw [List.length_append]; omega)
  rw [List.take_left] at h1
  rw [h1]

theorem Whole.append {s : List Byte} (h : Whole s) (r : List Byte) :
    Whole (s ++ r) ∧ cmdAt (s ++ r) = cmdAt s ∧ afterCmd (s ++ r) = afterCmd s ++ r := by
  have hl := headLen_append h.header r
  have hall := h.all
  have hread : CMDH.read (s ++ r) = CMDH.read s := by
    have h1 := CMDH.read_take (s ++ r) s.length h.header (by rw [List.length_append]; omega)
    rw [List.take_left] at h1
    exact h1.symm
  refine ⟨⟨?_, ?_, ?_, ?_⟩, ?_, ?_⟩
  · rw [List.length_append]
    exact Nat.le_add_right_of_le h.header
  · rw [hl]
    exact h.nonneg
  · rw [hl]
    exact h.fits
  · rw [hl, List.length_append]
    exact Nat.le_add_right_of_le hall
  · unfold cmdAt
    rw [hl, hread, List.drop_append_of_le_length h.header, List.take_append_of_le_length]
    rw [List.length_drop]
    omega
  · unfold afterCmd
    rw [hl, List.drop_append_of_le_length hall]

theorem Whole.param_length {s : List Byte} (h : Whole s) :
    (cmdAt s).param.length = (headLen s).toNat := by
  have hall := h.all
  show ((s.drop sizeofCMDH).take (headLen s).toNat).length = _
  rw [List.length_take, List.length_drop]
  omega

theorem Whole.after_length {s : List Byte} (h : Whole s) :
    (afterCmd s).length + sizeofCMDH ≤ s.length := by
  have hall := h.all
  unfold afterCmd
  rw [List.length_drop]
  omega

theorem Whole.not_bad {s : List Byte} (h : Whole s) : ¬ Bad s := by
  intro hb
  have h1 := h.fits
  have h2 := h.nonneg
  rcases hb.range with hr | hr <;> omega

theorem Whole.not_jam {s : List Byte} (h : Whole s) : ¬ Jam s := by
  intro hj
  have h1 := h.fits
  have h2 := hj.tooLong
  omega

theorem Whole.not_part {s : List Byte} (h : Whole s) : ¬ Part s := by
  have h1 := h.header
  have h2 := h.all
  rintro (hp | ⟨_, _, hp⟩) <;> omega

theorem Jam.not_bad {s : List Byte} (h : Jam s) : ¬ Bad s := by
  intro hb
  have h1 := h.nonneg
  have h2 := h.accepted
  rcases hb.range with hr | hr <;> omega

theorem Jam.append {u : List Byte} (h : Jam u) (r : List Byte) : Jam (u ++ r) := by
  have hmore := h.more
  have hl := headLen_append (s := u) (by unfold sizeofCMDH; unfold MAX_BUFFER_LEN at hmore; omega) r
  refine ⟨by rw [hl]; exact h.nonneg, by rw [hl]; exact h.accepted, by rw [hl]; exact h.tooLong, ?_⟩
  rw [List.length_append]
  exact Nat.lt_add_right _ hmore

theorem Bad.append {u : List Byte} (h : Bad u) (r : List Byte) : Bad (u ++ r) := by
  refine ⟨by rw [List.length_append]; exact Nat.le_add_right_of_le h.header, ?_⟩
  rw [headLen_append h.header]
  exact h.range

theorem whole_or_part_or_bad {s : List Byte} (hs : s.length ≤ MAX_BUFFER_LEN) :
    Whole s ∨ Part s ∨ Bad s := by
  by_cases h1 : sizeofCMDH ≤ s.length
  · by_cases h2 : headLen s > MAX_BUFFER_LEN ∨ headLen s < 0
    · exact Or.inr (Or.inr ⟨h1, h2⟩)
    · by_cases h3 : sizeofCMDH + (headLen s).toNat ≤ s.length
      · exact Or.inl ⟨h1, by omega, by omega, h3⟩
      · exact Or.inr (Or.inl (Or.inr ⟨by omega, by omega, by omega⟩))
  · exact Or.inr (Or.inl (Or.inl (by omega)))

/-! ## the walk -/

/-- the whole frames `fs`, one behind the other, lead from `s` to `t` -/
inductive Walk : List Byte → List CMD → List Byte → Prop
  | stop (s : List Byte) : Walk s [] s
  | step {s t : List Byte} {fs : List CMD} (h : Whole s) (hw : Walk (afterCmd s) fs t) :
      Walk s (cmdAt s :: fs) t

theorem Walk.append {s t : List Byte} {fs : List CMD} (h : Walk s fs t) (r : List Byte) :
    Walk (s ++ r) fs (t ++ r) := by
  induction h with
  | stop s => exact .stop (s ++ r)
  | step h _ ih =>
    obtain ⟨h1, h2, h3⟩ := h.append r
    rw [← h2]
    rw [← h3] at ih
    exact .step h1 ih

theorem Walk.trans {s t u : List Byte} {fs fs' : List CMD} (h : Walk s fs t) (h' : Walk t fs' u) :
    Walk s (fs ++ fs') u := by
  induction h with
  | stop s => exact h'
  | step h _ ih => exact .step h (ih h')

theorem Walk.length_le {s t : List Byte} {fs : List CMD} (h : Walk s fs t) :
    t.length ≤ s.length := by
  induction h with
  | stop s => exact Nat.le_refl _
  | step h _ ih =>
    have := h.after_length
    omega

/-- **A walk goes only one way**: to a place with no whole frame every other walk leads on. -/
theorem Walk.to_end {s t u : List Byte} {fs fs' : List CMD} (h : Walk s fs t) (hu : ¬ Whole u)
    (h' : Walk s fs' u) : ∃ more, fs' = fs ++ more ∧ Walk t more u := by
  induction h generalizing fs' with
  | stop s => exact ⟨fs', rfl, h'⟩
  | step h _ ih =>
    cases h' with
    | stop => exact absurd h hu
    | step _ hw' =>
      obtain ⟨more, rfl, hm⟩ := ih hw'
      exact ⟨more, rfl, hm⟩

theorem Walk.unique {s t u : List Byte} {fs fs' : List CMD} (h : Walk s fs t) (ht : ¬ Whole t)
    (hu : ¬ Whole u) (h' : Walk s fs' u) : t = u := by
  obtain ⟨more, _, hm⟩ := h.to_end hu h'
  cases hm with
  | stop => rfl
  | step hw _ => exact absurd hw ht

/-! ## the inner loop -/

/-- the memory a `memcpy` of `ParseDataNoCache` and the NUL behind the parameter touch -/
inductive Access where
  /-- `memcpy(mBuffer.buffer + off, _, len)` -/
  | fill (off len : Nat)
  /-- `memcpy(&cmd, mBuffer.buffer, len)` -/
  | cmd (len : Nat)
  /-- `cmd.param[index] = '\0'` -/
  | nul (index : Nat)
  /-- `memcpy(mBuffer.buffer, mBuffer.buffer + off, len)` -/
  | shift (off len : Nat)
deriving DecidableEq

def sizeofCMD : Nat := sizeofCMDH + MAX_PARAM_LEN

def Access.InBounds : Access → Prop
  | .fill off len => off + len ≤ MAX_BUFFER_LEN
  | .cmd len => len ≤ MAX_BUFFER_LEN ∧ len ≤ sizeofCMD
  | .nul index => index < MAX_PARAM_LEN
  | .shift off len => len ≤ MAX_BUFFER_LEN ∧ off + len ≤ MAX_BUFFER_LEN

/-- what a round of the inner loop touches -/
def CmdLoop.accesses (s : CmdLoop) : List Access :=
  let header := CMDH.read s.mBuffer
  if header.len.toInt > MAX_BUFFER_LEN ∨ header.len.toInt < 0 then []
  else
    let iLen : Int := (s.mBuffer.length : Int) - sizeofCMDH
    if iLen ≥ header.len.toInt then
      let n := sizeofCMDH + header.len.toInt.toNat
      let len := s.mBuffer.length - n
      [.cmd n, .nul header.len.toInt.toNat] ++ if 0 < len then [.shift n len] else []
    else []

def CmdLoop.InBounds (s : CmdLoop) : Prop :=
  ∀ c, Rounds CmdLoop.cond CmdLoop.body s c →
    c.mBuffer.length ≤ MAX_BUFFER_LEN ∧ ∀ a ∈ c.accesses, a.InBounds

theorem CmdLoop.cond_of_header {b : List Byte} (h : sizeofCMDH ≤ b.length) (ret : Int)
    (out : List CMD) : CmdLoop.cond ⟨b, ret, out, false⟩ = true := by
  show (decide (sizeofCMDH ≤ b.length) && !false) = true
  rw [decide_eq_true h]
  rfl

theorem CmdLoop.cond_stop (b : List Byte) (ret : Int) (out : List CMD) :
    CmdLoop.cond ⟨b, ret, out, true⟩ = false := by
  show (decide (sizeofCMDH ≤ b.length) && !true) = false
  rw [Bool.not_true, Bool.and_false]

theorem CmdLoop.body_whole {b : List Byte} (h : Whole b) (ret : Int) (out : List CMD) :
    CmdLoop.body ⟨b, ret, out, false⟩ = ⟨afterCmd b, 1, out ++ [cmdAt b], false⟩ := by
  have h1 := h.nonneg
  have h2 := h.fits
  have h3 := h.all
  unfold headLen at h1 h2 h3
  have hbad : ¬ ((CMDH.read b).len.toInt > MAX_BUFFER_LEN ∨ (CMDH.read b).len.toInt < 0) := by
    omega
  have hge : ((b.length : Int) - sizeofCMDH) ≥ (CMDH.read b).len.toInt := by omega
  simp only [CmdLoop.body, if_neg hbad, if_pos hge]
  rfl

theorem CmdLoop.accesses_whole {b : List Byte} (h : Whole b) (hb : b.length ≤ MAX_BUFFER_LEN)
    (ret : Int) (out : List CMD) :
    (∀ a ∈ CmdLoop.accesses ⟨b, ret, out, false⟩, a.InBounds) ↔
      (cmdAt b).param.length < MAX_PARAM_LEN := by
  have h1 := h.nonneg
  have h2 := h.fits
  have h3 := h.all
  rw [h.param_length]
  unfold headLen at h1 h2 h3 ⊢
  have hbad : ¬ ((CMDH.read b).len.toInt > MAX_BUFFER_LEN ∨ (CMDH.read b).len.toInt < 0) := by
    omega
  have hge : ((b.length : Int) - sizeofCMDH) ≥ (CMDH.read b).len.toInt := by omega
  simp only [CmdLoop.accesses, if_neg hbad, if_pos hge]
  constructor
  · intro ha
    exact ha (.nul _) (by simp)
  · intro hlt a ha
    rcases List.mem_append.mp ha with ha | ha
    · rcases List.mem_cons.mp ha with rfl | ha
      · show _ ∧ _ ≤ sizeofCMD
        unfold sizeofCMD
        omega
      · rw [List.mem_singleton.mp ha]
        exact hlt
    · split at ha
      · rw [List.mem_singleton.mp ha]
        show _ ∧ _
        omega
      · exact absurd ha (by simp)

theorem CmdLoop.body_part {b : List Byte} (h : Part b) (hh : sizeofCMDH ≤ b.length) (ret : Int)
    (out : List CMD) :
    CmdLoop.body ⟨b, ret, out, false⟩ = ⟨b, ret, out, true⟩ ∧
      CmdLoop.accesses ⟨b, ret, out, false⟩ = [] := by
  rcases h with h | ⟨h1, h2, h3⟩
  · omega
  · unfold headLen at h1 h2 h3
    have hbad : ¬ ((CMDH.read b).len.toInt > MAX_BUFFER_LEN ∨ (CMDH.read b).len.toInt < 0) := by
      omega
    have hlt : ¬ ((b.length : Int) - sizeofCMDH) ≥ (CMDH.read b).len.toInt := by omega
    simp only [CmdLoop.body, CmdLoop.accesses, if_neg hbad, if_neg hlt, and_self]

theorem CmdLoop.body_bad {b : List Byte} (h : Bad b) (ret : Int) (out : List CMD) :
    CmdLoop.body ⟨b, ret, out, false⟩ = ⟨b, -1, out, true⟩ ∧
      CmdLoop.accesses ⟨b, ret, out, false⟩ = [] := by
  have hbad := h.range
  unfold headLen at hbad
  simp only [CmdLoop.body, CmdLoop.accesses, if_pos hbad, and_self]

/-- a loop whose first round stops it touches what that round touches -/
theorem CmdLoop.inBounds_last {s : CmdLoop} (hb : s.mBuffer.length ≤ MAX_BUFFER_LEN)
    (hstop : s.body.stop = true) (ha : s.accesses = []) : s.InBounds := by
  intro c hc
  rcases (rounds_cases hc).2 with rfl | hc
  · rw [ha]
    exact ⟨hb, fun a h => absurd h (by simp)⟩
  · have hcond : CmdLoop.cond s.body = false := by
      show (decide (sizeofCMDH ≤ _) && !s.body.stop) = false
      rw [hstop, Bool.not_true, Bool.and_false]
    exact absurd hc (rounds_done hcond)

/-- **The inner loop walks over the whole frames in `mBuffer`** and stops at a part of a frame, or
at a bad header with -1. -/
theorem CmdLoop.run_walk (b : List Byte) (hb : b.length ≤ MAX_BUFFER_LEN) (ret : Int)
    (out : List CMD) : ∃ new t stop ret', Walk b new t ∧
      CmdLoop.run ⟨b, ret, out, false⟩ = ⟨t, ret', out ++ new, stop⟩ ∧
      (Part t ∧ ret' = (if new = [] then ret else 1) ∨ Bad t ∧ ret' = -1) ∧
      (CmdLoop.InBounds ⟨b, ret, out, false⟩ ↔ ∀ c ∈ new, c.param.length < MAX_PARAM_LEN) := by
  suffices hl : ∀ k (b : List Byte) ret out, b.length ≤ k → b.length ≤ MAX_BUFFER_LEN →
      ∃ new t stop ret' n, Walk b new t ∧
        loop CmdLoop.cond CmdLoop.body n ⟨b, ret, out, false⟩ = some ⟨t, ret', out ++ new, stop⟩ ∧
        (Part t ∧ ret' = (if new = [] then ret else 1) ∨ Bad t ∧ ret' = -1) ∧
        (CmdLoop.InBounds ⟨b, ret, out, false⟩ ↔ ∀ c ∈ new, c.param.length < MAX_PARAM_LEN) by
    obtain ⟨new, t, stop, ret', n, hw, hrun, hend, hin⟩ := hl b.length b ret out (Nat.le_refl _) hb
    exact ⟨new, t, stop, ret', hw, loop_unique (CmdLoop.run_eq _) hrun, hend, hin⟩
  intro k
  induction k with
  | zero =>
    intro b ret out hk hb
    obtain rfl := List.eq_nil_of_length_eq_zero (Nat.le_zero.mp hk)
    have hcond : CmdLoop.cond ⟨[], ret, out, false⟩ = false := rfl
    refine ⟨[], [], false, ret, 0, .stop _, by rw [loop_done 0 hcond, List.append_nil],
      Or.inl ⟨Or.inl (by decide), rfl⟩, ?_⟩
    exact iff_of_true (fun c hc => absurd hc (rounds_done hcond)) (by simp)
  | succ k ih =>
    intro b ret out hk hb
    by_cases hh : sizeofCMDH ≤ b.length
    · have hcond := CmdLoop.cond_of_header hh ret out
      rcases whole_or_part_or_bad hb with h | h | h
      · have hbody := CmdLoop.body_whole h ret out
        have hlen := h.after_length
        unfold sizeofCMDH at hlen
        obtain ⟨new, t, stop, ret', n, hw, hrun, hend, hin⟩ :=
          ih (afterCmd b) 1 (out ++ [cmdAt b]) (by omega) (by omega)
        refine ⟨cmdAt b :: new, t, stop, ret', n + 1, .step h hw, ?_, ?_, ?_⟩
        · rw [loop_round n hcond, hbody, hrun, List.append_assoc, List.singleton_append]
        · rcases hend with ⟨ht, hr⟩ | hend
          · exact Or.inl ⟨ht, by
            rw [hr, ite_self]
            exact (if_neg (List.cons_ne_nil _ _)).symm⟩
          · exact Or.inr hend
        · unfold CmdLoop.InBounds at hin ⊢
          rw [rounds_forall hcond, hbody, hin, CmdLoop.accesses_whole h hb, List.forall_mem_cons]
          exact ⟨fun h => ⟨h.1.2, h.2⟩, fun h => ⟨⟨hb, h.1⟩, h.2⟩⟩
      · obtain ⟨hbody, hacc⟩ := CmdLoop.body_part h hh ret out
        refine ⟨[], b, true, ret, 1, .stop b, ?_, Or.inl ⟨h, rfl⟩, ?_⟩
        · rw [loop_round 0 hcond, hbody, loop_done 0 (CmdLoop.cond_stop ..), List.append_nil]
        · exact iff_of_true (CmdLoop.inBounds_last hb (by rw [hbody]) hacc) (by simp)
      · obtain ⟨hbody, hacc⟩ := CmdLoop.body_bad h ret out
        refine ⟨[], b, true, -1, 1, .stop b, ?_, Or.inr ⟨h, rfl⟩, ?_⟩
        · rw [loop_round 0 hcond, hbody, loop_done 0 (CmdLoop.cond_stop ..), List.append_nil]
        · exact iff_of_true (CmdLoop.inBounds_last hb (by rw [hbody]) hacc) (by simp)
    · have hcond : CmdLoop.cond ⟨b, ret, out, false⟩ = false := by
        show (decide (sizeofCMDH ≤ b.length) && !false) = false
        rw [decide_eq_false hh, Bool.false_and]
      refine ⟨[], b, false, ret, 0, .stop b, by rw [loop_done 0 hcond, List.append_nil],
        Or.inl ⟨Or.inl (by omega), rfl⟩, ?_⟩
      exact iff_of_true (fun c hc => absurd hc (rounds_done hcond)) (by simp)

/-! ## the outer loop -/

def ParseLoop.recv (s : ParseLoop) : Nat :=
  let room := MAX_BUFFER_LEN - s.mBuffer.length
  if s.last.length < room then s.last.length else room

def ParseLoop.cmdLoop (s : ParseLoop) : CmdLoop :=
  ⟨s.mBuffer ++ s.last.take s.recv, s.ret, s.parsed, false⟩

def ParseLoop.accesses (s : ParseLoop) : List Access :=
  if 0 < s.recv then [.fill s.mBuffer.length s.recv] else []

structure ParseLoop.InBounds (s : ParseLoop) : Prop where
  len : s.mBuffer.length ≤ MAX_BUFFER_LEN
  accesses : ∀ a ∈ s.accesses, a.InBounds
  cmdLoop : s.cmdLoop.InBounds

def ParseLoop.Progress (s : ParseLoop) : Prop :=
  s.body.last.length < s.last.length ∨
    s.body.mBuffer.length < s.mBuffer.length + (s.last.length - s.body.last.length) ∨
      s.body.ret = -1

theorem ParseLoop.recv_fits {s : ParseLoop} (h : s.mBuffer.length ≤ MAX_BUFFER_LEN) :
    s.cmdLoop.mBuffer.length ≤ MAX_BUFFER_LEN ∧ ∀ a ∈ s.accesses, a.InBounds := by
  have hle : s.mBuffer.length + s.recv ≤ MAX_BUFFER_LEN := by
    unfold ParseLoop.recv
    dsimp only
    split <;> omega
  constructor
  · show (s.mBuffer ++ s.last.take s.recv).length ≤ _
    rw [List.length_append, List.length_take]
    omega
  · intro a ha
    unfold ParseLoop.accesses at ha
    split at ha
    · rw [List.mem_singleton.mp ha]
      exact hle
    · exact absurd ha (by simp)

/-- **One round walks over what it has copied**; it stops at a part of a frame or with -1. -/
theorem ParseLoop.round_walk {s : ParseLoop} (hlen : s.mBuffer.length ≤ MAX_BUFFER_LEN) :
    ∃ new t ret', Walk s.cmdLoop.mBuffer new t ∧
      s.body = ⟨t, s.last.drop s.recv, ret', s.parsed ++ new⟩ ∧
      (Part t ∧ ret' = (if new = [] then s.ret else 1) ∨ Bad t ∧ ret' = -1) ∧
      (s.InBounds ↔ ∀ c ∈ new, c.param.length < MAX_PARAM_LEN) := by
  obtain ⟨hb, hacc⟩ := ParseLoop.recv_fits hlen
  obtain ⟨new, t, stop, ret', hw, hrun, hend, hin⟩ :=
    CmdLoop.run_walk s.cmdLoop.mBuffer hb s.ret s.parsed
  refine ⟨new, t, ret', hw, ?_, hend, fun h => hin.mp h.cmdLoop, fun h => ⟨hlen, hacc, hin.mpr h⟩⟩
  show (⟨s.cmdLoop.run.mBuffer, _, s.cmdLoop.run.ret, s.cmdLoop.run.parsed⟩ : ParseLoop) = _
  rw [show s.cmdLoop.run = _ from hrun]
  rfl

theorem ParseLoop.walk_last {s : ParseLoop} {new : List CMD} {t : List Byte}
    (h : Walk s.cmdLoop.mBuffer new t) :
    Walk (s.mBuffer ++ s.last) new (t ++ s.last.drop s.recv) := by
  have h1 := h.append (s.last.drop s.recv)
  rwa [show s.cmdLoop.mBuffer = s.mBuffer ++ s.last.take s.recv from rfl, List.append_assoc,
    List.take_append_drop] at h1

theorem ParseLoop.cond_of_last {s : ParseLoop} (hret : s.ret ≠ -1) (hd : s.last ≠ []) :
    s.cond = true := by
  show (decide (s.ret ≠ -1) && decide (0 < s.last.length)) = true
  rw [decide_eq_true hret, decide_eq_true (List.length_pos_of_ne_nil hd)]
  rfl

/-! ## a call -/

/-- what a call does from `s` on: it walks to `u`, and it returns with a part of a frame in `mBuffer`,
or with -1 at a bad header, or never -/
structure CallEnd (s : ParseLoop) (new : List CMD) (u : List Byte) : Prop where
  walk : Walk (s.mBuffer ++ s.last) new u
  inBounds : (∀ t, Rounds ParseLoop.cond ParseLoop.body s t → t.InBounds) ↔
    ∀ c ∈ new, c.param.length < MAX_PARAM_LEN
  ends :
    (∃ n p, loop ParseLoop.cond ParseLoop.body n s = some p ∧ p.ret ≠ -1 ∧ Part p.mBuffer ∧
        p.mBuffer.length ≤ MAX_BUFFER_LEN ∧ u = p.mBuffer ∧
        ∀ t, Rounds ParseLoop.cond ParseLoop.body s t → t.Progress) ∨
      (∃ n p, loop ParseLoop.cond ParseLoop.body n s = some p ∧ p.ret = -1 ∧ Bad u ∧
        ∀ t, Rounds ParseLoop.cond ParseLoop.body s t → t.Progress) ∨
      (∀ n, loop ParseLoop.cond ParseLoop.body n s = none) ∧ Jam u

/-- `mBuffer` is full of a part of a frame, and there are more bytes -/
theorem jam_of_full {buf last : List Byte} (hpart : Part buf) (hlen : buf.length = MAX_BUFFER_LEN)
    (hd : last ≠ []) : Jam (buf ++ last) := by
  have hheader : sizeofCMDH ≤ buf.length := by
    rw [hlen]
    decide
  obtain ⟨h1, h2, h3⟩ : 0 ≤ headLen buf ∧ headLen buf ≤ MAX_BUFFER_LEN ∧
      buf.length < sizeofCMDH + (headLen buf).toNat := by
    rcases hpart with hp | hp
    · omega
    · exact hp
  have hl := headLen_append hheader last
  have hpos := List.length_pos_of_ne_nil hd
  refine ⟨by rw [hl]; exact h1, by rw [hl]; exact h2, by rw [hl]; omega, ?_⟩
  rw [List.length_append]
  omega

theorem call_full {s : ParseLoop} (hret : s.ret ≠ -1) (hpart : Part s.mBuffer)
    (hlen : s.mBuffer.length = MAX_BUFFER_LEN) (hd : s.last ≠ []) :
    CallEnd s [] (s.mBuffer ++ s.last) := by
  have hcond := ParseLoop.cond_of_last hret hd
  have hrecv : s.recv = 0 := by
    unfold ParseLoop.recv
    dsimp only
    split <;> omega
  have hjam := jam_of_full hpart hlen hd
  obtain ⟨new, t, ret', hw, hbody, hend, hround⟩ := ParseLoop.round_walk (Nat.le_of_eq hlen)
  have hsame : s.cmdLoop.mBuffer = s.mBuffer := by
    show s.mBuffer ++ s.last.take s.recv = s.mBuffer
    rw [hrecv, List.take_zero, List.append_nil]
  rw [hsame] at hw
  obtain ⟨rfl, rfl⟩ : new = [] ∧ t = s.mBuffer := by
    cases hw with
    | stop => exact ⟨rfl, rfl⟩
    | step h _ => exact absurd hpart h.not_part
  have hstay : s.body = s := by
    rcases hend with ⟨_, hr⟩ | ⟨ht, _⟩
    · rw [hbody, hrecv, hr, List.append_nil]
      rfl
    · exact absurd (ht.append s.last) hjam.not_bad
  refine ⟨.stop _, ?_, Or.inr (Or.inr ⟨loop_stuck hcond hstay, hjam⟩)⟩
  refine iff_of_true (fun t ht => ?_) (by simp)
  rw [rounds_stuck hstay ht]
  exact hround.mpr (by simp)

theorem call_round {s : ParseLoop} {new more : List CMD} {u : List Byte} (hcond : s.cond = true)
    (hprog : s.Progress) (hwalk : Walk (s.mBuffer ++ s.last) (new ++ more) u)
    (hround : s.InBounds ↔ ∀ c ∈ new, c.param.length < MAX_PARAM_LEN) (h : CallEnd s.body more u) :
    CallEnd s (new ++ more) u := by
  obtain ⟨_, hin, hend⟩ := h
  refine ⟨hwalk, ?_, ?_⟩
  · rw [rounds_forall hcond, hround, hin, List.forall_mem_append]
  · rcases hend with ⟨n, p, hp, h1, h2, h3, h4, h5⟩ | ⟨n, p, hp, h1, h2, h3⟩ | ⟨h1, h2⟩
    · exact Or.inl ⟨n + 1, p, by rw [loop_round n hcond, hp], h1, h2, h3, h4,
        (rounds_forall hcond).mpr ⟨hprog, h5⟩⟩
    · exact Or.inr (Or.inl ⟨n + 1, p, by rw [loop_round n hcond, hp], h1, h2,
        (rounds_forall hcond).mpr ⟨hprog, h3⟩⟩)
    · refine Or.inr (Or.inr ⟨fun n => ?_, h2⟩)
      cases n with
      | zero => simp [loop, hcond]
      | succ n => rw [loop_round n hcond, h1]

theorem call_done {s : ParseLoop} (hcond : s.cond = false) {u : List Byte}
    (hwalk : Walk (s.mBuffer ++ s.last) [] u)
    (h : s.ret ≠ -1 ∧ Part s.mBuffer ∧ s.mBuffer.length ≤ MAX_BUFFER_LEN ∧ u = s.mBuffer ∨
      s.ret = -1 ∧ Bad u) : CallEnd s [] u := by
  have hno : ∀ t, ¬ Rounds ParseLoop.cond ParseLoop.body s t := fun t => rounds_done hcond
  refine ⟨hwalk, iff_of_true (fun t ht => absurd ht (hno t)) (by simp), ?_⟩
  rcases h with ⟨h1, h2, h3, h4⟩ | ⟨h1, h2⟩
  · exact Or.inl ⟨0, s, loop_done 0 hcond, h1, h2, h3, h4, fun t ht => absurd ht (hno t)⟩
  · exact Or.inr (Or.inl ⟨0, s, loop_done 0 hcond, h1, h2, fun t ht => absurd ht (hno t)⟩)

/-- **A call walks over `mBuffer` and its chunk.** -/
theorem call_outcome (k : Nat) : ∀ s : ParseLoop, s.last.length ≤ k → s.ret ≠ -1 →
    Part s.mBuffer → s.mBuffer.length ≤ MAX_BUFFER_LEN → ∃ new u, CallEnd s new u := by
  -- on the bytes to copy; `mBuffer` holds a part of a frame at the start of every round
  induction k with
  | zero =>
    intro s hk hret hpart hlen
    have hnil : s.last = [] := List.eq_nil_of_length_eq_zero (Nat.le_zero.mp hk)
    have hcond : s.cond = false := by
      show (decide (s.ret ≠ -1) && decide (0 < s.last.length)) = false
      rw [hnil]
      exact Bool.and_false _
    refine ⟨[], s.mBuffer, call_done hcond ?_ (Or.inl ⟨hret, hpart, hlen, rfl⟩)⟩
    rw [hnil, List.append_nil]
    exact .stop _
  | succ k ih =>
    intro s hk hret hpart hlen
    by_cases hnil : s.last = []
    · exact ih s (by rw [hnil]; exact Nat.zero_le k) hret hpart hlen
    rcases Nat.lt_or_ge s.mBuffer.length MAX_BUFFER_LEN with hroom | hfull
    · have hcond := ParseLoop.cond_of_last hret hnil
      have hpos := List.length_pos_of_ne_nil hnil
      obtain ⟨new, t, ret', hw, hbody, hend, hround⟩ := ParseLoop.round_walk hlen
      have hwalk := ParseLoop.walk_last hw
      have hless : (s.last.drop s.recv).length < s.last.length := by
        rw [List.length_drop]
        unfold ParseLoop.recv
        dsimp only
        split <;> omega
      have hprog : s.Progress := Or.inl (by rw [hbody]; exact hless)
      rcases hend with ⟨ht, hr⟩ | ⟨ht, hr⟩
      · have hret' : ret' ≠ -1 := by
          rw [hr]
          split
          · exact hret
          · decide
        obtain ⟨more, u, hm⟩ :=
          ih s.body (by rw [hbody]; show (s.last.drop s.recv).length ≤ k; omega)
            (by rw [hbody]; exact hret') (by rw [hbody]; exact ht)
            (by rw [hbody]; exact Nat.le_trans hw.length_le (ParseLoop.recv_fits hlen).1)
        have hwm := hm.walk
        rw [hbody] at hwm
        exact ⟨new ++ more, u, call_round hcond hprog (hwalk.trans hwm) hround hm⟩
      · have hdone : ParseLoop.cond s.body = false := by
          rw [hbody, hr]
          rfl
        have hbad : Bad (t ++ s.last.drop s.recv) := by
          refine ⟨by rw [List.length_append]; exact Nat.le_add_right_of_le ht.header, ?_⟩
          rw [headLen_append ht.header]
          exact ht.range
        have hm : CallEnd s.body [] (t ++ s.last.drop s.recv) :=
          call_done hdone (by rw [hbody]; exact .stop _) (Or.inr ⟨by rw [hbody]; exact hr, hbad⟩)
        exact ⟨new ++ [], _, call_round hcond hprog (by rw [List.append_nil]; exact hwalk) hround hm⟩
    · exact ⟨[], _, call_full hret hpart (by omega) hnil⟩

end VncProxy
