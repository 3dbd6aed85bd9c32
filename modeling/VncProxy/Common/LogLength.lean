import VncProxy.Common.LogRecords

/-!
# The length of the log file

* `CFileCtrl.Accounted`   the counters agree with the file and the buffer;
* `Logging.Exact`         a call keeps them so, and opens another file just when this one is long enough;
* `Logging.exact_iff`     when a call does;
* `length_iff`            all calls do just when the memory held a zero and the length fits in a `long`.
-/

namespace VncProxy

/-- `m_nBufferUse` is within the buffer, and `m_nFileLen` counts the bytes in the file and the buffer -/
structure CFileCtrl.Accounted (g_iMemSize : Nat) (c : CFileCtrl) : Prop where
  use : c.m_nBufferUse ≤ g_iMemSize
  fileLen : ∃ f, c.m_pLogFile = some f ∧ c.m_nFileLen = f.contents.length + c.m_nBufferUse

/-- with this record the file and the buffer have `m_dwMaxFileLength` bytes -/
def CFileCtrl.Reaches (c : CFileCtrl) : LogAction → Prop
  | .LogMsg (some pszFormat) pszHead _ => ∃ f, c.m_pLogFile = some f ∧
    c.m_dwMaxFileLength.toNat ≤ f.contents.length + c.m_nBufferUse + (pszHead ++ pszFormat).length
  | _ => False

/-- the call keeps the counters, and opens another file just when this one is long enough -/
def Logging.Exact (g_iMemSize : Nat) (s : Logging) (a : LogAction) : Prop :=
  ∀ s', s.step g_iMemSize a = some s' → s'.ctrl.Accounted g_iMemSize ∧
    (s'.ctrl.opened ≠ s.ctrl.opened ↔ s.ctrl.Reaches a)

def LogAction.Record : LogAction → Prop
  | .LogMsg (some _) _ _ => True
  | _ => False

/-! ## the journal -/

/-- the length that is counted is that of the file -/
def Journal.Counted (j : Journal) : Prop := j.fileLen = j.file.contents.length

theorem Journal.Counted.add {j : Journal} (h : j.Counted) (bytes : List Byte) :
    (j.add bytes).Counted := by
  show j.fileLen + bytes.length = ((j.file.contents ++ bytes).length : Int)
  rw [show j.fileLen = _ from h, List.length_append, Int.natCast_add]

theorem Journal.Counted.step {j : Journal} (h : j.Counted) (u : Setup) (a : LogAction) :
    (j.step u a).Counted := by
  cases a with
  | LogMsg pszFormat pszHead now =>
    cases pszFormat with
    | none => exact h
    | some pszFormat =>
      show (j.log u (pszHead ++ pszFormat) now).Counted
      unfold Journal.log
      split
      · exact rfl
      · exact h.add _
  | FlushMem2File => exact h

theorem CFileCtrl.buffered_length {u : Setup} {c : CFileCtrl} {j : Journal} (h : Keeps u c j) :
    c.buffered.length = c.m_nBufferUse := by
  have huse := h.use
  unfold CFileCtrl.buffered
  cases hb : c.m_pBuffer with
  | none =>
    rw [h.direct hb] at huse
    exact (Nat.le_zero.mp huse).symm
  | some b =>
    dsimp only
    rw [List.length_take, (h.buffer b hb).1]
    exact Nat.min_eq_left huse

theorem Keeps.length {u : Setup} {c : CFileCtrl} {j : Journal} (h : Keeps u c j) :
    ∃ f, c.m_pLogFile = some f ∧ f.contents.length + c.m_nBufferUse = j.file.contents.length := by
  obtain ⟨f, hf, -, hcontents⟩ := h.file
  refine ⟨f, hf, ?_⟩
  rw [← hcontents, List.length_append, CFileCtrl.buffered_length h]

theorem Keeps.accounted_iff {u : Setup} {c : CFileCtrl} {j : Journal} (h : Keeps u c j) :
    c.Accounted u.g_iMemSize ↔ j.Counted := by
  obtain ⟨f, hf, hlen⟩ := h.length
  unfold Journal.Counted
  rw [← hlen, ← h.fileLen, Int.natCast_add]
  constructor
  · rintro ⟨-, f', hf', heq⟩
    rw [hf] at hf'
    exact Option.some.inj hf' ▸ heq
  · exact fun heq => ⟨h.use, f, hf, heq⟩

theorem Keeps.reaches_iff {u : Setup} {c : CFileCtrl} {j : Journal} (h : Keeps u c j)
    (pszFormat pszHead : List Byte) (now : Tm) : c.Reaches (.LogMsg (some pszFormat) pszHead now) ↔
      u.max.toNat ≤ (j.add (pszHead ++ pszFormat)).file.contents.length := by
  obtain ⟨f, hf, hlen⟩ := h.length
  show _ ↔ _ ≤ (j.file.contents ++ (pszHead ++ pszFormat)).length
  rw [List.length_append, ← hlen, ← h.max]
  constructor
  · rintro ⟨f', hf', hle⟩
    rw [hf] at hf'
    exact Option.some.inj hf' ▸ hle
  · exact fun hle => ⟨f, hf, hle⟩

theorem Journal.opened_log (u : Setup) (j : Journal) (bytes : List Byte) (now : Tm) :
    (j.log u bytes now).opened ≠ j.opened ↔ u.max.toInt ≤ (j.add bytes).fileLen := by
  unfold Journal.log
  split
  · next h => exact iff_of_true (Nat.succ_ne_self _) h
  · next h => exact iff_of_false (fun hne => hne rfl) h

/-! ## one call -/

/-- **A call is exact**, when the counted length is right, just when the maximum fits in a `long` or the
file stays shorter than any that does not. -/
theorem Keeps.exact_iff {u : Setup} {s : Logging} {j : Journal} (h : Keeps u s.ctrl j)
    (hj : j.Counted) {s' : Logging} {a : LogAction} (hs : s.step u.g_iMemSize a = some s') :
    s.Exact u.g_iMemSize a ↔ (a.Record → (u.max.toInt ≤ (j.file.contents ++ a.bytes).length ↔
      u.max.toNat ≤ (j.file.contents ++ a.bytes).length)) := by
  obtain ⟨hkeeps, -⟩ := h.step hs
  have haccounted := hkeeps.accounted_iff.mpr (hj.step u a)
  have hexact : s.Exact u.g_iMemSize a ↔
      (s'.ctrl.opened ≠ s.ctrl.opened ↔ s.ctrl.Reaches a) := by
    constructor
    · exact fun hex => (hex s' hs).2
    · intro hopen s'' hs''
      obtain rfl := Option.some.inj (hs.symm.trans hs'')
      exact ⟨haccounted, hopen⟩
  rw [hexact, hkeeps.opened, h.opened]
  cases a with
  | LogMsg pszFormat pszHead now =>
    cases pszFormat with
    | none => exact iff_of_true (iff_of_false (fun hne => hne rfl) id) nofun
    | some pszFormat =>
      rw [h.reaches_iff]
      show ((j.log u (pszHead ++ pszFormat) now).opened ≠ _ ↔ _) ↔ (True → _)
      rw [Journal.opened_log, hj.add, true_imp_iff]
      exact Iff.rfl
  | FlushMem2File => exact iff_of_true (iff_of_false (fun hne => hne rfl) id) nofun

/-! ## all calls -/

theorem Keeps.exact_run {u : Setup} {s : Logging} {j : Journal} (h : Keeps u s.ctrl j)
    (hj : j.Counted) (hmax : u.max.toNat < 2 ^ 63) (l : List LogAction) :
    RunOk (Logging.step u.g_iMemSize) (Logging.Exact u.g_iMemSize) s l := by
  have hlong : u.max.toInt = u.max.toNat := BitVec.toInt_eq_toNat_of_lt (by omega)
  refine (runOk_congr (I := fun s => ∃ j, Keeps u s.ctrl j ∧ j.Counted) ?_ ?_ ⟨j, h, hj⟩ l).mpr
    (runOk_true _ s l)
  · rintro s a s' ⟨j, h, hj⟩ - hs
    exact ⟨_, (h.step hs).1, hj.step u a⟩
  · rintro s a ⟨j, h, hj⟩
    refine iff_of_true ?_ trivial
    cases hs : s.step u.g_iMemSize a with
    | none =>
      intro s' hs'
      rw [hs] at hs'
      cases hs'
    | some s' =>
      rw [h.exact_iff hj hs, hlong]
      exact fun _ => Int.ofNat_le

theorem LogAction.bytes_lt {g_iMemSize : Nat} {s s' : Logging} {a : LogAction}
    (hs : s.step g_iMemSize a = some s') : a.bytes.length < 2 ^ 32 := by
  cases a with
  | LogMsg pszFormat pszHead now =>
    cases pszFormat with
    | none => exact Nat.two_pow_pos 32
    | some pszFormat =>
      change (if LogFits g_iMemSize pszFormat pszHead then _ else none) = some s' at hs
      split at hs
      · next hfit =>
        obtain ⟨hhead, hformat, -⟩ := hfit
        show (pszHead ++ pszFormat).length < 2 ^ 32
        rw [List.length_append]
        omega
      · cases hs
  | FlushMem2File => exact Nat.two_pow_pos 32

/-- a maximum that does not: it is negative as a `long`, and the first record is followed by another
file -/
theorem Keeps.not_exact_run {u : Setup} {s t : Logging} {j : Journal} (h : Keeps u s.ctrl j)
    (hj : j.Counted) (hempty : j.file.contents = []) (hmax : 2 ^ 63 ≤ u.max.toNat) {l : List LogAction}
    (hrun : run (Logging.step u.g_iMemSize) s l = some t) :
    RunOk (Logging.step u.g_iMemSize) (Logging.Exact u.g_iMemSize) s l ↔ ∀ a ∈ l, ¬ a.Record := by
  have hneg : u.max.toInt < 0 := by
    have hlt := u.max.isLt
    rw [BitVec.toInt_eq_toNat_cond]
    omega
  induction l generalizing s with
  | nil => exact iff_of_true trivial nofun
  | cons a l ih =>
    obtain ⟨s', hs, hrun'⟩ := run_cons.mp hrun
    have hlt := LogAction.bytes_lt hs
    have hexact : s.Exact u.g_iMemSize a ↔ ¬ a.Record := by
      rw [h.exact_iff hj hs, hempty, List.nil_append]
      refine forall_congr' fun _ => iff_of_false (fun heq => ?_) id
      have := heq.mp (by omega)
      omega
    rw [List.forall_mem_cons]
    show s.Exact u.g_iMemSize a ∧ _ ↔ _
    rw [hexact]
    refine and_congr_right fun hrecord => ?_
    have hsame : j.step u a = j := by
      cases a with
      | LogMsg pszFormat pszHead now =>
        cases pszFormat with
        | none => rfl
        | some pszFormat => exact absurd trivial hrecord
      | FlushMem2File => rfl
    have hkeeps := hsame ▸ (h.step hs).1
    refine Iff.trans ⟨fun hrest => hrest s' hs, fun hrest s'' hs'' => ?_⟩ (ih hkeeps hrun')
    obtain rfl := Option.some.inj (hs.symm.trans hs'')
    exact hrest

/-- **The counters agree with the file and the buffer, and another file is opened just when this one is
long enough, in all calls, just when** `m_nFileLen` was 0 in the memory of the `CFileCtrl`, and the
maximum fits in a `long` or nothing is logged. -/
theorem length_iff (g_iMemSize : Nat) (fileLen : Int) (junk : Nat → Byte)
    (szlogPath szFileName : List Byte) (aiFileLen : BitVec 64) (now : Tm) (l : List LogAction)
    {t : Logging} (h : run (Logging.step g_iMemSize)
      (.init g_iMemSize fileLen junk szlogPath szFileName aiFileLen now) l = some t) :
    ((Logging.init g_iMemSize fileLen junk szlogPath szFileName aiFileLen now).ctrl.Accounted g_iMemSize ∧
      RunOk (Logging.step g_iMemSize) (Logging.Exact g_iMemSize)
        (.init g_iMemSize fileLen junk szlogPath szFileName aiFileLen now) l) ↔
      fileLen = 0 ∧ ((Logging.init g_iMemSize fileLen junk szlogPath szFileName aiFileLen
        now).ctrl.m_dwMaxFileLength.toNat < 2 ^ 63 ∨ ∀ a ∈ l, ¬ a.Record) := by
  have hinit := Keeps.init g_iMemSize fileLen junk szlogPath szFileName aiFileLen now
  have hcounted : (Logging.init g_iMemSize fileLen junk szlogPath szFileName aiFileLen
      now).ctrl.Accounted g_iMemSize ↔ fileLen = 0 := hinit.accounted_iff
  rw [hinit.max, hcounted]
  refine and_congr_right fun hzero => ?_
  rcases Nat.lt_or_ge (Setup.of g_iMemSize szlogPath szFileName aiFileLen).max.toNat (2 ^ 63) with
    hmax | hmax
  · exact iff_of_true (hinit.exact_run hzero hmax l) (.inl hmax)
  · rw [or_iff_right (by omega)]
    exact hinit.not_exact_run hzero rfl hmax h

/-- the last but one of the records reaches the maximum, in memory that was cleared -/
theorem length_rotated : ∃ t, run (Logging.step 10000) firstLog fillingLog = some t ∧
    t.ctrl.opened = 2 ∧ firstLog.ctrl.Accounted 10000 ∧
    RunOk (Logging.step 10000) (Logging.Exact 10000) firstLog fillingLog := by
  obtain ⟨t, ht, hopened⟩ : ∃ t, run (Logging.step 10000) firstLog fillingLog = some t ∧
      t.ctrl.opened = 2 := by
    decide +kernel
  exact ⟨t, ht, hopened, (length_iff 10000 0 (fun _ => 0) (ascii "log") (ascii "Log") 1 .midnight
    fillingLog ht).mpr ⟨rfl, .inl (by decide)⟩⟩

/-- **A `CFileCtrl` in memory that was not cleared** starts with the length that it finds. -/
theorem not_length : ¬ ∀ (g_iMemSize : Nat) (fileLen : Int) (junk : Nat → Byte)
    (szlogPath szFileName : List Byte) (aiFileLen : BitVec 64) (now : Tm) (l : List LogAction)
    (t : Logging), run (Logging.step g_iMemSize)
      (.init g_iMemSize fileLen junk szlogPath szFileName aiFileLen now) l = some t →
    (Logging.init g_iMemSize fileLen junk szlogPath szFileName aiFileLen now).ctrl.Accounted g_iMemSize ∧
      RunOk (Logging.step g_iMemSize) (Logging.Exact g_iMemSize)
        (.init g_iMemSize fileLen junk szlogPath szFileName aiFileLen now) l := by
  intro hall
  have hinit := Keeps.init 0 7 (fun _ => 0) [] [] 1 ⟨115, 0, 1, 0, 0, 0⟩
  have hcounted := hinit.accounted_iff.mp (hall 0 7 (fun _ => 0) [] [] 1 _ [] _ rfl).1
  exact absurd (show (7 : Int) = 0 from hcounted) (by decide)

end VncProxy
