import VncProxy.Common.LogFile

/-!
# No record is lost

* `CFileCtrl.stored`   the bytes in the files and in the buffer;
* `Journal.bytes_log`  what a record does to the bytes of a journal;
* `Logging.Fresh`      another file is opened under a name that no file with a byte in it has;
* `records_iff`        all records are stored just when every file is opened so.
-/

namespace VncProxy

def File.bytes (l : List File) : List Byte := l.flatMap File.contents

namespace CFileCtrl

/-- the files, with the bytes of the buffer and these bytes behind the last -/
def files (c : CFileCtrl) (bytes : List Byte) : List File :=
  match c.m_pLogFile with
  | some f => c.closed ++ [⟨f.name, f.contents ++ c.buffered ++ bytes⟩]
  | none => c.closed

def stored (c : CFileCtrl) : List Byte := File.bytes (c.files [])

end CFileCtrl

/-- a record with which another file is opened: none of the files with its name has a byte in it -/
def Logging.Fresh (s : Logging) : LogAction → Prop
  | .LogMsg (some pszFormat) pszHead now =>
    s.ctrl.m_dwMaxFileLength.toInt ≤
        s.ctrl.m_nFileLen + (pszHead ++ pszFormat).length →
      ∀ f ∈ s.ctrl.files (pszHead ++ pszFormat),
        f.name = fileName s.ctrl.m_szLogPath s.ctrl.m_szLogFileName now → f.contents = []
  | _ => True

instance (s : Logging) : DecidablePred s.Fresh
  | .LogMsg (some pszFormat) pszHead _ =>
    inferInstanceAs (Decidable (_ → ∀ f ∈ s.ctrl.files (pszHead ++ pszFormat), _ → f.contents = []))
  | .LogMsg none _ _ | .FlushMem2File => .isTrue trivial

/-! ## bytes of files -/

theorem File.bytes_append (l l' : List File) : bytes (l ++ l') = bytes l ++ bytes l' :=
  List.flatMap_append

theorem File.filter_sublist (p : File → Bool) (l : List File) : (bytes (l.filter p)).Sublist (bytes l) := by
  induction l with
  | nil => exact List.Sublist.refl _
  | cons f l ih =>
    cases hp : p f with
    | true =>
      rw [List.filter_cons_of_pos hp]
      exact (List.Sublist.refl f.contents).append ih
    | false =>
      rw [List.filter_cons_of_neg (by simp [hp])]
      exact ih.trans (List.sublist_append_right _ _)

/-- nothing is lost with the files that are dropped, just when they are empty -/
theorem File.filter_bytes (p : File → Bool) (l : List File) :
    bytes (l.filter p) = bytes l ↔ ∀ f ∈ l, p f = false → f.contents = [] := by
  induction l with
  | nil => exact iff_of_true rfl nofun
  | cons f l ih =>
    rw [List.forall_mem_cons, ← ih]
    have hcons : bytes (f :: l) = f.contents ++ bytes l := rfl
    cases hp : p f with
    | true =>
      rw [List.filter_cons_of_pos hp, hcons]
      show f.contents ++ bytes (l.filter p) = _ ↔ _
      rw [List.append_cancel_left_eq, and_iff_right nofun]
    | false =>
      rw [List.filter_cons_of_neg (by simp [hp]), hcons, forall_prop_of_true rfl]
      constructor
      · intro h
        have hle := (File.filter_sublist p l).length_le
        have hlen := congrArg List.length h
        rw [List.length_append] at hlen
        have hnil : f.contents = [] := List.eq_nil_of_length_eq_zero (by omega)
        rw [hnil, List.nil_append] at h
        exact ⟨hnil, h⟩
      · rintro ⟨hnil, h⟩
        rw [hnil, List.nil_append, h]

/-- a chain of sublists ends where it began just when nothing is lost on the way -/
theorem sublist_eq_iff {a b c : List Byte} (hab : a.Sublist b) (hbc : b.Sublist c) :
    a = c ↔ b = c ∧ a = b := by
  constructor
  · rintro rfl
    have heq := hab.antisymm hbc
    exact ⟨heq.symm, heq⟩
  · rintro ⟨rfl, rfl⟩
    rfl

/-! ## the journal -/

namespace Journal

def bytes (j : Journal) : List Byte := File.bytes (j.closed ++ [j.file])

theorem bytes_add (j : Journal) (bs : List Byte) : (j.add bs).bytes = j.bytes ++ bs := by
  unfold bytes
  rw [File.bytes_append, File.bytes_append]
  show _ ++ (j.file.contents ++ bs ++ []) = _ ++ (j.file.contents ++ []) ++ bs
  rw [List.append_nil, List.append_nil, List.append_assoc]
  rfl

theorem bytes_rotate (j : Journal) (name : List Byte) :
    (j.rotate name).bytes = File.bytes ((j.closed ++ [j.file]).filter (·.name ≠ name)) := by
  unfold bytes
  rw [File.bytes_append]
  exact List.append_nil _

theorem bytes_step (u : Setup) (j : Journal) (a : LogAction) :
    (j.step u a).bytes.Sublist (j.bytes ++ a.bytes) := by
  cases a with
  | LogMsg pszFormat pszHead now =>
    cases pszFormat with
    | none => exact (List.append_nil j.bytes).symm ▸ List.Sublist.refl _
    | some pszFormat =>
      show (j.log u (pszHead ++ pszFormat) now).bytes.Sublist _
      unfold log
      split
      · rw [bytes_rotate]
        exact (File.filter_sublist _ _).trans ((j.bytes_add _) ▸ List.Sublist.refl _)
      · exact (j.bytes_add _) ▸ List.Sublist.refl _
  | FlushMem2File => exact (List.append_nil j.bytes).symm ▸ List.Sublist.refl _

end Journal

theorem Keeps.files {u : Setup} {c : CFileCtrl} {j : Journal} (h : Keeps u c j) (bytes : List Byte) :
    c.files bytes = (j.add bytes).closed ++ [(j.add bytes).file] := by
  obtain ⟨f, hf, hname, hcontents⟩ := h.file
  unfold CFileCtrl.files
  rw [hf]
  dsimp only
  rw [hcontents, h.closed, hname]
  rfl

theorem Keeps.stored {u : Setup} {c : CFileCtrl} {j : Journal} (h : Keeps u c j) :
    c.stored = j.bytes := by
  unfold CFileCtrl.stored
  rw [h.files []]
  exact (j.bytes_add []).trans (List.append_nil _)

/-- a call loses nothing just when it does not truncate a file with bytes -/
theorem Keeps.fresh_iff {u : Setup} {s : Logging} {j : Journal} (h : Keeps u s.ctrl j) (a : LogAction) :
    (j.step u a).bytes = j.bytes ++ a.bytes ↔ s.Fresh a := by
  cases a with
  | LogMsg pszFormat pszHead now =>
    cases pszFormat with
    | none => exact iff_of_true (List.append_nil _).symm trivial
    | some pszFormat =>
      show (j.log u (pszHead ++ pszFormat) now).bytes = j.bytes ++ (pszHead ++ pszFormat) ↔
        (_ → ∀ f ∈ s.ctrl.files (pszHead ++ pszFormat), _)
      rw [h.files, h.max, h.fileLen, h.path, h.name, ← j.bytes_add]
      unfold Journal.log
      by_cases hfull : u.max.toInt ≤ (j.add (pszHead ++ pszFormat)).fileLen
      · rw [if_pos hfull, Journal.bytes_rotate]
        refine Iff.trans ?_ (forall_prop_of_true hfull).symm
        refine (File.filter_bytes _ _).trans (forall₂_congr fun f _ => ?_)
        rw [decide_eq_false_iff_not, not_not]
      · rw [if_neg hfull]
        exact iff_of_true rfl fun h => absurd h hfull
  | FlushMem2File => exact iff_of_true (List.append_nil _).symm trivial

/-- the journal has no more than what was logged -/
def Logging.Kept (u : Setup) (s : Logging) : Prop :=
  ∃ j, Keeps u s.ctrl j ∧ j.bytes.Sublist s.logged

theorem Logging.Kept.step {u : Setup} {s s' : Logging} (h : s.Kept u) {a : LogAction}
    (hs : s.step u.g_iMemSize a = some s') :
    s'.Kept u ∧ (s'.ctrl.stored = s'.logged ↔ s.ctrl.stored = s.logged ∧ s.Fresh a) := by
  obtain ⟨j, hkeeps, hsub⟩ := h
  obtain ⟨hkeeps', hlogged⟩ := hkeeps.step hs
  have hstep := j.bytes_step u a
  have hall : (j.bytes ++ a.bytes).Sublist (s.logged ++ a.bytes) := hsub.append_right _
  refine ⟨⟨_, hkeeps', hlogged ▸ hstep.trans hall⟩, ?_⟩
  rw [hkeeps'.stored, hkeeps.stored, hlogged, sublist_eq_iff hstep hall, List.append_cancel_right_eq,
    hkeeps.fresh_iff]

/-- **No record is lost, just when** no file with a byte in it is opened again: whenever the file is long
enough, the name made up then is not that of such a file. -/
theorem records_iff (g_iMemSize : Nat) (fileLen : Int) (junk : Nat → Byte)
    (szlogPath szFileName : List Byte) (aiFileLen : BitVec 64) (now : Tm) (l : List LogAction)
    {t : Logging} (h : run (Logging.step g_iMemSize)
      (.init g_iMemSize fileLen junk szlogPath szFileName aiFileLen now) l = some t) :
    t.ctrl.stored = t.logged ↔ RunOk (Logging.step g_iMemSize) Logging.Fresh
      (.init g_iMemSize fileLen junk szlogPath szFileName aiFileLen now) l := by
  have hinit := Keeps.init g_iMemSize fileLen junk szlogPath szFileName aiFileLen now
  have hkept : Logging.Kept (.of g_iMemSize szlogPath szFileName aiFileLen)
      (.init g_iMemSize fileLen junk szlogPath szFileName aiFileLen now) :=
    ⟨_, hinit, List.Sublist.refl _⟩
  have hrun := runOk_iff (I := Logging.Kept (.of g_iMemSize szlogPath szFileName aiFileLen))
    (P := fun s => s.ctrl.stored = s.logged) (fun s a s' hs h => (hs.step h).1)
    (fun s a s' hs h => (hs.step h).2) hkept h
  have hnone : (Logging.init g_iMemSize fileLen junk szlogPath szFileName aiFileLen now).ctrl.stored =
      [] := hinit.stored
  exact hrun.trans (and_iff_right hnone)

def Tm.midnight : Tm := ⟨115, 0, 1, 0, 0, 0⟩

/-- a file of at most 2^20 bytes and a buffer of 10000 -/
def firstLog : Logging := .init 10000 0 (fun _ => 0) (ascii "log") (ascii "Log") 1 .midnight

/-- 256 records of 4096 bytes, the last of them one second after midnight, and one for the next file -/
def fillingLog : List LogAction :=
  List.replicate 255 (.LogMsg (some (List.replicate 4092 65)) (ascii "head") .midnight) ++
    [.LogMsg (some (List.replicate 4092 65)) (ascii "head") { Tm.midnight with tm_sec := 1 },
      .LogMsg (some (ascii "message")) (ascii "head") { Tm.midnight with tm_sec := 1 }]

/-- the buffer is written when it is full, and another file is opened -/
theorem records_rotated : ∃ t, run (Logging.step 10000) firstLog fillingLog = some t ∧
    t.ctrl.opened = 2 ∧ t.ctrl.stored = t.logged := by
  obtain ⟨t, ht, hopened⟩ : ∃ t, run (Logging.step 10000) firstLog fillingLog = some t ∧
      t.ctrl.opened = 2 := by
    decide +kernel
  exact ⟨t, ht, hopened, (records_iff 10000 0 (fun _ => 0) (ascii "log") (ascii "Log") 1 .midnight
    fillingLog ht).mpr (by decide +kernel)⟩

def LogAction.At (now : Tm) : LogAction → Prop
  | .LogMsg _ _ t => t = now
  | .FlushMem2File => True

/-- **A record that fills the file in the second in which it was opened** is lost. -/
theorem not_records : ¬ ∀ (g_iMemSize : Nat) (fileLen : Int) (junk : Nat → Byte)
    (szlogPath szFileName : List Byte) (aiFileLen : BitVec 64) (now : Tm) (l : List LogAction)
    (t : Logging), (∀ a ∈ l, a.At now) → run (Logging.step g_iMemSize)
      (.init g_iMemSize fileLen junk szlogPath szFileName aiFileLen now) l = some t →
        t.ctrl.stored = t.logged := by
  intro hall
  obtain ⟨c, hc⟩ : ∃ c : List Byte, c.length = 2 ^ 20 := ⟨_, List.length_replicate (a := 65)⟩
  have hkeeps := Keeps.init 0 0 (fun _ => 0) [] [] 1 .midnight
  have hfits : LogFits 0 c [] := ⟨by decide, by rw [hc]; decide, .inl rfl⟩
  have hstep : ∃ s', (Logging.init 0 0 (fun _ => 0) [] [] 1 .midnight).step 0
      (.LogMsg (some c) [] .midnight) = some s' := ⟨_, if_pos hfits⟩
  obtain ⟨s', hs'⟩ := hstep
  have hstored := hall 0 0 (fun _ => 0) [] [] 1 .midnight [.LogMsg (some c) [] .midnight] s'
    (fun a ha => List.mem_singleton.mp ha ▸ rfl) (run_cons.mpr ⟨s', hs', rfl⟩)
  have hfresh := ((Logging.Kept.step ⟨_, hkeeps, List.Sublist.refl _⟩ hs').2.mp hstored).2
  have hfull : (Setup.of 0 [] [] 1).max.toInt ≤ 0 + (([] ++ c).length : Int) := by
    rw [List.nil_append, hc]
    decide
  have hempty := hfresh hfull
  rw [hkeeps.files] at hempty
  have hnil : [] ++ ([] ++ c) = ([] : List Byte) := hempty _ (List.mem_singleton_self _) rfl
  rw [List.nil_append, List.nil_append] at hnil
  rw [hnil] at hc
  exact absurd hc (by decide)

end VncProxy
