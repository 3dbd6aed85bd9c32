import Mathlib.Data.List.Flatten
import VncProxy.Common.LogManager

/-!
# The log after a run

* `recordsOf`     header, text and newline of the calls that get to a `Message`;
* `Recorded`      the files of a journal hold whole records, which are some of these in their order;
* `journalOf_recorded`  the calls keep it, `journalOf_bytes` and no record is lost as long as no second
                  file is opened;
* `stored_calls`  so are the files and the buffer.
-/

namespace VncProxy.LogManager

variable {p : Server}

def Call.record (p : Server) (x : Call) : List Byte := header x.w.tTime ++ (kept p x.text ++ ascii "\n")

/-- the records of the calls that get to a `Message` -/
def recordsOf (s : LogManager p) (l : List Call) : List (List Byte) :=
  (l.filter fun x => s.Records x.nLevel).map (Call.record p)

theorem recordsOf_cons (s : LogManager p) (x : Call) (l : List Call) :
    s.recordsOf (x :: l) = (if s.Records x.nLevel then [x.record p] else []) ++ s.recordsOf l := by
  unfold recordsOf
  rw [List.filter_cons]
  by_cases hx : s.Records x.nLevel
  · rw [if_pos (decide_eq_true hx), if_pos hx, List.map_cons, List.singleton_append]
  · rw [if_neg fun h => hx (of_decide_eq_true h), if_neg hx, List.nil_append]

/-! ## whole records -/

/-- each file is some whole records, and the records of all files are some of `rs`, in their order -/
def Recorded (j : Journal) (rs : List (List Byte)) : Prop :=
  ∃ l : List (File × List (List Byte)), l.map Prod.fst = j.closed ++ [j.file] ∧
    (∀ x ∈ l, x.1.contents = x.2.flatten) ∧ (l.flatMap Prod.snd).Sublist rs

section
variable {j : Journal} {rs : List (List Byte)}

theorem Recorded.bytes (h : Recorded j rs) :
    ∃ rs' : List (List Byte), rs'.Sublist rs ∧ j.bytes = rs'.flatten := by
  obtain ⟨l, hfiles, hcontents, hsub⟩ := h
  refine ⟨l.flatMap Prod.snd, hsub, ?_⟩
  unfold Journal.bytes
  rw [← hfiles]
  clear hfiles hsub
  induction l with
  | nil => rfl
  | cons x l ih =>
    obtain ⟨hx, hl⟩ := List.forall_mem_cons.mp hcontents
    rw [List.flatMap_cons, List.flatten_append, ← ih hl, ← hx]
    rfl

theorem Recorded.add (h : Recorded j rs) (bytes : List Byte) : Recorded (j.add bytes) (rs ++ [bytes]) := by
  obtain ⟨l, hfiles, hcontents, hsub⟩ := h
  obtain ⟨l, x, rfl, hclosed, hfile⟩ := List.map_eq_append_iff.mp hfiles
  obtain ⟨y, rfl, hy⟩ := List.map_eq_singleton_iff.mp hfile
  obtain ⟨hl, hlast⟩ := List.forall_mem_append.mp hcontents
  refine ⟨l ++ [({ j.file with contents := j.file.contents ++ bytes }, y.2 ++ [bytes])], ?_, ?_, ?_⟩
  · rw [List.map_append, hclosed]
    rfl
  · refine List.forall_mem_append.mpr ⟨hl, fun z hz => ?_⟩
    obtain rfl := List.mem_singleton.mp hz
    rw [List.flatten_append, ← hlast y (List.mem_singleton_self y), hy]
    exact congrArg (_ ++ ·) (List.append_nil bytes).symm
  · rw [List.flatMap_append, List.flatMap_singleton] at hsub ⊢
    rw [← List.append_assoc]
    exact hsub.append_right _

theorem Recorded.rotate (h : Recorded j rs) (name : List Byte) : Recorded (j.rotate name) rs := by
  obtain ⟨l, hfiles, hcontents, hsub⟩ := h
  refine ⟨l.filter (·.1.name ≠ name) ++ [(⟨name, []⟩, [])], ?_, ?_, ?_⟩
  · rw [List.map_append]
    unfold Journal.rotate
    dsimp only
    rw [← hfiles, List.filter_map]
    rfl
  · refine List.forall_mem_append.mpr ⟨fun x hx => hcontents x (List.mem_of_mem_filter hx), fun x hx => ?_⟩
    obtain rfl := List.mem_singleton.mp hx
    rfl
  · rw [List.flatMap_append]
    have hkept := (List.filter_sublist (p := (·.1.name ≠ name)) (l := l)).flatMap Prod.snd
    exact (List.append_nil _).symm ▸ hkept.trans hsub

theorem Recorded.log (h : Recorded j rs) (u : Setup) (bytes : List Byte) (now : Tm) :
    Recorded (j.log u bytes now) (rs ++ [bytes]) := by
  unfold Journal.log
  split
  · exact (h.add bytes).rotate _
  · exact h.add bytes

end

/-! ## the calls -/

/-- the journal that the calls end with -/
def journalOf (u : Setup) (s : LogManager p) (j : Journal) (l : List Call) : Journal :=
  l.foldl (fun j x => logged u s j x.w x.nLevel x.text) j

/-- **The calls put their records to the journal**, each of them whole or not at all. -/
theorem journalOf_recorded (u : Setup) (s : LogManager p) {j : Journal} {rs : List (List Byte)}
    (h : Recorded j rs) (l : List Call) : Recorded (journalOf u s j l) (rs ++ s.recordsOf l) := by
  induction l generalizing j rs with
  | nil => exact (List.append_nil rs).symm ▸ h
  | cons x l ih =>
    rw [s.recordsOf_cons x l, ← List.append_assoc]
    refine ih (j := logged u s j x.w x.nLevel x.text) ?_
    unfold logged
    by_cases hx : s.Records x.nLevel
    · rw [if_pos hx, if_pos hx]
      exact h.log u _ _
    · rw [if_neg hx, if_neg hx, List.append_nil]
      exact h

/-- **No record is lost** as long as the file is not full. -/
theorem journalOf_bytes (u : Setup) (s : LogManager p) (j : Journal) (l : List Call)
    (hlen : j.fileLen + (s.recordsOf l).flatten.length < u.max.toInt) :
    (journalOf u s j l).bytes = j.bytes ++ (s.recordsOf l).flatten := by
  induction l generalizing j with
  | nil => exact (List.append_nil _).symm
  | cons x l ih =>
    have hrecords := s.recordsOf_cons x l
    show (journalOf u s (logged u s j x.w x.nLevel x.text) l).bytes = _
    by_cases hx : s.Records x.nLevel
    · have hlogged : logged u s j x.w x.nLevel x.text = j.log u (x.record p) x.w.rotated := if_pos hx
      rw [if_pos hx] at hrecords
      rw [hlogged]
      rw [hrecords, List.singleton_append, List.flatten_cons] at hlen ⊢
      generalize x.record p = bytes at *
      rw [List.length_append, Int.natCast_add] at hlen
      -- the file is not full behind this record either
      have hadd : j.log u bytes x.w.rotated = j.add bytes := by
        refine if_neg (Int.not_le.mpr ?_)
        show j.fileLen + bytes.length < u.max.toInt
        omega
      rw [hadd, ih (j.add bytes), Journal.bytes_add, List.append_assoc]
      show j.fileLen + bytes.length + _ < _
      omega
    · have hlogged : logged u s j x.w x.nLevel x.text = j := if_neg hx
      rw [if_neg hx] at hrecords
      rw [hlogged, hrecords, List.nil_append]
      rw [hrecords, List.nil_append] at hlen
      exact ih j hlen

theorem Log_create (s : LogManager p) (w : World) (nLevel : BitVec 64) (text : List Byte)
    (hrun : s.mIsRunning = true) (hlevel : nLevel ≤ s.g_iLogLevel) :
    s.Log w nLevel text = (s.create w).Log w nLevel text := by
  obtain ⟨hrun', hlevel', -⟩ := s.create_frame w
  have hcreated : (s.create w).create w = s.create w := by
    refine if_pos ?_
    unfold create
    by_cases h : s.g_bCreated = true
    · rw [if_pos h]
      exact h
    · rw [if_neg h]
  unfold Log
  rw [hrun', hlevel', hrun, hcreated]
  rw [Bool.not_true, if_neg Bool.false_ne_true, if_neg Bool.false_ne_true, if_pos hlevel, if_pos hlevel]

/-- **The log after a run** of calls whose texts stay in their `Message`s, the first of them with a level that
is logged: files and buffer hold whole records, header, text and newline, of calls that got to a `Message`, in
the order of the calls, and all of them if this is less than 128 MB behind the value that `m_nFileLen` had. -/
theorem stored_calls (s : LogManager p) (hnew : s.g_bCreated = false) (hrun : s.mIsRunning = true)
    (hroomy : Roomy p s.g_iMemSize) {x : Call} {l : List Call} (hlevel : x.nLevel ≤ s.g_iLogLevel)
    (hroom : ∀ y ∈ x :: l, (kept p y.text).length + 2 ≤ p.bufferLen) :
    ∃ c, (s.calls (x :: l)).g_pFileCtrl = some c ∧
      (∃ rs : List (List Byte), rs.Sublist (s.recordsOf (x :: l)) ∧ c.stored = rs.flatten) ∧
      (x.w.fileLen + (s.recordsOf (x :: l)).flatten.length < 2 ^ 27 →
        c.stored = (s.recordsOf (x :: l)).flatten) := by
  obtain ⟨j, hbacked, hnew, hlen⟩ : ∃ j : Journal,
      Backed (.of s.g_iMemSize (cstr s.mLogDir) (ascii "Log") 128) (s.create x.w) j ∧
        (Recorded j [] ∧ j.bytes = []) ∧ j.fileLen = x.w.fileLen := by
    have hkeeps := Keeps.init s.g_iMemSize x.w.fileLen x.w.pBuffer (cstr s.mLogDir) (ascii "Log") 128
      x.w.opened
    unfold create
    rw [if_neg (ne_true_of_eq_false hnew)]
    exact ⟨_, ⟨rfl, rfl, _, rfl, hkeeps⟩, ⟨⟨[(_, [])], rfl, fun x hx => by
      obtain rfl := List.mem_singleton.mp hx
      rfl, List.Sublist.refl _⟩, rfl⟩, rfl⟩
  have hsame : ∀ n, (s.create x.w).Records n ↔ s.Records n := by
    intro n
    obtain ⟨h1, h2, h3⟩ := s.create_frame x.w
    unfold Records
    rw [h1, h2, h3]
  have hcalls : s.calls (x :: l) = (s.create x.w).calls (x :: l) := by
    unfold calls
    rw [List.foldl_cons, List.foldl_cons, s.Log_create x.w x.nLevel x.text hrun hlevel]
  have hrecords : (s.create x.w).recordsOf (x :: l) = s.recordsOf (x :: l) := by
    unfold recordsOf
    simp only [hsame]
  obtain ⟨c, hc, hkept⟩ := (hbacked.calls hroomy hroom).keeps
  rw [← hlen]
  refine ⟨c, hcalls ▸ hc, ?_, fun hless => ?_⟩
  · rw [hkept.stored, ← hrecords]
    exact (journalOf_recorded _ _ hnew.1 (x :: l)).bytes
  · rw [hkept.stored]
    rw [← hrecords] at hless ⊢
    refine (journalOf_bytes (.of s.g_iMemSize (cstr s.mLogDir) (ascii "Log") 128) (s.create x.w) j
      (x :: l) hless).trans ?_
    rw [hnew.2, List.nil_append]

/-- three calls, the second of which is not logged -/
theorem stored_calls_three :
    let w : World := ⟨.midnight, .midnight, .midnight, 7, fun _ => 0, fun _ => 0⟩
    let s : LogManager .TcpPorxyServer :=
      ⟨true, ascii "log", [⟨List.replicate _ 1, List.length_replicate⟩], 4, false, none, 0⟩
    ∃ c, (s.calls [⟨w, 4, ascii "a"⟩, ⟨w, 5, ascii "b"⟩, ⟨w, 3, ascii "c"⟩]).g_pFileCtrl = some c ∧
      c.stored = (header .midnight ++ (ascii "a" ++ ascii "\n")) ++
        (header .midnight ++ (ascii "c" ++ ascii "\n")) := by
  intro w s
  obtain ⟨c, hc, -, hall⟩ := s.stored_calls rfl rfl (.inl rfl) (x := ⟨w, 4, ascii "a"⟩)
    (l := [⟨w, 5, ascii "b"⟩, ⟨w, 3, ascii "c"⟩]) (by decide)
    fun y _ => (kept_room y.text).mpr (.inl rfl)
  have hrecords : s.recordsOf [⟨w, 4, ascii "a"⟩, ⟨w, 5, ascii "b"⟩, ⟨w, 3, ascii "c"⟩]
      = [header .midnight ++ (ascii "a" ++ ascii "\n"), header .midnight ++ (ascii "c" ++ ascii "\n")] := by
    rw [recordsOf_cons, recordsOf_cons, recordsOf_cons, if_pos (by decide), if_neg (by decide),
      if_pos (by decide)]
    rfl
  rw [hrecords] at hall
  refine ⟨c, hc, (hall ?_).trans ?_⟩
  · have hlen := header_length_le .midnight
    have hone : (ascii "a").length = 1 ∧ (ascii "c").length = 1 ∧ (ascii "\n").length = 1 := by decide
    rw [List.flatten_cons, List.flatten_cons, List.flatten_nil]
    simp only [List.append_nil, List.length_append, hone]
    show (7 : Int) + (_ : Nat) < 2 ^ 27
    omega
  · rw [List.flatten_cons, List.flatten_cons, List.flatten_nil, List.append_nil]

end VncProxy.LogManager
