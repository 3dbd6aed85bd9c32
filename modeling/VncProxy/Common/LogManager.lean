import Mathlib.Data.List.Infix
import VncProxy.Common.LogRecords
import VncProxy.Wire.Command

/-!
# `LogManager::Log`

Both programs have a copy of it.  A record is put together in a `Message`: `vsnprintf` writes the text
to its `buffer`, `strcat` a newline behind it, and `LogMsg` gets the result with the time in front.

* `Message.Reset`, `assemble`, `Log`   as in the source, for a formatted text;
* `Longest`          the longest prefix of the text that has no NUL and leaves room for newline and NUL;
* `Record.Stays`     only `Message.buffer` is written to, and the record is header, prefix and newline;
* `stays_iff`        what this depends on for a `Message`, and `log_iff` for a call;
* `Backed.calls`     the journal after a run has all its records, in the order of the calls.
-/

namespace VncProxy

namespace LogManager

/-- the program the copy belongs to -/
inductive Server where
  | HttpProxyServer
  | TcpPorxyServer
deriving DecidableEq

/-- the size of `Message.buffer` -/
def Server.bufferLen : Server → Nat
  | .HttpProxyServer => MAX_BUFFER_LEN
  | .TcpPorxyServer => MAX_LOG_BUFFER_LEN

/-- the size `vsnprintf` is called with -/
def Server.limit : Server → Nat
  | .HttpProxyServer => MAX_BUFFER_LEN
  | .TcpPorxyServer => MAX_LOG_BUFFER_LEN - 1

/-- `sizeof(Message.bitBuffer)` -/
def bitBufferLen : Nat := 128

/-- the two arrays of a `Message`, `buffer` and `bitBuffer` behind it -/
structure Message (p : Server) where
  bytes : List Byte
  length_eq : bytes.length = p.bufferLen + bitBufferLen

/-- a call that writes these bytes to a `Message`, and where -/
structure Write where
  start : Nat
  bytes : List Byte

namespace Message

variable {p : Server}

def bitBuffer (m : Message p) : List Byte := m.bytes.drop p.bufferLen

def Reset (_ : Message p) : Message p where
  bytes := List.replicate (p.bufferLen + bitBufferLen) 0
  length_eq := List.length_replicate

/-- what is written to the `Message`; none of the calls in `Log` writes further (`writes_in_message`) -/
def write (m : Message p) (w : Write) : Message p :=
  if h : w.start + w.bytes.length ≤ m.bytes.length then
    ⟨memcpy m.bytes w.start w.bytes, (memcpy_length h).trans m.length_eq⟩
  else m

end Message

/-- `"[ %d-%02d-%02d %02d:%02d:%02d ] "` -/
def timeText (tTime : Tm) : List Byte :=
  ascii "[ " ++ decimal (tTime.tm_year + 1900) ++ ascii "-" ++ twoDigits (tTime.tm_mon + 1) ++
    ascii "-" ++ twoDigits tTime.tm_mday ++ ascii " " ++ twoDigits tTime.tm_hour ++ ascii ":" ++
    twoDigits tTime.tm_min ++ ascii ":" ++ twoDigits tTime.tm_sec ++ ascii " ] "

/-- what a call finds outside the program -/
structure World where
  /-- the time `OpenLogFile` gets -/
  opened : Tm
  /-- the time of the record -/
  tTime : Tm
  /-- the time `LogMsg` gets for another file -/
  rotated : Tm
  /-- `CFileCtrl::m_nFileLen` in memory that is not initialised -/
  fileLen : Int
  /-- and `CFileCtrl::m_pBuffer` -/
  pBuffer : Nat → Byte
  /-- and `bitBuffer` on the stack -/
  bitBuffer : Nat → Byte

/-- a record that is put together -/
structure Record (p : Server) where
  lm : Message p
  /-- what `vsnprintf` and `strcat` write -/
  writes : List Write
  /-- the strings `LogMsg` is called with -/
  pszFormat : List Byte
  pszHead : List Byte

section
variable {p : Server}

/-- `snprintf(bitBuffer, 64, …)`; `bitBuffer` is in the `Message` in one of the copies and on the stack in
the other -/
def headed (lm : Message p) (w : World) : Message p :=
  match p with
  | .HttpProxyServer => lm.write ⟨Server.HttpProxyServer.bufferLen, snprintf 64 (timeText w.tTime)⟩
  | .TcpPorxyServer => lm

/-- the `bitBuffer` that `LogMsg` gets -/
def pszHead (lm : Message p) (w : World) : List Byte :=
  match p with
  | .HttpProxyServer => cstr lm.bitBuffer
  | .TcpPorxyServer => cstr (memcpy (newChar 64 w.bitBuffer) 0 (snprintf 64 (timeText w.tTime)))

/-- `Log` between `PopFront` and `PushBack`, but for `LogMsg`; `text` is what the arguments are formatted to -/
def assemble (lm : Message p) (w : World) (text : List Byte) : Record p :=
  let lm := headed lm.Reset w
  let formatted : Write := ⟨0, snprintf p.limit text⟩
  let lm := lm.write formatted
  let newline : Write := ⟨(cstr lm.bytes).length, strcat (ascii "\n")⟩
  let lm := lm.write newline
  { lm := lm
    writes := [formatted, newline]
    pszFormat := cstr lm.bytes
    pszHead := pszHead lm w }

end

end LogManager

open LogManager in
/-- the fields of a `LogManager` and the globals it uses -/
structure LogManager (p : Server) where
  mIsRunning : Bool
  mLogDir : List Byte
  mIdleMessageList : List (Message p)
  g_iLogLevel : BitVec 64
  g_bCreated : Bool
  g_pFileCtrl : Option CFileCtrl
  g_iMemSize : Nat

namespace LogManager

section
variable {p : Server}

/-- the log file is opened for the first record -/
def create (s : LogManager p) (w : World) : LogManager p :=
  if s.g_bCreated then s
  else
    { s with
      g_bCreated := true
      g_pFileCtrl := some (((CFileCtrl.new s.g_iMemSize w.fileLen w.pBuffer (cstr s.mLogDir)
        (ascii "Log") 128).Initialize).OpenLogFile w.opened) }

/-- a call, what it returns, and the record it puts together -/
def Log (s : LogManager p) (w : World) (nLevel : BitVec 64) (text : List Byte) :
    LogManager p × Bool × Option (Record p) :=
  if !s.mIsRunning then (s, false, none)
  else if nLevel ≤ s.g_iLogLevel then
    let s := s.create w
    match s.mIdleMessageList with
    | [] => (s, true, none)
    | lm :: idle =>
      let r := assemble lm w text
      ({ s with
          g_pFileCtrl := s.g_pFileCtrl.map fun c =>
            (c.LogMsg s.g_iMemSize (some r.pszFormat) r.pszHead w.rotated).1
          mIdleMessageList := idle ++ [r.lm] }, true, some r)
  else (s, true, none)

end

/-! ## what a record should be -/

/-- a prefix of the text without NUL that leaves room for a newline and a NUL -/
structure Fits (n : Nat) (text s : List Byte) : Prop where
  start : s <+: text
  nul : 0 ∉ s
  room : s.length + 2 ≤ n

structure Longest (n : Nat) (text s : List Byte) : Prop where
  fits : Fits n text s
  max : ∀ t, Fits n text t → t <+: s

def header (tTime : Tm) : List Byte := (timeText tTime).take 63

/-- only `Message.buffer` is written to, `LogMsg` gets the header as it was, and what it logs is the header,
the longest prefix of the text and a newline -/
structure Record.Stays {p : Server} (r : Record p) (w : World) (text : List Byte) : Prop where
  inside : ∀ x ∈ r.writes, x.start + x.bytes.length ≤ p.bufferLen
  head : r.pszHead = header w.tTime
  record : ∃ s, Longest p.bufferLen text s ∧
    (LogAction.LogMsg (some r.pszFormat) r.pszHead w.rotated).bytes =
      header w.tTime ++ s ++ ascii "\n"

/-! ## the header -/

theorem nul_ascii {s : String} (h : ∀ c ∈ s.toList, 0 < c.toNat ∧ c.toNat < 256) : 0 ∉ ascii s := by
  unfold ascii
  rw [List.mem_map]
  rintro ⟨c, hc, h0⟩
  obtain ⟨hpos, hlt⟩ := h c hc
  have hnat := congrArg BitVec.toNat h0
  rw [BitVec.toNat_ofNat, Nat.mod_eq_of_lt hlt] at hnat
  exact Nat.ne_of_gt hpos hnat

theorem nul_digits {n : Nat} {c : Char} (h : c ∈ n.repr.toList) : 0 < c.toNat ∧ c.toNat < 256 := by
  rw [Nat.toList_repr] at h
  have hdigit : c.isDigit = true := Nat.isDigit_of_mem_toDigits (by decide) (by decide) h
  obtain ⟨hlo, hhi⟩ := Char.isDigit_iff_toNat.mp hdigit
  have h0 : '0'.toNat = 48 := rfl
  have h9 : '9'.toNat = 57 := rfl
  omega

theorem nul_decimal (n : Int) : 0 ∉ decimal n := by
  apply nul_ascii
  intro c hc
  cases n with
  | ofNat n => exact nul_digits hc
  | negSucc n =>
    change c ∈ ("-" ++ (n + 1).repr).toList at hc
    rw [String.toList_append, List.mem_append] at hc
    rcases hc with hminus | hdigit
    · obtain rfl : c = '-' := List.mem_singleton.mp hminus
      decide
    · exact nul_digits hdigit

theorem nul_twoDigits (n : Nat) : 0 ∉ twoDigits n := by
  unfold twoDigits
  split
  · rw [List.mem_append, not_or]
    exact ⟨by decide, nul_decimal n⟩
  · exact nul_decimal n

theorem nul_timeText (tTime : Tm) : 0 ∉ timeText tTime := by
  unfold timeText
  simp only [List.mem_append, nul_decimal, nul_twoDigits, or_false]
  decide

/-- **The header is the string `snprintf` leaves.** -/
theorem cstr_header (tTime : Tm) (dst : List Byte) :
    cstr (memcpy dst 0 (snprintf 64 (timeText tTime))) = header tTime := by
  rw [cstr_snprintf (by decide), cstr_of_not_mem (nul_timeText tTime)]
  rfl

theorem header_length_le (tTime : Tm) : (header tTime).length ≤ 63 := by
  unfold header
  rw [List.length_take]
  exact Nat.min_le_left _ _

/-! ## what is written to a `Message` -/

namespace Message

variable {p : Server}

theorem write_bytes {m : Message p} {w : Write} (h : w.start + w.bytes.length ≤ p.bufferLen + bitBufferLen) :
    (m.write w).bytes = memcpy m.bytes w.start w.bytes := by
  unfold write
  rw [dif_pos (h.trans_eq m.length_eq.symm)]

theorem start_le {m : Message p} : p.bufferLen ≤ m.bytes.length := by
  rw [m.length_eq]
  exact Nat.le_add_right _ _

theorem write_bitBuffer {m : Message p} {w : Write} (h : w.start + w.bytes.length ≤ p.bufferLen) :
    (m.write w).bitBuffer = m.bitBuffer := by
  unfold bitBuffer
  rw [write_bytes (h.trans (Nat.le_add_right _ _))]
  exact memcpy_drop (((Nat.le_add_right _ _).trans h).trans start_le) h

theorem bitBuffer_write {m : Message p} {bytes : List Byte} (h : bytes.length ≤ bitBufferLen) :
    (m.write ⟨p.bufferLen, bytes⟩).bitBuffer = memcpy m.bitBuffer 0 bytes := by
  unfold bitBuffer
  rw [write_bytes (Nat.add_le_add_left h _)]
  exact memcpy_drop_self bytes start_le

end Message

theorem Server.limit_pos (p : Server) : 0 < p.limit := by cases p <;> decide

theorem Server.limit_le (p : Server) : p.limit ≤ p.bufferLen := by cases p <;> decide

theorem Server.bufferLen_le (p : Server) : p.bufferLen ≤ p.limit + 1 := by cases p <;> decide

section
variable {p : Server}

def kept (p : Server) (text : List Byte) : List Byte := (cstr text).take (p.limit - 1)

theorem kept_length_lt (text : List Byte) : (kept p text).length < p.limit := by
  have hpos := p.limit_pos
  unfold kept
  rw [List.length_take]
  omega

theorem kept_room (text : List Byte) :
    (kept p text).length + 2 ≤ p.bufferLen ↔
      p = .TcpPorxyServer ∨ (cstr text).length + 2 ≤ p.bufferLen := by
  unfold kept
  rw [List.length_take]
  cases p with
  | HttpProxyServer =>
    show min 8191 (cstr text).length + 2 ≤ 8192 ↔ _ ∨ (cstr text).length + 2 ≤ 8192
    simp only [reduceCtorEq, false_or]
    omega
  | TcpPorxyServer =>
    show min 10238 (cstr text).length + 2 ≤ 10240 ↔ _
    exact iff_of_true (by omega) (Or.inl rfl)

theorem kept_longest {text : List Byte} (h : (kept p text).length + 2 ≤ p.bufferLen) :
    Longest p.bufferLen text (kept p text) where
  fits := {
    start := (List.take_prefix _ _).trans (cstr_le text)
    nul := fun h0 => not_mem_cstr text (List.mem_of_mem_take h0)
    room := h }
  max := by
    intro t ht
    have hcstr : t <+: cstr text := by
      obtain ⟨u, hu⟩ := ht.start
      rw [← hu, cstr_append ht.nul]
      exact List.prefix_append _ _
    have hlen := ht.room
    have hlimit := p.bufferLen_le
    exact List.prefix_take_iff.mpr ⟨hcstr, by omega⟩

/-! ## a record -/

variable (lm : Message p) (w : World) (text : List Byte)

/-- what `vsnprintf` writes -/
def formatted (p : Server) (text : List Byte) : Write := ⟨0, snprintf p.limit text⟩

theorem formatted_inside : (formatted p text).start + (formatted p text).bytes.length ≤ p.bufferLen := by
  show 0 + (snprintf p.limit text).length ≤ _
  have hlen := snprintf_length_le p.limit text
  have hlimit := p.limit_le
  omega

theorem cstr_formatted : cstr (lm.write (formatted p text)).bytes = kept p text := by
  rw [Message.write_bytes ((formatted_inside text).trans (Nat.le_add_right _ _))]
  exact cstr_snprintf p.limit_pos text _

/-- what `strcat` writes -/
def newline (p : Server) (text : List Byte) : Write := ⟨(kept p text).length, strcat (ascii "\n")⟩

theorem newline_end : (newline p text).start + (newline p text).bytes.length = (kept p text).length + 2 := rfl

/-- the `Message` behind the two calls -/
def written : Message p := ((headed lm.Reset w).write (formatted p text)).write (newline p text)

theorem assemble_lm : (assemble lm w text).lm = written lm w text := by
  unfold written newline
  rw [← cstr_formatted (headed lm.Reset w) text]
  rfl

theorem assemble_writes : (assemble lm w text).writes = [formatted p text, newline p text] := by
  unfold newline
  rw [← cstr_formatted (headed lm.Reset w) text]
  rfl

/-- **None of the calls writes beyond the `Message`.** -/
theorem writes_in_message : ∀ x ∈ (assemble lm w text).writes,
    x.start + x.bytes.length ≤ p.bufferLen + bitBufferLen := by
  rw [assemble_writes]
  simp only [List.forall_mem_cons, List.not_mem_nil, false_implies, implies_true, and_true]
  have hkept := kept_length_lt (p := p) text
  have hlimit := p.limit_le
  have hbits : bitBufferLen = 128 := rfl
  have hend := newline_end (p := p) text
  exact ⟨(formatted_inside text).trans (Nat.le_add_right _ _), by omega⟩

/-- **`LogMsg` gets the text and a newline**, also where they do not fit. -/
theorem assemble_pszFormat : (assemble lm w text).pszFormat = kept p text ++ ascii "\n" := by
  have hinside : (newline p text).start + (newline p text).bytes.length ≤ p.bufferLen + bitBufferLen := by
    apply writes_in_message lm w text
    rw [assemble_writes]
    exact List.mem_cons_of_mem _ List.mem_cons_self
  show cstr (assemble lm w text).lm.bytes = _
  rw [assemble_lm, written, Message.write_bytes hinside]
  show cstr (memcpy _ (kept p text).length (strcat (ascii "\n"))) = _
  rw [← cstr_formatted (headed lm.Reset w) text, cstr_strcat]
  rfl

/-- **The header is as it was** where newline and NUL fit behind the text. -/
theorem assemble_pszHead (h : (kept p text).length + 2 ≤ p.bufferLen) :
    (assemble lm w text).pszHead = header w.tTime := by
  show pszHead (assemble lm w text).lm w = _
  cases p with
  | TcpPorxyServer => exact cstr_header w.tTime _
  | HttpProxyServer =>
    show cstr (assemble lm w text).lm.bitBuffer = _
    rw [assemble_lm, written, Message.write_bitBuffer h, Message.write_bitBuffer (formatted_inside text)]
    show cstr (lm.Reset.write _).bitBuffer = _
    rw [Message.bitBuffer_write ((snprintf_length_le 64 _).trans (by decide))]
    exact cstr_header w.tTime _

/-- **A record stays in its `Message` just when** newline and NUL fit behind the text. -/
theorem stays_iff : (assemble lm w text).Stays w text ↔
    p = .TcpPorxyServer ∨ (cstr text).length + 2 ≤ p.bufferLen := by
  rw [← kept_room]
  constructor
  · intro h
    refine h.inside (newline p text) ?_
    rw [assemble_writes]
    exact List.mem_cons_of_mem _ List.mem_cons_self
  · intro h
    have hhead := assemble_pszHead lm w text h
    refine ⟨?_, hhead, kept p text, kept_longest h, ?_⟩
    · rw [assemble_writes]
      simp only [List.forall_mem_cons, List.not_mem_nil, false_implies, implies_true, and_true]
      exact ⟨formatted_inside text, h⟩
    · show (assemble lm w text).pszHead ++ (assemble lm w text).pszFormat = _
      rw [hhead, assemble_pszFormat, List.append_assoc]

end

/-! ## calls -/

section
variable {p : Server} (s : LogManager p) (w : World) (nLevel : BitVec 64) (text : List Byte)

/-- a call that gets to a `Message` -/
def Records : Prop := s.mIsRunning = true ∧ nLevel ≤ s.g_iLogLevel ∧ s.mIdleMessageList ≠ []

instance : Decidable (s.Records nLevel) := inferInstanceAs (Decidable (_ ∧ _ ∧ _))

theorem create_frame : (s.create w).mIsRunning = s.mIsRunning ∧
    (s.create w).g_iLogLevel = s.g_iLogLevel ∧
    (s.create w).mIdleMessageList = s.mIdleMessageList := by
  unfold create
  split
  · exact ⟨rfl, rfl, rfl⟩
  · exact ⟨rfl, rfl, rfl⟩

/-- **A call that gets to no `Message`** logs nothing. -/
theorem Log_skips (h : ¬ s.Records nLevel) :
    (s.Log w nLevel text).2.2 = none ∧
      ((s.Log w nLevel text).1 = s ∨ (s.Log w nLevel text).1 = s.create w) := by
  unfold Log
  cases hrun : s.mIsRunning with
  | false => exact ⟨rfl, Or.inl rfl⟩
  | true =>
    by_cases hlevel : nLevel ≤ s.g_iLogLevel
    · have hidle : s.mIdleMessageList = [] := by
        by_contra hne
        exact h ⟨hrun, hlevel, hne⟩
      rw [Bool.not_true, if_neg Bool.false_ne_true, if_pos hlevel]
      dsimp only
      rw [(s.create_frame w).2.2, hidle]
      exact ⟨rfl, Or.inr rfl⟩
    · rw [Bool.not_true, if_neg Bool.false_ne_true, if_neg hlevel]
      exact ⟨rfl, Or.inl rfl⟩

/-- **A call that gets to a `Message`** takes the first one that is idle, and puts it behind the others. -/
theorem Log_records (h : s.Records nLevel) : ∃ lm idle, s.mIdleMessageList = lm :: idle ∧
    s.Log w nLevel text =
      ({ s.create w with
          g_pFileCtrl := (s.create w).g_pFileCtrl.map fun c =>
            (c.LogMsg (s.create w).g_iMemSize (some (assemble lm w text).pszFormat)
              (assemble lm w text).pszHead w.rotated).1
          mIdleMessageList := idle ++ [(assemble lm w text).lm] },
        true, some (assemble lm w text)) := by
  obtain ⟨hrun, hlevel, hne⟩ := h
  obtain ⟨lm, idle, hidle⟩ := List.exists_cons_of_ne_nil hne
  refine ⟨lm, idle, hidle, ?_⟩
  unfold Log
  rw [hrun, Bool.not_true, if_neg Bool.false_ne_true, if_pos hlevel]
  dsimp only
  rw [(s.create_frame w).2.2, hidle]

/-- **No `Message` is lost**, and a call changes nothing else that the next one depends on. -/
theorem Log_frame : (s.Log w nLevel text).1.mIsRunning = s.mIsRunning ∧
    (s.Log w nLevel text).1.g_iLogLevel = s.g_iLogLevel ∧
    (s.Log w nLevel text).1.mIdleMessageList.length = s.mIdleMessageList.length := by
  obtain ⟨hrun, hlevel, hidle⟩ := s.create_frame w
  by_cases h : s.Records nLevel
  · obtain ⟨lm, idle, hcons, hlog⟩ := s.Log_records w nLevel text h
    rw [hlog, hcons]
    exact ⟨hrun, hlevel, List.length_append⟩
  · rcases (s.Log_skips w nLevel text h).2 with hs | hs
    · rw [hs]
      exact ⟨rfl, rfl, rfl⟩
    · rw [hs, hidle]
      exact ⟨hrun, hlevel, rfl⟩

theorem Records_Log (n : BitVec 64) : (s.Log w nLevel text).1.Records n ↔ s.Records n := by
  obtain ⟨hrun, hlevel, hlength⟩ := s.Log_frame w nLevel text
  unfold Records
  rw [hrun, hlevel, ← List.length_pos_iff, ← List.length_pos_iff, hlength]

/-- **A call keeps the record in its `Message`, just when** it gets to none, or `Message.buffer` is that of
`TcpPorxyServer`, or has room for the text up to its first NUL, a newline and a NUL. -/
theorem log_iff : (∀ r, (s.Log w nLevel text).2.2 = some r → r.Stays w text) ↔
    (s.Records nLevel → p = .TcpPorxyServer ∨ (cstr text).length + 2 ≤ p.bufferLen) := by
  by_cases h : s.Records nLevel
  · obtain ⟨lm, idle, -, hlog⟩ := s.Log_records w nLevel text h
    rw [hlog, forall_prop_of_true h, ← stays_iff lm w text]
    constructor
    · intro hr
      exact hr _ rfl
    · intro hs r hr
      obtain rfl := Option.some.inj hr
      exact hs
  · rw [(s.Log_skips w nLevel text h).1]
    exact iff_of_true nofun fun h' => absurd h' h

end

/-- in `HttpProxyServer` a text of 8191 bytes overwrites the header -/
theorem not_log : ¬ ∀ (p : Server) (s : LogManager p) (w : World) (nLevel : BitVec 64) (text : List Byte),
    ∀ r, (s.Log w nLevel text).2.2 = some r → r.Stays w text := by
  intro h
  obtain ⟨text, hlen, hnul⟩ : ∃ text : List Byte, text.length = 8191 ∧ (0 : Byte) ∉ text := by
    refine ⟨List.replicate 8191 97, List.length_replicate, fun h0 => ?_⟩
    have h97 : (0 : Byte) = 97 := List.eq_of_mem_replicate h0
    revert h97
    decide
  let lm : Message .HttpProxyServer := ⟨List.replicate _ 0, List.length_replicate⟩
  let w : World := ⟨.midnight, .midnight, .midnight, 0, fun _ => 0, fun _ => 0⟩
  let s : LogManager .HttpProxyServer := ⟨true, ascii "log", [lm], 4, false, none, 0⟩
  have hrecords : s.Records 4 := ⟨rfl, BitVec.le_refl _, List.cons_ne_nil _ _⟩
  obtain ⟨lm, idle, -, hlog⟩ := s.Log_records w 4 text hrecords
  have hstays := h _ s w 4 text (assemble lm w text) (by rw [hlog])
  rw [stays_iff, cstr_of_not_mem hnul, hlen] at hstays
  revert hstays
  decide

/-! ## runs -/

section
variable {p : Server} {s : LogManager p} {u : Setup} {j : Journal}

/-- the log file is open, and the `CFileCtrl` keeps what the journal says -/
structure Backed (u : Setup) (s : LogManager p) (j : Journal) : Prop where
  created : s.g_bCreated = true
  size : s.g_iMemSize = u.g_iMemSize
  keeps : ∃ c, s.g_pFileCtrl = some c ∧ Keeps u c j

/-- the buffer of the `CFileCtrl`, if there is one, is longer than any record -/
def Roomy (p : Server) (g_iMemSize : Nat) : Prop := g_iMemSize = 0 ∨ 63 + p.bufferLen ≤ g_iMemSize

theorem Roomy.fits {g_iMemSize : Nat} (h : Roomy p g_iMemSize) (tTime : Tm) {text : List Byte}
    (hroom : (kept p text).length + 2 ≤ p.bufferLen) :
    LogFits g_iMemSize (kept p text ++ ascii "\n") (header tTime) := by
  have hheader := header_length_le tTime
  have hlen : (kept p text ++ ascii "\n").length = (kept p text).length + 1 := List.length_append
  have hmax : p.bufferLen ≤ 10240 := by cases p <;> decide
  unfold LogFits
  rw [hlen]
  refine ⟨by omega, by omega, ?_⟩
  rcases h with h0 | hle
  · exact Or.inl h0
  · exact Or.inr (by omega)

def logged (u : Setup) (s : LogManager p) (j : Journal) (w : World) (nLevel : BitVec 64)
    (text : List Byte) : Journal :=
  if s.Records nLevel then j.log u (header w.tTime ++ (kept p text ++ ascii "\n")) w.rotated else j

/-- **A call logs header, text and newline**, if it gets to a `Message`. -/
theorem Backed.Log (h : Backed u s j) (hroomy : Roomy p u.g_iMemSize) (w : World) (nLevel : BitVec 64)
    {text : List Byte} (hroom : (kept p text).length + 2 ≤ p.bufferLen) :
    Backed u (s.Log w nLevel text).1 (logged u s j w nLevel text) := by
  obtain ⟨c, hc, hkeeps⟩ := h.keeps
  have hcreate : s.create w = s := if_pos h.created
  unfold logged
  by_cases hrecords : s.Records nLevel
  · obtain ⟨lm, idle, -, hlog⟩ := s.Log_records w nLevel text hrecords
    rw [hlog, hcreate, hc, if_pos hrecords, assemble_pszFormat, assemble_pszHead lm w text hroom, h.size]
    exact ⟨h.created, h.size, _, rfl, (hkeeps.LogMsg (hroomy.fits w.tTime hroom) w.rotated).2⟩
  · rw [if_neg hrecords]
    rcases (s.Log_skips w nLevel text hrecords).2 with hs | hs
    · rw [hs]
      exact h
    · rw [hs, hcreate]
      exact h

structure Call where
  w : World
  nLevel : BitVec 64
  text : List Byte

def calls (s : LogManager p) (l : List Call) : LogManager p :=
  l.foldl (fun s x => (s.Log x.w x.nLevel x.text).1) s

/-- **Every call of a run logs header, text and newline**, in the order of the calls. -/
theorem Backed.calls (h : Backed u s j) (hroomy : Roomy p u.g_iMemSize) {l : List Call}
    (hroom : ∀ x ∈ l, (kept p x.text).length + 2 ≤ p.bufferLen) :
    Backed u (s.calls l) (l.foldl (fun j x => logged u s j x.w x.nLevel x.text) j) := by
  induction l generalizing s j with
  | nil => exact h
  | cons x l ih =>
    obtain ⟨hx, hl⟩ := List.forall_mem_cons.mp hroom
    have hstep := ih (h.Log hroomy x.w x.nLevel hx) hl
    have hlogged : ∀ (j : Journal) (y : Call),
        logged u (s.Log x.w x.nLevel x.text).1 j y.w y.nLevel y.text =
          logged u s j y.w y.nLevel y.text := by
      intro j y
      unfold logged
      simp only [Records_Log]
    simp only [hlogged] at hstep
    exact hstep

end

end LogManager

end VncProxy
