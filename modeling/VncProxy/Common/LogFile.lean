import VncProxy.Lib.CString
import VncProxy.Lib.Run

/-!
# `CFileCtrl`

The log file.  Records go to the file, or to a buffer of `g_iMemSize` bytes that is written to the file
when it is full; when the file is long enough another one is opened, whose name is made up of the time.

* `CFileCtrl.LogMsg`, `CFileCtrl.Mem2File`, `CFileCtrl.CreateLog`   as in the source;
* `Journal`           the log without a buffer;
* `Keeps`             the `CFileCtrl` keeps what the journal says;
* `Keeps.LogMsg`      a record does to it what it does to the journal, `Keeps.step` so does any call.
-/

namespace VncProxy

/-- the fields of `struct tm` that are used -/
structure Tm where
  tm_year : Int
  tm_mon : Nat
  tm_mday : Nat
  tm_hour : Nat
  tm_min : Nat
  tm_sec : Nat

/-- a file and the bytes written to it -/
structure File where
  name : List Byte
  contents : List Byte

def MAX_PATH : Nat := 256

/-- `%d` -/
def decimal (n : Int) : List Byte := ascii (toString n)

/-- `%02d` -/
def twoDigits (n : Nat) : List Byte := if n < 10 then ascii "0" ++ decimal n else decimal n

/-- the name `CreateLog` makes up; `snprintf` cuts it off -/
def fileName (path name : List Byte) (tTime : Tm) : List Byte :=
  (path ++ ascii "/" ++ name ++ decimal (tTime.tm_year + 1900) ++ twoDigits (tTime.tm_mon + 1) ++
    twoDigits tTime.tm_mday ++ twoDigits tTime.tm_hour ++ twoDigits tTime.tm_min ++
    twoDigits tTime.tm_sec ++ ascii ".txt").take (MAX_PATH - 1)

structure CFileCtrl where
  m_pLogFile : Option File
  m_dwMaxFileLength : BitVec 64
  m_szLogFileName : List Byte
  m_szLogPath : List Byte
  m_nFileLen : Int
  m_pBuffer : Option (List Byte)
  m_nBufferUse : Nat
  /-- the files on the disk that are not open, in the order in which they were opened -/
  closed : List File
  /-- the calls of `fopen` -/
  opened : Nat

namespace CFileCtrl

/-- the constructor; `fileLen` and `junk` are in the memory -/
def new (g_iMemSize : Nat) (fileLen : Int) (junk : Nat → Byte) (szlogPath szFileName : List Byte)
    (aiFileLen : BitVec 64) : CFileCtrl where
  m_pLogFile := none
  m_dwMaxFileLength := aiFileLen
  m_szLogFileName := szFileName.take (MAX_PATH - 1)
  m_szLogPath := szlogPath.take (MAX_PATH - 1)
  m_nFileLen := fileLen
  m_pBuffer := if g_iMemSize = 0 then none else some (newChar g_iMemSize junk)
  m_nBufferUse := 0
  closed := []
  opened := 0

def Initialize (c : CFileCtrl) : CFileCtrl :=
  let m_dwMaxFileLength := if c.m_dwMaxFileLength = 0 then 2 else c.m_dwMaxFileLength
  { c with m_dwMaxFileLength := m_dwMaxFileLength * 1024 * 1024 }

/-- `fopen(name, "w+b")`: a file that has the name is truncated -/
def fopen (c : CFileCtrl) (name : List Byte) : CFileCtrl :=
  { c with
    closed := c.closed.filter (·.name ≠ name)
    m_pLogFile := some ⟨name, []⟩
    opened := c.opened + 1 }

/-- `tTime` is the local time -/
def CreateLog (c : CFileCtrl) (tTime : Tm) : CFileCtrl :=
  let c := match c.m_pLogFile with
    | some f => { c with closed := c.closed ++ [f], m_pLogFile := none, m_nFileLen := 0 }
    | none => c
  c.fopen (fileName c.m_szLogPath c.m_szLogFileName tTime)

def OpenLogFile (c : CFileCtrl) (tTime : Tm) : CFileCtrl := c.CreateLog tTime

def fwrite (c : CFileCtrl) (bytes : List Byte) : CFileCtrl :=
  { c with m_pLogFile := c.m_pLogFile.map fun f => { f with contents := f.contents ++ bytes } }

def Mem2File (c : CFileCtrl) : CFileCtrl :=
  match c.m_pLogFile, c.m_pBuffer with
  | some _, some b =>
    if 0 < c.m_nBufferUse then { c.fwrite (b.take c.m_nBufferUse) with m_nBufferUse := 0 } else c
  | _, _ => c

/-- `memcpy(m_pBuffer + m_nBufferUse, bytes, |bytes|); m_nBufferUse += |bytes|` -/
def copy (c : CFileCtrl) (bytes : List Byte) : CFileCtrl :=
  { c with
    m_pBuffer := c.m_pBuffer.map fun b => memcpy b c.m_nBufferUse bytes
    m_nBufferUse := c.m_nBufferUse + bytes.length }

def toFile (c : CFileCtrl) (pszFormat pszHead : List Byte) : CFileCtrl :=
  { (c.fwrite pszHead).fwrite pszFormat with
    m_nFileLen := c.m_nFileLen + pszHead.length + pszFormat.length }

def toBuffer (c : CFileCtrl) (pszFormat pszHead : List Byte) : CFileCtrl :=
  { (c.copy pszHead).copy pszFormat with
    m_nFileLen := c.m_nFileLen + pszHead.length + pszFormat.length }

/-- `LogMsg` in front of the check of the file size -/
def put (g_iMemSize : Nat) (c : CFileCtrl) (pszFormat pszHead : List Byte) : CFileCtrl :=
  match c.m_pBuffer with
  | none => c.toFile pszFormat pszHead
  | some _ =>
    let c :=
      if c.m_nBufferUse + pszHead.length + pszFormat.length ≥ g_iMemSize then c.Mem2File else c
    c.toBuffer pszFormat pszHead

/-- with `aiLen = |pszFormat|`; both strings are shorter than 2^31 -/
def LogMsg (g_iMemSize : Nat) (c : CFileCtrl) (pszFormat : Option (List Byte)) (pszHead : List Byte)
    (now : Tm) : CFileCtrl × Int :=
  match c.m_pLogFile, pszFormat with
  | some _, some pszFormat =>
    let c := c.put g_iMemSize pszFormat pszHead
    (if c.m_nFileLen ≥ c.m_dwMaxFileLength.toInt then c.Mem2File.CreateLog now else c, 0)
  | _, _ => (c, -1)

def buffered (c : CFileCtrl) : List Byte :=
  match c.m_pBuffer with
  | none => []
  | some b => b.take c.m_nBufferUse

end CFileCtrl

/-! ## the log without a buffer -/

/-- what does not change -/
structure Setup where
  g_iMemSize : Nat
  path : List Byte
  name : List Byte
  max : BitVec 64

structure Journal where
  closed : List File
  file : File
  fileLen : Int
  opened : Nat

namespace Journal

def add (j : Journal) (bytes : List Byte) : Journal :=
  { j with
    file := { j.file with contents := j.file.contents ++ bytes }
    fileLen := j.fileLen + bytes.length }

def rotate (j : Journal) (name : List Byte) : Journal where
  closed := (j.closed ++ [j.file]).filter (·.name ≠ name)
  file := ⟨name, []⟩
  fileLen := 0
  opened := j.opened + 1

def log (u : Setup) (j : Journal) (bytes : List Byte) (now : Tm) : Journal :=
  if u.max.toInt ≤ (j.add bytes).fileLen then (j.add bytes).rotate (fileName u.path u.name now)
  else j.add bytes

end Journal

/-- the `CFileCtrl` keeps what the journal says, with the end of the file in its buffer -/
structure Keeps (u : Setup) (c : CFileCtrl) (j : Journal) : Prop where
  path : c.m_szLogPath = u.path
  name : c.m_szLogFileName = u.name
  max : c.m_dwMaxFileLength = u.max
  file : ∃ f, c.m_pLogFile = some f ∧ f.name = j.file.name ∧
    f.contents ++ c.buffered = j.file.contents
  closed : c.closed = j.closed
  fileLen : c.m_nFileLen = j.fileLen
  opened : c.opened = j.opened
  direct : c.m_pBuffer = none → u.g_iMemSize = 0
  buffer : ∀ b, c.m_pBuffer = some b → b.length = u.g_iMemSize ∧ u.g_iMemSize ≠ 0
  use : c.m_nBufferUse ≤ u.g_iMemSize

/-- the record is shorter than the buffer, if there is one, and its lengths are `int`s -/
def LogFits (g_iMemSize : Nat) (pszFormat pszHead : List Byte) : Prop :=
  pszHead.length < 2 ^ 31 ∧ pszFormat.length < 2 ^ 31 ∧
    (g_iMemSize = 0 ∨ pszHead.length + pszFormat.length < g_iMemSize)

instance (g_iMemSize : Nat) (pszFormat pszHead : List Byte) :
    Decidable (LogFits g_iMemSize pszFormat pszHead) := inferInstanceAs (Decidable (_ ∧ _ ∧ _))

namespace CFileCtrl

theorem buffered_of_empty {c : CFileCtrl} (h : c.m_nBufferUse = 0) : c.buffered = [] := by
  unfold buffered
  cases c.m_pBuffer with
  | none => rfl
  | some b =>
    dsimp only
    rw [h, List.take_zero]

theorem copy_buffered {c : CFileCtrl} {b bytes : List Byte} (hb : c.m_pBuffer = some b)
    (hfit : c.m_nBufferUse + bytes.length ≤ b.length) :
    (c.copy bytes).buffered = c.buffered ++ bytes := by
  unfold buffered copy
  rw [hb]
  show (memcpy b c.m_nBufferUse bytes).take (c.m_nBufferUse + bytes.length) = _
  unfold memcpy
  have hlen : (b.take c.m_nBufferUse ++ bytes).length = c.m_nBufferUse + bytes.length := by
    rw [List.length_append, List.length_take]
    omega
  rw [← hlen, List.take_left]

end CFileCtrl

namespace Keeps

variable {u : Setup} {c : CFileCtrl} {j : Journal}

/-- **The buffer is written to the file.** -/
theorem Mem2File (h : Keeps u c j) : Keeps u c.Mem2File j ∧ c.Mem2File.m_nBufferUse = 0 := by
  obtain ⟨f, hf, hname, hcontents⟩ := h.file
  unfold CFileCtrl.Mem2File
  rw [hf]
  cases hb : c.m_pBuffer with
  | none =>
    have huse := h.use
    rw [h.direct hb] at huse
    exact ⟨h, Nat.le_zero.mp huse⟩
  | some b =>
    dsimp only
    split
    · next hpos =>
      refine ⟨⟨h.path, h.name, h.max, ?_, h.closed, h.fileLen, h.opened, h.direct, h.buffer,
        Nat.zero_le _⟩, rfl⟩
      have hbuffered : c.buffered = b.take c.m_nBufferUse := by
        unfold CFileCtrl.buffered
        rw [hb]
      refine ⟨⟨f.name, f.contents ++ b.take c.m_nBufferUse⟩, ?_, hname, ?_⟩
      · unfold CFileCtrl.fwrite
        rw [hf]
        rfl
      · rw [CFileCtrl.buffered_of_empty rfl, List.append_nil, ← hbuffered]
        exact hcontents
    · next hpos => exact ⟨h, Nat.eq_zero_of_not_pos hpos⟩

theorem addLen (h : Keeps u c j) (pszFormat pszHead : List Byte) :
    c.m_nFileLen + pszHead.length + pszFormat.length =
      (j.add (pszHead ++ pszFormat)).fileLen := by
  show _ = j.fileLen + (pszHead ++ pszFormat).length
  rw [h.fileLen, List.length_append, Int.natCast_add, Int.add_assoc]

theorem toFile (h : Keeps u c j) (hb : c.m_pBuffer = none) (pszFormat pszHead : List Byte) :
    Keeps u (c.toFile pszFormat pszHead) (j.add (pszHead ++ pszFormat)) := by
  obtain ⟨f, hf, hname, hcontents⟩ := h.file
  have hbuffered : ∀ c' : CFileCtrl, c'.m_pBuffer = none → c'.buffered = [] := by
    intro c' hc'
    unfold CFileCtrl.buffered
    rw [hc']
  refine ⟨h.path, h.name, h.max, ?_, h.closed, h.addLen pszFormat pszHead, h.opened, h.direct,
    h.buffer, h.use⟩
  refine ⟨⟨f.name, f.contents ++ pszHead ++ pszFormat⟩, ?_, hname, ?_⟩
  · show ((c.m_pLogFile.map _).map _) = _
    rw [hf]
    rfl
  · rw [hbuffered c hb, List.append_nil] at hcontents
    rw [hbuffered (c.toFile pszFormat pszHead) hb, List.append_nil, hcontents, List.append_assoc]
    rfl

theorem toBuffer (h : Keeps u c j) {b : List Byte} (hb : c.m_pBuffer = some b)
    {pszFormat pszHead : List Byte}
    (hroom : c.m_nBufferUse + pszHead.length + pszFormat.length ≤ u.g_iMemSize) :
    Keeps u (c.toBuffer pszFormat pszHead) (j.add (pszHead ++ pszFormat)) := by
  obtain ⟨f, hf, hname, hcontents⟩ := h.file
  obtain ⟨hsize, hne⟩ := h.buffer b hb
  have hhead : (c.copy pszHead).m_pBuffer = some (memcpy b c.m_nBufferUse pszHead) := by
    show c.m_pBuffer.map _ = _
    rw [hb]
    rfl
  have hheadLen : (memcpy b c.m_nBufferUse pszHead).length = b.length := memcpy_length (by omega)
  have hbuffered : ((c.copy pszHead).copy pszFormat).buffered =
      c.buffered ++ (pszHead ++ pszFormat) := by
    rw [CFileCtrl.copy_buffered hhead, CFileCtrl.copy_buffered hb, List.append_assoc]
    · omega
    · show c.m_nBufferUse + pszHead.length + pszFormat.length ≤ _
      omega
  refine ⟨h.path, h.name, h.max, ⟨f, hf, hname, ?_⟩, h.closed, h.addLen pszFormat pszHead, h.opened,
    ?_, ?_, hroom⟩
  · show f.contents ++ ((c.copy pszHead).copy pszFormat).buffered =
      j.file.contents ++ (pszHead ++ pszFormat)
    rw [hbuffered, ← List.append_assoc, hcontents]
  · intro hnone
    change (c.copy pszHead).m_pBuffer.map _ = none at hnone
    rw [hhead] at hnone
    cases hnone
  · intro b' hb'
    change (c.copy pszHead).m_pBuffer.map _ = some b' at hb'
    rw [hhead] at hb'
    obtain rfl := Option.some.inj hb'
    refine ⟨?_, hne⟩
    rw [memcpy_length, hheadLen, hsize]
    show c.m_nBufferUse + pszHead.length + pszFormat.length ≤ _
    omega

theorem Mem2File_buffer (c : CFileCtrl) : c.Mem2File.m_pBuffer = c.m_pBuffer := by
  unfold CFileCtrl.Mem2File
  split
  · split
    · rfl
    · rfl
  · rfl

/-- **A record goes to the file or to the buffer.** -/
theorem put (h : Keeps u c j) {pszFormat pszHead : List Byte} (hfit : LogFits u.g_iMemSize pszFormat pszHead) :
    Keeps u (c.put u.g_iMemSize pszFormat pszHead) (j.add (pszHead ++ pszFormat)) := by
  unfold CFileCtrl.put
  cases hb : c.m_pBuffer with
  | none => exact h.toFile hb pszFormat pszHead
  | some b =>
    dsimp only
    split
    · -- the buffer is written to the file, and the record fits into it
      obtain ⟨hkeeps, hempty⟩ := h.Mem2File
      refine hkeeps.toBuffer ((Mem2File_buffer c).trans hb) ?_
      rw [hempty]
      have hne := (h.buffer b hb).2
      rcases hfit.2.2 with h0 | hlt
      · exact absurd h0 hne
      · omega
    · exact h.toBuffer hb (by omega)

/-- **Another file is opened** when the buffer is empty. -/
theorem CreateLog (h : Keeps u c j) (hempty : c.m_nBufferUse = 0) (now : Tm) :
    Keeps u (c.CreateLog now) (j.rotate (fileName u.path u.name now)) := by
  obtain ⟨f, hf, hname, hcontents⟩ := h.file
  rw [CFileCtrl.buffered_of_empty hempty, List.append_nil] at hcontents
  have hfile : f = j.file := by
    cases f
    cases hname
    cases hcontents
    rfl
  unfold CFileCtrl.CreateLog
  rw [hf]
  refine ⟨h.path, h.name, h.max, ⟨⟨fileName u.path u.name now, []⟩, ?_, rfl, ?_⟩, ?_, rfl, ?_, h.direct,
    h.buffer, h.use⟩
  · rw [← h.path, ← h.name]
    rfl
  · show [] ++ CFileCtrl.buffered _ = []
    rw [List.nil_append]
    exact CFileCtrl.buffered_of_empty hempty
  · show (c.closed ++ [f]).filter (·.name ≠ fileName c.m_szLogPath c.m_szLogFileName now) = _
    rw [h.closed, hfile, h.path, h.name]
    rfl
  · exact congrArg (· + 1) h.opened

/-- **A record does what it does to the journal.** -/
theorem LogMsg (h : Keeps u c j) {pszFormat pszHead : List Byte} (hfit : LogFits u.g_iMemSize pszFormat pszHead)
    (now : Tm) : (c.LogMsg u.g_iMemSize (some pszFormat) pszHead now).2 = 0 ∧
      Keeps u (c.LogMsg u.g_iMemSize (some pszFormat) pszHead now).1
        (j.log u (pszHead ++ pszFormat) now) := by
  obtain ⟨f, hf, -⟩ := h.file
  have hput := h.put hfit
  unfold CFileCtrl.LogMsg Journal.log
  rw [hf]
  dsimp only
  rw [← hput.fileLen, ← hput.max]
  refine ⟨rfl, ?_⟩
  split
  · exact hput.Mem2File.1.CreateLog hput.Mem2File.2 now
  · exact hput

end Keeps

/-! ## runs -/

inductive LogAction where
  | LogMsg (pszFormat : Option (List Byte)) (pszHead : List Byte) (now : Tm)
  | FlushMem2File

/-- the bytes of a record; there are none with a `NULL` for the message -/
def LogAction.bytes : LogAction → List Byte
  | .LogMsg (some pszFormat) pszHead _ => pszHead ++ pszFormat
  | _ => []

structure Logging where
  ctrl : CFileCtrl
  /-- the records of the calls that have returned 0 -/
  logged : List Byte

namespace Logging

/-- constructor, `Initialize` and `OpenLogFile` -/
def init (g_iMemSize : Nat) (fileLen : Int) (junk : Nat → Byte) (szlogPath szFileName : List Byte)
    (aiFileLen : BitVec 64) (now : Tm) : Logging where
  ctrl := ((CFileCtrl.new g_iMemSize fileLen junk szlogPath szFileName
    aiFileLen).Initialize).OpenLogFile now
  logged := []

def step (g_iMemSize : Nat) (s : Logging) : LogAction → Option Logging
  | .LogMsg pszFormat pszHead now =>
    if LogFits g_iMemSize (pszFormat.getD []) pszHead then
      let r := s.ctrl.LogMsg g_iMemSize pszFormat pszHead now
      some ⟨r.1, if r.2 = 0 then s.logged ++ (pszHead ++ pszFormat.getD []) else s.logged⟩
    else none
  | .FlushMem2File => some { s with ctrl := s.ctrl.Mem2File }

end Logging

def Journal.step (u : Setup) (j : Journal) : LogAction → Journal
  | .LogMsg (some pszFormat) pszHead now => j.log u (pszHead ++ pszFormat) now
  | _ => j

/-- **Every call does what it does to the journal**, and what it logs is its record. -/
theorem Keeps.step {u : Setup} {s s' : Logging} {j : Journal} (h : Keeps u s.ctrl j) {a : LogAction}
    (hs : s.step u.g_iMemSize a = some s') :
    Keeps u s'.ctrl (j.step u a) ∧ s'.logged = s.logged ++ a.bytes := by
  cases a with
  | LogMsg pszFormat pszHead now =>
    change (if LogFits u.g_iMemSize (pszFormat.getD []) pszHead then _ else none) = some s' at hs
    split at hs
    · next hfit =>
      obtain rfl := Option.some.inj hs
      cases pszFormat with
      | none =>
        obtain ⟨f, hf, -⟩ := h.file
        have hnull : s.ctrl.LogMsg u.g_iMemSize none pszHead now = (s.ctrl, -1) := by
          unfold CFileCtrl.LogMsg
          rw [hf]
        rw [hnull]
        exact ⟨h, (List.append_nil _).symm⟩
      | some pszFormat =>
        obtain ⟨hret, hkeeps⟩ := h.LogMsg hfit now
        exact ⟨hkeeps, if_pos hret⟩
    · cases hs
  | FlushMem2File =>
    obtain rfl := Option.some.inj hs
    exact ⟨h.Mem2File.1, (List.append_nil _).symm⟩

/-- the setup of a log -/
def Setup.of (g_iMemSize : Nat) (szlogPath szFileName : List Byte) (aiFileLen : BitVec 64) : Setup where
  g_iMemSize := g_iMemSize
  path := szlogPath.take (MAX_PATH - 1)
  name := szFileName.take (MAX_PATH - 1)
  max := (if aiFileLen = 0 then 2 else aiFileLen) * 1024 * 1024

theorem Keeps.init (g_iMemSize : Nat) (fileLen : Int) (junk : Nat → Byte)
    (szlogPath szFileName : List Byte) (aiFileLen : BitVec 64) (now : Tm) :
    Keeps (.of g_iMemSize szlogPath szFileName aiFileLen)
      (Logging.init g_iMemSize fileLen junk szlogPath szFileName aiFileLen now).ctrl
      ⟨[], ⟨fileName (szlogPath.take (MAX_PATH - 1)) (szFileName.take (MAX_PATH - 1)) now, []⟩,
        fileLen, 1⟩ where
  path := rfl
  name := rfl
  max := rfl
  file := ⟨_, rfl, rfl, by
    rw [List.nil_append]
    exact CFileCtrl.buffered_of_empty rfl⟩
  closed := rfl
  fileLen := rfl
  opened := rfl
  direct := by
    intro h
    show g_iMemSize = 0
    by_contra hne
    change (if g_iMemSize = 0 then none else some (newChar g_iMemSize junk)) = none at h
    rw [if_neg hne] at h
    cases h
  buffer := by
    intro b h
    change (if g_iMemSize = 0 then none else some (newChar g_iMemSize junk)) = some b at h
    split at h
    · cases h
    · next hne =>
      obtain rfl := Option.some.inj h
      exact ⟨by rw [newChar_length, Int.toNat_natCast]; rfl, hne⟩
  use := Nat.zero_le _

end VncProxy
