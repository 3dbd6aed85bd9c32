import VncProxy.Lib.Bytes

/-!
# Commands between the two servers

`CommandDef.h` (the same in both programs) packs a command header into `sizeof(CMDH) = 17` bytes:
`cmdt`, `len`, `seq`, `fd` as 32-bit words, then the byte `bNew`.  The parameter follows it.

* `CMDH.bytes`, `CMDH.read`       the header in memory and the cast `(CMDH*)p`;
* `CMD.frame`                     the bytes of a whole command;
* `ITask.GetSendCmd`              the two tasks writing a command over a Message buffer;
* `SendClient2VNC_bytes`          `buffer[0..len)` of the Message that `SendClient2VNC` queues is
                                  the frame of the task's command, whatever the buffer held before.
-/

namespace VncProxy

def MAX_PARAM_LEN : Nat := 4096
def MAX_BUFFER_LEN : Nat := 8192
def MAX_LOG_BUFFER_LEN : Nat := 10240

/-- the C type `int` -/
abbrev CInt := BitVec 32

/-! ## headers -/

/-- `CommandType`; `other` is any further value that can stand in the field on the wire -/
inductive CMDT where
  | CommandTypeNone
  | CommandTypeProxy
  | CommandTypeProxyDisconnect
  | other (w : CInt) (h : 2 < w.toNat)
deriving DecidableEq

def CMDT.word : CMDT → CInt
  | .CommandTypeNone => 0
  | .CommandTypeProxy => 1
  | .CommandTypeProxyDisconnect => 2
  | .other w _ => w

def CMDT.ofWord (w : CInt) : CMDT :=
  if h : 2 < w.toNat then .other w h
  else if w = 0 then .CommandTypeNone
  else if w = 1 then .CommandTypeProxy
  else .CommandTypeProxyDisconnect

theorem CMDT.ofWord_word (c : CMDT) : CMDT.ofWord c.word = c := by
  cases c with
  | CommandTypeNone => rfl
  | CommandTypeProxy => rfl
  | CommandTypeProxyDisconnect => rfl
  | other w h => exact dif_pos h

structure CMDH where
  cmdt : CMDT
  len : CInt
  seq : CInt
  fd : CInt
  bNew : Bool
deriving DecidableEq

def sizeofCMDH : Nat := 17

def CMDH.bytes (h : CMDH) : List Byte :=
  le32 h.cmdt.word ++ le32 h.len ++ le32 h.seq ++ le32 h.fd ++ [if h.bNew then 1 else 0]

theorem CMDH.bytes_length (h : CMDH) : h.bytes.length = sizeofCMDH := rfl

/-- `*(CMDH*)p`; a shorter block is never read -/
def CMDH.read : List Byte → CMDH
  | c0 :: c1 :: c2 :: c3 :: l0 :: l1 :: l2 :: l3 :: s0 :: s1 :: s2 :: s3 :: f0 :: f1 :: f2 :: f3
      :: b :: _ =>
    { cmdt := CMDT.ofWord (ofLe32 c0 c1 c2 c3)
      len := ofLe32 l0 l1 l2 l3
      seq := ofLe32 s0 s1 s2 s3
      fd := ofLe32 f0 f1 f2 f3
      bNew := b != 0 }
  | _ => ⟨.CommandTypeNone, 0, 0, 0, false⟩

theorem CMDH.read_bytes (h : CMDH) (rest : List Byte) : CMDH.read (h.bytes ++ rest) = h := by
  show CMDH.mk (CMDT.ofWord (ofLe32 _ _ _ _)) (ofLe32 _ _ _ _) (ofLe32 _ _ _ _) (ofLe32 _ _ _ _)
    ((if h.bNew then (1 : Byte) else 0) != 0) = h
  rw [ofLe32_le32, ofLe32_le32, ofLe32_le32, ofLe32_le32, CMDT.ofWord_word]
  obtain ⟨c, l, s, f, b⟩ := h
  cases b <;> rfl

theorem CMDH.read_append (a r r' : List Byte) (h : a.length = 17) :
    CMDH.read (a ++ r) = CMDH.read (a ++ r') := by
  match a, h with
  | [_, _, _, _, _, _, _, _, _, _, _, _, _, _, _, _, _], _ => rfl

theorem CMDH.read_take (l : List Byte) (n : Nat) (hn : sizeofCMDH ≤ n) (hl : sizeofCMDH ≤ l.length) :
    CMDH.read (l.take n) = CMDH.read l := by
  have h1 : l.take n = l.take 17 ++ (l.take n).drop 17 := by
    have := List.take_append_drop 17 (l.take n)
    rw [List.take_take, Nat.min_eq_left (show 17 ≤ n from hn)] at this
    exact this.symm
  have h2 := CMDH.read_append (l.take 17) ((l.take n).drop 17) (l.drop 17) (by
    rw [List.length_take]
    exact Nat.min_eq_left hl)
  rw [h1, h2, List.take_append_drop]

/-- `Command`: the header and `param[0..header.len)` -/
structure CMD where
  header : CMDH
  param : List Byte
deriving DecidableEq

/-- the command in memory and on the wire -/
def CMD.frame (c : CMD) : List Byte := c.header.bytes ++ c.param

/-- `header.len` is the length of the parameter -/
def CMD.Sized (c : CMD) : Prop := c.header.len.toInt = c.param.length

theorem CMD.frame_length (c : CMD) : c.frame.length = sizeofCMDH + c.param.length := by
  rw [CMD.frame, List.length_append, CMDH.bytes_length]

theorem CMD.read_frame (c : CMD) (rest : List Byte) : CMDH.read (c.frame ++ rest) = c.header := by
  rw [CMD.frame, List.append_assoc, CMDH.read_bytes]

theorem ofNat_toInt {n : Nat} (h : n < 2 ^ 31) : (BitVec.ofNat 32 n).toInt = n := by
  rw [BitVec.toInt_eq_toNat_of_lt]
  · rw [BitVec.toNat_ofNat, Nat.mod_eq_of_lt (by omega)]
  · rw [BitVec.toNat_ofNat, Nat.mod_eq_of_lt (by omega)]
    omega

/-! ## tasks -/

/-- what one `recv(fd, buffer, MAX_BUFFER_LEN - 1, 0)` can return -/
structure Chunk where
  bytes : List Byte
  pos : 0 < bytes.length
  lt : bytes.length < MAX_BUFFER_LEN
deriving DecidableEq

theorem Chunk.len_toInt (c : Chunk) : (BitVec.ofNat 32 c.bytes.length).toInt = c.bytes.length :=
  ofNat_toInt (Nat.lt_of_lt_of_le c.lt (by decide))

/-- `ProxyClientTask` after `SetBuffer(m->buffer, m->len)`, and `ProxyClientDisconnectTask` -/
inductive ITask where
  | ProxyClientTask (mpBuffer : Chunk)
  | ProxyClientDisconnectTask
deriving DecidableEq

/-- the command a task stands for -/
def ITask.cmd (t : ITask) (seq fd : CInt) : CMD :=
  match t with
  | .ProxyClientTask b =>
    ⟨⟨.CommandTypeProxy, BitVec.ofNat 32 b.bytes.length, seq, fd, true⟩, b.bytes⟩
  | .ProxyClientDisconnectTask => ⟨⟨.CommandTypeProxyDisconnect, 0, seq, fd, true⟩, []⟩

theorem ITask.cmd_sized (t : ITask) (seq fd : CInt) : (t.cmd seq fd).Sized := by
  cases t with
  | ProxyClientTask b => exact b.len_toInt
  | ProxyClientDisconnectTask => rfl

structure MessageBuffer where
  bytes : List Byte
  size : bytes.length = MAX_LOG_BUFFER_LEN

/-- `GetSendCmd(cmd, seq, fd)` of the two tasks, `cmd` pointing at the start of a Message buffer -/
def ITask.GetSendCmd (t : ITask) (buffer : List Byte) (seq fd : CInt) : List Byte :=
  match t with
  | .ProxyClientTask b =>
    let header : CMDH := ⟨.CommandTypeProxy, BitVec.ofNat 32 b.bytes.length, seq, fd, true⟩
    let buffer := memcpy buffer 0 header.bytes
    if 0 < b.bytes.length then memcpy buffer sizeofCMDH b.bytes else buffer
  | .ProxyClientDisconnectTask =>
    memcpy buffer 0 (CMDH.bytes ⟨.CommandTypeProxyDisconnect, 0, seq, fd, true⟩)

/-- `buffer[0..len)` of the Message that `SendClient2VNC` hands to `SendMessageByQueue`:
`sm->len = sizeof(CMDH) + cmd->header.len` -/
def SendClient2VNC_message (t : ITask) (sm : MessageBuffer) (seq fd : CInt) : List Byte :=
  let buffer := t.GetSendCmd sm.bytes seq fd
  buffer.take (sizeofCMDH + (CMDH.read buffer).len.toNat)

theorem ITask.frame_fits (t : ITask) (seq fd : CInt) :
    (t.cmd seq fd).frame.length ≤ MAX_LOG_BUFFER_LEN := by
  rw [CMD.frame_length]
  cases t with
  | ProxyClientTask b =>
    show sizeofCMDH + b.bytes.length ≤ MAX_LOG_BUFFER_LEN
    have h := b.lt
    unfold sizeofCMDH MAX_LOG_BUFFER_LEN
    unfold MAX_BUFFER_LEN at h
    omega
  | ProxyClientDisconnectTask =>
    show sizeofCMDH + 0 ≤ MAX_LOG_BUFFER_LEN
    decide

theorem ITask.GetSendCmd_take (t : ITask) (sm : MessageBuffer) (seq fd : CInt) :
    (t.GetSendCmd sm.bytes seq fd).take (t.cmd seq fd).frame.length = (t.cmd seq fd).frame := by
  have hfit := t.frame_fits seq fd
  rw [CMD.frame_length] at hfit ⊢
  cases t with
  | ProxyClientTask b =>
    rw [show ITask.GetSendCmd (.ProxyClientTask b) sm.bytes seq fd
      = memcpy (memcpy sm.bytes 0 _) sizeofCMDH b.bytes from if_pos b.pos]
    exact memcpy_memcpy_take (a := CMDH.bytes _) (by rw [sm.size]; exact hfit)
  | ProxyClientDisconnectTask =>
    have h := memcpy_take_self sm.bytes
      (CMDH.bytes ⟨.CommandTypeProxyDisconnect, 0, seq, fd, true⟩)
    rw [CMD.frame, show (ITask.cmd .ProxyClientDisconnectTask seq fd).param = [] from rfl,
      List.append_nil]
    exact h

/-- **The Message that `SendClient2VNC` queues is the frame of the task's command**, whatever its
buffer held before. -/
theorem SendClient2VNC_bytes (t : ITask) (sm : MessageBuffer) (seq fd : CInt) :
    SendClient2VNC_message t sm seq fd = (t.cmd seq fd).frame := by
  have htake := t.GetSendCmd_take sm seq fd
  have hread : CMDH.read (t.GetSendCmd sm.bytes seq fd) = (t.cmd seq fd).header := by
    have h1 := CMD.read_frame (t.cmd seq fd) []
    rw [List.append_nil, ← htake, CMDH.read_take _ _ (by rw [CMD.frame_length]; omega)] at h1
    · exact h1
    · have h2 := congrArg List.length htake
      rw [List.length_take, CMD.frame_length] at h2
      omega
  have hlen : (t.cmd seq fd).header.len.toNat = (t.cmd seq fd).param.length := by
    have h := t.cmd_sized seq fd
    unfold CMD.Sized at h
    have h2 : ((t.cmd seq fd).header.len.toInt).toNat = (t.cmd seq fd).param.length := by omega
    rw [← h2, BitVec.toInt_eq_toNat_of_lt, Int.toNat_natCast]
    by_contra hge
    rw [BitVec.toInt_eq_toNat_cond, if_neg hge] at h
    have := (t.cmd seq fd).header.len.isLt
    omega
  show (t.GetSendCmd sm.bytes seq fd).take _ = _
  rw [hread, hlen, ← CMD.frame_length, htake]

end VncProxy
