import VncProxy.Lib.While
import VncProxy.Wire.Command

/-!
# `TcpProxyClient::RecvCommand`

The HttpProxyServer side reads the commands that TcpProxyServer frames.  What the kernel has
received is a list of segments; one `recv()` returns bytes of the first segment only, so the
segments stand for one way of splitting the stream over the calls (an empty segment, or none left,
is the end of the connection).

* `recv`, `RecvData`             one system call; the blocking loop of `KTcpSocket::RecvData`;
* `RecvCommand`, `RecvCommands`  one command, and successive calls, with every index of `CMD.param`
                                 they write to;
* `RecvData_flatten`             `RecvData` does not see how the stream is split;
* `RecvCommand_frame`            a frame at the head of the stream is returned as it was sent;
* `recvCommands_agree_iff`       the commands come back unchanged and `CMD.param` is written in
                                 bounds exactly when no chunk is longer than `MAX_PARAM_LEN - 1`.
-/

namespace VncProxy

abbrev Segments := List (List Byte)

/-- `recv(mSocket, pBuffer, n, 0)`: the bytes and the segments left, `none` if it returns at most 0 -/
def recv (n : Nat) : Segments → Option (List Byte × Segments)
  | [] => none
  | seg :: rest =>
    if seg = [] then none
    else if seg.length ≤ n then some (seg, rest)
    else some (seg.take n, seg.drop n :: rest)

/-- the variables of `RecvData`; `got` is `pBuffer[0..iRecvedLen)` -/
structure RecvLoop where
  segs : Segments
  uiRecvLen : Nat
  got : List Byte
  bAlive : Bool

def RecvLoop.cond (s : RecvLoop) : Bool := decide (0 < s.uiRecvLen) && s.bAlive

def RecvLoop.body (s : RecvLoop) : RecvLoop :=
  match recv s.uiRecvLen s.segs with
  | some (b, segs) => { s with segs, uiRecvLen := s.uiRecvLen - b.length, got := s.got ++ b }
  | none => { s with bAlive := false }

/-- `RecvData(pBuffer, n)` on a blocking socket with `bRecvAll`; every round asks for at least one
byte and gets one or ends the loop, so `n` rounds suffice -/
def RecvData (n : Nat) (segs : Segments) : Option RecvLoop :=
  loop RecvLoop.cond RecvLoop.body n ⟨segs, n, [], true⟩

/-- the outcome of one call of `RecvCommand`; `writes` lists the indices of `cmd.param` written -/
structure Recved where
  bFlag : Bool
  cmd : CMD
  writes : List Nat

def RecvCommand (segs : Segments) : Option (Recved × Segments) :=
  (RecvData sizeofCMDH segs).bind fun h =>
    if h.got.length = sizeofCMDH then
      let header := CMDH.read h.got
      if 0 < header.len.toInt then
        (RecvData header.len.toNat h.segs).map fun p =>
          if p.got.length = header.len.toNat then
            (⟨true, ⟨header, p.got⟩, List.range p.got.length ++ [header.len.toNat]⟩, p.segs)
          else (⟨false, ⟨header, p.got⟩, List.range p.got.length⟩, p.segs)
      else some (⟨true, ⟨header, []⟩, []⟩, h.segs)
    else some (⟨false, ⟨CMDH.read [], []⟩, []⟩, h.segs)

def RecvCommands : Nat → Segments → Option (List Recved × Segments)
  | 0, segs => some ([], segs)
  | k + 1, segs =>
    (RecvCommand segs).bind fun r => (RecvCommands k r.2).map fun q => (r.1 :: q.1, q.2)

/-! ## `RecvData` and the stream -/

theorem recv_flatten {n : Nat} {segs : Segments} (hn : 0 < n) (hne : ∀ s ∈ segs, s ≠ [])
    (hpos : 0 < segs.flatten.length) :
    ∃ b segs', recv n segs = some (b, segs') ∧ 0 < b.length ∧ b.length ≤ n ∧
      segs.flatten = b ++ segs'.flatten ∧ ∀ s ∈ segs', s ≠ [] := by
  cases segs with
  | nil => exact absurd hpos (by simp)
  | cons seg rest =>
    have hseg : seg ≠ [] := hne seg (List.mem_cons_self ..)
    have hrest : ∀ s ∈ rest, s ≠ [] := fun s hs => hne s (List.mem_cons_of_mem _ hs)
    by_cases hle : seg.length ≤ n
    · exact ⟨seg, rest, by simp [recv, hseg, hle], List.length_pos_of_ne_nil hseg, hle, rfl, hrest⟩
    · refine ⟨seg.take n, seg.drop n :: rest, by simp [recv, hseg, hle], ?_, ?_, ?_, ?_⟩
      · rw [List.length_take]
        omega
      · exact List.length_take_le ..
      · rw [List.flatten_cons, List.flatten_cons, ← List.append_assoc, List.take_append_drop]
      · intro s hs
        rcases List.mem_cons.mp hs with rfl | hs
        · intro h
          have := congrArg List.length h
          rw [List.length_drop, List.length_nil] at this
          omega
        · exact hrest s hs

theorem loop_flatten {n : Nat} {segs : Segments} (got : List Byte) {a b : List Byte} (ha : a.length = n)
    (hne : ∀ s ∈ segs, s ≠ []) (hs : segs.flatten = a ++ b) :
    ∃ segs', loop RecvLoop.cond RecvLoop.body n ⟨segs, n, got, true⟩
        = some ⟨segs', 0, got ++ a, true⟩ ∧ segs'.flatten = b ∧ ∀ s ∈ segs', s ≠ [] := by
  -- on the bytes still to come, for any fuel that covers them
  suffices h : ∀ k m (segs : Segments) (got a : List Byte), m ≤ k → a.length = m →
      (∀ s ∈ segs, s ≠ []) → segs.flatten = a ++ b →
      ∃ segs', loop RecvLoop.cond RecvLoop.body k ⟨segs, m, got, true⟩
        = some ⟨segs', 0, got ++ a, true⟩ ∧ segs'.flatten = b ∧ ∀ s ∈ segs', s ≠ [] from
    h n n segs got a (Nat.le_refl n) ha hne hs
  intro k
  induction k with
  | zero =>
    intro m segs got a hm ha hne hs
    obtain rfl : m = 0 := by omega
    obtain rfl := List.eq_nil_of_length_eq_zero ha
    exact ⟨segs, by rw [loop_done 0 (by rfl), List.append_nil], hs, hne⟩
  | succ k ih =>
    intro m segs got a hm ha hne hs
    cases m with
    | zero =>
      obtain rfl := List.eq_nil_of_length_eq_zero ha
      exact ⟨segs, by rw [loop_done _ (by rfl), List.append_nil], hs, hne⟩
    | succ m =>
      obtain ⟨c, segs1, hr, hc0, hcn, hf, hne1⟩ := recv_flatten (n := m + 1) (Nat.succ_pos m) hne
        (by rw [hs, List.length_append]; omega)
      have hca : c = a.take c.length := by
        have h1 := congrArg (List.take c.length) (hf.symm.trans hs)
        rwa [List.take_left, List.take_append_of_le_length (by omega)] at h1
      have hrest : segs1.flatten = a.drop c.length ++ b := by
        have h1 := congrArg (List.drop c.length) (hf.symm.trans hs)
        rwa [List.drop_left, List.drop_append_of_le_length (by omega)] at h1
      obtain ⟨segs', hl, hb, hne'⟩ := ih (m + 1 - c.length) segs1 (got ++ c) (a.drop c.length)
        (by omega) (by rw [List.length_drop, ha]) hne1 hrest
      refine ⟨segs', ?_, hb, hne'⟩
      rw [loop_round k (by rfl)]
      have hbody : RecvLoop.body ⟨segs, m + 1, got, true⟩
          = ⟨segs1, m + 1 - c.length, got ++ c, true⟩ := by
        simp only [RecvLoop.body, hr]
      rw [hbody, hl, List.append_assoc]
      congr 3
      rw [hca]
      simp only [List.length_take]
      rw [Nat.min_eq_left (by omega), List.take_append_drop]

/-- **`RecvData` gives the next `n` bytes of the stream, however it is split.** -/
theorem RecvData_flatten {segs : Segments} {a b : List Byte} (hne : ∀ s ∈ segs, s ≠ [])
    (hs : segs.flatten = a ++ b) :
    ∃ segs', RecvData a.length segs = some ⟨segs', 0, a, true⟩ ∧ segs'.flatten = b ∧
      ∀ s ∈ segs', s ≠ [] :=
  loop_flatten [] rfl hne hs

/-! ## `RecvCommand` and frames -/

theorem toNat_of_toInt {w : CInt} {n : Nat} (h : w.toInt = n) : w.toNat = n := by
  by_cases hw : 2 * w.toNat < 2 ^ 32
  · rw [BitVec.toInt_eq_toNat_cond, if_pos hw] at h
    omega
  · rw [BitVec.toInt_eq_toNat_cond, if_neg hw] at h
    have := w.isLt
    omega

/-- the indices of `cmd.param` that `RecvCommand` writes for a command: the parameter and its NUL -/
def CMD.writes (c : CMD) : List Nat :=
  if c.param = [] then [] else List.range c.param.length ++ [c.param.length]

/-- **A frame at the head of the stream is returned as it was sent, however the stream is split.** -/
theorem RecvCommand_frame {segs : Segments} {c : CMD} {b : List Byte} (hc : c.Sized)
    (hne : ∀ s ∈ segs, s ≠ []) (hs : segs.flatten = c.frame ++ b) :
    ∃ segs', RecvCommand segs = some (⟨true, c, c.writes⟩, segs') ∧ segs'.flatten = b ∧
      ∀ s ∈ segs', s ≠ [] := by
  rw [CMD.frame, List.append_assoc] at hs
  obtain ⟨segs1, h1, hf1, hne1⟩ := RecvData_flatten hne hs
  rw [CMDH.bytes_length] at h1
  have hread : CMDH.read c.header.bytes = c.header := by
    rw [← List.append_nil c.header.bytes, CMDH.read_bytes]
  have hlen := toNat_of_toInt hc
  unfold RecvCommand
  rw [h1, Option.bind_some]
  simp only [CMDH.bytes_length, if_true, hread]
  by_cases hp : c.param = []
  · have h0 : ¬ 0 < c.header.len.toInt := by
      rw [hc, hp]
      decide
    refine ⟨segs1, ?_, by rw [hf1, hp, List.nil_append], hne1⟩
    rw [if_neg h0, CMD.writes, if_pos hp]
    obtain ⟨hd, p⟩ := c
    cases hp
    rfl
  · have h0 : 0 < c.header.len.toInt := by
      rw [hc]
      have := List.length_pos_of_ne_nil hp
      omega
    obtain ⟨segs2, h2, hf2, hne2⟩ := RecvData_flatten hne1 hf1
    refine ⟨segs2, ?_, hf2, hne2⟩
    rw [if_pos h0, hlen, h2, Option.map_some]
    simp only [if_true]
    rw [CMD.writes, if_neg hp]

theorem RecvCommands_frames (cs : List CMD) (hcs : ∀ c ∈ cs, c.Sized) {segs : Segments}
    (hne : ∀ s ∈ segs, s ≠ []) (hs : segs.flatten = cs.flatMap CMD.frame) :
    ∃ segs', RecvCommands cs.length segs = some (cs.map fun c => ⟨true, c, c.writes⟩, segs') ∧
      segs'.flatten = [] ∧ ∀ s ∈ segs', s ≠ [] := by
  induction cs generalizing segs with
  | nil => exact ⟨segs, rfl, hs, hne⟩
  | cons c cs ih =>
    rw [List.flatMap_cons] at hs
    obtain ⟨segs1, h1, hf1, hne1⟩ := RecvCommand_frame (hcs c (List.mem_cons_self ..)) hne hs
    obtain ⟨segs2, h2, hf2, hne2⟩ := ih (fun c' h' => hcs c' (List.mem_cons_of_mem _ h')) hne1 hf1
    refine ⟨segs2, ?_, hf2, hne2⟩
    show (RecvCommand segs).bind _ = _
    rw [h1, Option.bind_some, h2]
    rfl

/-! ## agreement of the two programs -/

/-- one call of `SendClient2VNC` that queues a frame -/
structure Sent where
  task : ITask
  sm : MessageBuffer
  seq : CInt
  fd : CInt

def Sent.cmd (x : Sent) : CMD := x.task.cmd x.seq x.fd
def Sent.message (x : Sent) : List Byte := SendClient2VNC_message x.task x.sm x.seq x.fd

theorem Sent.message_eq (x : Sent) : x.message = x.cmd.frame :=
  SendClient2VNC_bytes x.task x.sm x.seq x.fd

/-- the successive calls of `RecvCommand` return exactly the sent commands, in order, use up the
stream and write `CMD.param` below `MAX_PARAM_LEN` only -/
def FrameAgreement (sends : List Sent) (segs : Segments) : Prop :=
  ∃ rs : List Recved, RecvCommands sends.length segs = some (rs, []) ∧
    (∀ r ∈ rs, r.bFlag = true) ∧ rs.map Recved.cmd = sends.map Sent.cmd ∧
    ∀ r ∈ rs, ∀ i ∈ r.writes, i < MAX_PARAM_LEN

/-- the chunk of a task, if it has one, leaves room for the NUL in `CMD.param` -/
def ITask.FitsParam : ITask → Prop
  | .ProxyClientTask b => b.bytes.length < MAX_PARAM_LEN
  | .ProxyClientDisconnectTask => True

theorem writes_lt_iff (t : ITask) (seq fd : CInt) :
    (∀ i ∈ (t.cmd seq fd).writes, i < MAX_PARAM_LEN) ↔ t.FitsParam := by
  cases t with
  | ProxyClientTask b =>
    have hb : b.bytes ≠ [] := List.ne_nil_of_length_pos b.pos
    show (∀ i ∈ (if b.bytes = [] then [] else List.range b.bytes.length ++ [b.bytes.length]),
      i < MAX_PARAM_LEN) ↔ b.bytes.length < MAX_PARAM_LEN
    rw [if_neg hb]
    constructor
    · intro h
      exact h _ (List.mem_append_right _ (List.mem_singleton_self _))
    · intro h i hi
      rcases List.mem_append.mp hi with hi | hi
      · have := List.mem_range.mp hi
        omega
      · rw [List.mem_singleton.mp hi]
        exact h
  | ProxyClientDisconnectTask =>
    exact ⟨fun _ => trivial, fun _ i hi => absurd hi (by simp [ITask.cmd, CMD.writes])⟩

theorem recvCommands_sends (sends : List Sent) {segs : Segments} (hne : ∀ s ∈ segs, s ≠ [])
    (hs : segs.flatten = sends.flatMap Sent.message) :
    RecvCommands sends.length segs
      = some (sends.map fun x => ⟨true, x.cmd, x.cmd.writes⟩, []) := by
  have hs' : segs.flatten = (sends.map Sent.cmd).flatMap CMD.frame := by
    rw [hs, List.flatMap_map]
    exact List.flatMap_congr fun x _ => x.message_eq
  obtain ⟨segs', h1, hf, hne'⟩ := RecvCommands_frames (sends.map Sent.cmd) (by
    intro c hc
    obtain ⟨x, _, rfl⟩ := List.mem_map.mp hc
    exact x.task.cmd_sized x.seq x.fd) hne hs'
  have hnil : segs' = [] := by
    cases segs' with
    | nil => rfl
    | cons s rest => exact absurd (List.append_eq_nil_iff.mp hf).1 (hne' s (List.mem_cons_self ..))
  rw [List.length_map, List.map_map, hnil] at h1
  exact h1

theorem frameAgreement_iff_writes (sends : List Sent) {segs : Segments} (hne : ∀ s ∈ segs, s ≠ [])
    (hs : segs.flatten = sends.flatMap Sent.message) :
    FrameAgreement sends segs ↔ ∀ x ∈ sends, ∀ i ∈ x.cmd.writes, i < MAX_PARAM_LEN := by
  have h := recvCommands_sends sends hne hs
  constructor
  · rintro ⟨rs, hrs, _, _, hw⟩ x hx
    rw [h] at hrs
    cases hrs
    exact hw _ (List.mem_map_of_mem hx)
  · intro hw
    refine ⟨_, h, ?_, ?_, ?_⟩
    · intro r hr
      obtain ⟨x, _, rfl⟩ := List.mem_map.mp hr
      rfl
    · rw [List.map_map]
      rfl
    · intro r hr
      obtain ⟨x, hx, rfl⟩ := List.mem_map.mp hr
      exact hw x hx

/-- **Frames from TcpProxyServer agree exactly when every chunk fits `CMD.param`**: for every list
of queued commands and every way the stream is split by `recv()`, `RecvCommand` gives the commands
back and stays inside `CMD.param` iff no chunk is longer than `MAX_PARAM_LEN - 1`. -/
theorem recvCommands_agree_iff (sends : List Sent) (segs : Segments) (hne : ∀ s ∈ segs, s ≠ [])
    (hs : segs.flatten = sends.flatMap Sent.message) :
    FrameAgreement sends segs ↔ ∀ x ∈ sends, x.task.FitsParam := by
  rw [frameAgreement_iff_writes sends hne hs]
  exact ⟨fun h x hx => (writes_lt_iff x.task x.seq x.fd).mp (h x hx),
    fun h x hx => (writes_lt_iff x.task x.seq x.fd).mpr (h x hx)⟩

/-- a Message buffer as `Message::Reset` leaves it -/
def clearedBuffer : MessageBuffer := ⟨List.replicate MAX_LOG_BUFFER_LEN 0, List.length_replicate ..⟩

/-- a request of 2 bytes and the disconnect after it, received in three pieces -/
theorem recvCommands_agree_two :
    FrameAgreement
      [⟨.ProxyClientTask ⟨[71, 69], by decide, by decide⟩, clearedBuffer, 0, 9⟩,
        ⟨.ProxyClientDisconnectTask, clearedBuffer, 1, 9⟩]
      [[1, 0, 0, 0, 2, 0, 0], [0, 0, 0, 0, 0, 9, 0, 0, 0, 1, 71],
        [69, 2, 0, 0, 0, 0, 0, 0, 0, 1, 0, 0, 0, 9, 0, 0, 0, 1]] ↔
      ∀ x ∈ ([⟨.ProxyClientTask ⟨[71, 69], by decide, by decide⟩, clearedBuffer, 0, 9⟩,
        ⟨.ProxyClientDisconnectTask, clearedBuffer, 1, 9⟩] : List Sent), x.task.FitsParam :=
  recvCommands_agree_iff _ _ (by decide) (by
    rw [List.flatMap_cons, List.flatMap_cons, Sent.message_eq, Sent.message_eq]
    decide)

/-- a chunk of `MAX_PARAM_LEN` bytes, which `Recv_Callback` can receive -/
def longChunk : Chunk :=
  ⟨List.replicate MAX_PARAM_LEN 71, by rw [List.length_replicate]; decide,
    by rw [List.length_replicate]; decide⟩

/-- **The NUL behind a chunk of `MAX_PARAM_LEN` bytes is written outside `CMD.param`.** -/
theorem not_all_frames_agree :
    ¬ ∀ (sends : List Sent) (segs : Segments), (∀ s ∈ segs, s ≠ []) →
      segs.flatten = sends.flatMap Sent.message → FrameAgreement sends segs := by
  intro h
  let x : Sent := ⟨.ProxyClientTask longChunk, clearedBuffer, 0, 9⟩
  have hne : ∀ s ∈ [x.message], s ≠ [] := by
    intro s hs
    rw [List.mem_singleton.mp hs, x.message_eq]
    exact List.ne_nil_of_length_pos (by rw [CMD.frame_length]; exact Nat.add_pos_left (by decide) _)
  have hs : [x.message].flatten = [x].flatMap Sent.message := rfl
  have h1 := (frameAgreement_iff_writes [x] hne hs).mp (h [x] [x.message] hne hs) x
    (List.mem_singleton_self _)
  have h2 : longChunk.bytes.length < MAX_PARAM_LEN := (writes_lt_iff x.task x.seq x.fd).mp h1
  rw [longChunk, List.length_replicate] at h2
  exact absurd h2 (by decide)

end VncProxy
