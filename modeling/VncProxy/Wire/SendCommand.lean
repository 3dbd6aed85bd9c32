import VncProxy.Lib.While
import VncProxy.Wire.Command

/-!
# `TcpProxyClient::SendProxyBuffer` and `SendProxyDisconnect`

* `SendProxyBuffer`      the commands of one call, as long as every `SendCommand` succeeds: the
                         buffer is split into parameters of at most `MAX_PARAM_LEN - 1` bytes;
* `SendProxyDisconnect`  its one command, and `mSendSeq` after it;
* `sentBy`               the commands of a list of calls made one after the other;
* `SendProxyBuffer_params`  the parameters of one call concatenate to its buffer.
-/

namespace VncProxy

/-- the variables of the loop of `SendProxyBuffer`: `buffer + sent` with its `last` bytes, and the
commands sent -/
structure SendLoop where
  rest : List Byte
  sent : List CMD

def SendLoop.cond (s : SendLoop) : Bool := decide (0 < s.rest.length)

/-- the command of one round: `MIN(last, MAX_PARAM_LEN - 1)` bytes -/
def SendLoop.cmd (seq fd : CInt) (s : SendLoop) : CMD :=
  let send := if s.rest.length < MAX_PARAM_LEN - 1 then s.rest.length else MAX_PARAM_LEN - 1
  ⟨⟨.CommandTypeProxy, BitVec.ofNat 32 send, seq, fd, false⟩, s.rest.take send⟩

def SendLoop.body (seq fd : CInt) (s : SendLoop) : SendLoop :=
  let c := s.cmd seq fd
  ⟨s.rest.drop c.param.length, s.sent ++ [c]⟩

/-- the commands of `SendProxyBuffer(seq, fd, buffer, len)`; every round sends a byte at least, so
`len` rounds suffice (`sendLoop_exits`) -/
def SendProxyBuffer (seq fd : CInt) (buffer : List Byte) : List CMD :=
  match loop SendLoop.cond (SendLoop.body seq fd) buffer.length ⟨buffer, []⟩ with
  | some s => s.sent
  | none => []

/-- the command of `SendProxyDisconnect(fd)` when `mSendSeq` is `seq` -/
def SendProxyDisconnect (seq fd : CInt) : CMD :=
  ⟨⟨.CommandTypeProxyDisconnect, 0, seq, fd, true⟩, []⟩

inductive Call where
  | SendProxyBuffer (seq fd : CInt) (buffer : List Byte)
  | SendProxyDisconnect (fd : CInt)
deriving DecidableEq

/-- the commands of each call when the calls are made in order and `mSendSeq` starts at `q` -/
def sentBy : CInt → List Call → List (List CMD)
  | _, [] => []
  | q, .SendProxyBuffer seq fd buffer :: l => SendProxyBuffer seq fd buffer :: sentBy q l
  | q, .SendProxyDisconnect fd :: l => [SendProxyDisconnect q fd] :: sentBy (q + 1) l

/-! ## one call -/

theorem SendLoop.cmd_param_length (seq fd : CInt) (s : SendLoop) :
    (s.cmd seq fd).param.length = min s.rest.length (MAX_PARAM_LEN - 1) := by
  show (s.rest.take _).length = _
  rw [List.length_take]
  split <;> omega

theorem SendLoop.cmd_param_append (seq fd : CInt) (s : SendLoop) :
    (s.cmd seq fd).param ++ s.rest.drop (s.cmd seq fd).param.length = s.rest := by
  have h : (s.cmd seq fd).param = s.rest.take (s.cmd seq fd).param.length := by
    rw [SendLoop.cmd_param_length]
    show s.rest.take _ = _
    split
    · rw [Nat.min_eq_left (by omega)]
    · rw [Nat.min_eq_right (by omega)]
  have h1 := List.take_append_drop (s.cmd seq fd).param.length s.rest
  rwa [← h] at h1

/-- what the frames of both calls have in common -/
structure CMD.Sendable (c : CMD) : Prop where
  sized : c.Sized
  fits : c.param.length < MAX_PARAM_LEN

theorem SendLoop.cmd_sendable (seq fd : CInt) (s : SendLoop) : (s.cmd seq fd).Sendable := by
  have hlen := s.cmd_param_length seq fd
  have hlt : min s.rest.length (MAX_PARAM_LEN - 1) < MAX_PARAM_LEN := by
    unfold MAX_PARAM_LEN
    omega
  refine ⟨?_, by rw [hlen]; exact hlt⟩
  unfold CMD.Sized
  rw [hlen]
  show (BitVec.ofNat 32 (if s.rest.length < MAX_PARAM_LEN - 1 then s.rest.length
    else MAX_PARAM_LEN - 1)).toInt = _
  rw [ofNat_toInt]
  · split <;> omega
  · unfold MAX_PARAM_LEN
    split <;> omega

theorem SendProxyDisconnect_sendable (seq fd : CInt) : (SendProxyDisconnect seq fd).Sendable :=
  ⟨rfl, Nat.succ_pos _⟩

/-- the loop invariant: the parameters sent and the bytes left make up the buffer -/
def SendLoop.Inv (seq fd : CInt) (buffer : List Byte) (s : SendLoop) : Prop :=
  s.sent.flatMap CMD.param ++ s.rest = buffer ∧ ∀ c ∈ s.sent, c.Sendable ∧
    c.header.cmdt = .CommandTypeProxy ∧ c.header.seq = seq ∧ c.header.fd = fd ∧
    c.header.bNew = false

theorem SendLoop.body_inv {seq fd : CInt} {buffer : List Byte} {s : SendLoop}
    (h : s.Inv seq fd buffer) : (s.body seq fd).Inv seq fd buffer := by
  obtain ⟨hs, hc⟩ := h
  constructor
  · show (s.sent ++ [s.cmd seq fd]).flatMap CMD.param ++ s.rest.drop _ = buffer
    rw [List.flatMap_append, List.append_assoc, List.flatMap_singleton,
      SendLoop.cmd_param_append, hs]
  · intro c hmem
    rcases List.mem_append.mp hmem with hmem | hmem
    · exact hc c hmem
    · rw [List.mem_singleton.mp hmem]
      exact ⟨s.cmd_sendable seq fd, rfl, rfl, rfl, rfl⟩

theorem sendLoop_exits (seq fd : CInt) (buffer : List Byte) :
    ∃ s, loop SendLoop.cond (SendLoop.body seq fd) buffer.length ⟨buffer, []⟩ = some s ∧
      s.Inv seq fd buffer ∧ s.rest = [] := by
  have hbody : ∀ s : SendLoop, s.Inv seq fd buffer → s.cond = true →
      (s.body seq fd).Inv seq fd buffer := fun s h _ => SendLoop.body_inv h
  have h0 : SendLoop.Inv seq fd buffer ⟨buffer, []⟩ := ⟨rfl, fun c hc => absurd hc (by simp)⟩
  obtain ⟨s, hs⟩ := loop_exits (fun s : SendLoop => s.rest.length) hbody (by
    intro s _ hc
    have hpos : 0 < s.rest.length := of_decide_eq_true hc
    show (s.rest.drop (s.cmd seq fd).param.length).length < s.rest.length
    rw [List.length_drop, SendLoop.cmd_param_length]
    have : 0 < min s.rest.length (MAX_PARAM_LEN - 1) := by
      unfold MAX_PARAM_LEN
      omega
    omega) h0 (n := buffer.length) (Nat.le_refl _)
  obtain ⟨hinv, hcond⟩ := loop_inv hbody h0 hs
  have hrest : ¬ 0 < s.rest.length := of_decide_eq_false hcond
  exact ⟨s, hs, hinv, List.eq_nil_of_length_eq_zero (by omega)⟩

theorem SendProxyBuffer_inv (seq fd : CInt) (buffer : List Byte) :
    SendLoop.Inv seq fd buffer ⟨[], SendProxyBuffer seq fd buffer⟩ := by
  obtain ⟨s, hs, hinv, hrest⟩ := sendLoop_exits seq fd buffer
  have h : SendProxyBuffer seq fd buffer = s.sent := by
    unfold SendProxyBuffer
    rw [hs]
  obtain ⟨h1, h2⟩ := hinv
  rw [hrest] at h1
  rw [h]
  exact ⟨h1, h2⟩

/-- **The parameters of one `SendProxyBuffer` call concatenate to its buffer.** -/
theorem SendProxyBuffer_params (seq fd : CInt) (buffer : List Byte) :
    (SendProxyBuffer seq fd buffer).flatMap CMD.param = buffer := by
  have h := (SendProxyBuffer_inv seq fd buffer).1
  rwa [List.append_nil] at h

/-! ## a list of calls -/

/-- the commands `part` are what the call asks for; `q` is `mSendSeq` when it is made -/
def Call.Made (q : CInt) (part : List CMD) : Call → Prop
  | .SendProxyBuffer seq fd buffer => part.flatMap CMD.param = buffer ∧
      ∀ c ∈ part, c.header.cmdt = .CommandTypeProxy ∧ c.header.seq = seq ∧ c.header.fd = fd ∧
        c.header.bNew = false
  | .SendProxyDisconnect fd => part = [VncProxy.SendProxyDisconnect q fd]

/-- `parts` are the commands of the calls, one list for each call -/
def CallsMade : CInt → List Call → List (List CMD) → Prop
  | _, [], parts => parts = []
  | q, call :: l, parts => ∃ part parts', parts = part :: parts' ∧ call.Made q part ∧
      CallsMade (match call with | .SendProxyBuffer .. => q | .SendProxyDisconnect _ => q + 1) l
        parts'

theorem callsMade_sentBy (q : CInt) (calls : List Call) : CallsMade q calls (sentBy q calls) := by
  induction calls generalizing q with
  | nil => rfl
  | cons call l ih =>
    cases call with
    | SendProxyBuffer seq fd buffer =>
      refine ⟨_, _, rfl, ⟨SendProxyBuffer_params seq fd buffer, ?_⟩, ih q⟩
      intro c hc
      exact ((SendProxyBuffer_inv seq fd buffer).2 c hc).2
    | SendProxyDisconnect fd => exact ⟨_, _, rfl, rfl, ih (q + 1)⟩

theorem sentBy_sendable (q : CInt) (calls : List Call) :
    ∀ c ∈ (sentBy q calls).flatten, c.Sendable := by
  induction calls generalizing q with
  | nil => intro c hc; exact absurd hc (by simp [sentBy])
  | cons call l ih =>
    intro c hc
    cases call with
    | SendProxyBuffer seq fd buffer =>
      rcases List.mem_append.mp hc with hc | hc
      · exact ((SendProxyBuffer_inv seq fd buffer).2 c hc).1
      · exact ih q c hc
    | SendProxyDisconnect fd =>
      rcases List.mem_append.mp hc with hc | hc
      · rw [List.mem_singleton.mp hc]
        exact SendProxyDisconnect_sendable q fd
      · exact ih (q + 1) c hc

end VncProxy
