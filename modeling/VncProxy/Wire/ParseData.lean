import VncProxy.Lib.While
import VncProxy.Wire.Command

/-!
# `Client::ParseData`

The reassembly of commands from the numbered chunks that the handler threads of TcpProxyServer
hand over.  The call runs under the mutex of the client, so it is one function on its state.

* `Message`           the fields of a Message that are used here; `buffer[0..len)` is `data`;
* `CmdLoop`           the inner loop of `ParseDataNoCache`, which cuts commands off `mBuffer`;
* `ParseDataNoCache`  the outer loop, which fills `mBuffer` up to `MAX_BUFFER_LEN` bytes;
* `drain`             the loop over the chunks cached in `mMessageMap`;
* `ParseData`         the whole call.

The counters `seq` and `miDataPacketRecvSeq` only count upwards, they are `Nat`.  `OnParseCmd` is the
list `parsed` of the commands it was called with; `cmd.param` is taken to hold any of them, where its
4096 bytes end is in `Wire.Rounds`.
-/

namespace VncProxy

structure Message where
  addr : Nat
  fd : Nat
  len : Nat
  seq : Nat
  buffer : List Byte
deriving DecidableEq

def Message.data (m : Message) : List Byte := m.buffer.take m.len

/-! ## the inner loop -/

/-- the variables of the inner loop; `stop` is set by `break` -/
structure CmdLoop where
  mBuffer : List Byte
  ret : Int
  parsed : List CMD
  stop : Bool

def CmdLoop.cond (s : CmdLoop) : Bool := decide (sizeofCMDH ≤ s.mBuffer.length) && !s.stop

def CmdLoop.body (s : CmdLoop) : CmdLoop :=
  let header := CMDH.read s.mBuffer
  if header.len.toInt > MAX_BUFFER_LEN ∨ header.len.toInt < 0 then
    { s with ret := -1, stop := true }
  else
    let iLen : Int := (s.mBuffer.length : Int) - sizeofCMDH
    if iLen ≥ header.len.toInt then
      let n := header.len.toInt.toNat
      { s with
        parsed := s.parsed ++ [⟨header, (s.mBuffer.drop sizeofCMDH).take n⟩]
        mBuffer := s.mBuffer.drop (sizeofCMDH + n)
        ret := 1 }
    else { s with stop := true }

/-- the inner loop; every round stops it or takes a header off `mBuffer`, so `mBuffer.length`
rounds suffice (`CmdLoop.run_eq`) -/
def CmdLoop.run (s : CmdLoop) : CmdLoop :=
  (loop CmdLoop.cond CmdLoop.body s.mBuffer.length s).getD s

theorem CmdLoop.run_eq (s : CmdLoop) :
    loop CmdLoop.cond CmdLoop.body s.mBuffer.length s = some s.run := by
  -- a round either stops the loop or takes a header off `mBuffer`
  have hround : ∀ s : CmdLoop, True → s.cond = true →
      (if s.body.stop then 0 else s.body.mBuffer.length)
        < if s.stop then 0 else s.mBuffer.length := by
    intro s _ hc
    obtain ⟨hlen, hstop⟩ := Bool.and_eq_true_iff.mp hc
    have hlen' := of_decide_eq_true hlen
    have hs : s.stop = false := by simpa using hstop
    unfold sizeofCMDH at hlen'
    simp only [CmdLoop.body, hs]
    split
    · simp only [if_true, Bool.false_eq_true, if_false]
      omega
    · split
      · simp only [Bool.false_eq_true, if_false, List.length_drop]
        unfold sizeofCMDH
        omega
      · simp only [if_true, Bool.false_eq_true, if_false]
        omega
  have hfuel : (if s.stop then 0 else s.mBuffer.length) ≤ s.mBuffer.length := by
    split <;> omega
  have hexits : ∃ t, loop CmdLoop.cond CmdLoop.body s.mBuffer.length s = some t :=
    loop_exits (fun s => if s.stop then 0 else s.mBuffer.length) (fun _ _ _ => trivial) hround
      trivial hfuel
  obtain ⟨t, ht⟩ := hexits
  rw [CmdLoop.run, ht, Option.getD_some]

/-! ## the outer loop -/

/-- the variables of `ParseDataNoCache`; `last` is the part of the chunk not copied yet -/
structure ParseLoop where
  mBuffer : List Byte
  last : List Byte
  ret : Int
  parsed : List CMD

def ParseLoop.cond (s : ParseLoop) : Bool := decide (s.ret ≠ -1) && decide (0 < s.last.length)

def ParseLoop.body (s : ParseLoop) : ParseLoop :=
  let room := MAX_BUFFER_LEN - s.mBuffer.length
  let recv := if s.last.length < room then s.last.length else room
  let c := CmdLoop.run ⟨s.mBuffer ++ s.last.take recv, s.ret, s.parsed, false⟩
  ⟨c.mBuffer, s.last.drop recv, c.ret, c.parsed⟩

/-- `ParseDataNoCache`, at most `n` rounds of its outer loop -/
def ParseDataNoCache (n : Nat) (mBuffer data : List Byte) : Option ParseLoop :=
  loop ParseLoop.cond ParseLoop.body n ⟨mBuffer, data, 0, []⟩

/-! ## the whole call -/

/-- the fields of a `Client` that `ParseData` uses, and the calls of `OnParseCmd` it has made -/
structure Client where
  mBuffer : List Byte
  miDataPacketRecvSeq : Nat
  mpIdleMessageList : List Message
  mMessageMap : List (Nat × Message)
  mbError : Bool
  parsed : List CMD

/-- a `Client` as its constructor and `SetMessageList` leave it -/
def Client.fresh (idle : List Message) : Client := ⟨[], 0, idle, [], false, []⟩

/-- `mMessageMap.Insert(seq, mc)`; `std::map::insert` keeps an entry that is there -/
def Client.insert (c : Client) (seq : Nat) (mc : Message) : Client :=
  if c.mMessageMap.any (·.1 == seq) then c
  else { c with mMessageMap := c.mMessageMap ++ [(seq, mc)] }

/-- `ParseDataNoCache` on the state of the client -/
def Client.parse (n : Nat) (c : Client) (data : List Byte) : Option (Client × Int) :=
  (ParseDataNoCache n c.mBuffer data).map fun p =>
    ({ c with mBuffer := p.mBuffer, parsed := c.parsed ++ p.parsed }, p.ret)

/-- the loop over the cached chunks, at most `k` rounds; `ret` is the code so far -/
def drain (n : Nat) : Nat → Client → Int → Option (Client × Int)
  | 0, _, _ => none
  | k + 1, c, ret =>
    match c.mMessageMap.find? (·.1 == c.miDataPacketRecvSeq) with
    | none => some (c, ret)
    | some (_, mc) =>
      (c.parse n mc.data).bind fun r =>
        let c' := { r.1 with
          mpIdleMessageList := r.1.mpIdleMessageList ++ [mc]
          mMessageMap := r.1.mMessageMap.filter (·.1 != c.miDataPacketRecvSeq) }
        if r.2 ≠ -1 then
          drain n k { c' with miDataPacketRecvSeq := c'.miDataPacketRecvSeq + 1 } r.2
        else some (c', r.2)

/-- the chunk that is next: it is parsed, and then the cached ones behind it -/
def Client.inOrder (n : Nat) (c : Client) (m : Message) : Option (Client × Int) :=
  (c.parse n m.data).bind fun r =>
    if r.2 ≠ -1 then
      drain n n { r.1 with miDataPacketRecvSeq := r.1.miDataPacketRecvSeq + 1 } r.2
    else some r

/-- a chunk that is early: it is copied to an idle Message, if there is one -/
def Client.early (c : Client) (m : Message) : Client × Int :=
  match c.mpIdleMessageList with
  | [] => (c, -1)
  | mc :: idle =>
    (Client.insert { c with mpIdleMessageList := idle } m.seq
      { mc with buffer := memcpy mc.buffer 0 m.data, len := m.len }, 0)

/-- `ParseData(m)`: the return code and the client after it; `n` bounds the rounds of each loop -/
def ParseData (n : Nat) (c : Client) (m : Message) : Option (Client × Int) :=
  let r := if c.mbError then some (c, -1)
    else if c.miDataPacketRecvSeq ≠ m.seq then some (c.early m)
    else c.inOrder n m
  r.map fun p => if p.2 = -1 then ({ p.1 with mbError := true }, p.2) else p

/-- the chunks of `ms` handed over one after the other, head first -/
def feed (n : Nat) : Client → List Message → Option Client
  | c, [] => some c
  | c, m :: ms => (ParseData n c m).bind fun r => feed n r.1 ms

/-- whenever a chunk of `ms` is early there is an idle Message for it -/
def NeverStarved (n : Nat) : Client → List Message → Prop
  | _, [] => True
  | c, m :: ms => (c.miDataPacketRecvSeq ≠ m.seq → c.mpIdleMessageList ≠ []) ∧
      ∀ r, ParseData n c m = some r → NeverStarved n r.1 ms

end VncProxy
