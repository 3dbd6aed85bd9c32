import VncProxy.Http.Arrays
import VncProxy.Proxy.System

/-!
# When the frames do not come whole

`State` reads the frames on the connection of the two programs whole and in their order.  TcpServer goes
on behind a Message that it has given up in part, two `SendCommand`s can mix, and HttpProxyServer writes
behind `cmd.param` from 4096 bytes on and behind the arrays of a parser.

* `Net`, `Event`, `Net.step`  the system with these: what is read behind them may be anything;
* `Net.Whole`     the condition on a step: none of them happens, and the step meets a condition of
                  `State`;
* `run_whole`     a run of such steps is one of `State`.
-/

namespace VncProxy.Proxy

variable {n : Nat}

/-- `torn` says that HttpProxyServer may not read the frames that were queued for its connection,
`mixed g` that what is parsed of the connection `g` may not be what was sent -/
structure Net (n : Nat) extends State n where
  torn : Bool
  mixed : Nat → Bool

inductive Event (n : Nat) where
  | step (a : Action n)
  /-- TcpServer writes on the connection behind a Message that it has given up, or a Message that was
  queued for another connection with the descriptor -/
  | tear
  /-- a `SendCommand` writes on the connection `g` while another one has written a part of its frame, or
  the rest of a frame of an earlier connection; or of the chunks that come from it TcpServer drops one and
  takes a later one -/
  | mix (g : Nat)
  /-- `RecvCommand` on a connection that is torn, whatever it makes of the bytes -/
  | recvAny (frame : Frame) (started : Bool)
  /-- `ParseData` on a connection that is mixed, whatever it makes of the bytes -/
  | parseAny (cmd : Command) (idle : Bool)
deriving DecidableEq

/-- the parameter and its NUL fit `cmd.param` -/
def Frame.fits (x : Frame) : Bool :=
  match x.task with
  | .ProxyClientTask chunk => decide (chunk.bytes.length < MAX_PARAM_LEN)
  | .ProxyClientDisconnectTask => true

namespace Net

def init (n mHandleSize : Nat) : Net n := ⟨State.init n mHandleSize, false, fun _ => false⟩

/-- the chunk that is read fits the arrays of its parser -/
def FitsParser (s : Net n) : Action n → Prop
  | .recvCommand _ => ∀ frame ∈ s.down.head?, ∀ chunk, frame.task = .ProxyClientTask chunk →
      ((s.mDataHttpParserMap frame.client.fd).getD ⟨.new, []⟩).parser.Fits chunk.bytes
  | _ => True

instance (task : ITask) (p : Chunk → Prop) [DecidablePred p] :
    Decidable (∀ chunk, task = .ProxyClientTask chunk → p chunk) :=
  match task with
  | .ProxyClientTask chunk =>
    decidable_of_iff (p chunk) ⟨fun h _ he => ITask.ProxyClientTask.inj he ▸ h, fun h => h chunk rfl⟩
  | .ProxyClientDisconnectTask => .isTrue fun _ he => by cases he

instance (s : Net n) : ∀ a, Decidable (s.FitsParser a)
  | .recvCommand _ => inferInstanceAs (Decidable (∀ frame ∈ s.down.head?, _))
  | .accept _ | .recv .. | .disconnect _ | .main _ | .handler .. | .close _ | .connect | .linkLost
  | .vncAccept | .vncDisconnect | .vncClose | .reject _ | .receiveBody .. | .finish .. | .parseCmd _ =>
    .isTrue trivial

/-- a new connection is whole; a frame that does not fit tears it -/
def tornBy (s : Net n) (t : State n) : Action n → Bool
  | .linkLost => false
  | a => s.torn || t.down.any (!·.fits) || !decide (s.FitsParser a)

def step (s : Net n) : Event n → Option (Net n)
  | .step a => (s.toState.step a).map fun t => ⟨t, s.tornBy t a, s.mixed⟩
  | .tear => if s.link ≠ none then some { s with torn := true } else none
  | .mix g => if g < s.links then some { s with mixed := Function.update s.mixed g true } else none
  | .recvAny frame started =>
    if s.torn ∧ s.link ≠ none ∧ s.reject = none then
      some { s with toState := s.toState.OnRecvCommand frame started }
    else none
  | .parseAny cmd idle =>
    match s.mpVNCClient with
    | some v =>
      if s.mixed v.link then some { s with toState := s.toState.OnParseCmd idle cmd } else none
    | none => none

/-! ## the condition -/

/-- a handler does not queue a chunk of 4096 bytes or more for the connection in use -/
def FitsParam (s : Net n) : Action n → Prop
  | .handler i _ =>
    match s.front.handler i with
    | .send m _ (.queue _) =>
      s.mpVNCClient.map VNCClient.link = s.link → m.chunk.bytes.length < MAX_PARAM_LEN
    | _ => True
  | _ => True

/-- all frames are whole, and the step meets `P` -/
def Whole (P : State n → Action n → Prop) (s : Net n) : Event n → Prop
  | .step a => (s.FitsParam a ∧ s.FitsParser a) ∧ P s.toState a
  | .tear | .mix _ => False
  | .recvAny .. | .parseAny .. => True

instance (s : Net n) : ∀ a, Decidable (s.FitsParam a)
  | .handler i _ => by
    unfold FitsParam
    dsimp only
    split <;> infer_instance
  | .accept _ | .recv .. | .disconnect _ | .main _ | .close _ | .connect | .linkLost | .vncAccept
  | .vncDisconnect | .vncClose | .recvCommand _ | .reject _ | .receiveBody .. | .finish ..
  | .parseCmd _ => .isTrue trivial

instance (P : State n → Action n → Prop) [∀ s a, Decidable (P s a)] (s : Net n) :
    ∀ e, Decidable (s.Whole P e)
  | .step _ => inferInstanceAs (Decidable (_ ∧ _))
  | .tear | .mix _ => .isFalse id
  | .recvAny .. | .parseAny .. => .isTrue trivial

/-! ## the system is that of `State` -/

/-- the frames are whole, and will be read so -/
structure Sound (s : Net n) : Prop where
  torn : s.torn = false
  mixed : ∀ g, s.mixed g = false
  fits : ∀ x ∈ s.down, x.fits = true

theorem Sound.init (n mHandleSize : Nat) : (Net.init n mHandleSize).Sound :=
  ⟨rfl, fun _ => rfl, fun _ h => absurd h List.not_mem_nil⟩

/-- what is on the connection then fits -/
theorem Sound.down {s : Net n} (hs : s.Sound) {a : Action n} (hfits : s.FitsParam a) {t : State n}
    (hstep : s.toState.step a = some t) : ∀ x ∈ t.down, x.fits = true := by
  have htail : ∀ {frame : Frame} {l : List Frame}, s.down = frame :: l → ∀ x ∈ l, x.fits = true :=
    fun hl x hx => hs.fits x (hl ▸ List.mem_cons_of_mem _ hx)
  have hqueue : ∀ (v : VNCClient) (frame : Frame) (needReturn : Bool),
      (s.link = some v.link → frame.fits = true) →
        ∀ x ∈ (s.toState.queue v frame needReturn).down, x.fits = true := by
    intro v frame needReturn hframe x hx
    unfold State.queue at hx
    dsimp only at hx
    split at hx
    · next hlink =>
      rcases List.mem_append.mp hx with hx | hx
      · exact hs.fits x hx
      · exact List.mem_singleton.mp hx ▸ hframe hlink
    · exact hs.fits x hx
  cases State.step_cases hstep with
  | queueChunk hi hv =>
    unfold FitsParam at hfits
    dsimp only at hfits
    rw [hi] at hfits
    refine hqueue _ _ true fun hlink => decide_eq_true (hfits ?_)
    rw [hv, hlink]
    rfl
  | queueDisconnect hm hv => exact hqueue _ _ false fun _ => rfl
  | linkLost h => exact fun x hx => absurd hx List.not_mem_nil
  | feed hl => exact htail hl
  | forget hl => exact htail hl
  | move | close | connect | vnc | reject | body | finish | cut | reply | skip => exact hs.fits

theorem Sound.tornBy {s : Net n} (hs : s.Sound) {t : State n} (ht : ∀ x ∈ t.down, x.fits = true)
    {a : Action n} (hparser : s.FitsParser a) : s.tornBy t a = false := by
  have hany : t.down.any (!·.fits) = false := by
    rw [List.any_eq_false]
    intro x hx
    rw [ht x hx]
    decide
  unfold Net.tornBy
  split
  · rfl
  · rw [hs.torn, hany, decide_eq_true hparser]
    rfl

/-- **A step that is `Whole` is one of `State`**, and the frames stay whole. -/
theorem Sound.step {P : State n → Action n → Prop} {s s' : Net n} {e : Event n} (hs : s.Sound)
    (hok : s.Whole P e) (hstep : s.step e = some s') :
    s'.Sound ∧ ∃ a, P s.toState a ∧ s.toState.step a = some s'.toState := by
  cases e with
  | step a =>
    obtain ⟨t, ht, rfl⟩ := Option.map_eq_some_iff.mp hstep
    have hdown := hs.down hok.1.1 ht
    exact ⟨⟨hs.tornBy hdown hok.1.2, hs.mixed, hdown⟩, a, hok.2, ht⟩
  | tear => exact hok.elim
  | mix g => exact hok.elim
  | recvAny frame started =>
    unfold Net.step at hstep
    dsimp only at hstep
    rw [if_neg fun h => Bool.false_ne_true (hs.torn.symm.trans h.1)] at hstep
    cases hstep
  | parseAny cmd idle =>
    unfold Net.step at hstep
    dsimp only at hstep
    split at hstep
    · rw [if_neg fun h => Bool.false_ne_true ((hs.mixed _).symm.trans h)] at hstep
      cases hstep
    · cases hstep

end Net

/-- **A run of steps that are `Whole` is one of `State`.** -/
theorem run_whole {P : State n → Action n → Prop} {mHandleSize : Nat} {l : List (Event n)} {s : Net n}
    (hwhole : RunOk Net.step (Net.Whole P) (Net.init n mHandleSize) l)
    (hrun : run Net.step (Net.init n mHandleSize) l = some s) :
    ∃ l', run State.step (State.init n mHandleSize) l' = some s.toState ∧
      RunOk State.step P (State.init n mHandleSize) l' := by
  have hsim : Simulates Net.step (fun s e => s.Sound ∧ s.Whole P e) State.step P Net.toState := by
    intro s e s' hok hstep
    obtain ⟨-, a, hP, ha⟩ := hok.1.step hok.2 hstep
    exact ⟨[a], run_one ha, runOk_one hP⟩
  refine hsim.run ((runOk_congr (I := Net.Sound) ?_ ?_ (Net.Sound.init n mHandleSize) l).mp hwhole) hrun
  · exact fun s e s' hs hok hstep => (hs.step hok.2 hstep).1
  · exact fun s e hs => (and_iff_right hs).symm

end VncProxy.Proxy
