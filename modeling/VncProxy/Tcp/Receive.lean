import VncProxy.Tcp.Frame

/-!
# The receiving side of `TcpServer`

What `Recv_Callback` does with a chunk, without the threads around it.

* `Rx`        where the main thread stands with a chunk;
* `Rx.Step`   its steps with the generation, the number `mpPacketSeqRecv` and the watcher of each
              descriptor;
* `rx_step`   a step of `TcpServer` is one of these.
-/

namespace VncProxy.Tcp

variable {h k : Nat}

/-! ## the receiver -/

inductive Rx where
  | rest
  /-- `Accept_Callback` before `mpPacketSeqRecv[client] = 0` -/
  | reset (fd : Nat)
  /-- and behind it -/
  | accepted (fd : Nat)
  | pop (fd : Nat)
  | ready (fd : Nat) (m : Msg)
  | got (fd : Nat) (m : Msg)
  | drop (fd : Nat) (m : Msg)
  | dropped (fd : Nat)
  | take (fd : Nat) (m : Msg)
  | push (fd : Nat) (m : Msg)

def MainPc.rx : MainPc → Rx
  | .resetCount fd | .resetSeqRecv fd => .reset fd
  | .resetSeqSend fd | .OnAccept fd | .watch fd => .accepted fd
  | .popIdle fd _ => .pop fd
  | .recv fd m _ => .ready fd m
  | .handleSize fd m => .got fd m
  | .OnTimeoutMessage fd m => .drop fd m
  | .timeoutIdle fd _ => .dropped fd
  | .count fd m | .seq fd m => .take fd m
  | .push fd m => .push fd m
  | .loop | .refuse _ | .againIdle .. | .StopEvio .. | .OnDisconnect .. | .closeIfNeed .. | .OnClose ..
  | .close .. | .idle _ => .rest

inductive Rx.Event where
  | quiet
  | receive (c : Conn)
  | refuse (c : Conn)
  | push (m : Msg)

def Rx.Event.receives : Rx.Event → List Conn
  | .receive c => [c]
  | _ => []

def Rx.Event.refuses : Rx.Event → List Conn
  | .refuse c => [c]
  | _ => []

def Rx.Event.pushes : Rx.Event → List Msg
  | .push m => [m]
  | _ => []

/-- `room` says that the handle list is looked at and is not over its size -/
inductive Rx.Step (room : Prop) :
    Rx → (Nat → Line) → Rx.Event → Rx → (Nat → Line) → Prop
  | same (r f) : Step room r f .quiet r f
  | accept (fd f) (hfd : fd ≠ 0) : Step room .rest f .quiet (.reset fd)
      (Function.update f fd { f fd with gen := (f fd).gen + 1 })
  | acceptZero (f) : Step room .rest f .quiet .rest
      (Function.update f 0 { f 0 with gen := (f 0).gen + 1 })
  | reset (fd f) : Step room (.reset fd) f .quiet (.accepted fd)
      (Function.update f fd { f fd with seq := 0 })
  | watch (fd f) : Step room (.accepted fd) f .quiet .rest
      (Function.update f fd { f fd with watched := true })
  | refuse (fd f) : Step room (.accepted fd) f .quiet .rest f
  | unwatch (fd f) : Step room .rest f .quiet .rest
      (Function.update f fd { f fd with watched := false })
  | event (fd f) (hwatched : (f fd).watched = true) : Step room .rest f .quiet (.pop fd) f
  | pop (fd f addr) : Step room (.pop fd) f .quiet (.ready fd ⟨addr, fd, (f fd).gen, 0, 0⟩) f
  | recv (fd m f len) (hlen : 0 < len) :
      Step room (.ready fd m) f (.receive (fd, (f fd).gen)) (.got fd { m with len := len }) f
  | leave (fd m f) : Step room (.ready fd m) f .quiet .rest f
  | tooMany (fd m f) : Step room (.got fd m) f .quiet (.drop fd m) f
  | fits (fd m f) (hroom : room) : Step room (.got fd m) f .quiet (.take fd m) f
  | drop (fd m f) : Step room (.drop fd m) f (.refuse m.conn) (.dropped fd) f
  | dropped (fd f) : Step room (.dropped fd) f .quiet .rest f
  | droppedNext (fd f) : Step room (.dropped fd) f .quiet (.pop fd) f
  | seq (fd m f) : Step room (.take fd m) f .quiet (.push fd { m with seq := (f fd).seq })
      (Function.update f fd { f fd with seq := (f fd).seq + 1 })
  | push (fd m f) : Step room (.push fd m) f (.push m) .rest f
  | pushNext (fd m f) : Step room (.push fd m) f (.push m) (.pop fd) f

/-! ## `TcpServer` is such a receiver -/

variable {s s' : State h k}

/-- the step `a` is seen by the receiver as `e` -/
structure Rx.Sees (s : State h k) (a : Action h k) (s' : State h k) (e : Rx.Event) : Prop where
  step : Rx.Step (a = .main ∧ ¬ s.Overloaded) s.main.rx s.line e s'.main.rx s'.line
  receives : s.receives a = e.receives
  refuses : s.refuses a = e.refuses
  pushes : s.pushes a = e.pushes

theorem Rx.Sees.other {a : Action h k} (hmain : s'.main = s.main) (hline : s'.line = s.line)
    (hreceives : s.receives a = []) (hrefuses : s.refuses a = []) (hpushes : s.pushes a = []) :
    Rx.Sees s a s' .quiet where
  step := by
    rw [hmain, hline]
    exact .same _ _
  receives := hreceives
  refuses := hrefuses
  pushes := hpushes

theorem rx_next (fd : Nat) (m : Msg) :
    (MainPc.next fd m).rx = .rest ∨ (MainPc.next fd m).rx = .pop fd := by
  unfold MainPc.next
  split
  · exact .inl rfl
  · exact .inr rfl

/-- the steps of the main thread that the receiver sees as one of its own quiet steps -/
theorem Rx.Sees.quiet {pc : MainPc} {f : Nat → Line} (hp : s.main = pc) (hline : s'.line = f)
    (hstep : Rx.Step ((Action.main : Action h k) = .main ∧ ¬ s.Overloaded) pc.rx s.line .quiet
      s'.main.rx f)
    (hpc : ∀ fd m, pc ≠ .OnTimeoutMessage fd m ∧ pc ≠ .push fd m) : Rx.Sees s .main s' .quiet where
  step := by
    rw [hp, hline]
    exact hstep
  receives := rfl
  refuses := by
    unfold State.refuses
    rw [hp]
    cases pc with
    | OnTimeoutMessage fd m => exact absurd rfl (hpc fd m).1
    | _ => rfl
  pushes := by
    unfold State.pushes
    rw [hp]
    cases pc with
    | push fd m => exact absurd rfl (hpc fd m).2
    | _ => rfl

theorem sees_stepMain (hstep : s.stepMain = some s') : ∃ e, Rx.Sees s .main s' e := by
  unfold State.stepMain at hstep
  cases hp : s.main with
  | loop | OnAccept fd =>
    rw [hp] at hstep
    cases hstep
  | resetCount fd | resetSeqSend fd =>
    rw [hp] at hstep
    obtain rfl := Option.some.inj hstep
    exact ⟨_, .quiet hp (line_same rfl rfl) (.same _ _) (by simp)⟩
  | resetSeqRecv fd =>
    rw [hp] at hstep
    obtain rfl := Option.some.inj hstep
    exact ⟨_, .quiet hp (line_update rfl) (.reset fd s.line) (by simp)⟩
  | watch fd =>
    rw [hp] at hstep
    dsimp only at hstep
    split at hstep
    · obtain rfl := Option.some.inj hstep
      exact ⟨_, .quiet hp (line_update rfl) (.watch fd s.line) (by simp)⟩
    · obtain rfl := Option.some.inj hstep
      exact ⟨_, .quiet hp rfl (.refuse fd s.line) (by simp)⟩
  | refuse fd =>
    rw [hp] at hstep
    obtain rfl := Option.some.inj hstep
    exact ⟨_, .quiet hp rfl (.same .rest s.line) (by simp)⟩
  | popIdle fd error =>
    rw [hp] at hstep
    dsimp only at hstep
    split at hstep
    · obtain rfl := Option.some.inj hstep
      exact ⟨_, .quiet hp rfl (hp ▸ .same _ _) (by simp)⟩
    · next m l hl =>
      obtain rfl := Option.some.inj hstep
      exact ⟨_, .quiet hp rfl (.pop fd s.line m.addr) (by simp)⟩
  | recv fd m error =>
    rw [hp] at hstep
    cases error with
    | false => cases hstep
    | true =>
      obtain rfl := Option.some.inj hstep
      exact ⟨_, .quiet hp rfl (.leave fd m s.line) (by simp)⟩
  | handleSize fd m =>
    rw [hp] at hstep
    dsimp only at hstep
    split at hstep
    · obtain rfl := Option.some.inj hstep
      exact ⟨_, .quiet hp rfl (.tooMany fd m s.line) (by simp)⟩
    · next hroom =>
      obtain rfl := Option.some.inj hstep
      exact ⟨_, .quiet hp rfl (.fits fd m s.line ⟨rfl, hroom⟩) (by simp)⟩
  | OnTimeoutMessage fd m =>
    rw [hp] at hstep
    obtain rfl := Option.some.inj hstep
    refine ⟨.refuse m.conn, hp ▸ .drop fd m s.line, rfl, ?_, ?_⟩
    · unfold State.refuses
      rw [hp]
      rfl
    · unfold State.pushes
      rw [hp]
      rfl
  | timeoutIdle fd m =>
    rw [hp] at hstep
    obtain rfl := Option.some.inj hstep
    refine ⟨_, .quiet hp rfl ?_ (by simp)⟩
    show Rx.Step _ _ _ _ (MainPc.next fd m).rx _
    rcases rx_next fd m with hn | hn
    · rw [hn]
      exact .dropped fd s.line
    · rw [hn]
      exact .droppedNext fd s.line
  | count fd m =>
    rw [hp] at hstep
    obtain rfl := Option.some.inj hstep
    exact ⟨_, .quiet hp (line_same rfl rfl) (.same _ _) (by simp)⟩
  | seq fd m =>
    rw [hp] at hstep
    obtain rfl := Option.some.inj hstep
    exact ⟨_, .quiet hp (line_update rfl) (.seq fd m s.line) (by simp)⟩
  | push fd m =>
    rw [hp] at hstep
    obtain rfl := Option.some.inj hstep
    refine ⟨.push m, ?_, rfl, ?_, ?_⟩
    · rw [hp]
      show Rx.Step _ _ _ _ (MainPc.next fd m).rx _
      rcases rx_next fd m with hn | hn
      · rw [hn]
        exact .push fd m s.line
      · rw [hn]
        exact .pushNext fd m s.line
    · unfold State.refuses
      rw [hp]
      rfl
    · unfold State.pushes
      rw [hp]
      rfl
  | againIdle fd m | OnDisconnect fd m =>
    rw [hp] at hstep
    obtain rfl := Option.some.inj hstep
    exact ⟨_, .quiet hp rfl (.same .rest s.line) (by simp)⟩
  | StopEvio fd m =>
    rw [hp] at hstep
    obtain rfl := Option.some.inj hstep
    exact ⟨_, .quiet hp (line_update rfl) (.unwatch fd s.line) (by simp)⟩
  | closeIfNeed fd m =>
    rw [hp] at hstep
    obtain rfl := Option.some.inj hstep
    refine ⟨_, .quiet hp (line_same rfl (Slot.line_OnDisconnect _)) ?_ (by simp)⟩
    dsimp only [State.setMain]
    split <;> exact .same .rest s.line
  | OnClose fd m | close fd m =>
    rw [hp] at hstep
    obtain rfl := Option.some.inj hstep
    exact ⟨_, .quiet hp (line_same rfl rfl) (.same .rest s.line) (by simp)⟩
  | idle m =>
    rw [hp] at hstep
    cases m with
    | none | some m =>
      obtain rfl := Option.some.inj hstep
      exact ⟨_, .quiet hp rfl (.same .rest s.line) (by simp)⟩

theorem sees_accept {fd : Nat} (hstep : s.accept fd = some s') :
    ∃ e, Rx.Sees s (.accept fd) s' e := by
  unfold State.accept at hstep
  split at hstep
  · next hloop =>
    obtain rfl := Option.some.inj hstep
    have hline : (s.setSlot fd (s.slot fd).accept).line = _ := line_update (s := s) rfl
    refine ⟨.quiet, ?_, rfl, rfl, rfl⟩
    split
    · next hfd =>
      subst hfd
      rw [hline]
      show Rx.Step _ _ _ _ s.main.rx _
      rw [hloop.1]
      exact .acceptZero s.line
    · next hfd =>
      show Rx.Step _ _ _ _ _ (s.setSlot fd (s.slot fd).accept).line
      rw [hline, hloop.1]
      exact .accept fd s.line hfd
  · cases hstep

theorem sees_event {fd : Nat} {error : Bool} (hstep : s.event fd error = some s') :
    ∃ e, Rx.Sees s (.event fd error) s' e := by
  unfold State.event at hstep
  split at hstep
  · next hloop =>
    obtain rfl := Option.some.inj hstep
    refine ⟨.quiet, ?_, rfl, rfl, rfl⟩
    rw [hloop.1]
    exact .event fd s.line hloop.2
  · cases hstep

theorem sees_onAccept {ret : Bool} (hstep : s.onAccept ret = some s') :
    ∃ e, Rx.Sees s (.OnAccept ret) s' e := by
  unfold State.onAccept at hstep
  split at hstep
  · next fd hp =>
    obtain rfl := Option.some.inj hstep
    refine ⟨.quiet, ?_, rfl, rfl, rfl⟩
    rw [hp]
    cases ret with
    | false => exact .refuse fd s.line
    | true => exact .same (.accepted fd) s.line
  · cases hstep

theorem sees_recv {ret : RecvRet} (hstep : s.recv ret = some s') :
    ∃ e, Rx.Sees s (.recv ret) s' e := by
  unfold State.recv at hstep
  split at hstep
  · next fd m hp =>
    cases ret with
    | data n =>
      dsimp only at hstep
      split at hstep
      · next hn =>
        obtain rfl := Option.some.inj hstep
        refine ⟨.receive (s.conn fd), ?_, ?_, rfl, rfl⟩
        · rw [hp]
          exact .recv fd m s.line n hn.1
        · unfold State.receives
          rw [hp]
          rfl
      · cases hstep
    | closed | again | error =>
      obtain rfl := Option.some.inj hstep
      refine ⟨.quiet, ?_, rfl, rfl, rfl⟩
      rw [hp]
      exact .leave fd m s.line
  · cases hstep

/-- **A step of `TcpServer` is a step of the receiver.** -/
theorem rx_step {a : Action h k} (hstep : s.stepAny a = some s') : ∃ e, Rx.Sees s a s' e := by
  cases a with
  | accept fd => exact sees_accept hstep
  | event fd error => exact sees_event hstep
  | OnAccept ret => exact sees_onAccept hstep
  | recv ret => exact sees_recv hstep
  | main => exact sees_stepMain hstep
  | handler i =>
    have hframe := frame_stepHandler hstep
    exact ⟨_, .other hframe.main hframe.line rfl rfl rfl⟩
  | send ret =>
    have hframe := frame_send hstep
    exact ⟨_, .other hframe.main hframe.line rfl rfl rfl⟩
  | sender =>
    have hframe := frame_stepSender hstep
    exact ⟨_, .other hframe.main hframe.line rfl rfl rfl⟩
  | call j fd len =>
    have hframe := frame_callAny hstep
    exact ⟨_, .other hframe.main hframe.line rfl rfl rfl⟩
  | caller j =>
    have hframe := frame_stepCaller hstep
    exact ⟨_, .other hframe.main hframe.line rfl rfl rfl⟩

end VncProxy.Tcp
