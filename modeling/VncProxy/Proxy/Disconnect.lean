import VncProxy.Proxy.Parser

/-!
# The Disconnects of `HttpProxyServer`

`OnParseCmd` calls `mClientTcpServer.Disconnect(fd)` with the descriptor of the command.

* `State.cuts`       the Disconnects on their way;
* `State.Timely`     the condition on a step: a Disconnect is sent for a connection that has the
                     descriptor, and that connection is not closed before it has come;
* `State.Aimed`      a Disconnect on its way is for the connection that has the descriptor;
* `cut_own`          a connection is only cut for its own request.
-/

namespace VncProxy.Proxy

/-- the connection that was cut is the one whose HttpRequest or bytes the command was sent for -/
def Cut.Own (x : Cut) : Prop := ∃ c, x.victim = some c ∧ x.src ≠ [] ∧ ∀ d ∈ x.src, d = c

def Command.cut : Command → Option (Nat × List Nat)
  | .proxy _ _ _ _ => none
  | .disconnect fd src => some (fd, src)

variable {n : Nat}

namespace State

def cuts (s : State n) : List (Nat × List Nat) :=
  (List.range s.links).flatMap fun g => (s.up g).filterMap Command.cut

theorem mem_cuts {s : State n} (hs : s.Linked) {fd : Nat} {src : List Nat} :
    (fd, src) ∈ s.cuts ↔ ∃ g, .disconnect fd src ∈ s.up g := by
  unfold cuts
  rw [List.mem_flatMap]
  constructor
  · rintro ⟨g, _, h⟩
    obtain ⟨cmd, hcmd, h⟩ := List.mem_filterMap.mp h
    cases cmd with
    | proxy _ _ _ _ => exact absurd h (by simp [Command.cut])
    | disconnect fd' src' =>
      obtain ⟨rfl, rfl⟩ := Prod.mk.inj (Option.some.inj h)
      exact ⟨g, hcmd⟩
  · rintro ⟨g, h⟩
    exact ⟨g, List.mem_range.mpr (hs.up g _ h), List.mem_filterMap.mpr ⟨_, h, rfl⟩⟩

/-- the connections `src` have the descriptor -/
def For (s : State n) (fd : Nat) (src : List Nat) : Prop := ∀ c ∈ src, s.front.holder fd = some c

/-- `SendProxyDisconnect(fd)` is called while the connections it is called for have `fd`, and no
Disconnect is on its way for a descriptor that is closed -/
def Timely (s : State n) : Action n → Prop
  | .reject _ => ∀ x ∈ s.reject, s.For x.1 x.2
  | .finish i _ => ∀ r ∈ s.requests[i]?, (s.mDataHttpParserMap r.fd).isSome = true → s.For r.fd r.src
  | .close fd => ∀ x ∈ s.cuts, x.1 ≠ fd
  | _ => True

instance (s : State n) (fd : Nat) (src : List Nat) : Decidable (s.For fd src) :=
  inferInstanceAs (Decidable (∀ c ∈ src, s.front.holder fd = some c))

instance (s : State n) : ∀ a, Decidable (s.Timely a)
  | .reject _ => inferInstanceAs (Decidable (∀ x ∈ s.reject, s.For x.1 x.2))
  | .finish i _ => inferInstanceAs (Decidable (∀ r ∈ s.requests[i]?, _ → s.For r.fd r.src))
  | .close fd => inferInstanceAs (Decidable (∀ x ∈ s.cuts, x.1 ≠ fd))
  | .accept _ | .recv .. | .disconnect _ | .main _ | .handler .. | .connect | .linkLost
  | .vncAccept | .vncDisconnect | .vncClose | .recvCommand _ | .receiveBody .. | .parseCmd _ =>
    .isTrue trivial

structure Aimed (s : State n) : Prop where
  linked : s.Linked
  reject : ∀ x ∈ s.reject, x.2 ≠ []
  request : ∀ r ∈ s.requests, r.src ≠ []
  up : ∀ g fd src, .disconnect fd src ∈ s.up g → src ≠ [] ∧ s.For fd src
  cut : ∀ x ∈ s.cut, x.Own

theorem Aimed.init (n mHandleSize : Nat) : (State.init n mHandleSize).Aimed where
  linked := Linked.init ..
  reject _ h := absurd h (by simp [State.init])
  request _ h := absurd h List.not_mem_nil
  up _ _ _ h := absurd h List.not_mem_nil
  cut _ h := absurd h List.not_mem_nil

/-- steps after which every Disconnect on its way was there before, or is for the connection that
has its descriptor -/
theorem Aimed.congr {s t : State n} (hs : s.Aimed) (hlinked : t.Linked)
    (hreject : ∀ x ∈ t.reject, x ∈ s.reject) (hrequests : ∀ r ∈ t.requests, r ∈ s.requests)
    (hholder : ∀ fd c, s.front.holder fd = some c → t.front.holder fd = some c)
    (hup : ∀ g fd src, .disconnect fd src ∈ t.up g →
      .disconnect fd src ∈ s.up g ∨ (src ≠ [] ∧ s.For fd src)) (hcut : t.cut = s.cut) :
    t.Aimed := by
  refine ⟨hlinked, fun x hx => hs.reject x (hreject x hx), fun r hr => hs.request r (hrequests r hr),
    fun g fd src h => ?_, hcut ▸ hs.cut⟩
  have haimed : src ≠ [] ∧ s.For fd src := by
    rcases hup g fd src h with h | h
    · exact hs.up g fd src h
    · exact h
  exact ⟨haimed.1, fun c hc => hholder fd c (haimed.2 c hc)⟩

/-- **A step that is `Timely` keeps every Disconnect to the connection that has its descriptor.** -/
theorem Aimed.step {s s' : State n} {a : Action n} (hs : s.Aimed) (hok : s.Timely a)
    (h : s.step a = some s') : s'.Aimed := by
  have hlinked := hs.linked.step h
  cases step_cases h with
  | move v hmv hplain hf =>
    exact hs.congr hlinked (fun _ => id) (fun _ => id)
      (fun fd _ => Front.holder_step hf (hplain.ne_close fd)) (fun _ _ _ => Or.inl) rfl
  | queueChunk | queueDisconnect | connect | linkLost | forget =>
    exact hs.congr hlinked (fun _ => id) (fun _ => id) (fun _ _ => id) (fun _ _ _ => Or.inl) rfl
  | vnc v accepted ha hup =>
    exact hs.congr hlinked (fun _ => id) (fun _ => id) (fun _ _ => id)
      (fun g fd src h => Or.inl (hup g _ h)) rfl
  | @close fd f hf =>
    refine ⟨hlinked, hs.reject, hs.request, fun g fd' src hcmd => ?_, hs.cut⟩
    obtain ⟨h1, h2⟩ := hs.up g fd' src hcmd
    refine ⟨h1, fun c hc => Front.holder_step hf (fun he => ?_) (h2 c hc)⟩
    exact hok (fd', src) ((mem_cuts hs.linked).mpr ⟨g, hcmd⟩) (Front.Move.close.inj he).symm
  | feed hl ht hp hrequests hreject =>
    have hne := Parser.src_ne_nil hp
    refine ⟨hlinked, fun x hx => ?_, fun r hr => ?_, hs.up, hs.cut⟩
    · rcases hreject with rfl | rfl
      · exact absurd hx (by simp)
      · rw [← Option.some.inj hx]
        exact hne
    · rcases hrequests with rfl | rfl
      · exact hs.request r hr
      · rcases List.mem_append.mp hr with hr | hr
        · exact hs.request r hr
        · rw [List.mem_singleton.mp hr]
          exact hne
  | @reject sent fd src up hx hup =>
    refine hs.congr hlinked (fun _ h => absurd h (by simp)) (fun _ => id) (fun _ _ => id)
      (fun g fd' src' h => (hup g _ h).imp id ?_) rfl
    rintro ⟨he, _⟩
    obtain ⟨rfl, rfl⟩ := Command.disconnect.inj he
    exact ⟨hs.reject _ hx, hok _ hx⟩
  | body hr hup =>
    refine hs.congr hlinked (fun _ => id) (fun _ => id) (fun _ _ => id)
      (fun g fd src h => (hup g _ h).imp id ?_) rfl
    rintro ⟨he, _⟩
    exact absurd he (by simp)
  | @finish i sent r up hr hup hparser =>
    refine hs.congr hlinked (fun _ => id) (fun _ => List.mem_of_mem_eraseIdx) (fun _ _ => id) ?_ rfl
    intro g fd src h
    rcases hparser with hparser | rfl
    · refine (hup g _ h).imp id ?_
      rintro ⟨he, _⟩
      obtain ⟨rfl, rfl⟩ := Command.disconnect.inj he
      exact ⟨hs.request r (List.mem_of_getElem? hr), hok r hr hparser⟩
    · exact Or.inl h
  | @cut idle g fd src l hl =>
    -- the connection it is for still has the descriptor
    have hup : ∀ g' fd' src', .disconnect fd' src' ∈ Function.update s.up g l g' →
        .disconnect fd' src' ∈ s.up g' ∨ (src' ≠ [] ∧ s.For fd' src') :=
      fun _ _ _ h => Or.inl (mem_up_tail hl h)
    have hsame := hs.congr (t := { s with up := Function.update s.up g l })
      ⟨hlinked.link, hlinked.up⟩ (fun _ => id) (fun _ => id) (fun _ _ => id) hup rfl
    refine ⟨hlinked, hsame.reject, hsame.request, hsame.up, fun x hx => ?_⟩
    rcases List.mem_append.mp hx with hx | hx
    · exact hs.cut x hx
    · obtain rfl := List.mem_singleton.mp hx
      obtain ⟨hne, hfor⟩ := hs.up g fd src (hl ▸ List.mem_cons_self)
      obtain ⟨c, hc⟩ := List.exists_mem_of_ne_nil src hne
      refine ⟨c, hfor c hc, hne, fun d hd => ?_⟩
      exact Option.some.inj ((hfor d hd).symm.trans (hfor c hc))
  | reply hl =>
    exact hs.congr hlinked (fun _ => id) (fun _ => id) (fun _ _ => id)
      (fun _ _ _ h => Or.inl (mem_up_tail hl h)) rfl
  | skip hl =>
    exact hs.congr hlinked (fun _ => id) (fun _ => id) (fun _ _ => id)
      (fun _ _ _ h => Or.inl (mem_up_tail hl h)) rfl

end State

/-- the first request ends and its Disconnect comes -/
def finish : List (Action 2) := [.finish 0 true, .parseCmd true]

end VncProxy.Proxy
