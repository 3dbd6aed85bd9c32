import VncProxy.Wire.Sender

/-!
# What a client is told on one `TcpProxyClient`

A client is told bytes, and at last its end.  Threads that send for different descriptors mix their
commands; what is told to one client stays in the order of the calls that are made for it.

* `CMD.words`, `Call.words`, `Pc.words`  what a command, a call and the rest of a call tell a client;
* `Sender.Move.Inner`   a move inside of a call, on the connection that there is;
* `Sender.Inner`        what such a move does;
* `Sender.Tells`        one thread at most tells the client something, and what is told so far;
* `Sender.Tells.inner`  moves inside of calls keep it;
* `Sender.Tells.call`   a call of any thread, while no other one tells the client something.
-/

namespace VncProxy

variable {n : Nat} {s s' : Sender n} {fd : CInt} {t : Fin n} {said : List (Option Byte)}

/-- bytes, or the end -/
def CMD.words (c : CMD) : List (Option Byte) :=
  if c.header.cmdt = .CommandTypeProxyDisconnect then [none] else c.param.map some

/-- what the commands tell the client with the descriptor -/
def wordsFor (fd : CInt) (cmds : List CMD) : List (Option Byte) :=
  (cmds.filter (·.header.fd = fd)).flatMap CMD.words

def Call.words (fd : CInt) : Call → List (Option Byte)
  | .SendProxyBuffer _ fd' buffer => if fd' = fd then buffer.map some else []
  | .SendProxyDisconnect fd' => if fd' = fd then [none] else []

theorem Call.words_buffer (fd seq fd' : CInt) (buffer : List Byte) :
    (Call.SendProxyBuffer seq fd' buffer).words fd = if fd' = fd then buffer.map some else [] := rfl

theorem Call.words_disconnect (fd fd' : CInt) :
    (Call.SendProxyDisconnect fd').words fd = if fd' = fd then [none] else [] := rfl

/-- what is left of the call of `SendCommand(cmd)` behind it -/
def CMD.wordsBehind (fd : CInt) (cmd : CMD) (rest : List Byte) : List (Option Byte) :=
  match cmd.header.cmdt with
  | .CommandTypeProxy => if cmd.header.fd = fd then rest.map some else []
  | _ => []

/-- what the call that a thread is in has still to tell -/
def Pc.words (fd : CInt) : Pc → List (Option Byte)
  | .loop _ fd' rest => if fd' = fd then rest.map some else []
  | .disconnect fd' => if fd' = fd then [none] else []
  | .command cmd rest | .sending _ cmd _ _ rest => wordsFor fd [cmd] ++ cmd.wordsBehind fd rest
  | .idle | .closing => []

def Pc.client : Pc → Option CInt
  | .loop _ fd _ | .disconnect fd => some fd
  | .command cmd _ | .sending _ cmd _ _ _ => some cmd.header.fd
  | .idle | .closing => none

theorem wordsFor_append (fd : CInt) (l l' : List CMD) :
    wordsFor fd (l ++ l') = wordsFor fd l ++ wordsFor fd l' := by
  unfold wordsFor
  rw [List.filter_append, List.flatMap_append]

theorem wordsFor_self (c : CMD) : wordsFor c.header.fd [c] = c.words := by
  unfold wordsFor
  rw [List.filter_cons_of_pos (by simp), List.filter_nil, List.flatMap_singleton]

theorem wordsFor_other {c : CMD} (hfd : c.header.fd ≠ fd) : wordsFor fd [c] = [] := by
  unfold wordsFor
  rw [List.filter_cons_of_neg (by simpa using hfd)]
  rfl

theorem Pc.words_after (cmd : CMD) (rest : List Byte) :
    (Pc.after cmd rest).words fd = cmd.wordsBehind fd rest := by
  unfold Pc.after CMD.wordsBehind
  cases cmd.header.cmdt with
  | CommandTypeProxy => rfl
  | _ => rfl

theorem Pc.words_of_client {pc : Pc} (hpc : pc.client ≠ some fd) : pc.words fd = [] := by
  cases pc with
  | idle | closing => rfl
  | loop _ fd' _ => exact if_neg fun he => hpc (congrArg some he)
  | disconnect fd' => exact if_neg fun he => hpc (congrArg some he)
  | command cmd rest | sending _ cmd _ _ rest =>
    have hfd : cmd.header.fd ≠ fd := fun he => hpc (congrArg some he)
    show wordsFor fd [cmd] ++ cmd.wordsBehind fd rest = []
    rw [wordsFor_other hfd]
    unfold CMD.wordsBehind
    split
    · exact if_neg hfd
    · rfl

/-! ## inside of a call -/

/-- a move inside of a call; the receive thread does not connect again -/
def Sender.Move.Inner : Sender.Move n → Prop
  | .callBuffer .. | .callDisconnect .. | .connect => False
  | .round _ | .takeSeq _ | .enter _ | .send .. | .fail _ | .close _ | .lost | .resetSeq => True

instance : DecidablePred (Sender.Move.Inner (n := n))
  | .callBuffer .. | .callDisconnect .. | .connect => .isFalse id
  | .round _ | .takeSeq _ | .enter _ | .send .. | .fail _ | .close _ | .lost | .resetSeq =>
    .isTrue trivial

/-- a thread goes on in its call, with the commands that are whole then -/
inductive Pc.Next : Pc → List CMD → Pc → Prop
  | round (seq fd : CInt) (rest : List Byte) (hrest : 0 < rest.length) :
      Next (.loop seq fd rest) [] (.command (SendLoop.cmd seq fd ⟨rest, []⟩)
        (rest.drop (SendLoop.cmd seq fd ⟨rest, []⟩).param.length))
  | exit (seq fd : CInt) : Next (.loop seq fd []) [] .idle
  | takeSeq (q fd : CInt) : Next (.disconnect fd) [] (.command (SendProxyDisconnect q fd) [])
  | enter (id conn : Nat) (cmd : CMD) (rest : List Byte) :
      Next (.command cmd rest) [] (.sending id cmd 0 conn rest)
  | part (id k conn k' conn' : Nat) (cmd : CMD) (rest : List Byte) :
      Next (.sending id cmd k conn rest) [] (.sending id cmd k' conn' rest)
  | whole (id k conn : Nat) (cmd : CMD) (rest : List Byte) :
      Next (.sending id cmd k conn rest) [cmd] (Pc.after cmd rest)
  | close : Next .closing [] .idle

/-- what a move inside of a call does: nothing is whole on a dead connection, and who gives a command
up leaves one -/
inductive Sender.Inner (s : Sender n) (s' : Sender n) : Prop
  | stays (hthread : s'.thread = s.thread) (hdone : s'.done = s.done)
  | goes (t : Fin n) (new : List CMD) (pc pc' : Pc) (hpc : s.thread t = pc) (hnext : pc.Next new pc')
      (hthread : s'.thread = (s.goto t pc').thread)
      (hdone : s'.done.map Prod.snd = s.done.map Prod.snd ++ new) (hlive : new ≠ [] → ¬ s.Dead)
  | drops (t : Fin n) (hthread : s'.thread = (s.goto t .closing).thread) (hdone : s'.done = s.done)
      (hdead : s'.Dead)

theorem Sender.inner_of_step {m : Sender.Move n} (hm : m.Inner) (hstep : s.step m = some s') :
    s.Inner s' ∧ (s.Dead → s'.Dead) := by
  cases m with
  | callBuffer | callDisconnect | connect => exact hm.elim
  | round t =>
    change s.round t = _ at hstep
    unfold Sender.round at hstep
    split at hstep
    · next seq fd rest hpc =>
      obtain rfl := Option.some.inj hstep
      refine ⟨?_, id⟩
      by_cases hrest : 0 < rest.length
      · refine .goes t [] _ _ hpc (.round seq fd rest hrest) ?_ (List.append_nil _).symm
          (absurd rfl)
        rw [if_pos (show SendLoop.cond ⟨rest, []⟩ = true from decide_eq_true hrest)]
        rfl
      · obtain rfl : rest = [] := List.eq_nil_of_length_eq_zero (by omega)
        exact .goes t [] _ _ hpc (.exit seq fd) rfl (List.append_nil _).symm (absurd rfl)
    · cases hstep
  | takeSeq t =>
    change s.takeSeq t = _ at hstep
    unfold Sender.takeSeq at hstep
    split at hstep
    · next fd hpc =>
      obtain rfl := Option.some.inj hstep
      exact ⟨.goes t [] _ _ hpc (.takeSeq s.mSendSeq fd) rfl (List.append_nil _).symm (absurd rfl), id⟩
    · cases hstep
  | enter t =>
    change s.enter t = _ at hstep
    unfold Sender.enter at hstep
    split at hstep
    · next cmd rest hpc =>
      obtain rfl := Option.some.inj hstep
      refine ⟨?_, id⟩
      by_cases hup : s.mbConnected = true
      · refine .goes t [] _ _ hpc (.enter s.calls.length s.conn cmd rest) ?_ (List.append_nil _).symm
          (absurd rfl)
        dsimp only
        rw [if_pos hup]
      · have hdown : s.mbConnected = false := by simpa using hup
        refine .drops t ?_ rfl (.inl hdown)
        dsimp only
        rw [if_neg hup]
    · cases hstep
  | send t k =>
    change s.send t k = _ at hstep
    unfold Sender.send at hstep
    split at hstep
    · next id cmd i conn rest hpc =>
      split at hstep
      · next hguard =>
        have hlive : ¬ s.Dead := by
          rintro (hdown | hfailed)
          · exact absurd hguard.1 (by simp [hdown])
          · exact hguard.2.1 hfailed
        dsimp only at hstep
        split at hstep
        · obtain rfl := Option.some.inj hstep
          refine ⟨.goes t [cmd] _ _ hpc (.whole id i conn cmd rest) rfl ?_ fun _ => hlive, fun h => h⟩
          exact List.map_append
        · obtain rfl := Option.some.inj hstep
          exact ⟨.goes t [] _ _ hpc (.part id i conn (i + k) s.conn cmd rest) rfl
            (List.append_nil _).symm (absurd rfl), fun h => h⟩
      · cases hstep
    · cases hstep
  | fail t =>
    change s.fail t = _ at hstep
    unfold Sender.fail at hstep
    split at hstep
    · obtain rfl := Option.some.inj hstep
      exact ⟨.drops t rfl rfl (.inr rfl), fun _ => .inr rfl⟩
    · cases hstep
  | close t =>
    change s.close t = _ at hstep
    unfold Sender.close at hstep
    split at hstep
    · next hpc =>
      obtain rfl := Option.some.inj hstep
      exact ⟨.goes t [] _ _ hpc .close rfl (List.append_nil _).symm (absurd rfl), fun _ => .inl rfl⟩
    · cases hstep
  | lost =>
    obtain rfl := Option.some.inj hstep
    exact ⟨.stays rfl rfl, fun _ => .inl rfl⟩
  | resetSeq =>
    obtain rfl := Option.some.inj hstep
    exact ⟨.stays rfl rfl, id⟩

theorem Pc.Next.client {pc pc' : Pc} {new : List CMD} (hnext : pc.Next new pc')
    (hfd : pc'.client = some fd) : pc.client = some fd := by
  cases hnext with
  | round | takeSeq | enter | part => exact hfd
  | exit | close => cases hfd
  | whole id k conn cmd rest =>
    unfold Pc.after at hfd
    split at hfd
    · exact hfd
    · cases hfd

theorem Pc.Next.words {pc pc' : Pc} {new : List CMD} (hnext : pc.Next new pc') (fd : CInt) :
    wordsFor fd new ++ pc'.words fd = pc.words fd := by
  cases hnext with
  | round seq fd' rest hrest =>
    let cmd := SendLoop.cmd seq fd' ⟨rest, []⟩
    show wordsFor fd [cmd] ++ cmd.wordsBehind fd _ = if fd' = fd then rest.map some else []
    by_cases hfd : fd' = fd
    · subst hfd
      have hwords : wordsFor fd' [cmd] = cmd.param.map some := wordsFor_self cmd
      have hbehind : cmd.wordsBehind fd' (rest.drop cmd.param.length)
          = (rest.drop cmd.param.length).map some := if_pos rfl
      rw [hwords, hbehind, if_pos rfl, ← List.map_append]
      exact congrArg _ (SendLoop.cmd_param_append seq fd' ⟨rest, []⟩)
    · rw [wordsFor_other (c := cmd) hfd, if_neg hfd]
      exact if_neg hfd
  | exit seq fd' =>
    show [] = if fd' = fd then [] else []
    exact (ite_self _).symm
  | takeSeq q fd' =>
    show wordsFor fd [SendProxyDisconnect q fd'] ++ [] = if fd' = fd then [none] else []
    rw [List.append_nil]
    by_cases hfd : fd' = fd
    · subst hfd
      rw [if_pos rfl]
      exact wordsFor_self (SendProxyDisconnect q fd')
    · rw [if_neg hfd]
      exact wordsFor_other hfd
  | enter | part | close => rfl
  | whole id k conn cmd rest => rw [Pc.words_after]; rfl

/-- the call for the client stays the call that a thread is in -/
theorem Sender.Inner.client (hinner : s.Inner s') {u : Fin n}
    (hfd : (s'.thread u).client = some fd) : (s.thread u).client = some fd := by
  cases hinner with
  | stays hthread => rwa [hthread] at hfd
  | goes t new pc pc' hpc hnext hthread =>
    rw [hthread] at hfd
    by_cases hu : u = t
    · subst hu
      rw [s.goto_self] at hfd
      exact hpc ▸ hnext.client hfd
    · rwa [s.goto_other _ hu] at hfd
  | drops t hthread =>
    rw [hthread] at hfd
    by_cases hu : u = t
    · subst hu
      rw [s.goto_self] at hfd
      cases hfd
    · rwa [s.goto_other _ hu] at hfd

/-! ## what a client is told -/

/-- what the whole frames on the connection tell the client -/
def Sender.told (s : Sender n) (fd : CInt) : List (Option Byte) := wordsFor fd (s.done.map Prod.snd)

/-- `said` is to be told to the client; while the connection lives, only the thread `t` has a rest of
it -/
structure Sender.Tells (s : Sender n) (fd : CInt) (t : Fin n) (said : List (Option Byte)) : Prop where
  le : s.told fd <+: said
  alone : ¬ s.Dead → ∀ u, u ≠ t → (s.thread u).words fd = []
  rest : ¬ s.Dead → s.told fd ++ (s.thread t).words fd = said

theorem Sender.Tells.init (fd : CInt) (t : Fin n) : (Sender.init n).Tells fd t [] :=
  ⟨List.nil_prefix, fun _ _ _ => rfl, fun _ => rfl⟩

/-- **Moves inside of calls keep what is told.** -/
theorem Sender.Tells.inner (htells : s.Tells fd t said) (hinner : s.Inner s')
    (hdead : s.Dead → s'.Dead) : s'.Tells fd t said := by
  cases hinner with
  | stays hthread hdone =>
    have htold : s'.told fd = s.told fd := by
      unfold Sender.told
      rw [hdone]
    refine ⟨htold ▸ htells.le, fun hlive => ?_, fun hlive => ?_⟩
    · rw [hthread]
      exact htells.alone fun h => hlive (hdead h)
    · rw [hthread, htold]
      exact htells.rest fun h => hlive (hdead h)
  | drops v hthread hdone hdead' =>
    have htold : s'.told fd = s.told fd := by
      unfold Sender.told
      rw [hdone]
    exact ⟨htold ▸ htells.le, fun hlive => absurd hdead' hlive, fun hlive => absurd hdead' hlive⟩
  | goes v new pc pc' hpc hnext hthread hdone hnew =>
    have htold : s'.told fd = s.told fd ++ wordsFor fd new := by
      unfold Sender.told
      rw [hdone, wordsFor_append]
    have hwords := hnext.words fd
    rw [← hpc] at hwords
    by_cases hdown : s.Dead
    · -- nothing more is whole on a dead connection
      have hnil : new = [] := by
        by_contra hne
        exact hnew hne hdown
      subst hnil
      refine ⟨?_, fun hlive => absurd (hdead hdown) hlive, fun hlive => absurd (hdead hdown) hlive⟩
      rw [htold]
      exact (List.append_nil _).symm ▸ htells.le
    · have hrest : s'.told fd ++ (s'.thread t).words fd = said := by
        rw [← htells.rest hdown, htold, hthread, List.append_assoc]
        congr 1
        by_cases hv : v = t
        · subst hv
          rw [s.goto_self]
          exact hwords
        · -- the thread that goes on tells the client nothing
          rw [s.goto_other _ (Ne.symm hv)]
          rw [htells.alone hdown v hv] at hwords
          rw [(List.append_eq_nil_iff.mp hwords).1]
          rfl
      refine ⟨⟨_, hrest⟩, fun _ u hu => ?_, fun _ => hrest⟩
      rw [hthread]
      by_cases hv : u = v
      · subst hv
        rw [s.goto_self]
        rw [htells.alone hdown u hu] at hwords
        exact (List.append_eq_nil_iff.mp hwords).2
      · rw [s.goto_other _ hv]
        exact htells.alone hdown u hu

/-! ## a call -/

def Call.start : Call → Pc
  | .SendProxyBuffer seq fd buffer => .loop seq fd buffer
  | .SendProxyDisconnect fd => .disconnect fd

def Sender.call (s : Sender n) (t : Fin n) : Call → Option (Sender n)
  | .SendProxyBuffer seq fd buffer => s.callBuffer t seq fd buffer
  | .SendProxyDisconnect fd => s.callDisconnect t fd

theorem Call.start_words (call : Call) (fd : CInt) : call.start.words fd = call.words fd := by
  cases call with
  | SendProxyBuffer | SendProxyDisconnect => rfl

theorem Sender.call_eq {call : Call} (hcall : s.call t call = some s') :
    s.thread t = .idle ∧ s' = s.goto t call.start := by
  cases call with
  | SendProxyBuffer seq fd buffer =>
    change s.callBuffer t seq fd buffer = _ at hcall
    unfold Sender.callBuffer at hcall
    split at hcall
    · next hidle => exact ⟨hidle, (Option.some.inj hcall).symm⟩
    · cases hcall
  | SendProxyDisconnect fd =>
    change s.callDisconnect t fd = _ at hcall
    unfold Sender.callDisconnect at hcall
    split at hcall
    · next hidle => exact ⟨hidle, (Option.some.inj hcall).symm⟩
    · cases hcall

theorem Sender.call_step {call : Call} (hcall : s.call t call = some s') :
    ∃ m, s.step m = some s' ∧ s.Alone m := by
  cases call with
  | SendProxyBuffer seq fd buffer => exact ⟨.callBuffer t seq fd buffer, hcall, trivial⟩
  | SendProxyDisconnect fd => exact ⟨.callDisconnect t fd, hcall, trivial⟩

/-- **A call of any thread** is told behind what has been told, when no thread has something for the
client. -/
theorem Sender.Tells.call (htells : s.Tells fd t said) {v : Fin n} {call : Call}
    (hcall : s.call v call = some s')
    (hquiet : call.words fd ≠ [] → ∀ u, (s.thread u).words fd = []) :
    ∃ t', s'.Tells fd t' (said ++ call.words fd) := by
  obtain ⟨hidle, rfl⟩ := Sender.call_eq hcall
  have hself : ((s.goto v call.start).thread v).words fd = call.words fd := by
    rw [s.goto_self, Call.start_words]
  have hother : ∀ u, u ≠ v → (s.goto v call.start).thread u = s.thread u := fun u hu =>
    s.goto_other _ hu
  by_cases hnil : call.words fd = []
  · have hsame : ∀ u, ((s.goto v call.start).thread u).words fd = (s.thread u).words fd := by
      intro u
      by_cases hu : u = v
      · subst hu
        rw [hself, hnil, hidle]
        rfl
      · rw [hother u hu]
    rw [hnil, List.append_nil]
    refine ⟨t, htells.le, fun h u hu => ?_, fun h => ?_⟩
    · rw [hsame]
      exact htells.alone h u hu
    · rw [hsame]
      exact htells.rest h
  · have hquiet := hquiet hnil
    refine ⟨v, htells.le.trans (List.prefix_append ..), fun _ u hu => ?_, fun h => ?_⟩
    · rw [hother u hu]
      exact hquiet u
    · have hsaid := htells.rest h
      rw [hquiet t, List.append_nil] at hsaid
      rw [hself]
      exact congrArg (· ++ call.words fd) hsaid

/-! ## the frames -/

/-- a frame has bytes, or it is that of a Disconnect -/
def CMD.Full (c : CMD) : Prop := c.header.cmdt ≠ .CommandTypeProxyDisconnect → 0 < c.param.length

def Pc.Full : Pc → Prop
  | .command cmd _ | .sending _ cmd _ _ _ => cmd.Full
  | .idle | .loop .. | .disconnect _ | .closing => True

/-- every command that a thread has made is full -/
structure Sender.Full (s : Sender n) : Prop where
  thread : ∀ t, (s.thread t).Full
  done : ∀ c ∈ s.done.map Prod.snd, c.Full

theorem Pc.Next.full {pc pc' : Pc} {new : List CMD} (hnext : pc.Next new pc') (hpc : pc.Full) :
    pc'.Full ∧ ∀ c ∈ new, c.Full := by
  cases hnext with
  | round seq fd rest hrest =>
    refine ⟨fun _ => ?_, nofun⟩
    rw [SendLoop.cmd_param_length]
    exact Nat.lt_min.mpr ⟨hrest, by decide⟩
  | takeSeq q fd => exact ⟨fun hcmdt => absurd rfl hcmdt, nofun⟩
  | exit | close => exact ⟨trivial, nofun⟩
  | enter | part => exact ⟨hpc, nofun⟩
  | whole id k conn cmd rest =>
    refine ⟨?_, fun c hc => List.mem_singleton.mp hc ▸ hpc⟩
    unfold Pc.after
    split
    · trivial
    · trivial

theorem Sender.Full.init (n : Nat) : (Sender.init n).Full := ⟨fun _ => trivial, nofun⟩

theorem Sender.Full.goto (hfull : s.Full) {t : Fin n} {pc : Pc} (hpc : pc.Full) (u : Fin n) :
    ((s.goto t pc).thread u).Full := by
  by_cases hu : u = t
  · subst hu
    rw [s.goto_self]
    exact hpc
  · rw [s.goto_other _ hu]
    exact hfull.thread u

theorem Sender.Full.inner (hfull : s.Full) (hinner : s.Inner s') : s'.Full := by
  cases hinner with
  | stays hthread hdone => exact ⟨hthread ▸ hfull.thread, hdone ▸ hfull.done⟩
  | drops t hthread hdone => exact ⟨hthread ▸ hfull.goto trivial, hdone ▸ hfull.done⟩
  | goes t new pc pc' hpc hnext hthread hdone =>
    obtain ⟨hpc', hnew⟩ := hnext.full (hpc ▸ hfull.thread t)
    refine ⟨hthread ▸ hfull.goto hpc', fun c hc => ?_⟩
    rw [hdone] at hc
    rcases List.mem_append.mp hc with hc | hc
    · exact hfull.done c hc
    · exact hnew c hc

theorem Sender.Full.call (hfull : s.Full) {call : Call} (hcall : s.call t call = some s') : s'.Full := by
  obtain ⟨-, rfl⟩ := Sender.call_eq hcall
  refine ⟨hfull.goto ?_, hfull.done⟩
  cases call with
  | SendProxyBuffer | SendProxyDisconnect => trivial

theorem Sender.Inv.wire_idle (hinv : s.Inv) (hlive : ¬ s.Dead) (hidle : ∀ t, s.thread t = .idle) :
    s.wire = (s.done.map Prod.snd).flatMap CMD.frame := by
  obtain ⟨part, hwire, hpart⟩ := hinv.wire
  have hnil : part = [] := by
    rcases hpart with ⟨hnil, -⟩ | ⟨t, id, cmd, k, rest, ht, -⟩ | ⟨hdead, -⟩
    · exact hnil
    · rw [hidle t] at ht
      cases ht
    · exact absurd hdead hlive
  rw [hwire, hnil, List.append_nil, List.flatMap_map]

theorem wordsFor_bytes (fd : CInt) (cmds : List CMD) :
    (wordsFor fd cmds).filterMap id
      = (cmds.filter fun c => c.header.cmdt ≠ .CommandTypeProxyDisconnect ∧ c.header.fd = fd).flatMap
          CMD.param := by
  induction cmds with
  | nil => rfl
  | cons c cmds ih =>
    have hcons : wordsFor fd (c :: cmds) = wordsFor fd [c] ++ wordsFor fd cmds :=
      wordsFor_append fd [c] cmds
    rw [hcons, List.filterMap_append, ih]
    by_cases hfd : c.header.fd = fd
    · subst hfd
      rw [wordsFor_self]
      unfold CMD.words
      split
      · next hcmdt => simp [hcmdt]
      · next hcmdt => simp [hcmdt]
    · rw [wordsFor_other hfd]
      simp [hfd]

end VncProxy
