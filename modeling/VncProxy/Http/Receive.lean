import VncProxy.Http.Upload
import VncProxy.Wire.RecvPrefix
import VncProxy.Wire.SendCommand

/-!
# The receive thread of HttpProxyServer

* `HttpProxyServer.OnRecvCommand`    a command, for the parser of its descriptor;
* `HandleTcpProxyClientRunnable`     the commands of one connection, up to its end;
* `OnRecvCommands_own`               what comes of the commands for a descriptor depends on them alone;
* `HandleTcpProxyClientRunnable_all`  the loop calls `OnRecvCommand` for every command whose frame comes;
* `sent_on`                          a request of a browser among the commands for others.
-/

namespace VncProxy

open DataHttpParser

namespace HttpProxyServer

/-- what the `new`s for a command find, and whether the thread of its HttpRequest can be made -/
structure Alloc where
  fresh : HttpRequest
  junk : Nat → Nat → Byte
  created : Bool

/-- `outcomes` is what came of the `CommandTypeProxy` commands -/
structure Server where
  mDataHttpParserMap : CInt → Option DataHttpParser
  outcomes : List (CInt × Outcome)

def Server.init : Server := ⟨fun _ => none, []⟩

/-- the parser under the descriptor, or a new one -/
def Server.parser (s : Server) (fd : CInt) : DataHttpParser :=
  (s.mDataHttpParserMap fd).getD DataHttpParser.new

/-- `OnRecvCommand(cmd)` with `HandleRecvProxyBuffer` and `HandleRecvProxyDisconnect` -/
def OnRecvCommand (n : Nat) (s : Server) (cmd : CMD) (x : Alloc) : Option Server :=
  let fd := cmd.header.fd
  match cmd.header.cmdt with
  | .CommandTypeProxy =>
    (OnRecvProxyBuffer n (s.parser fd) fd ⟨cmd.header.seq, cmd.param, x.fresh, x.junk, x.created⟩).map fun r =>
      { mDataHttpParserMap := Function.update s.mDataHttpParserMap fd (some r.1)
        outcomes := s.outcomes ++ [(fd, r.2)] }
  | .CommandTypeProxyDisconnect =>
    some { s with mDataHttpParserMap := Function.update s.mDataHttpParserMap fd none }
  | _ => some s

def OnRecvCommands (n : Nat) (s : Server) : List (CMD × Alloc) → Option Server
  | [] => some s
  | x :: l => (OnRecvCommand n s x.1 x.2).bind fun s => OnRecvCommands n s l

/-- `while(bCanRecv)` for at most `fuel` commands; `i` have been received.  A parameter that does not
fit `cmd.param` is written behind it, and nothing is said then -/
def HandleTcpProxyClientRunnable (n : Nat) (mem : Nat → Alloc) :
    Nat → Nat → Server → Segments → Option Server
  | 0, _, _, _ => none
  | fuel + 1, i, s, segs =>
    (RecvCommand segs).bind fun r =>
      if ∀ index ∈ r.1.writes, index < MAX_PARAM_LEN then
        if r.1.bFlag then
          (OnRecvCommand n s r.1.cmd (mem i)).bind fun s =>
            HandleTcpProxyClientRunnable n mem fuel (i + 1) s r.2
        else some s
      else none

/-! ## the commands for a descriptor -/

/-- what came of the commands for a descriptor -/
def Server.outcomesOf (s : Server) (fd : CInt) : List Outcome :=
  (s.outcomes.filter (·.1 = fd)).map Prod.snd

/-- the same parser under the descriptor, and the same outcomes -/
structure Server.Agrees (s s' : Server) (fd : CInt) : Prop where
  parser : s.mDataHttpParserMap fd = s'.mDataHttpParserMap fd
  outcomes : s.outcomesOf fd = s'.outcomesOf fd

theorem outcomesOf_self (s : Server) (fd : CInt) (o : Outcome) (f : CInt → Option DataHttpParser) :
    Server.outcomesOf ⟨f, s.outcomes ++ [(fd, o)]⟩ fd = s.outcomesOf fd ++ [o] := by
  unfold Server.outcomesOf
  rw [List.filter_append, List.map_append]
  simp

theorem outcomesOf_other {fd fd' : CInt} (hfd : fd' ≠ fd) (s : Server) (o : Outcome)
    (f : CInt → Option DataHttpParser) :
    Server.outcomesOf ⟨f, s.outcomes ++ [(fd', o)]⟩ fd = s.outcomesOf fd := by
  unfold Server.outcomesOf
  rw [List.filter_append, List.map_append]
  simp [hfd]

section
variable {n : Nat} {s s' t : Server} {fd : CInt}

theorem OnRecvCommand_returns (hn : 30 ≤ n) (s : Server) (cmd : CMD) (x : Alloc) :
    ∃ t, OnRecvCommand n s cmd x = some t := by
  unfold OnRecvCommand
  dsimp only
  split
  · obtain ⟨outcome, hcall, -⟩ := OnRecvProxyBuffer_returns hn (p := s.parser cmd.header.fd)
      cmd.header.fd ⟨cmd.header.seq, cmd.param, x.fresh, x.junk, x.created⟩
    rw [hcall]
    exact ⟨_, rfl⟩
  · exact ⟨_, rfl⟩
  · exact ⟨_, rfl⟩

theorem OnRecvCommand_other {cmd : CMD} {x : Alloc} (hfd : cmd.header.fd ≠ fd)
    (hcall : OnRecvCommand n s cmd x = some t) : t.Agrees s fd := by
  unfold OnRecvCommand at hcall
  dsimp only at hcall
  split at hcall
  · obtain ⟨r, -, rfl⟩ := Option.map_eq_some_iff.mp hcall
    exact ⟨Function.update_of_ne (Ne.symm hfd) _ _, outcomesOf_other hfd s _ _⟩
  · obtain rfl := Option.some.inj hcall
    exact ⟨Function.update_of_ne (Ne.symm hfd) _ _, rfl⟩
  · obtain rfl := Option.some.inj hcall
    exact ⟨rfl, rfl⟩

theorem OnRecvCommand_own {cmd : CMD} {x : Alloc} (hagrees : s.Agrees s' fd) (hfd : cmd.header.fd = fd)
    (hcall : OnRecvCommand n s cmd x = some t) :
    ∃ t', OnRecvCommand n s' cmd x = some t' ∧ t.Agrees t' fd := by
  subst hfd
  have hparser : s.parser cmd.header.fd = s'.parser cmd.header.fd := by
    unfold Server.parser
    rw [hagrees.parser]
  unfold OnRecvCommand at hcall ⊢
  dsimp only at hcall ⊢
  rw [hparser] at hcall
  split at hcall
  · obtain ⟨r, hr, rfl⟩ := Option.map_eq_some_iff.mp hcall
    rw [hr]
    refine ⟨_, rfl, ?_, ?_⟩
    · dsimp only
      rw [Function.update_self, Function.update_self]
    · rw [outcomesOf_self, outcomesOf_self, hagrees.outcomes]
  · obtain rfl := Option.some.inj hcall
    refine ⟨_, rfl, ?_, hagrees.outcomes⟩
    dsimp only
    rw [Function.update_self, Function.update_self]
  · obtain rfl := Option.some.inj hcall
    exact ⟨_, rfl, hagrees⟩

theorem OnRecvCommands_returns (hn : 30 ≤ n) (s : Server) (l : List (CMD × Alloc)) :
    ∃ t, OnRecvCommands n s l = some t := by
  induction l generalizing s with
  | nil => exact ⟨s, rfl⟩
  | cons x l ih =>
    obtain ⟨s', hs'⟩ := OnRecvCommand_returns hn s x.1 x.2
    unfold OnRecvCommands
    rw [hs']
    exact ih s'

/-- **What comes of the commands for a descriptor depends on them alone**: those for others can be left
out. -/
theorem OnRecvCommands_own {l : List (CMD × Alloc)} (hagrees : s.Agrees s' fd)
    (hcall : OnRecvCommands n s l = some t) :
    ∃ t', OnRecvCommands n s' (l.filter (·.1.header.fd = fd)) = some t' ∧ t.Agrees t' fd := by
  induction l generalizing s s' with
  | nil =>
    obtain rfl := Option.some.inj hcall
    exact ⟨s', rfl, hagrees⟩
  | cons x l ih =>
    obtain ⟨s1, hs1, hrest⟩ := Option.bind_eq_some_iff.mp hcall
    by_cases hfd : x.1.header.fd = fd
    · obtain ⟨s2, hs2, hagrees'⟩ := OnRecvCommand_own hagrees hfd hs1
      rw [List.filter_cons_of_pos (by simpa using hfd)]
      obtain ⟨t', ht', hfinal⟩ := ih hagrees' hrest
      refine ⟨t', ?_, hfinal⟩
      show (OnRecvCommand n s' x.1 x.2).bind _ = _
      rw [hs2]
      exact ht'
    · have hother := OnRecvCommand_other hfd hs1
      rw [List.filter_cons_of_neg (by simpa using hfd)]
      exact ih ⟨hother.parser.trans hagrees.parser, hother.outcomes.trans hagrees.outcomes⟩ hrest

/-! ## the loop -/

/-- the commands with what the `new`s find, when `i` have been received before -/
def stamped (mem : Nat → Alloc) (i : Nat) (cmds : List CMD) : List (CMD × Alloc) :=
  (cmds.zipIdx i).map fun x => (x.1, mem x.2)

theorem writes_fit {c : CMD} (hc : c.param.length < MAX_PARAM_LEN) :
    ∀ index ∈ c.writes, index < MAX_PARAM_LEN := by
  intro index hindex
  unfold CMD.writes at hindex
  split at hindex
  · exact absurd hindex List.not_mem_nil
  · rcases List.mem_append.mp hindex with hindex | hindex
    · exact Nat.lt_trans (List.mem_range.mp hindex) hc
    · exact List.mem_singleton.mp hindex ▸ hc

/-- **The loop calls `OnRecvCommand` for every command whose frame comes**, in order, and ends with the
stream. -/
theorem HandleTcpProxyClientRunnable_all (mem : Nat → Alloc) {cmds : List CMD}
    (hcmds : ∀ c ∈ cmds, c.Sendable) {i fuel : Nat} (hfuel : cmds.length < fuel) (s : Server)
    {segs : Segments} (hne : ∀ seg ∈ segs, seg ≠ []) (hs : segs.flatten = cmds.flatMap CMD.frame) :
    HandleTcpProxyClientRunnable n mem fuel i s segs = OnRecvCommands n s (stamped mem i cmds) := by
  induction cmds generalizing i fuel s segs with
  | nil =>
    obtain ⟨fuel, rfl⟩ : ∃ m, fuel = m + 1 := ⟨fuel - 1, by simp at hfuel; omega⟩
    rw [segments_nil hne hs]
    rfl
  | cons c cmds ih =>
    obtain ⟨fuel, rfl⟩ : ∃ m, fuel = m + 1 := ⟨fuel - 1, by simp at hfuel; omega⟩
    rw [List.flatMap_cons] at hs
    obtain ⟨segs', hrecv, hflat, hne'⟩ := RecvCommand_frame
      (hcmds c (List.mem_cons_self ..)).sized hne hs
    have hrest : ∀ s', HandleTcpProxyClientRunnable n mem fuel (i + 1) s' segs'
        = OnRecvCommands n s' (stamped mem (i + 1) cmds) := fun s' =>
      ih (fun c' hc' => hcmds c' (List.mem_cons_of_mem _ hc')) (by simpa using hfuel) s' hne' hflat
    show (RecvCommand segs).bind _ = (OnRecvCommand n s c (mem i)).bind _
    rw [hrecv, Option.bind_some, if_pos (writes_fit (hcmds c (List.mem_cons_self ..)).fits)]
    exact congrArg (Option.bind _) (funext hrest)

/-! ## a browser among others -/

def arrival (x : CMD × Alloc) : Arrival :=
  ⟨x.1.header.seq, x.1.param, x.2.fresh, x.2.junk, x.2.created⟩

theorem OnRecvCommands_proxies {l : List (CMD × Alloc)}
    (hl : ∀ x ∈ l, x.1.header.cmdt = .CommandTypeProxy ∧ x.1.header.fd = fd) {p : DataHttpParser}
    {outcomes : List Outcome} (hcall : OnRecvProxyBuffers n (s.parser fd) fd (l.map arrival)
      = some (p, outcomes)) :
    ∃ t, OnRecvCommands n s l = some t ∧ t.outcomesOf fd = s.outcomesOf fd ++ outcomes := by
  induction l generalizing s outcomes with
  | nil =>
    obtain ⟨-, rfl⟩ := Prod.mk.inj (Option.some.inj hcall)
    exact ⟨s, rfl, (List.append_nil _).symm⟩
  | cons x l ih =>
    obtain ⟨hcmdt, rfl⟩ := hl x (List.mem_cons_self ..)
    obtain ⟨⟨p1, o⟩, h1, hrest⟩ := Option.bind_eq_some_iff.mp hcall
    obtain ⟨⟨p2, os⟩, h2, hpair⟩ := Option.map_eq_some_iff.mp hrest
    obtain ⟨rfl, rfl⟩ := Prod.mk.inj hpair
    let s1 : Server :=
      ⟨Function.update s.mDataHttpParserMap x.1.header.fd (some p1),
        s.outcomes ++ [(x.1.header.fd, o)]⟩
    have hstep : OnRecvCommand n s x.1 x.2 = some s1 := by
      unfold OnRecvCommand
      dsimp only
      rw [hcmdt]
      exact congrArg (Option.map _) h1
    have hparser : s1.parser x.1.header.fd = p1 := by
      unfold Server.parser
      rw [show s1.mDataHttpParserMap x.1.header.fd = some p1 from Function.update_self ..]
      rfl
    obtain ⟨t, ht, hout⟩ := ih (s := s1) (fun y hy => hl y (List.mem_cons_of_mem _ hy))
      (hparser.symm ▸ h2)
    refine ⟨t, ?_, ?_⟩
    · show (OnRecvCommand n s x.1 x.2).bind _ = _
      rw [hstep]
      exact ht
    · rw [hout, show s1.outcomesOf x.1.header.fd = _ from outcomesOf_self ..]
      simp

/-- what is to come of a request for the descriptor: the last command starts it -/
def Serves (a : Asked) (fd : CInt) (outcomes : List Outcome) : Prop :=
  ∃ m q, outcomes = List.replicate m .waits ++ [.starts q] ∧ q.fd = fd ∧
    q.url = http ++ (a.host ++ a.path) ∧ q.headers = a.headers ∧ q.bPost = a.bPost ∧
    ∀ calls : List (Nat × Nat), (∀ x ∈ calls, x.1 * x.2 < 2 ^ 31) →
      (q.request.reads calls).flatten = a.body.take (HttpRequest.asked calls)

theorem stamped_fst (mem : Nat → Alloc) (i : Nat) (cmds : List CMD) :
    (stamped mem i cmds).map Prod.fst = cmds := by
  unfold stamped
  rw [List.map_map]
  exact List.zipIdx_map_fst i cmds

theorem OnRecvCommands_serves {a : Asked} (ha : a.WellFormed) {l : List (CMD × Alloc)}
    (hown : ∀ x ∈ l, x.1.header.fd = fd → x.1.header.cmdt = .CommandTypeProxy ∧ x.1.param ≠ [])
    (hcreated : ∀ x ∈ l, x.1.header.fd = fd → x.2.created = true)
    (hbytes : (l.filter (·.1.header.fd = fd)).flatMap (·.1.param) = a.bytes) (hn : 30 ≤ n) :
    ∃ t, OnRecvCommands n .init l = some t ∧ Serves a fd (t.outcomesOf fd) := by
  let l' := l.filter (·.1.header.fd = fd)
  have hl : ∀ x ∈ l', x ∈ l ∧ x.1.header.fd = fd := by
    intro x hx
    exact ⟨(List.mem_filter.mp hx).1, of_decide_eq_true (List.mem_filter.mp hx).2⟩
  have hbuffer : ((l'.map arrival).map Arrival.buffer).flatten = a.bytes := by
    rw [← hbytes, List.map_map]
    rfl
  have hnonempty : ∀ x ∈ l'.map arrival, x.buffer ≠ [] := by
    intro x hx
    obtain ⟨y, hy, rfl⟩ := List.mem_map.mp hx
    exact (hown y (hl y hy).1 (hl y hy).2).2
  have hmade : ∀ x ∈ l'.map arrival, x.created = true := by
    intro x hx
    obtain ⟨y, hy, rfl⟩ := List.mem_map.mp hx
    exact hcreated y (hl y hy).1 (hl y hy).2
  obtain ⟨p, q, hq, hfd, -, hurl, hheaders, hpost, hreads⟩ :=
    OnRecvProxyBuffers_asked ha hnonempty hmade hbuffer hn fd
  obtain ⟨t, ht⟩ := OnRecvCommands_returns hn Server.init l
  obtain ⟨t', ht', hagrees⟩ := OnRecvCommands_own
    (show Server.init.Agrees .init fd from ⟨rfl, rfl⟩) ht
  obtain ⟨t'', ht'', hout⟩ := OnRecvCommands_proxies (s := Server.init) (l := l')
    (fun x hx => ⟨(hown x (hl x hx).1 (hl x hx).2).1, (hl x hx).2⟩) hq
  obtain rfl : t' = t'' := Option.some.inj (ht'.symm.trans ht'')
  refine ⟨t, ht, ?_⟩
  rw [hagrees.outcomes, hout]
  exact ⟨_, q, rfl, hfd, hurl, hheaders, hpost, hreads⟩

theorem OnRecvCommands_asked {a : Asked} (ha : a.WellFormed) {cmds : List CMD}
    (hown : ∀ c ∈ cmds, c.header.fd = fd → c.header.cmdt = .CommandTypeProxy ∧ c.param ≠ [])
    (hbytes : (cmds.filter (·.header.fd = fd)).flatMap CMD.param = a.bytes) (hn : 30 ≤ n)
    {mem : Nat → Alloc} (hcreated : ∀ i, (mem i).created = true) :
    ∃ t, OnRecvCommands n .init (stamped mem 0 cmds) = some t ∧ Serves a fd (t.outcomesOf fd) := by
  have hfst : (stamped mem 0 cmds).map Prod.fst = cmds := stamped_fst mem 0 cmds
  refine OnRecvCommands_serves ha (fun x hx => ?_) (fun x hx _ => ?_) ?_ hn
  · exact hown x.1 (hfst ▸ List.mem_map_of_mem hx)
  · obtain ⟨y, -, rfl⟩ := List.mem_map.mp hx
    exact hcreated y.2
  · rw [← hbytes]
    nth_rewrite 2 [← hfst]
    rw [List.filter_map, List.flatMap_map]
    rfl

/-- **A request of a browser among the commands for others**, in any commands and any segments of the
stream: when no Disconnect is among its own and its thread can be made, one HttpRequest is started for it,
with the last of them; it is for the url, the headers and the method that were asked for, and in whatever
calls libcurl reads its body, it gets the body that was sent, from its first byte on. -/
theorem sent_on {a : Asked} (ha : a.WellFormed) {cmds : List CMD} (hcmds : ∀ c ∈ cmds, c.Sendable)
    (hown : ∀ c ∈ cmds, c.header.fd = fd → c.header.cmdt = .CommandTypeProxy ∧ c.param ≠ [])
    (hbytes : (cmds.filter (·.header.fd = fd)).flatMap CMD.param = a.bytes) (hn : 30 ≤ n)
    {mem : Nat → Alloc} (hcreated : ∀ i, (mem i).created = true) {segs : Segments}
    (hne : ∀ seg ∈ segs, seg ≠ []) (hs : segs.flatten = cmds.flatMap CMD.frame) :
    ∃ t, HandleTcpProxyClientRunnable n mem (cmds.length + 1) 0 .init segs = some t ∧
      Serves a fd (t.outcomesOf fd) := by
  obtain ⟨t, ht, hserves⟩ := OnRecvCommands_asked ha hown hbytes hn hcreated
  exact ⟨t, (HandleTcpProxyClientRunnable_all mem hcmds (Nat.lt_succ_self _) _ hne hs).trans ht, hserves⟩

/-- a request of two bytes in two commands, between them one for another browser -/
def postAmong : List CMD :=
  [ITask.cmd (.ProxyClientTask ⟨ascii "POST /x HTTP/1.1\r\nHost: a.b\r\nContent-Le", by decide, by decide⟩) 7 5,
    ITask.cmd (.ProxyClientTask ⟨ascii "GET", by decide, by decide⟩) 8 6,
    ITask.cmd (.ProxyClientTask ⟨ascii "ngth: 2\r\n\r\nhi", by decide, by decide⟩) 9 5]

/-- the `new`s find ones, and threads can be made -/
def ones (_ : Nat) : Alloc := ⟨⟨.init fun _ => 1, .init fun _ => 1, 9⟩, fun _ _ => 1, true⟩

theorem ones_created (i : Nat) : (ones i).created = true := rfl

/-- the request that is in them -/
def postTwo : Asked :=
  ⟨true, .origin, ascii "a.b", ascii "/x", ascii "HTTP/1.1",
    [ascii "Host: a.b", ascii "Content-Length: 2"], ascii "hi"⟩

theorem postTwo_wellFormed : postTwo.WellFormed where
  path := fun _ => by decide
  space := by decide
  requestLine := by decide
  headers := by decide
  host := by decide
  length := .inl ⟨ascii "2", by decide, by decide⟩
  url := ⟨find_eq_none.mp (by decide), fun _ => find_eq_none.mp (by decide)⟩
  body := by decide
  line := by decide
  fits := by decide

theorem sent_on_post : ∃ t, HandleTcpProxyClientRunnable 30 ones 4 0 .init
      [postAmong.flatMap CMD.frame] = some t ∧ Serves postTwo 5 (t.outcomesOf 5) := by
  have hsized : ∀ c ∈ postAmong, c.header.len.toInt = c.param.length := by decide
  have hfits : ∀ c ∈ postAmong, c.param.length < MAX_PARAM_LEN := by decide
  exact sent_on postTwo_wellFormed (fun c hc => ⟨hsized c hc, hfits c hc⟩) (by decide) (by decide)
    (Nat.le_refl 30) ones_created (by decide) (List.append_nil _)

end

end HttpProxyServer

end VncProxy
