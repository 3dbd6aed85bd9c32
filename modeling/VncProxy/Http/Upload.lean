import VncProxy.Http.HttpRequest
import VncProxy.Http.RoundTrip

/-!
# From a request of a browser to the HttpRequest

* `HttpRequest.SetSendData`, `HttpRequest.onSendBody`, `CurlReadHandle`  the body that is sent on;
* `HttpProxyServer.OnRecvProxyBuffer`   a command with bytes of a browser;
* `OnRecvProxyBuffer_returns`           it ends for any bytes, and the body sent on was received;
* `OnRecvProxyBuffers_asked`            a request in any chunks, and its body in any calls of libcurl.
-/

namespace VncProxy

open DataHttpParser

namespace HttpRequest

/-- `junk` is what the two `new`s find in the memory; nothing behind `buffer` is read -/
def SetSendData (n : Nat) (r : HttpRequest) (buffer : List Byte) (len : Int) (junk : Nat → Nat → Byte) :
    Option HttpRequest :=
  if len ≤ buffer.length then
    (r.InitRequestBuffer (junk 0)).AddRequestBuffer n (buffer.take len.toNat) (junk 1)
  else none

/-- what is copied to `buf`, and what is returned -/
def onSendBody (r : HttpRequest) (size : Int) : HttpRequest × List Byte × Int :=
  let sendSize := min (r.request.size - r.miRequestCurrentSend) size
  if 0 < sendSize then
    ({ r with miRequestCurrentSend := r.miRequestCurrentSend + sendSize },
      (r.request.buffer.drop r.miRequestCurrentSend.toNat).take sendSize.toNat, sendSize)
  else (r, [], sendSize)

/-- `HttpClient::CurlReadHandle(buffer, size, nmemb, data)` -/
def CurlReadHandle (r : HttpRequest) (size nmemb : Nat) : HttpRequest × List Byte × Int :=
  r.onSendBody (int32 (size * nmemb : Nat))

def reads (r : HttpRequest) : List (Nat × Nat) → List (List Byte)
  | [] => []
  | (size, nmemb) :: l =>
    let (r, bytes, _) := r.CurlReadHandle size nmemb
    bytes :: r.reads l

/-- `k` bytes of the body `bs` are sent -/
structure Sending (r : HttpRequest) (bs : List Byte) (k : Nat) : Prop where
  size : r.request.size = bs.length
  bytes : r.request.buffer.take bs.length = bs
  send : r.miRequestCurrentSend = k
  le : k ≤ bs.length

theorem Sending.respond {r : HttpRequest} {bs : List Byte} {k : Nat} (hr : r.Sending bs k)
    (junk : Nat → Byte) : (r.InitRespondBuffer junk).Sending bs k := by
  unfold InitRespondBuffer
  exact ⟨hr.size, hr.bytes, hr.send, hr.le⟩

theorem Sending.onSendBody {r : HttpRequest} {bs : List Byte} {k : Nat} (hr : r.Sending bs k) (size : Nat) :
    ∃ r' : HttpRequest,
      r.onSendBody size = (r', (bs.drop k).take size, (((bs.drop k).take size).length : Int)) ∧
        r'.Sending bs (min (k + size) bs.length) := by
  have hlen : ((bs.drop k).take size).length = min (bs.length - k) size := by
    rw [List.length_take, List.length_drop, Nat.min_comm]
  have hmin : min (r.request.size - r.miRequestCurrentSend) (size : Int)
      = (min (bs.length - k) size : Nat) := by
    have hle := hr.le
    rw [hr.size, hr.send]
    omega
  have hle := hr.le
  unfold HttpRequest.onSendBody
  dsimp only
  rw [hmin, hlen]
  split
  · next hpos =>
    refine ⟨_, Prod.ext rfl (Prod.ext ?_ rfl), hr.size, hr.bytes, ?_, Nat.min_le_right _ _⟩
    · show (r.request.buffer.drop r.miRequestCurrentSend.toNat).take (min (bs.length - k) size) = _
      rw [hr.send]
      have hdrop : (r.request.buffer.drop k).take (min (bs.length - k) size)
          = (bs.drop k).take (min (bs.length - k) size) := by
        have hbytes := congrArg (List.drop k) hr.bytes
        rw [List.drop_take] at hbytes
        rw [← hbytes, List.take_take, Nat.min_eq_left (Nat.min_le_left _ _)]
      refine hdrop.trans ?_
      rw [List.take_eq_take_iff, List.length_drop]
      omega
    · show r.miRequestCurrentSend + (min (bs.length - k) size : Nat) = _
      rw [hr.send]
      omega
  · next hpos =>
    have hzero : min (bs.length - k) size = 0 := by omega
    refine ⟨r, Prod.ext rfl (Prod.ext ?_ rfl), hr.size, hr.bytes, ?_, Nat.min_le_right _ _⟩
    · exact (List.eq_nil_of_length_eq_zero (hlen.trans hzero)).symm
    · rw [hr.send]
      omega

/-- the bytes that libcurl asks for in these calls -/
def asked (l : List (Nat × Nat)) : Nat := (l.map fun x => x.1 * x.2).sum

/-- **What libcurl gets** is the body from its first byte on, as far as it asks for it. -/
theorem Sending.reads {r : HttpRequest} {bs : List Byte} {k : Nat} (hr : r.Sending bs k)
    {l : List (Nat × Nat)} (hl : ∀ x ∈ l, x.1 * x.2 < 2 ^ 31) :
    (r.reads l).flatten = (bs.drop k).take (asked l) := by
  induction l generalizing r k with
  | nil => rfl
  | cons x l ih =>
    obtain ⟨size, nmemb⟩ := x
    obtain ⟨hx, hl⟩ := List.forall_mem_cons.mp hl
    obtain ⟨r', hcall, hr'⟩ := hr.onSendBody (size * nmemb)
    have hint : int32 (size * nmemb : Nat) = (size * nmemb : Nat) := by
      refine int32_of_fits (by omega) ?_
      have : size * nmemb < 2 ^ 31 := hx
      omega
    have hstep : r.CurlReadHandle size nmemb = _ := (congrArg r.onSendBody hint).trans hcall
    unfold HttpRequest.reads
    rw [hstep]
    show (_ :: r'.reads l).flatten = (bs.drop k).take (size * nmemb + asked l)
    rw [List.flatten_cons, ih hr' hl, List.take_add, List.drop_drop]
    congr 1
    by_cases hend : k + size * nmemb ≤ bs.length
    · rw [Nat.min_eq_left hend]
    · rw [Nat.min_eq_right (by omega), List.drop_length, List.drop_eq_nil_of_le (by omega)]

/-- **`SetSendData` ends**, and nothing of the body is sent yet. -/
theorem SetSendData_sending {n : Nat} (hn : 30 ≤ n) (r : HttpRequest) {buffer : List Byte} {len : Int}
    (hlen : len ≤ buffer.length) (hmax : buffer.length < 2 ^ 30) (junk : Nat → Nat → Byte) :
    ∃ r', r.SetSendData n buffer len junk = some r' ∧ r'.Sending (buffer.take len.toNat) 0 := by
  have hinit := GrowBuffer.Doubled.init (junk 0)
  unfold SetSendData AddRequestBuffer
  rw [if_pos hlen]
  split
  · have htake : ([] : List Byte).length + (buffer.take len.toNat).length < 2 ^ 30 := by
      rw [List.length_nil, Nat.zero_add]
      exact Nat.lt_of_le_of_lt (List.take_prefix _ _).length_le hmax
    obtain ⟨b, hb, hdoubled, -⟩ := hinit.add htake (junk 1) hn
    rw [List.nil_append] at hdoubled
    refine ⟨_, congrArg (Option.map _) hb, hdoubled.size, hdoubled.bytes, rfl, Nat.zero_le _⟩
  · next hpos =>
    have hnil : buffer.take len.toNat = [] := List.eq_nil_of_length_eq_zero (by omega)
    rw [hnil]
    exact ⟨_, rfl, hinit.size, hinit.bytes, rfl, Nat.le_refl _⟩

end HttpRequest

/-! ## the commands of a browser -/

namespace HttpProxyServer

/-- a `CommandTypeProxy` command; the HttpRequest that it may start is `fresh` after its constructor, its
`new`s find `junk`, and `pthread_create` for it succeeds or not -/
structure Arrival where
  seq : CInt
  buffer : List Byte
  fresh : HttpRequest
  junk : Nat → Nat → Byte
  created : Bool

/-- an HttpRequest that is started, with what `HttpClient::Request` is called with -/
structure Started where
  request : HttpRequest
  fd : CInt
  seq : CInt
  url : List Byte
  headers : List (List Byte)
  bPost : Bool

/-- what comes of a command -/
inductive Outcome where
  | waits
  | starts (x : Started)
  /-- `StartRequest` fails, and the HttpRequest is deleted -/
  | fails
  /-- `SendProxyDisconnect(fd)` -/
  | disconnects

def OnRecvProxyBuffer (n : Nat) (pDataHttpParser : DataHttpParser) (fd : CInt) (x : Arrival) :
    Option (DataHttpParser × Outcome) :=
  let (p, ret) := pDataHttpParser.ParseData x.buffer
  if ret = 1 then
    (x.fresh.SetSendData n p.GetBody p.GetContentLength x.junk).map fun request =>
      let started : Started :=
        { request := request.InitRespondBuffer (x.junk 2)
          fd := fd
          seq := x.seq
          url := p.GetUrl
          headers := p.GetHeaders
          bPost := p.GetHttpType = some .POST }
      (p, if x.created then .starts started else .fails)
  else if ret = -1 then some (p, .disconnects)
  else some (p, .waits)

/-- the commands for one descriptor, one after the other -/
def OnRecvProxyBuffers (n : Nat) (p : DataHttpParser) (fd : CInt) :
    List Arrival → Option (DataHttpParser × List Outcome)
  | [] => some (p, [])
  | x :: l => (OnRecvProxyBuffer n p fd x).bind fun (p, outcome) =>
    (OnRecvProxyBuffers n p fd l).map fun (p, outcomes) => (p, outcome :: outcomes)

/-- the request is the one that the parser has read, and its body is ready to be sent -/
structure Started.Of (q : Started) (p : DataHttpParser) : Prop where
  url : q.url = p.GetUrl
  headers : q.headers = p.GetHeaders
  bPost : q.bPost = decide (p.GetHttpType = some .POST)
  sending : q.request.Sending ((p.mBuffer.take p.mIndex).take p.miContentLength.toNat) 0

section
variable {n : Nat} {p : DataHttpParser}

/-- **`OnRecvProxyBuffer` ends**, for any bytes and whatever the parser has stored: it makes an HttpRequest
just when `ParseData` returns 1, and the body of that is bytes that the parser has stored. -/
theorem OnRecvProxyBuffer_returns (hn : 30 ≤ n) (fd : CInt) (x : Arrival) : ∃ outcome,
    OnRecvProxyBuffer n p fd x = some ((p.ParseData x.buffer).1, outcome) ∧
      ((p.ParseData x.buffer).2 = 1 → ∃ q, outcome = (if x.created then .starts q else .fails) ∧
        q.fd = fd ∧ q.seq = x.seq ∧ q.Of (p.ParseData x.buffer).1) ∧
      ((p.ParseData x.buffer).2 = 0 → outcome = .waits) ∧
      ((p.ParseData x.buffer).2 = -1 → outcome = .disconnects) := by
  rcases hp : p.ParseData x.buffer with ⟨p', ret⟩
  unfold OnRecvProxyBuffer
  rw [hp]
  dsimp only
  by_cases h1 : ret = 1
  · -- the length is that of the bytes stored, or there is no body
    have hlen : p'.miContentLength = -1 ∨ p'.miContentLength = p'.mIndex := by
      by_cases hfits : 0 < min x.buffer.length (MAX_BUFFER_LEN - p.mIndex)
      · have hret := p.ParseData_of_fits x.buffer hfits
        rw [hp, show (p', ret).2 = 1 from h1] at hret
        by_cases hc : p'.complete = true
        · unfold complete at hc
          rw [Bool.and_eq_true, Bool.or_eq_true, decide_eq_true_iff, decide_eq_true_iff] at hc
          exact hc.2.imp_right Eq.symm
        · rw [if_neg hc] at hret
          exact absurd hret (by decide)
      · have hfull := p.ParseData_of_not_fits x.buffer hfits
        rw [hp] at hfull
        have hret : ret = -1 := congrArg Prod.snd hfull
        exact absurd (hret.symm.trans h1) (by decide)
    have hindex := p'.index_le
    have hsize : p'.mBuffer.length = MAX_BUFFER_LEN := p'.size
    have hmax : MAX_BUFFER_LEN = 8192 := rfl
    obtain ⟨r, hr, hsending⟩ := HttpRequest.SetSendData_sending hn x.fresh
      (show p'.GetContentLength ≤ p'.GetBody.length by
        unfold GetContentLength GetBody
        omega)
      (show p'.GetBody.length < 2 ^ 30 by
        unfold GetBody
        omega) x.junk
    rw [if_pos h1, hr]
    refine ⟨_, rfl, fun _ => ⟨_, rfl, rfl, rfl, rfl, rfl, rfl, ?_⟩, fun h0 => ?_, fun h0 => ?_⟩
    · have hbody : (p'.mBuffer.take p'.mIndex).take p'.miContentLength.toNat
          = p'.GetBody.take p'.GetContentLength.toNat := by
        unfold GetBody GetContentLength
        rw [List.take_take]
        congr 1
        omega
      rw [hbody]
      exact hsending.respond (x.junk 2)
    · exact absurd (h0.symm.trans h1) (by decide)
    · exact absurd (h0.symm.trans h1) (by decide)
  · rw [if_neg h1]
    by_cases hm : ret = -1
    · rw [if_pos hm]
      exact ⟨_, rfl, fun h => absurd h h1, fun h0 => absurd (h0.symm.trans hm) (by decide), fun _ => rfl⟩
    · rw [if_neg hm]
      exact ⟨_, rfl, fun h => absurd h h1, fun _ => rfl, fun h => absurd h hm⟩

theorem parseChunks_single (p : DataHttpParser) (c : List Byte) : parseChunks p [c] = p.ParseData c := by
  show (if (p.ParseData c).2 ≠ 0 then p.ParseData c else ((p.ParseData c).1, 0)) = _
  split
  · rfl
  · next h => exact Prod.ext rfl (not_not.mp h).symm

theorem parseChunks_next {c : List Byte} (hzero : (p.ParseData c).2 = 0) (cs : List (List Byte)) :
    parseChunks p (c :: cs) = parseChunks (p.ParseData c).1 cs := by
  show (if (p.ParseData c).2 ≠ 0 then _ else _) = _
  rw [if_neg (not_not.mpr hzero)]

theorem OnRecvProxyBuffers_last (hn : 30 ≤ n) (fd : CInt) {l : List Arrival} (hl : l ≠ [])
    (hcreated : ∀ x ∈ l, x.created = true)
    (hwait : ∀ i < l.length, (parseChunks p ((l.map Arrival.buffer).take i)).2 = 0)
    (hlast : (parseChunks p (l.map Arrival.buffer)).2 = 1) :
    ∃ q, OnRecvProxyBuffers n p fd l = some ((parseChunks p (l.map Arrival.buffer)).1,
        List.replicate (l.length - 1) .waits ++ [.starts q]) ∧
      q.fd = fd ∧ q.seq = (l.getLast hl).seq ∧ q.Of (parseChunks p (l.map Arrival.buffer)).1 := by
  induction l generalizing p with
  | nil => exact absurd rfl hl
  | cons x l ih =>
    obtain ⟨outcome, hcall, hstarts, hwaits, -⟩ := OnRecvProxyBuffer_returns hn (p := p) fd x
    unfold OnRecvProxyBuffers
    rw [hcall, Option.bind_some]
    by_cases hnil : l = []
    · subst hnil
      have hone : parseChunks p ([x].map Arrival.buffer) = p.ParseData x.buffer := parseChunks_single p _
      rw [hone] at hlast ⊢
      obtain ⟨q, hout, hfd, hseq, hq⟩ := hstarts hlast
      rw [if_pos (hcreated x (List.mem_singleton_self x))] at hout
      subst hout
      exact ⟨q, rfl, hfd, hseq, hq⟩
    · have hzero : (p.ParseData x.buffer).2 = 0 := by
        have h1 := hwait 1 (by rw [List.length_cons]; have := List.length_pos_iff.mpr hnil; omega)
        rwa [List.map_cons, List.take_succ_cons, List.take_zero, parseChunks_single] at h1
      rw [List.map_cons, parseChunks_next hzero] at hlast ⊢
      have hwait' : ∀ i < l.length,
          (parseChunks (p.ParseData x.buffer).1 ((l.map Arrival.buffer).take i)).2 = 0 := by
        intro i hi
        have h := hwait (i + 1) (Nat.succ_lt_succ hi)
        rwa [List.map_cons, List.take_succ_cons, parseChunks_next hzero] at h
      obtain ⟨q, hq, hfd, hseq, hof⟩ :=
        ih hnil (fun y hy => hcreated y (List.mem_cons_of_mem _ hy)) hwait' hlast
      obtain rfl := hwaits hzero
      refine ⟨q, ?_, hfd, ?_, hof⟩
      · show (OnRecvProxyBuffers n _ fd l).map _ = _
        rw [hq, Option.map_some, List.length_cons, Nat.add_sub_cancel]
        obtain ⟨k, hk⟩ : ∃ k, l.length = k + 1 := Nat.exists_eq_succ_of_ne_zero fun h0 =>
          hnil (List.eq_nil_of_length_eq_zero h0)
        rw [hk]
        rfl
      · rw [List.getLast_cons hnil]
        exact hseq

end

theorem OnRecvProxyBuffers_asked {a : Asked} (ha : a.WellFormed) {l : List Arrival}
    (hl : ∀ x ∈ l, x.buffer ≠ []) (hcreated : ∀ x ∈ l, x.created = true)
    (hflat : (l.map Arrival.buffer).flatten = a.bytes) {n : Nat} (hn : 30 ≤ n) (fd : CInt) :
    ∃ p q, OnRecvProxyBuffers n new fd l
        = some (p, List.replicate (l.length - 1) .waits ++ [.starts q]) ∧
      q.fd = fd ∧ l.getLast?.map Arrival.seq = some q.seq ∧ q.url = http ++ (a.host ++ a.path) ∧
      q.headers = a.headers ∧ q.bPost = a.bPost ∧
      ∀ calls : List (Nat × Nat), (∀ x ∈ calls, x.1 * x.2 < 2 ^ 31) →
        (q.request.reads calls).flatten = a.body.take (HttpRequest.asked calls) := by
  have hne : l ≠ [] := by
    rintro rfl
    have hlen := congrArg List.length hflat
    have hend := (headerEnd_le (Asked.headerEnd_header ha [])).1
    unfold Asked.bytes at hlen
    rw [List.length_append] at hlen
    have h0 : (([] : List Arrival).map Arrival.buffer).flatten.length = 0 := rfl
    omega
  have hcs : ∀ c ∈ l.map Arrival.buffer, c ≠ [] := by
    intro c hc
    obtain ⟨x, hx, rfl⟩ := List.mem_map.mp hc
    exact hl x hx
  obtain ⟨-, hwait, hlast, hfacts, hbody⟩ := Asked.parseChunks_bytes ha hcs hflat
  rw [List.length_map] at hwait
  obtain ⟨q, hq, hfd, hseq, hof⟩ := OnRecvProxyBuffers_last hn fd hne hcreated hwait hlast
  have htype : (parseChunks new (l.map Arrival.buffer)).1.mHttpType = some (if a.bPost then .POST else .GET) :=
    congrArg Facts.httpType hfacts
  have hlength : (parseChunks new (l.map Arrival.buffer)).1.miContentLength = a.contentLength :=
    congrArg Facts.contentLength hfacts
  refine ⟨_, q, hq, hfd, ?_, hof.url.trans (Asked.GetUrl_facts ha hfacts),
    hof.headers.trans (congrArg Facts.headers hfacts), ?_, fun calls hcalls => ?_⟩
  · rw [List.getLast?_eq_some_getLast hne, hseq]
    rfl
  · rw [hof.bPost]
    unfold GetHttpType
    rw [htype]
    cases a.bPost <;> rfl
  · have hsending := hof.sending
    rw [hbody, hlength] at hsending
    have hwhole : a.body.take a.contentLength.toNat = a.body := by
      rcases Asked.named_length ha with hlen | ⟨-, hnil⟩
      · rw [hlen, Int.toNat_natCast, List.take_length]
      · rw [hnil, List.take_nil]
    rw [hwhole] at hsending
    exact hsending.reads hcalls

end HttpProxyServer

end VncProxy
