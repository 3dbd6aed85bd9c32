import VncProxy.Lib.CString
import VncProxy.Wire.Command

/-!
# `DataHttpParser`

The parser that `HttpProxyServer` keeps for a client's descriptor.  The bytes of the `CommandTypeProxy`
commands are copied to `mBuffer` until the blank line has come; the first line and the headers are
then read, the buffer is moved down and goes on with the body.

* `DataHttpParser.ParseFirstLine`, `DataHttpParser.ParseHeaders`, `DataHttpParser.ParseData`;
* `ParseData_full`                   it returns -1 just when nothing can be stored;
* `ParseData_one`                    it returns 1 only behind the blank line.
-/

namespace VncProxy

/-! ## the parser -/

inductive HttpType where
  | GET
  | POST
  | CONNECT
  | UNKNOW
deriving DecidableEq

structure DataHttpParser where
  mHost : List Byte
  mPath : List Byte
  miContentLength : Int
  mBuffer : List Byte
  size : mBuffer.length = MAX_BUFFER_LEN
  mbReceiveHeaderFinish : Bool
  mIndex : Nat
  index_le : mIndex ≤ MAX_BUFFER_LEN
  /-- the constructor leaves it unset -/
  mHttpType : Option HttpType
  mHeaders : List (List Byte)

def DataHttpParser.new : DataHttpParser where
  mHost := []
  mPath := []
  miContentLength := -1
  mBuffer := List.replicate MAX_BUFFER_LEN 0
  size := List.length_replicate
  mbReceiveHeaderFinish := false
  mIndex := 0
  index_le := Nat.zero_le _
  mHttpType := none
  mHeaders := []

namespace DataHttpParser

/-- `case 0` of the loop over the tokens; after the `break` on another method the loop goes on -/
def parseType (p : DataHttpParser) (token : List Byte) : DataHttpParser × Bool :=
  if token = ascii "GET" then ({ p with mHttpType := some .GET }, true)
  else if token = ascii "POST" then ({ p with mHttpType := some .POST }, true)
  else if token = ascii "CONNECT" then ({ p with mHttpType := some .CONNECT }, true)
  else (p, false)

def parsePath (p : DataHttpParser) (token : List Byte) : DataHttpParser :=
  match find (ascii "http://") token with
  | some pos => { p with mPath := token.drop (pos + 7) }
  | none => { p with mPath := token }

def ParseFirstLine (p : DataHttpParser) (buffer : List Byte) : DataHttpParser × Bool :=
  match strtok 32 buffer with
  | [] => (p, true)
  | [type] => p.parseType type
  | type :: path :: _ =>
    let (p, bFlag) := p.parseType type
    (p.parsePath path, bFlag)

/-- one pass of the loop over the headers -/
def parseHeader (p : DataHttpParser) (header : List Byte) : DataHttpParser :=
  if header = [] then p
  else
    let p := match find (ascii "Host: ") header with
      | some posStart => { p with mHost := header.drop (posStart + 6) }
      | none => p
    let p := match find (ascii "Content-Length: ") header with
      | some posStart => { p with miContentLength := atoi (header.drop (posStart + 16)) }
      | none => p
    { p with mHeaders := p.mHeaders ++ [header] }

/-- the loop `while( pos != string::npos )` from `posPre` on; each pass uses up two bytes -/
def ParseHeaders : Nat → DataHttpParser → List Byte → DataHttpParser
  | 0, p, _ => p
  | fuel + 1, p, headers =>
    match find [13, 10] headers with
    | none => p
    | some pos => ParseHeaders fuel (p.parseHeader (headers.take pos)) (headers.drop (pos + 2))

/-- the copy of `recvLen` bytes behind `mBuffer[mIndex - 1]` and the NUL at `mBuffer[mIndex + 1]`;
`mBuffer[MAX_BUFFER_LEN]` is `mbReceiveHeaderFinish`, and behind that is padding -/
def store (p : DataHttpParser) (buffer : List Byte)
    (h : p.mIndex + buffer.length ≤ MAX_BUFFER_LEN) : DataHttpParser :=
  { p with
    mBuffer := (memcpy p.mBuffer p.mIndex buffer).set (p.mIndex + buffer.length + 1) 0
    size := by
      rw [List.length_set, memcpy_length (by rw [p.size]; exact h), p.size]
    mbReceiveHeaderFinish :=
      if p.mIndex + buffer.length + 1 = MAX_BUFFER_LEN then false else p.mbReceiveHeaderFinish
    mIndex := p.mIndex + buffer.length
    index_le := h }

/-- `memcpy(mBuffer, mBuffer + headerIndex, mIndex)` with the old content as its source -/
def moveBody (p : DataHttpParser) (headerIndex : Nat) : DataHttpParser :=
  if headerIndex ≤ p.mIndex then
    { p with
      mBuffer := (memcpy p.mBuffer 0
        ((p.mBuffer.drop headerIndex).take (p.mIndex - headerIndex))).set (p.mIndex - headerIndex) 0
      size := by
        rw [List.length_set, memcpy_length, p.size]
        rw [List.length_take, List.length_drop]
        omega
      mIndex := p.mIndex - headerIndex
      index_le := Nat.le_trans (Nat.sub_le ..) p.index_le }
  else p

/-- the first line goes through `firstLineBuff`: one of 4096 bytes or more is written behind it, and
what the code does then is not said here -/
def ParseHeaderPart (p : DataHttpParser) : DataHttpParser :=
  let headers := cstr p.mBuffer
  match find [13, 10, 13, 10] headers with
  | none => p
  | some blank =>
    let p := { p with mbReceiveHeaderFinish := true }
    let p := match find [13, 10] headers with
      | none => p
      | some pos =>
        let (p, bFlag) := p.ParseFirstLine (headers.take pos)
        if bFlag then
          ParseHeaders headers.length p (headers.drop (pos + 2))
        else p
    p.moveBody (blank + 4)

/-- the whole body has come, or no header names its length -/
def complete (p : DataHttpParser) : Bool :=
  p.mbReceiveHeaderFinish &&
    (decide (p.miContentLength = -1) || decide ((p.mIndex : Int) = p.miContentLength))

/-- `ParseData(buffer, len)` with `len = |buffer|` -/
def ParseData (p : DataHttpParser) (buffer : List Byte) : DataHttpParser × Int :=
  let recvLen := min buffer.length (MAX_BUFFER_LEN - p.mIndex)
  if h : 0 < recvLen then
    have hfit : p.mIndex + (buffer.take recvLen).length ≤ MAX_BUFFER_LEN := by
      have := p.index_le
      rw [List.length_take]
      omega
    let p := p.store (buffer.take recvLen) hfit
    let p := if p.mbReceiveHeaderFinish then p else p.ParseHeaderPart
    (p, if p.complete then 1 else 0)
  else (p, -1)

theorem ParseData_of_fits (p : DataHttpParser) (buffer : List Byte)
    (h : 0 < min buffer.length (MAX_BUFFER_LEN - p.mIndex)) :
    (p.ParseData buffer).2 = if (p.ParseData buffer).1.complete then 1 else 0 := by
  unfold ParseData
  rw [dif_pos h]

theorem ParseData_of_not_fits (p : DataHttpParser) (buffer : List Byte)
    (h : ¬ 0 < min buffer.length (MAX_BUFFER_LEN - p.mIndex)) : p.ParseData buffer = (p, -1) := by
  unfold ParseData
  rw [dif_neg h]

/-- **`ParseData` returns -1 just when nothing of the chunk can be stored.** -/
theorem ParseData_full (p : DataHttpParser) (buffer : List Byte) :
    (p.ParseData buffer).2 = -1 ↔ buffer = [] ∨ p.mIndex = MAX_BUFFER_LEN := by
  have hle := p.index_le
  by_cases h : 0 < min buffer.length (MAX_BUFFER_LEN - p.mIndex)
  · have hne : (p.ParseData buffer).2 ≠ -1 := by
      rw [p.ParseData_of_fits buffer h]
      split <;> decide
    refine ⟨fun h' => absurd h' hne, ?_⟩
    rintro (rfl | hfull)
    · rw [List.length_nil, Nat.zero_min] at h
      exact absurd h (Nat.lt_irrefl 0)
    · rw [hfull, Nat.sub_self, Nat.min_zero] at h
      exact absurd h (Nat.lt_irrefl 0)
  · refine ⟨fun _ => ?_, fun _ => by rw [p.ParseData_of_not_fits buffer h]⟩
    rcases Nat.eq_zero_or_pos buffer.length with h0 | h0
    · exact Or.inl (List.eq_nil_of_length_eq_zero h0)
    · exact Or.inr (by omega)

/-- **A request is only started behind the blank line.** -/
theorem ParseData_one (p : DataHttpParser) (buffer : List Byte) (h1 : (p.ParseData buffer).2 = 1) :
    (p.ParseData buffer).1.mbReceiveHeaderFinish = true := by
  by_cases h : 0 < min buffer.length (MAX_BUFFER_LEN - p.mIndex)
  · rw [p.ParseData_of_fits buffer h] at h1
    by_cases hc : (p.ParseData buffer).1.complete = true
    · unfold complete at hc
      rw [Bool.and_eq_true] at hc
      exact hc.1
    · rw [if_neg hc] at h1
      exact absurd h1 (by decide)
  · rw [p.ParseData_of_not_fits buffer h] at h1
    exact absurd (show (-1 : Int) = 1 from h1) (by decide)

def GetBody (p : DataHttpParser) : List Byte := p.mBuffer

def GetContentLength (p : DataHttpParser) : Int := p.miContentLength

def GetHeaders (p : DataHttpParser) : List (List Byte) := p.mHeaders

def GetHttpType (p : DataHttpParser) : Option HttpType := p.mHttpType

def GetUrl (p : DataHttpParser) : List Byte :=
  let url :=
    if p.mHost.length ≠ 0 then
      if find p.mHost p.mPath = none then p.mHost ++ p.mPath else p.mPath
    else p.mPath
  if p.mHttpType = some .CONNECT then
    if find (ascii "https://") url = none then ascii "https://" ++ url else url
  else
    if find (ascii "http://") url = none then ascii "http://" ++ url else url

end DataHttpParser

end VncProxy
