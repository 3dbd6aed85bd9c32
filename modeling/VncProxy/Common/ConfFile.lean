import Mathlib.Data.List.Lex
import VncProxy.Lib.CString
import VncProxy.Lib.OrdMap

/-!
# `ConfFile`

The configuration: values under a key in a space.  The two names are put together, with a tab between
them, to the key of one `std::map`.

* `less`, `ConfMap`       the map, in the order of `less<string>`;
* `GetPrivate`, `SetPrivate`, `ErasePrivate`, `EraseSpace`, `EraseAll`   as in the source;
* `UpdateConfFile`        the bytes that are written to the file, without a cipher;
* `LoadConfFile`          what is read of a file's bytes.
-/

namespace VncProxy

/-- `less<string>`: the bytes are compared as `unsigned char` -/
def less : List Byte → List Byte → Prop := List.Lex fun a b => a.toNat < b.toNat

instance : DecidableRel less := List.Lex.decidableRel _

instance : IsStrictTotalOrder Byte fun a b => a.toNat < b.toNat where
  irrefl a := Nat.lt_irrefl a.toNat
  trans _ _ _ := Nat.lt_trans
  trichotomous _ _ h h' := BitVec.eq_of_toNat_eq (Nat.le_antisymm (Nat.not_lt.mp h') (Nat.not_lt.mp h))

theorem lex_total {r : Byte → Byte → Prop} [IsStrictTotalOrder Byte r] :
    IsStrictTotalOrder (List Byte) (List.Lex r) :=
  { isStrictWeakOrder_of_isOrderConnected with }

instance : IsStrictTotalOrder (List Byte) less := lex_total

abbrev ConfMap := OrdMap less (List Byte)

def BUFFER_SIZE_4K : Nat := 4096

structure ConfFile where
  m_MapFileSet : ConfMap

/-- `strSpace + "\t" + strKey` -/
def spaceKey (strSpace strKey : List Byte) : List Byte := strSpace ++ 9 :: strKey

namespace ConfFile

def new : ConfFile := ⟨.empty⟩

def GetPrivate (c : ConfFile) (strSpace strKey strDefault : List Byte) : List Byte :=
  match c.m_MapFileSet.find? (spaceKey strSpace strKey) with
  | some strValue => strValue
  | none => strDefault

def SetPrivate (c : ConfFile) (strSpace strKey strValue : List Byte) : ConfFile :=
  match c.m_MapFileSet.find? (spaceKey strSpace strKey) with
  | some _ => ⟨c.m_MapFileSet.put (spaceKey strSpace strKey) strValue⟩
  | none => ⟨c.m_MapFileSet.insert (spaceKey strSpace strKey) strValue⟩

def ErasePrivate (c : ConfFile) (strSpace strKey : List Byte) : ConfFile :=
  ⟨c.m_MapFileSet.erase (spaceKey strSpace strKey)⟩

/-- the keys are compared with `strcmp` -/
def EraseSpace (c : ConfFile) (strSpace : List Byte) : ConfFile :=
  if c.m_MapFileSet.entries.length < 1 then c
  else
    let strSpaceEntry := strSpace ++ [9]
    ⟨c.m_MapFileSet.filter fun strSpaceKey => cstr strSpaceEntry ≠ cstr strSpaceKey⟩

def EraseAll (_ : ConfFile) : ConfFile := ⟨.empty⟩

/-! ## the file -/

/-- `strSpaceKey.substr(0, strSpaceKey.find("\t"))` -/
def spacePart (strSpaceKey : List Byte) : List Byte :=
  match find [9] strSpaceKey with
  | some pos => strSpaceKey.take pos
  | none => strSpaceKey

/-- `strSpaceKey.substr(strSpaceKey.find("\t") + 1, strSpaceKey.length())`, where `npos + 1` is 0 -/
def keyPart (strSpaceKey : List Byte) : List Byte :=
  match find [9] strSpaceKey with
  | some pos => strSpaceKey.drop (pos + 1)
  | none => strSpaceKey

/-- the lines that are written for the entries, behind those of `strSpace` -/
def UpdateLines : List Byte → List (List Byte × List Byte) → List Byte
  | _, [] => []
  | strSpace, (strSpaceKey, strValue) :: info =>
    let strSpaceTmp := spacePart strSpaceKey
    let strKey := keyPart strSpaceKey ++ 61 :: strValue ++ [10]
    if strSpace ≠ strSpaceTmp then
      91 :: strSpaceTmp ++ [93, 10] ++ strKey ++ UpdateLines strSpaceTmp info
    else strKey ++ UpdateLines strSpace info

def UpdateConfFile (c : ConfFile) : List Byte := UpdateLines [] c.m_MapFileSet.entries

/-- `fgets(cLine, n, fd)`: the line and what is left of the file -/
def fgets (n : Nat) (file : List Byte) : Option (List Byte × List Byte) :=
  if file = [] then none
  else
    let len := min (n - 1) ((find [10] file).elim file.length (· + 1))
    some (file.take len, file.drop len)

/-- `"=\n"` -/
def isDelimiter (b : Byte) : Bool := decide (b = 61) || decide (b = 10)

/-- the tokens `strtok` returns for these delimiters -/
def tokens (cLine : List Byte) : List (List Byte) := (cLine.splitOnP isDelimiter).filter (· ≠ [])

/-- one pass of the loop over the lines; `cLine[strlen(cLine) - 2]` is not read in front of the array -/
def LoadLine (m : ConfMap) (strSpace cLine : List Byte) : ConfMap × List Byte :=
  let cLine := cstr cLine
  if cLine.length < 1 then (m, strSpace)
  else if cLine[0]? = some 35 then (m, strSpace)
  else if cLine[0]? = some 91 ∧ 2 ≤ cLine.length ∧ cLine[cLine.length - 2]? = some 93 then
    (m, (cLine.take (cLine.length - 2)).drop 1)
  else
    let strKey := (tokens cLine)[0]?.getD []
    let strValue := (tokens cLine)[1]?.getD []
    (m.insert (spaceKey strSpace strKey) strValue, strSpace)

def LoadLines : Nat → ConfMap → List Byte → List Byte → ConfMap
  | 0, m, _, _ => m
  | fuel + 1, m, strSpace, file =>
    match fgets BUFFER_SIZE_4K file with
    | none => m
    | some (cLine, file) =>
      let (m, strSpace) := LoadLine m strSpace cLine
      LoadLines fuel m strSpace file

/-- with the file's bytes -/
def LoadConfFile (c : ConfFile) (file : List Byte) : ConfFile :=
  ⟨LoadLines file.length c.m_MapFileSet [] file⟩

/-! ## what is found -/

theorem GetPrivate_eq (c : ConfFile) (strSpace strKey strDefault : List Byte) :
    c.GetPrivate strSpace strKey strDefault =
      (c.m_MapFileSet.find? (spaceKey strSpace strKey)).getD strDefault := by
  unfold GetPrivate
  cases c.m_MapFileSet.find? (spaceKey strSpace strKey) <;> rfl

theorem SetPrivate_find (c : ConfFile) (strSpace strKey strValue k : List Byte) :
    (c.SetPrivate strSpace strKey strValue).m_MapFileSet.find? k =
      if k = spaceKey strSpace strKey then some strValue else c.m_MapFileSet.find? k := by
  unfold SetPrivate
  cases hfind : c.m_MapFileSet.find? (spaceKey strSpace strKey) with
  | none => rw [OrdMap.find?_insert, hfind, Option.getD_none]
  | some v => rw [OrdMap.find?_put]

theorem EraseSpace_find (c : ConfFile) (strSpace k : List Byte) :
    (c.EraseSpace strSpace).m_MapFileSet.find? k =
      if cstr k = cstr (strSpace ++ [9]) then none else c.m_MapFileSet.find? k := by
  unfold EraseSpace
  split
  · next hlen =>
    have hnone : c.m_MapFileSet.find? k = none := by
      rw [OrdMap.find?_eq_none, List.eq_nil_of_length_eq_zero (Nat.lt_one_iff.mp hlen)]
      exact fun _ => List.not_mem_nil
    rw [hnone, ite_self]
  · rw [OrdMap.find?_filter]
    by_cases h : cstr k = cstr (strSpace ++ [9])
    · rw [if_pos h, if_neg (by simpa using h.symm)]
    · rw [if_neg h, if_pos (by simpa using Ne.symm h)]

/-- a configuration is what is found in it, whatever the default -/
theorem getD_inj {v v' : Option (List Byte)} (h : ∀ d, v.getD d = v'.getD d) : v = v' := by
  cases v with
  | none =>
    cases v' with
    | none => rfl
    | some w =>
      have h0 : [] = w := h []
      have h1 : [0] = w := h [0]
      rw [← h0] at h1
      cases h1
  | some w =>
    cases v' with
    | none =>
      have h0 : w = [] := h []
      have h1 : w = [0] := h [0]
      rw [h0] at h1
      cases h1
    | some w' => exact congrArg some (h [])

end ConfFile

end VncProxy
