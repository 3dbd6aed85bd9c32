import VncProxy.Common.ConfFile
import VncProxy.Lib.Run

/-!
# A map of two levels

* `valueAfter`      the value of the last `SetPrivate` of a key that was not erased;
* `Configured`      a `ConfFile` and the operations done to it;
* `Refines`         it gives these values;
* `refines_step`    it does so after an operation, just when `EraseSpace` erases the keys of its space;
* `refines_iff`     the condition for all operations.
-/

namespace VncProxy

/-- a space or a key: a string without a tab -/
structure Name where
  bytes : List Byte
  noTab : 9 ∉ bytes
deriving DecidableEq

inductive ConfOp where
  | SetPrivate (strSpace strKey : Name) (strValue : List Byte)
  | ErasePrivate (strSpace strKey : Name)
  | EraseSpace (strSpace : Name)
  | EraseAll

/-! ## the two levels -/

/-- what an operation makes of the value under a key of a space -/
def ConfOp.value (strSpace strKey : Name) (old : Option (List Byte)) : ConfOp → Option (List Byte)
  | .SetPrivate s k strValue => if s = strSpace ∧ k = strKey then some strValue else old
  | .ErasePrivate s k => if s = strSpace ∧ k = strKey then none else old
  | .EraseSpace s => if s = strSpace then none else old
  | .EraseAll => none

/-- the value under a key of a space after the operations -/
def valueAfter (l : List ConfOp) (strSpace strKey : Name) : Option (List Byte) :=
  l.foldl (fun old op => op.value strSpace strKey old) none

/-- the operation is for this key, for its space or for all -/
def ConfOp.Concerns (strSpace strKey : Name) : ConfOp → Prop
  | .SetPrivate s k _ => s = strSpace ∧ k = strKey
  | .ErasePrivate s k => s = strSpace ∧ k = strKey
  | .EraseSpace s => s = strSpace
  | .EraseAll => True

theorem valueAfter_append (l : List ConfOp) (op : ConfOp) (strSpace strKey : Name) :
    valueAfter (l ++ [op]) strSpace strKey = op.value strSpace strKey (valueAfter l strSpace strKey) := by
  unfold valueAfter
  rw [List.foldl_append]
  rfl

theorem ConfOp.value_of_not {strSpace strKey : Name} {op : ConfOp} (h : ¬ op.Concerns strSpace strKey)
    (old : Option (List Byte)) : op.value strSpace strKey old = old := by
  cases op with
  | SetPrivate s k v => exact if_neg h
  | ErasePrivate s k => exact if_neg h
  | EraseSpace s => exact if_neg h
  | EraseAll => exact absurd trivial h

/-- **The value is that of the last `SetPrivate`**, and nothing behind it is for the key. -/
theorem valueAfter_eq_some {l : List ConfOp} {strSpace strKey : Name} {v : List Byte} :
    valueAfter l strSpace strKey = some v ↔ ∃ l1 l2, l = l1 ++ .SetPrivate strSpace strKey v :: l2 ∧
      ∀ op ∈ l2, ¬ op.Concerns strSpace strKey := by
  constructor
  · intro h
    induction l using List.reverseRecOn with
    | nil => cases h
    | append_singleton l op ih =>
      rw [valueAfter_append] at h
      by_cases hop : op.Concerns strSpace strKey
      · -- the last operation is for the key: it has set the value
        cases op with
        | SetPrivate s k w =>
          obtain ⟨rfl, rfl⟩ := hop
          rw [show ConfOp.value s k _ (.SetPrivate s k w) = some w from if_pos ⟨rfl, rfl⟩] at h
          obtain rfl := Option.some.inj h
          exact ⟨l, [], rfl, nofun⟩
        | ErasePrivate s k =>
          rw [show ConfOp.value strSpace strKey _ (.ErasePrivate s k) = none from if_pos hop] at h
          cases h
        | EraseSpace s =>
          rw [show ConfOp.value strSpace strKey _ (.EraseSpace s) = none from if_pos hop] at h
          cases h
        | EraseAll => cases h
      · rw [ConfOp.value_of_not hop] at h
        obtain ⟨l1, l2, rfl, hl2⟩ := ih h
        refine ⟨l1, l2 ++ [op], by rw [List.append_assoc]; rfl, fun op' hop' => ?_⟩
        rcases List.mem_append.mp hop' with hop' | hop'
        · exact hl2 op' hop'
        · exact List.mem_singleton.mp hop' ▸ hop
  · rintro ⟨l1, l2, rfl, hl2⟩
    induction l2 using List.reverseRecOn with
    | nil =>
      rw [valueAfter_append]
      exact if_pos ⟨rfl, rfl⟩
    | append_singleton l2 op ih =>
      rw [← List.cons_append, ← List.append_assoc, valueAfter_append,
        ConfOp.value_of_not (hl2 op (List.mem_append_right _ (List.mem_singleton_self _)))]
      exact ih fun op' hop' => hl2 op' (List.mem_append_left _ hop')

/-! ## the flat keys -/

/-- the tab separates the names -/
theorem spaceKey_inj {s k s' k' : Name} :
    spaceKey s.bytes k.bytes = spaceKey s'.bytes k'.bytes ↔ s = s' ∧ k = k' := by
  unfold spaceKey
  rw [List.append_cons_inj_of_notMem s.noTab k.noTab, Name.mk.injEq, Name.mk.injEq,
    eq_self_iff_true, true_and]

/-! ## the refinement -/

/-- a `ConfFile` and the operations that were done to it -/
structure Configured where
  conf : ConfFile
  done : List ConfOp

def ConfFile.apply (c : ConfFile) : ConfOp → ConfFile
  | .SetPrivate strSpace strKey strValue => c.SetPrivate strSpace.bytes strKey.bytes strValue
  | .ErasePrivate strSpace strKey => c.ErasePrivate strSpace.bytes strKey.bytes
  | .EraseSpace strSpace => c.EraseSpace strSpace.bytes
  | .EraseAll => c.EraseAll

namespace Configured

def init : Configured := ⟨.new, []⟩

def step (s : Configured) (op : ConfOp) : Option Configured :=
  some ⟨s.conf.apply op, s.done ++ [op]⟩

/-- every `GetPrivate` gives the value of the map of two levels -/
def Refines (s : Configured) : Prop := ∀ (strSpace strKey : Name) strDefault,
  s.conf.GetPrivate strSpace.bytes strKey.bytes strDefault =
    (valueAfter s.done strSpace strKey).getD strDefault

/-- every `GetPrivate` does so after the operation -/
def RefinesAfter (s : Configured) (op : ConfOp) : Prop := ∀ s', s.step op = some s' → s'.Refines

/-- `strcmp` finds the keys of the space that is erased, and no others -/
def Separate (s : Configured) : ConfOp → Prop
  | .EraseSpace strSpace => ∀ s' k' : Name,
    s.conf.m_MapFileSet.find? (spaceKey s'.bytes k'.bytes) ≠ none →
      (cstr (spaceKey s'.bytes k'.bytes) = cstr (strSpace.bytes ++ [9]) ↔ s' = strSpace)
  | _ => True

theorem refines_iff_find {s : Configured} : s.Refines ↔ ∀ strSpace strKey : Name,
    s.conf.m_MapFileSet.find? (spaceKey strSpace.bytes strKey.bytes) =
      valueAfter s.done strSpace strKey := by
  constructor
  · intro h strSpace strKey
    refine ConfFile.getD_inj fun d => ?_
    rw [← ConfFile.GetPrivate_eq]
    exact h strSpace strKey d
  · intro h strSpace strKey d
    rw [ConfFile.GetPrivate_eq, h]

/-- what is found after an operation, if it does what it should -/
def Finds (s : Configured) (op : ConfOp) (strSpace strKey : Name) : Prop :=
  (s.conf.apply op).m_MapFileSet.find? (spaceKey strSpace.bytes strKey.bytes) =
    op.value strSpace strKey (s.conf.m_MapFileSet.find? (spaceKey strSpace.bytes strKey.bytes))

theorem finds_eraseSpace (s : Configured) (strSpace s' k' : Name) :
    s.Finds (.EraseSpace strSpace) s' k' ↔
      (s.conf.m_MapFileSet.find? (spaceKey s'.bytes k'.bytes) ≠ none →
        (cstr (spaceKey s'.bytes k'.bytes) = cstr (strSpace.bytes ++ [9]) ↔ s' = strSpace)) := by
  show (s.conf.EraseSpace strSpace.bytes).m_MapFileSet.find? _ =
    (if strSpace = s' then none else s.conf.m_MapFileSet.find? _) ↔ _
  rw [ConfFile.EraseSpace_find, eq_comm (a := s')]
  cases s.conf.m_MapFileSet.find? (spaceKey s'.bytes k'.bytes) with
  | none =>
    rw [ite_self, ite_self]
    exact iff_of_true rfl fun h => absurd rfl h
  | some v =>
    rw [forall_prop_of_true (Option.some_ne_none v)]
    by_cases hkey : cstr (spaceKey s'.bytes k'.bytes) = cstr (strSpace.bytes ++ [9])
    · rw [if_pos hkey, iff_true_left hkey]
      by_cases hspace : strSpace = s'
      · rw [if_pos hspace]
        exact iff_of_true rfl hspace
      · rw [if_neg hspace]
        exact iff_of_false nofun hspace
    · rw [if_neg hkey, iff_false_left hkey]
      by_cases hspace : strSpace = s'
      · rw [if_pos hspace]
        exact iff_of_false nofun fun h => h hspace
      · rw [if_neg hspace]
        exact iff_of_true rfl hspace

/-- **An operation does what it should**, just when `EraseSpace` finds the keys of its space. -/
theorem finds_iff (s : Configured) (op : ConfOp) : (∀ s' k', s.Finds op s' k') ↔ s.Separate op := by
  cases op with
  | SetPrivate strSpace strKey strValue =>
    refine iff_of_true (fun s' k' => ?_) trivial
    show (s.conf.SetPrivate _ _ _).m_MapFileSet.find? _ =
      if strSpace = s' ∧ strKey = k' then some strValue else _
    rw [ConfFile.SetPrivate_find]
    exact if_congr (spaceKey_inj.trans (and_congr eq_comm eq_comm)) rfl rfl
  | ErasePrivate strSpace strKey =>
    refine iff_of_true (fun s' k' => ?_) trivial
    show (s.conf.m_MapFileSet.erase _).find? _ = if strSpace = s' ∧ strKey = k' then none else _
    rw [OrdMap.find?_erase]
    exact if_congr (spaceKey_inj.trans (and_congr eq_comm eq_comm)) rfl rfl
  | EraseSpace strSpace => exact forall₂_congr fun s' k' => s.finds_eraseSpace strSpace s' k'
  | EraseAll => exact iff_of_true (fun s' k' => rfl) trivial

/-- **An operation keeps the values**, just when `EraseSpace` finds the keys of its space. -/
theorem refines_step {s : Configured} (hs : s.Refines) (op : ConfOp) :
    s.RefinesAfter op ↔ s.Separate op := by
  have hafter : s.RefinesAfter op ↔ ∀ s' k', s.Finds op s' k' := by
    have hone : s.RefinesAfter op ↔ Refines ⟨s.conf.apply op, s.done ++ [op]⟩ := by
      constructor
      · exact fun h => h _ rfl
      · intro h s' hs'
        obtain rfl := Option.some.inj hs'
        exact h
    rw [hone, refines_iff_find]
    refine forall₂_congr fun s' k' => ?_
    unfold Finds
    rw [refines_iff_find.mp hs, valueAfter_append]
  rw [hafter, finds_iff]

theorem refines_init : init.Refines := fun _ _ _ => rfl

end Configured

/-- **Every `GetPrivate` gives the value that was set last and not erased, after every operation, just
when** each `EraseSpace` comes when `strcmp` takes no key that is there but those of its space, and all
of those, for its name with a tab behind it. -/
theorem refines_iff (l : List ConfOp) : RunOk Configured.step Configured.RefinesAfter .init l ↔
    RunOk Configured.step Configured.Separate .init l := by
  refine runOk_congr (I := Configured.Refines) ?_ (fun s op hs => Configured.refines_step hs op)
    Configured.refines_init l
  intro s op s' hs hsep h
  exact (Configured.refines_step hs op).mpr hsep s' h

/-- **A key that is not empty stays** when its space is erased. -/
theorem not_refines : ¬ ∀ l, RunOk Configured.step Configured.RefinesAfter .init l := by
  intro hall
  have hrun := hall [.SetPrivate ⟨ascii "s", by decide⟩ ⟨ascii "k", by decide⟩ (ascii "v"),
    .EraseSpace ⟨ascii "s", by decide⟩]
  have hget := (hrun.2 _ rfl).1 _ rfl ⟨ascii "s", by decide⟩ ⟨ascii "k", by decide⟩ []
  exact absurd hget (by decide +kernel)

end VncProxy
