import VncProxy.Common.ConfFile

/-!
# Saving and loading a configuration

* `Setting`          the names and values of which a file can be written;
* `valueToken`       what is read of a value: the part up to the first `=` in it;
* `LoadLine_section`, `LoadLine_entry`   what the two kinds of line are read as;
* `LoadLines_update` the lines that were written are read back;
* `saved_iff`        a file gives the same configuration just when no value has an `=`.
-/

namespace VncProxy

/-- a name that can stand in front of an `=` or between brackets -/
structure PlainName (name : List Byte) : Prop where
  ne : name ≠ []
  bytes : ∀ b ∈ name, b ≠ 9 ∧ b ≠ 10 ∧ b ≠ 0 ∧ b ≠ 61 ∧ b ≠ 93
  start : name[0]? ≠ some 35 ∧ name[0]? ≠ some 91

theorem PlainName.single {b : Byte} (h : b ∉ [9, 10, 0, 61, 93, 35, 91]) : PlainName [b] := by
  simp only [List.mem_cons, List.not_mem_nil, or_false, not_or] at h
  obtain ⟨h9, h10, h0, h61, h93, h35, h91⟩ := h
  refine ⟨List.cons_ne_nil _ _, ?_, fun h => h35 (Option.some.inj h), fun h => h91 (Option.some.inj h)⟩
  intro b' hb'
  rw [List.mem_singleton.mp hb']
  exact ⟨h9, h10, h0, h61, h93⟩

/-- a value to be set, with lines that `fgets` reads at once -/
structure Setting where
  strSpace : List Byte
  strKey : List Byte
  strValue : List Byte
  space : PlainName strSpace
  key : PlainName strKey
  value : 10 ∉ strValue ∧ 0 ∉ strValue
  spaceLine : (91 :: strSpace ++ [93]).length < BUFFER_SIZE_4K - 1
  keyLine : (strKey ++ 61 :: strValue).length < BUFFER_SIZE_4K - 1

theorem Setting.entryLine (x : Setting) : 10 ∉ x.strKey ++ 61 :: x.strValue := by
  simp only [List.mem_append, List.mem_cons, not_or]
  exact ⟨fun h => (x.key.bytes 10 h).2.1 rfl, by decide, x.value.1⟩

theorem Setting.spaceLine_noNewline (x : Setting) : 10 ∉ 91 :: x.strSpace ++ [93] := by
  simp only [List.mem_append, List.mem_cons, List.not_mem_nil, or_false, not_or]
  exact ⟨⟨by decide, fun h => (x.space.bytes 10 h).2.1 rfl⟩, by decide⟩

namespace ConfFile

/-- the configuration the settings build -/
def build (l : List Setting) : ConfFile :=
  l.foldl (fun c x => c.SetPrivate x.strSpace x.strKey x.strValue) new

/-- what is read of a value -/
def valueToken (strValue : List Byte) : List Byte := (tokens strValue)[0]?.getD []

/-! ## tokens -/

theorem isDelimiter_of_ne {b : Byte} (h61 : b ≠ 61) (h10 : b ≠ 10) : isDelimiter b = false := by
  unfold isDelimiter
  rw [decide_eq_false h61, decide_eq_false h10]
  rfl

theorem tokens_entry {strKey : List Byte} (hkey : PlainName strKey) (strValue : List Byte) :
    tokens (strKey ++ 61 :: strValue ++ [10]) = strKey :: tokens strValue := by
  have hname : ∀ b ∈ strKey, isDelimiter b = false := by
    intro b hb
    obtain ⟨-, h10, -, h61, -⟩ := hkey.bytes b hb
    exact isDelimiter_of_ne h61 h10
  unfold tokens
  rw [List.append_assoc, List.cons_append,
    List.splitOnP_append_cons_of_forall_mem hname 61 (by decide),
    List.splitOnP_append_cons strValue [] (by decide), List.splitOnP_nil,
    List.filter_cons_of_pos (by simpa using hkey.ne), List.filter_append]
  exact congrArg _ (List.append_nil _)

theorem not_mem_splitOnP {p : Byte → Bool} {s t : List Byte} (ht : t ∈ s.splitOnP p) :
    ∀ b ∈ t, p b = false := by
  induction s generalizing t with
  | nil =>
    rw [List.splitOnP_nil, List.mem_singleton] at ht
    subst ht
    exact nofun
  | cons c s ih =>
    rw [List.splitOnP_cons_eq_if_modifyHead] at ht
    split at ht
    · rcases List.mem_cons.mp ht with rfl | ht
      · exact nofun
      · exact ih ht
    · next hc =>
      obtain ⟨w, l, hl⟩ := List.exists_cons_of_ne_nil (List.splitOnP_ne_nil (p := p) s)
      rw [hl, List.modifyHead_cons] at ht
      rw [hl] at ih
      rcases List.mem_cons.mp ht with rfl | ht
      · intro b hb
        rcases List.mem_cons.mp hb with rfl | hb
        · exact Bool.eq_false_iff.mpr hc
        · exact ih (List.mem_cons_self ..) b hb
      · exact ih (List.mem_cons_of_mem _ ht)

/-- **A value is read as it is, just when** there is no `=` in it. -/
theorem valueToken_eq {strValue : List Byte} (h10 : 10 ∉ strValue) :
    valueToken strValue = strValue ↔ 61 ∉ strValue := by
  constructor
  · intro heq h61
    unfold valueToken at heq
    cases htoken : (tokens strValue)[0]? with
    | none =>
      rw [htoken, Option.getD_none] at heq
      rw [← heq] at h61
      cases h61
    | some t =>
      rw [htoken, Option.getD_some] at heq
      subst heq
      have hmem := (List.mem_filter.mp (List.mem_of_getElem? htoken)).1
      exact absurd (not_mem_splitOnP hmem 61 h61) (by decide)
  · intro h61
    have hnone : ∀ b ∈ strValue, isDelimiter b = false := by
      intro b hb
      exact isDelimiter_of_ne (fun h => h61 (h ▸ hb)) fun h => h10 (h ▸ hb)
    unfold valueToken tokens
    rw [List.splitOnP_eq_singleton hnone]
    by_cases hnil : strValue = []
    · rw [hnil]
      rfl
    · rw [List.filter_cons_of_pos (by simpa using hnil)]
      rfl

/-! ## lines -/

theorem fgets_line {line : List Byte} (h10 : 10 ∉ line) (hlen : line.length < BUFFER_SIZE_4K - 1)
    (file : List Byte) : fgets BUFFER_SIZE_4K (line ++ 10 :: file) = some (line ++ [10], file) := by
  unfold fgets
  rw [if_neg (by simp), find_byte h10]
  have hsplit : line ++ 10 :: file = (line ++ [10]) ++ file := by simp
  have hcount : min (BUFFER_SIZE_4K - 1) (line.length + 1) = (line ++ [10]).length := by
    rw [Nat.min_eq_right hlen, List.length_append]
    rfl
  show some ((line ++ 10 :: file).take (min (BUFFER_SIZE_4K - 1) (line.length + 1)),
    (line ++ 10 :: file).drop (min (BUFFER_SIZE_4K - 1) (line.length + 1))) = _
  rw [hsplit, hcount, List.take_left, List.drop_left]

/-- **The line of a space** is read as its name. -/
theorem LoadLine_section (m : ConfMap) (old : List Byte) {strSpace : List Byte}
    (h : PlainName strSpace) :
    LoadLine m old (91 :: strSpace ++ [93] ++ [10]) = (m, strSpace) := by
  have hcstr : cstr (91 :: strSpace ++ [93] ++ [10]) = 91 :: strSpace ++ [93] ++ [10] := by
    refine cstr_of_not_mem ?_
    simp only [List.mem_append, List.mem_cons, List.not_mem_nil, or_false, not_or]
    exact ⟨⟨⟨by decide, fun h0 => (h.bytes 0 h0).2.2.1 rfl⟩, by decide⟩, by decide⟩
  have hlen : (91 :: strSpace ++ [93] ++ [10]).length - 2 = (91 :: strSpace).length := by simp
  have hlast : (91 :: strSpace ++ [93] ++ [10])[(91 :: strSpace ++ [93] ++ [10]).length - 2]? =
      some 93 := by
    rw [hlen, List.append_assoc, List.getElem?_append_right (Nat.le_refl _), Nat.sub_self]
    rfl
  have htake : ((91 :: strSpace ++ [93] ++ [10]).take
      ((91 :: strSpace ++ [93] ++ [10]).length - 2)).drop 1 = strSpace := by
    rw [hlen, List.append_assoc, List.take_left]
    rfl
  unfold LoadLine
  rw [hcstr]
  dsimp only
  rw [if_neg (by simp), if_neg (by simp), if_pos ⟨rfl, by simp, hlast⟩, htake]

/-- **The line of a key** is read as its name and a value. -/
theorem LoadLine_entry (m : ConfMap) (strSpace : List Byte) {strKey strValue : List Byte}
    (hkey : PlainName strKey) (hvalue : 0 ∉ strValue) :
    LoadLine m strSpace (strKey ++ 61 :: strValue ++ [10]) =
      (m.insert (spaceKey strSpace strKey) (valueToken strValue), strSpace) := by
  have hcstr : cstr (strKey ++ 61 :: strValue ++ [10]) = strKey ++ 61 :: strValue ++ [10] := by
    refine cstr_of_not_mem ?_
    simp only [List.mem_append, List.mem_cons, List.not_mem_nil, or_false, not_or]
    exact ⟨⟨fun h0 => (hkey.bytes 0 h0).2.2.1 rfl, by decide, hvalue⟩, by decide⟩
  have hfirst : (strKey ++ 61 :: strValue ++ [10])[0]? = strKey[0]? := by
    rw [List.append_assoc, List.getElem?_append_left (List.length_pos_iff.mpr hkey.ne)]
  unfold LoadLine
  rw [hcstr]
  dsimp only
  rw [if_neg (by simp), if_neg (hfirst ▸ hkey.start.1), if_neg fun h => hkey.start.2 (hfirst ▸ h.1),
    tokens_entry hkey]
  rfl

/-! ## the file -/

theorem LoadLines_line {m m' : ConfMap} {strSpace strSpace' line : List Byte} (h10 : 10 ∉ line)
    (hlen : line.length < BUFFER_SIZE_4K - 1)
    (hline : LoadLine m strSpace (line ++ [10]) = (m', strSpace')) (fuel : Nat) (file : List Byte) :
    LoadLines (fuel + 1) m strSpace (line ++ [10] ++ file) = LoadLines fuel m' strSpace' file := by
  have hsplit : line ++ [10] ++ file = line ++ 10 :: file := by simp
  rw [hsplit, LoadLines, fgets_line h10 hlen]
  dsimp only
  rw [hline]

/-- what the entry was set with -/
structure FromSetting (e : List Byte × List Byte) (x : Setting) : Prop where
  key : e.1 = spaceKey x.strSpace x.strKey
  value : e.2 = x.strValue

theorem UpdateLines_cons (strSpace : List Byte) {e : List Byte × List Byte} {x : Setting}
    (he : FromSetting e x) (info : List (List Byte × List Byte)) :
    UpdateLines strSpace (e :: info) =
      (if strSpace ≠ x.strSpace then 91 :: x.strSpace ++ [93] ++ [10] else []) ++
        (x.strKey ++ 61 :: x.strValue ++ [10] ++ UpdateLines x.strSpace info) := by
  obtain ⟨k, v⟩ := e
  obtain ⟨rfl, rfl⟩ := he
  have hfind : find [9] (spaceKey x.strSpace x.strKey) = some x.strSpace.length :=
    find_byte (fun h => (x.space.bytes 9 h).1 rfl) _
  have hspace : spacePart (spaceKey x.strSpace x.strKey) = x.strSpace := by
    unfold spacePart
    rw [hfind]
    exact List.take_left
  have hkey : keyPart (spaceKey x.strSpace x.strKey) = x.strKey := by
    unfold keyPart
    rw [hfind]
    dsimp only
    unfold spaceKey
    rw [← List.drop_drop, List.drop_left]
    rfl
  simp only [UpdateLines, hspace, hkey]
  by_cases h : strSpace = x.strSpace
  · rw [if_neg (not_not.mpr h), if_neg (not_not.mpr h), h, List.nil_append]
  · rw [if_pos h, if_pos h]
    simp

/-- **The lines that were written are read back**, with the tokens of the values. -/
theorem LoadLines_update {info : List (List Byte × List Byte)}
    (hinfo : ∀ e ∈ info, ∃ x, FromSetting e x) (m : ConfMap) (strSpace : List Byte) {fuel : Nat}
    (hfuel : (UpdateLines strSpace info).length ≤ fuel) :
    LoadLines fuel m strSpace (UpdateLines strSpace info) =
      info.foldl (fun m e => m.insert e.1 (valueToken e.2)) m := by
  induction info generalizing m strSpace fuel with
  | nil =>
    cases fuel with
    | zero => rfl
    | succ fuel => rfl
  | cons e info ih =>
    obtain ⟨x, he⟩ := hinfo e (List.mem_cons_self ..)
    have hrest := ih (fun e h => hinfo e (List.mem_cons_of_mem _ h))
    -- the line of the key, when the space is known
    have hentry : ∀ {fuel : Nat} m,
        (x.strKey ++ 61 :: x.strValue ++ [10] ++ UpdateLines x.strSpace info).length ≤ fuel →
        LoadLines fuel m x.strSpace
          (x.strKey ++ 61 :: x.strValue ++ [10] ++ UpdateLines x.strSpace info) =
            (e :: info).foldl (fun m e => m.insert e.1 (valueToken e.2)) m := by
      intro fuel m hfuel
      rw [List.length_append, List.length_append, List.length_singleton] at hfuel
      obtain ⟨fuel, rfl⟩ : ∃ n, fuel = n + 1 := ⟨fuel - 1, by omega⟩
      rw [LoadLines_line x.entryLine x.keyLine (LoadLine_entry m _ x.key x.value.2),
        hrest _ _ (by omega), List.foldl_cons, he.key, he.value]
    rw [UpdateLines_cons strSpace he info] at hfuel ⊢
    by_cases h : strSpace = x.strSpace
    · rw [if_neg (not_not.mpr h), List.nil_append] at hfuel ⊢
      rw [h]
      exact hentry m hfuel
    · rw [if_pos h] at hfuel ⊢
      simp only [List.length_append, List.length_singleton] at hfuel
      obtain ⟨fuel, rfl⟩ : ∃ n, fuel = n + 1 := ⟨fuel - 1, by omega⟩
      rw [LoadLines_line x.spaceLine_noNewline x.spaceLine (LoadLine_section m _ x.space)]
      refine hentry m ?_
      simp only [List.length_append, List.length_singleton]
      omega

theorem build_entries (l : List Setting) : ∀ e ∈ (build l).m_MapFileSet.entries,
    ∃ x, FromSetting e x := by
  unfold build
  induction l using List.reverseRecOn with
  | nil => exact nofun
  | append_singleton l x ih =>
    rintro ⟨k, v⟩ he
    rw [List.foldl_append] at he
    have hfind := (OrdMap.find?_eq_some _).mpr he
    change (ConfFile.SetPrivate _ x.strSpace x.strKey x.strValue).m_MapFileSet.find? k = some v
      at hfind
    rw [SetPrivate_find] at hfind
    split at hfind
    · next hk => exact ⟨x, hk, (Option.some.inj hfind).symm⟩
    · exact ih (k, v) ((OrdMap.find?_eq_some _).mp hfind)

/-- **What is found after saving and loading.** -/
theorem load_find (l : List Setting) (k : List Byte) :
    (new.LoadConfFile (build l).UpdateConfFile).m_MapFileSet.find? k =
      ((build l).m_MapFileSet.find? k).map valueToken := by
  have hload : (new.LoadConfFile (build l).UpdateConfFile).m_MapFileSet =
      (build l).m_MapFileSet.entries.foldl (fun m e => m.insert e.1 (valueToken e.2)) .empty :=
    LoadLines_update (build_entries l) _ _ (Nat.le_refl _)
  rw [hload, OrdMap.find?_foldl_insert, OrdMap.find?_empty, Option.none_or]
  unfold OrdMap.find?
  rw [Option.map_map]
  rfl

end ConfFile

/-- **A saved configuration gives the same values when it is loaded, just when** no value has an `=`. -/
theorem saved_iff (l : List Setting) : (∀ strSpace strKey strDefault,
    (ConfFile.new.LoadConfFile (ConfFile.build l).UpdateConfFile).GetPrivate strSpace strKey strDefault =
      (ConfFile.build l).GetPrivate strSpace strKey strDefault) ↔
    ∀ e ∈ (ConfFile.build l).m_MapFileSet.entries, 61 ∉ e.2 := by
  constructor
  · rintro h ⟨k, v⟩ he
    obtain ⟨x, hk, hv⟩ := ConfFile.build_entries l _ he
    have hfind := (OrdMap.find?_eq_some _).mpr he
    have heq : (ConfFile.new.LoadConfFile (ConfFile.build l).UpdateConfFile).m_MapFileSet.find?
        (spaceKey x.strSpace x.strKey) = (ConfFile.build l).m_MapFileSet.find?
          (spaceKey x.strSpace x.strKey) := by
      refine ConfFile.getD_inj fun d => ?_
      rw [← ConfFile.GetPrivate_eq, ← ConfFile.GetPrivate_eq]
      exact h x.strSpace x.strKey d
    rw [ConfFile.load_find, ← show k = _ from hk, hfind] at heq
    have hvalue : v = x.strValue := hv
    exact (ConfFile.valueToken_eq (hvalue ▸ x.value.1)).mp (Option.some.inj heq)
  · intro h strSpace strKey strDefault
    rw [ConfFile.GetPrivate_eq, ConfFile.GetPrivate_eq, ConfFile.load_find]
    congr 1
    cases hfind : (ConfFile.build l).m_MapFileSet.find? (spaceKey strSpace strKey) with
    | none => rfl
    | some v =>
      have he := (OrdMap.find?_eq_some _).mp hfind
      obtain ⟨x, -, hv⟩ := ConfFile.build_entries l _ he
      have hvalue : v = x.strValue := hv
      exact congrArg some ((ConfFile.valueToken_eq (hvalue ▸ x.value.1)).mpr (h _ he))

/-- **A value with an `=`** is cut off there. -/
theorem not_saved : ¬ ∀ (l : List Setting) strSpace strKey strDefault,
    (ConfFile.new.LoadConfFile (ConfFile.build l).UpdateConfFile).GetPrivate strSpace strKey strDefault =
      (ConfFile.build l).GetPrivate strSpace strKey strDefault := by
  intro hall
  have hget := hall [⟨[115], [107], ascii "a=b", .single (by decide), .single (by decide),
    by decide, by decide, by decide⟩] [115] [107] []
  exact absurd hget (by decide +kernel)

end VncProxy
