import Mathlib.Data.Multiset.Count
import Mathlib.Data.Int.Basic
import Mathlib.Logic.Function.Basic

/-!
# Resources that are closed when their last reference goes

A table of resources, each with a reference counter and a flag `closeReq`.  The owner of a resource
retires it once: if the counter is 0 then, it is closed at once, otherwise the flag is set and
whoever brings the counter down to 0 closes it.  Closing is decided under a lock and carried out
afterwards, first the finaliser and then the release of the key, which may then be allocated again.

* `Table.Step`       the steps, with the guards under which the scheme works: a reference is
                     taken only while no close has been decided, and given back to the resource it
                     was taken for;
* `Table.Ok`         the invariant: the counter is the number of references held;
* `Table.Ok.step`    every step keeps it;
* `Table.Ok.refs_eq`, `closers_one`, `closing_unused`, `closed_once`  what it says.
-/

namespace VncProxy

/-- one entry of the table; `gen` counts the allocations of the key, `finals` and `frees` what was
done since the last one -/
structure Handle where
  live : Bool
  gen : Nat
  ready : Bool
  refs : Int
  closeReq : Bool
  retired : Bool
  decided : Bool
  finals : Nat
  frees : Nat
deriving DecidableEq

/-- `held` are the references: the key and the allocation they were taken for; `finalizing` and
`freeing` are the keys whose finaliser, whose release is still to be carried out -/
structure Table (κ : Type) where
  handle : κ → Handle
  held : Multiset (κ × Nat)
  finalizing : Multiset κ
  freeing : Multiset κ

/-! ## what the steps do to an entry -/

def Handle.alloc (h : Handle) : Handle :=
  { h with
    live := true
    gen := h.gen + 1
    ready := false
    retired := false
    decided := false
    finals := 0
    frees := 0 }

def Handle.setup (h : Handle) : Handle := { h with ready := true, refs := 0, closeReq := false }
def Handle.acquire (h : Handle) : Handle := { h with refs := h.refs + 1 }
def Handle.release (h : Handle) : Handle := { h with refs := h.refs - 1 }

/-- the one who gives this reference back has to close -/
def Handle.Last (h : Handle) : Prop := h.refs - 1 = 0 ∧ h.closeReq = true

def Handle.retire (h : Handle) : Handle := { h with retired := true, closeReq := true }
def Handle.decide (h : Handle) : Handle := { h with decided := true }
def Handle.retireNow (h : Handle) : Handle := { h with retired := true, decided := true }
def Handle.finalize (h : Handle) : Handle := { h with finals := h.finals + 1 }
def Handle.free (h : Handle) : Handle := { h with frees := h.frees + 1, live := false }

/-- in use, and no close of it has been decided -/
structure Handle.Usable (h : Handle) : Prop where
  live : h.live = true
  ready : h.ready = true
  decided : h.decided = false

section
variable {κ : Type} [DecidableEq κ]

def Table.set (t : Table κ) (k : κ) (h : Handle) : Table κ :=
  { t with handle := Function.update t.handle k h }

inductive Table.Step : Table κ → Table κ → Prop
  | alloc (t : Table κ) (k : κ) (h : (t.handle k).live = false) :
      Step t (t.set k (t.handle k).alloc)
  | setup (t : Table κ) (k : κ) (hlive : (t.handle k).live = true)
      (hready : (t.handle k).ready = false) : Step t (t.set k (t.handle k).setup)
  | acquire (t : Table κ) (k : κ) (h : (t.handle k).Usable) :
      Step t { t.set k (t.handle k).acquire with held := (k, (t.handle k).gen) ::ₘ t.held }
  | release (t : Table κ) (k : κ) (g : Nat) (rest : Multiset (κ × Nat))
      (hheld : t.held = (k, g) ::ₘ rest) (h : ¬ (t.handle k).Last) :
      Step t { t.set k (t.handle k).release with held := rest }
  | releaseLast (t : Table κ) (k : κ) (g : Nat) (rest : Multiset (κ × Nat))
      (hheld : t.held = (k, g) ::ₘ rest) (h : (t.handle k).Last) :
      Step t { t.set k (t.handle k).release.decide with
        held := rest
        finalizing := k ::ₘ t.finalizing }
  | retire (t : Table κ) (k : κ) (h : (t.handle k).Usable) (hretired : (t.handle k).retired = false)
      (hrefs : (t.handle k).refs ≠ 0) : Step t (t.set k (t.handle k).retire)
  | retireNow (t : Table κ) (k : κ) (h : (t.handle k).Usable)
      (hretired : (t.handle k).retired = false) (hrefs : (t.handle k).refs = 0) :
      Step t { t.set k (t.handle k).retireNow with finalizing := k ::ₘ t.finalizing }
  | finalize (t : Table κ) (k : κ) (rest : Multiset κ) (h : t.finalizing = k ::ₘ rest) :
      Step t { t.set k (t.handle k).finalize with finalizing := rest, freeing := k ::ₘ t.freeing }
  | free (t : Table κ) (k : κ) (rest : Multiset κ) (h : t.freeing = k ::ₘ rest) :
      Step t { t.set k (t.handle k).free with freeing := rest }

/-! ## the invariant -/

/-- one entry with `n` references, `f` finalisers and `r` releases to be carried out -/
structure Handle.Ok (h : Handle) (n f r : Nat) : Prop where
  refs : h.live = true → h.ready = true → h.refs = n
  flag : h.live = true → h.ready = true → h.decided = false → h.closeReq = h.retired
  waiting : h.live = true → h.retired = true → h.decided = false → 0 < n
  decided : h.decided = true → h.retired = true ∧ h.ready = true
  retired : h.retired = true → h.ready = true
  closers : f + r = if h.live = true ∧ h.decided = true then 1 else 0
  finals : h.finals + f = if h.decided = true then 1 else 0
  frees : h.frees ≤ 1 ∧ (h.live = true → h.frees = 0)

structure Table.Ok (t : Table κ) : Prop where
  holds : ∀ e ∈ t.held, (t.handle e.1).Usable ∧ (t.handle e.1).gen = e.2
  entry : ∀ k, (t.handle k).Ok (t.held.count (k, (t.handle k).gen)) (t.finalizing.count k)
    (t.freeing.count k)

theorem Table.set_self (t : Table κ) (k : κ) (h : Handle) : (t.set k h).handle k = h :=
  Function.update_self (β := fun _ => Handle) k h t.handle

theorem Table.set_other (t : Table κ) {k k' : κ} (h : Handle) (hk : k' ≠ k) :
    (t.set k h).handle k' = t.handle k' :=
  Function.update_of_ne (β := fun _ => Handle) hk h t.handle

/-- a table that differs from `t` in the entry `k` only -/
structure Table.Frame (t t' : Table κ) (k : κ) : Prop where
  handle : ∀ k', k' ≠ k → t'.handle k' = t.handle k'
  held : ∀ e, e.1 ≠ k → t'.held.count e = t.held.count e
  finalizing : ∀ k', k' ≠ k → t'.finalizing.count k' = t.finalizing.count k'
  freeing : ∀ k', k' ≠ k → t'.freeing.count k' = t.freeing.count k'

theorem Table.Ok.frame {t t' : Table κ} {k : κ} (h : t.Ok) (hf : t.Frame t' k)
    (hholds : ∀ g, (k, g) ∈ t'.held → (t'.handle k).Usable ∧ (t'.handle k).gen = g)
    (hentry : (t'.handle k).Ok (t'.held.count (k, (t'.handle k).gen)) (t'.finalizing.count k)
      (t'.freeing.count k)) : t'.Ok := by
  constructor
  · rintro ⟨k', g⟩ he
    by_cases hk : k' = k
    · subst hk
      exact hholds g he
    · show (t'.handle k').Usable ∧ (t'.handle k').gen = g
      rw [hf.handle k' hk]
      apply h.holds (k', g)
      rw [← Multiset.count_pos, ← hf.held (k', g) hk]
      exact Multiset.count_pos.mpr he
  · intro k'
    by_cases hk : k' = k
    · subst hk
      exact hentry
    · rw [hf.handle k' hk, hf.held (k', _) hk, hf.finalizing k' hk, hf.freeing k' hk]
      exact h.entry k'

/-! ## one entry -/

section
variable {h : Handle} {n f r : Nat}

theorem Handle.Ok.idle (hok : h.Ok n f r) (hlive : h.live = false ∨ h.decided = false) :
    f = 0 ∧ r = 0 := by
  have hc := hok.closers
  rw [if_neg (by rcases hlive with h1 | h1 <;> simp [h1])] at hc
  omega

theorem Handle.Ok.alloc (hok : h.Ok n f r) (hlive : h.live = false) : h.alloc.Ok 0 f r := by
  obtain ⟨rfl, rfl⟩ := hok.idle (.inl hlive)
  constructor <;> simp [Handle.alloc]

theorem Handle.Ok.setup (hok : h.Ok n f r) (hready : h.ready = false) : h.setup.Ok 0 f r := by
  have hret : h.retired = false := by
    by_contra hne
    rw [hok.retired (by simpa using hne)] at hready
    cases hready
  have hdec : h.decided = false := by
    by_contra hne
    rw [(hok.decided (by simpa using hne)).2] at hready
    cases hready
  obtain ⟨rfl, rfl⟩ := hok.idle (.inr hdec)
  refine ⟨by simp [Handle.setup], ?_, ?_, ?_, by simp [Handle.setup], ?_, ?_, hok.frees⟩
  · simp [Handle.setup, hret]
  · simp [Handle.setup, hret]
  · simp [Handle.setup, hdec]
  · simp [Handle.setup, hdec]
  · have := hok.finals
    simpa [Handle.setup, hdec] using this

theorem Handle.Ok.acquire (hok : h.Ok n f r) (hu : h.Usable) : h.acquire.Ok (n + 1) f r := by
  refine ⟨?_, hok.flag, fun _ _ _ => Nat.succ_pos n, hok.decided, hok.retired, hok.closers,
    hok.finals, hok.frees⟩
  intro _ _
  show h.refs + 1 = ((n + 1 : Nat) : Int)
  rw [hok.refs hu.live hu.ready]
  rfl

theorem Handle.Ok.release (hok : h.Ok (n + 1) f r) (hu : h.Usable) (hlast : ¬ h.Last) :
    h.release.Ok n f r := by
  have hrefs := hok.refs hu.live hu.ready
  refine ⟨?_, hok.flag, ?_, hok.decided, hok.retired, hok.closers, hok.finals, hok.frees⟩
  · intro _ _
    show h.refs - 1 = n
    omega
  · -- a retired entry has the flag set, so this reference is not the last one
    intro _ hret _
    have hflag := hok.flag hu.live hu.ready hu.decided
    have hne : h.refs - 1 ≠ 0 := fun h0 => hlast ⟨h0, hflag.trans hret⟩
    omega

theorem Handle.Ok.releaseLast (hok : h.Ok (n + 1) f r) (hu : h.Usable) (hlast : h.Last) :
    n = 0 ∧ h.release.decide.Ok n (f + 1) r := by
  have hrefs := hok.refs hu.live hu.ready
  have hret : h.retired = true := (hok.flag hu.live hu.ready hu.decided).symm.trans hlast.2
  obtain ⟨rfl, rfl⟩ := hok.idle (.inr hu.decided)
  have hfin := hok.finals
  rw [if_neg (by simp [hu.decided])] at hfin
  have hn : n = 0 := by
    have := hlast.1
    omega
  refine ⟨hn, ?_, ?_, ?_, ?_, hok.retired, ?_, ?_, hok.frees⟩
  · intro _ _
    show h.refs - 1 = n
    omega
  · intro _ _ hd
    cases hd
  · intro _ _ hd
    cases hd
  · exact fun _ => ⟨hret, hu.ready⟩
  · simp [Handle.decide, Handle.release, hu.live]
  · show h.finals + 1 = _
    simp only [Handle.decide, Handle.release, if_true]
    omega

theorem Handle.Ok.retire (hok : h.Ok n f r) (hu : h.Usable) (hrefs : h.refs ≠ 0) :
    h.retire.Ok n f r := by
  have hn := hok.refs hu.live hu.ready
  refine ⟨hok.refs, fun _ _ _ => rfl, ?_, fun hd => ⟨rfl, (hok.decided hd).2⟩,
    fun _ => hu.ready, hok.closers, hok.finals, hok.frees⟩
  intro _ _ _
  omega

theorem Handle.Ok.retireNow (hok : h.Ok n f r) (hu : h.Usable) (hrefs : h.refs = 0) :
    n = 0 ∧ h.retireNow.Ok n (f + 1) r := by
  have hn := hok.refs hu.live hu.ready
  obtain ⟨rfl, rfl⟩ := hok.idle (.inr hu.decided)
  have hfin := hok.finals
  rw [if_neg (by simp [hu.decided])] at hfin
  refine ⟨by omega, hok.refs, ?_, ?_, fun _ => ⟨rfl, hu.ready⟩, fun _ => hu.ready, ?_, ?_,
    hok.frees⟩
  · intro _ _ hd
    cases hd
  · intro _ _ hd
    cases hd
  · simp [Handle.retireNow, hu.live]
  · show h.finals + 1 = _
    simp only [Handle.retireNow, if_true]
    omega

theorem Handle.Ok.closing (hok : h.Ok n f r) (hpos : 0 < f + r) :
    h.live = true ∧ h.decided = true ∧ f + r = 1 := by
  have hc := hok.closers
  split at hc
  · next hd => exact ⟨hd.1, hd.2, hc⟩
  · omega

theorem Handle.Ok.finalize (hok : h.Ok n (f + 1) r) : h.finalize.Ok n f (r + 1) := by
  refine ⟨hok.refs, hok.flag, hok.waiting, hok.decided, hok.retired, ?_, ?_, hok.frees⟩
  · have := hok.closers
    show f + (r + 1) = _
    rw [show f + (r + 1) = f + 1 + r by omega]
    exact this
  · have := hok.finals
    show h.finals + 1 + f = _
    rw [show h.finals + 1 + f = h.finals + (f + 1) by omega]
    exact this

theorem Handle.Ok.free (hok : h.Ok n f (r + 1)) : h.free.Ok n f r := by
  obtain ⟨hlive, hdec, h1⟩ := hok.closing (by omega)
  have hfrees := hok.frees.2 hlive
  refine ⟨?_, ?_, ?_, hok.decided, hok.retired, ?_, hok.finals, ?_⟩
  · intro hl
    cases hl
  · intro hl
    cases hl
  · intro hl
    cases hl
  · simp only [Handle.free, Bool.false_eq_true, false_and, if_false]
    omega
  · refine ⟨?_, fun hl => by cases hl⟩
    show h.frees + 1 ≤ 1
    omega

end

/-! ## one step -/

variable {t t' : Table κ}

theorem Table.Ok.not_held (h : t.Ok) {k : κ} (hn : t.held.count (k, (t.handle k).gen) = 0) (g : Nat) :
    (k, g) ∉ t.held := by
  intro hmem
  have hg : (t.handle k).gen = g := (h.holds _ hmem).2
  rw [hg] at hn
  exact Multiset.count_eq_zero.mp hn hmem

theorem Table.Ok.not_held_of_unusable (h : t.Ok) {k : κ} (hu : ¬ (t.handle k).Usable) (g : Nat) :
    (k, g) ∉ t.held := fun hmem => hu (h.holds _ hmem).1

/-- the reference given back is one to the present use of its key -/
theorem Table.Ok.of_held (h : t.Ok) {k : κ} {g : Nat} {rest : Multiset (κ × Nat)}
    (hheld : t.held = (k, g) ::ₘ rest) : (t.handle k).Usable ∧
      t.held.count (k, (t.handle k).gen) = rest.count (k, (t.handle k).gen) + 1 ∧
      ∀ e ∈ rest, e ∈ t.held := by
  obtain ⟨hu, hg⟩ := h.holds (k, g) (by rw [hheld]; exact Multiset.mem_cons_self ..)
  replace hg : (t.handle k).gen = g := hg
  refine ⟨hu, by rw [hheld, hg, Multiset.count_cons_self], fun e he => ?_⟩
  rw [hheld]
  exact Multiset.mem_cons_of_mem he

/-- the other entries of a set lose nothing -/
theorem count_rest {α : Type} [DecidableEq α] {s rest : Multiset α} {a b : α} (h : s = a ::ₘ rest)
    (hb : b ≠ a) : rest.count b = s.count b := by
  rw [h, Multiset.count_cons_of_ne hb]

theorem Table.Ok.set (h : t.Ok) {k : κ} {e : Handle}
    (hholds : ∀ g, (k, g) ∈ t.held → e.Usable ∧ e.gen = g)
    (hentry : e.Ok (t.held.count (k, e.gen)) (t.finalizing.count k) (t.freeing.count k)) :
    (t.set k e).Ok := by
  refine h.frame (k := k) ⟨fun k' hk => t.set_other _ hk, fun _ _ => rfl, fun _ _ => rfl,
    fun _ _ => rfl⟩ ?_ ?_
  · rw [t.set_self]
    exact hholds
  · rw [t.set_self]
    exact hentry

/-- an entry that nothing refers to is changed -/
theorem Table.Ok.set_unused (h : t.Ok) {k : κ} {e : Handle} (hunused : ¬ (t.handle k).Usable)
    (hentry : e.Ok 0 (t.finalizing.count k) (t.freeing.count k)) : (t.set k e).Ok := by
  have hnone := h.not_held_of_unusable hunused
  refine h.set (fun g hg => absurd hg (hnone g)) ?_
  rw [Multiset.count_eq_zero.mpr (hnone _)]
  exact hentry

/-- **Every step keeps the invariant.** -/
theorem Table.Ok.step (h : t.Ok) (hstep : Table.Step t t') : t'.Ok := by
  cases hstep with
  | alloc k hlive => exact h.set_unused (fun hu => by simp [hu.live] at hlive) ((h.entry k).alloc hlive)
  | setup k hlive hready =>
    exact h.set_unused (fun hu => by simp [hu.ready] at hready) ((h.entry k).setup hready)
  | acquire k hu =>
    refine h.frame ⟨fun k' hk => t.set_other _ hk, ?_, fun _ _ => rfl, fun _ _ => rfl⟩ ?_ ?_
    · rintro ⟨k', g⟩ hk
      exact Multiset.count_cons_of_ne (fun he => hk (congrArg Prod.fst he)) t.held
    · intro g hg
      show ((t.set k _).handle k).Usable ∧ ((t.set k _).handle k).gen = g
      rw [t.set_self]
      refine ⟨⟨hu.live, hu.ready, hu.decided⟩, ?_⟩
      rcases Multiset.mem_cons.mp hg with he | he
      · exact (congrArg Prod.snd he).symm
      · exact (h.holds _ he).2
    · show ((t.set k _).handle k).Ok (((k, (t.handle k).gen) ::ₘ t.held).count
        (k, ((t.set k _).handle k).gen)) _ _
      rw [t.set_self]
      show (t.handle k).acquire.Ok (((k, (t.handle k).gen) ::ₘ t.held).count
        (k, (t.handle k).gen)) _ _
      rw [Multiset.count_cons_self]
      exact (h.entry k).acquire hu
  | release k g rest hheld hlast =>
    obtain ⟨hu, hcount, hsub⟩ := h.of_held hheld
    refine h.frame ⟨fun k' hk => t.set_other _ hk, ?_, fun _ _ => rfl, fun _ _ => rfl⟩ ?_ ?_
    · exact fun e hk => count_rest hheld fun he => hk (congrArg Prod.fst he)
    · intro g' hg
      show ((t.set k _).handle k).Usable ∧ ((t.set k _).handle k).gen = g'
      rw [t.set_self]
      exact ⟨⟨hu.live, hu.ready, hu.decided⟩, (h.holds _ (hsub _ hg)).2⟩
    · show ((t.set k _).handle k).Ok (rest.count (k, ((t.set k _).handle k).gen)) _ _
      rw [t.set_self]
      have hok := h.entry k
      rw [hcount] at hok
      exact hok.release hu hlast
  | releaseLast k g rest hheld hlast =>
    obtain ⟨hu, hcount, hsub⟩ := h.of_held hheld
    have hok := h.entry k
    rw [hcount] at hok
    obtain ⟨h0, hok'⟩ := hok.releaseLast hu hlast
    refine h.frame ⟨fun k' hk => t.set_other _ hk, ?_, ?_, fun _ _ => rfl⟩ ?_ ?_
    · exact fun e hk => count_rest hheld fun he => hk (congrArg Prod.fst he)
    · exact fun k' hk => Multiset.count_cons_of_ne hk t.finalizing
    · intro g' hg
      have hgen : (t.handle k).gen = g' := (h.holds _ (hsub _ hg)).2
      rw [hgen] at h0
      exact absurd hg (Multiset.count_eq_zero.mp h0)
    · show ((t.set k _).handle k).Ok (rest.count (k, ((t.set k _).handle k).gen))
        ((k ::ₘ t.finalizing).count k) _
      rw [t.set_self, Multiset.count_cons_self]
      exact hok'
  | retire k hu hretired hrefs =>
    refine h.set (fun g hg => ?_) ((h.entry k).retire hu hrefs)
    exact ⟨⟨hu.live, hu.ready, hu.decided⟩, (h.holds _ hg).2⟩
  | retireNow k hu hretired hrefs =>
    obtain ⟨h0, hok⟩ := (h.entry k).retireNow hu hrefs
    refine h.frame ⟨fun k' hk => t.set_other _ hk, fun _ _ => rfl, ?_, fun _ _ => rfl⟩
      (fun g hg => absurd hg (h.not_held h0 g)) ?_
    · exact fun k' hk => Multiset.count_cons_of_ne hk t.finalizing
    · show ((t.set k _).handle k).Ok (t.held.count (k, ((t.set k _).handle k).gen))
        ((k ::ₘ t.finalizing).count k) _
      rw [t.set_self, Multiset.count_cons_self]
      exact hok
  | finalize k rest hmem =>
    refine h.frame ⟨fun k' hk => t.set_other _ hk, fun _ _ => rfl, ?_, ?_⟩ ?_ ?_
    · exact fun k' hk => count_rest hmem hk
    · exact fun k' hk => Multiset.count_cons_of_ne hk t.freeing
    · intro g hg
      obtain ⟨hu, hgen⟩ := h.holds _ hg
      show ((t.set k _).handle k).Usable ∧ ((t.set k _).handle k).gen = g
      rw [t.set_self]
      exact ⟨⟨hu.live, hu.ready, hu.decided⟩, hgen⟩
    · show ((t.set k _).handle k).Ok (t.held.count (k, ((t.set k _).handle k).gen)) (rest.count k)
        ((k ::ₘ t.freeing).count k)
      rw [t.set_self, Multiset.count_cons_self]
      have hok := h.entry k
      rw [hmem, Multiset.count_cons_self] at hok
      exact hok.finalize
  | free k rest hmem =>
    have hok := h.entry k
    rw [hmem, Multiset.count_cons_self] at hok
    have hdec := (hok.closing (by omega)).2.1
    have hnone := h.not_held_of_unusable (k := k) fun hu => by simp [hu.decided] at hdec
    refine h.frame ⟨fun k' hk => t.set_other _ hk, fun _ _ => rfl, fun _ _ => rfl, ?_⟩
      (fun g hg => absurd hg (hnone g)) ?_
    · exact fun k' hk => count_rest hmem hk
    · show ((t.set k _).handle k).Ok (t.held.count (k, ((t.set k _).handle k).gen)) _ (rest.count k)
      rw [t.set_self]
      exact hok.free

/-! ## what the invariant says -/

theorem Table.Ok.refs_eq (h : t.Ok) {k : κ} (hlive : (t.handle k).live = true)
    (hready : (t.handle k).ready = true) :
    (t.handle k).refs = t.held.count (k, (t.handle k).gen) :=
  (h.entry k).refs hlive hready

/-- a retired entry without references is being closed by exactly one party -/
theorem Table.Ok.closers_one (h : t.Ok) {k : κ} (hlive : (t.handle k).live = true)
    (hretired : (t.handle k).retired = true) (h0 : t.held.count (k, (t.handle k).gen) = 0) :
    t.finalizing.count k + t.freeing.count k = 1 := by
  have hok := h.entry k
  have hdec : (t.handle k).decided = true := by
    by_contra hne
    have := hok.waiting hlive hretired (by simpa using hne)
    omega
  rw [hok.closers, if_pos ⟨hlive, hdec⟩]

theorem Table.Ok.closing_unused (h : t.Ok) {k : κ} (hmem : k ∈ t.finalizing ∨ k ∈ t.freeing) (g : Nat) :
    (k, g) ∉ t.held := by
  have hpos : 0 < t.finalizing.count k + t.freeing.count k := by
    rcases hmem with h1 | h1
    · exact Nat.add_pos_left (Multiset.count_pos.mpr h1) _
    · exact Nat.add_pos_right _ (Multiset.count_pos.mpr h1)
  have hdec := ((h.entry k).closing hpos).2.1
  exact h.not_held_of_unusable (fun hu => by simp [hu.decided] at hdec) g

/-- each is done at most once between two allocations -/
theorem Table.Ok.closed_once (h : t.Ok) (k : κ) :
    (t.handle k).finals ≤ 1 ∧ (t.handle k).frees ≤ 1 := by
  have hok := h.entry k
  refine ⟨?_, hok.frees.1⟩
  have := hok.finals
  split at this <;> omega

end

end VncProxy
