import Mathlib.Data.List.Basic

/-!
# A stream of frames read piece by piece

A stream is `fs.flatMap enc`: the frames of `fs` one behind the other.  A reader that has consumed
the first bytes of it has completed some frames and holds the bytes of the next one.

* `Cut enc fs done buf todo`  the frames `done` are complete, `buf` is what the reader holds and
                              `todo` is still to come;
* `Cut.advance`               reading `d` completes the frames `new` and leaves `buf'`;
* `Cut.at_end`                at the end of the stream nothing is held and all frames are complete.
-/

namespace VncProxy

section
variable {F β : Type} {enc : F → List β}

/-- `done` complete, `buf` held, `todo` to come -/
def Cut (enc : F → List β) (fs done : List F) (buf todo : List β) : Prop :=
  ∃ rest, fs = done ++ rest ∧ buf ++ todo = rest.flatMap enc ∧
    (buf = [] ∨ ∃ f rest', rest = f :: rest' ∧ buf.length < (enc f).length)

theorem Cut.start (fs : List F) : Cut enc fs [] [] (fs.flatMap enc) :=
  ⟨fs, rfl, rfl, .inl rfl⟩

/-- a prefix of a stream is some whole frames and a proper part of the next one -/
theorem prefix_flatMap (fs : List F) (a b : List β) (h : a ++ b = fs.flatMap enc) :
    ∃ new rest buf, fs = new ++ rest ∧ a = new.flatMap enc ++ buf ∧
      buf ++ b = rest.flatMap enc ∧
      (buf = [] ∨ ∃ f rest', rest = f :: rest' ∧ buf.length < (enc f).length) := by
  induction fs generalizing a with
  | nil =>
    obtain ⟨rfl, rfl⟩ := List.append_eq_nil_iff.mp h
    exact ⟨[], [], [], rfl, rfl, rfl, .inl rfl⟩
  | cons f fs ih =>
    by_cases hlt : a.length < (enc f).length
    · exact ⟨[], f :: fs, a, rfl, rfl, h, .inr ⟨f, fs, rfl, hlt⟩⟩
    · have ha : a = enc f ++ a.drop (enc f).length := by
        have h1 := congrArg (List.take (enc f).length) h
        rw [List.take_append_of_le_length (by omega), List.flatMap_cons, List.take_left] at h1
        have h2 := List.take_append_drop (enc f).length a
        rw [h1] at h2
        exact h2.symm
      have hb : a.drop (enc f).length ++ b = fs.flatMap enc := by
        rw [ha, List.flatMap_cons, List.append_assoc] at h
        exact List.append_cancel_left h
      obtain ⟨new, rest, buf, h1, h2, h3, h4⟩ := ih _ hb
      refine ⟨f :: new, rest, buf, by rw [h1]; rfl, ?_, h3, h4⟩
      rw [ha, h2, List.flatMap_cons, List.append_assoc]

/-- **Reading `d` completes some frames and leaves a proper part of the next one.** -/
theorem Cut.advance {fs done : List F} {buf d todo : List β} (h : Cut enc fs done buf (d ++ todo)) :
    ∃ new buf', buf ++ d = new.flatMap enc ++ buf' ∧ Cut enc fs (done ++ new) buf' todo := by
  obtain ⟨rest, hfs, hs, _⟩ := h
  rw [← List.append_assoc] at hs
  obtain ⟨new, rest', buf', h1, h2, h3, h4⟩ := prefix_flatMap rest (buf ++ d) todo hs
  exact ⟨new, buf', h2, rest', by rw [hfs, h1, List.append_assoc], h3, h4⟩

theorem Cut.new_mem {fs done new : List F} {buf todo : List β}
    (h : Cut enc fs (done ++ new) buf todo) : ∀ f ∈ new, f ∈ fs := by
  obtain ⟨rest, hfs, _⟩ := h
  intro f hf
  rw [hfs]
  exact List.mem_append_left _ (List.mem_append_right _ hf)

theorem Cut.part {fs done : List F} {buf todo : List β} (h : Cut enc fs done buf todo) :
    buf = [] ∨ ∃ f ∈ fs, ∃ x, x ≠ [] ∧ buf ++ x = enc f := by
  obtain ⟨rest, hfs, hs, hb | ⟨f, rest', hr, hlt⟩⟩ := h
  · exact .inl hb
  · refine .inr ⟨f, by rw [hfs, hr]; simp, (enc f).drop buf.length, ?_, ?_⟩
    · intro h0
      have := congrArg List.length h0
      rw [List.length_drop, List.length_nil] at this
      omega
    · rw [hr, List.flatMap_cons] at hs
      have h1 := congrArg (List.take buf.length) hs
      rw [List.take_left, List.take_append_of_le_length (by omega)] at h1
      conv => lhs; lhs; rw [h1]
      exact List.take_append_drop ..

theorem Cut.buf_lt {fs done : List F} {buf todo : List β} {k : Nat}
    (h : Cut enc fs done buf todo) (hk : 0 < k) (hle : ∀ f ∈ fs, (enc f).length ≤ k) :
    buf.length < k := by
  rcases h.part with rfl | ⟨f, hf, x, hx, hxe⟩
  · exact hk
  · have h1 := congrArg List.length hxe
    have h2 := List.length_pos_of_ne_nil hx
    have h3 := hle f hf
    rw [List.length_append] at h1
    omega

/-- **At the end of the stream nothing is held and every frame is complete.** -/
theorem Cut.at_end {fs done : List F} {buf : List β} (hpos : ∀ f ∈ fs, enc f ≠ [])
    (h : Cut enc fs done buf []) : buf = [] ∧ done = fs := by
  obtain ⟨rest, hfs, hs, hb⟩ := h
  rw [List.append_nil] at hs
  have hrest : rest = [] := by
    cases rest with
    | nil => rfl
    | cons f rest' =>
      have hf : enc f ≠ [] := hpos f (by rw [hfs]; simp)
      rw [List.flatMap_cons] at hs
      rcases hb with rfl | ⟨g, rest'', hr, hlt⟩
      · exact absurd (List.append_eq_nil_iff.mp hs.symm).1 hf
      · obtain ⟨rfl, rfl⟩ := List.cons.inj hr
        rw [hs, List.length_append] at hlt
        omega
  rw [hrest] at hs hfs
  exact ⟨hs, by rw [hfs, List.append_nil]⟩

end

end VncProxy
