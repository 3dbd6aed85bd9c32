import VncProxy.Wire.RecvCommand

/-!
# `RecvCommand` where the stream breaks off

* `RecvData_append`      what `RecvData` returns and what is left are the stream;
* `RecvCommand_begins`   a call that returns true has read the whole frame;
* `RecvCommands_begins`  the commands of calls that return true are the beginning of those sent;
* `RecvCommands_all`     they are those sent when the calls use up the stream.
-/

namespace VncProxy

theorem segments_nil {segs : Segments} (hne : ∀ s ∈ segs, s ≠ []) (hflat : segs.flatten = []) :
    segs = [] :=
  List.eq_nil_iff_forall_not_mem.mpr fun s hs => hne s hs (List.flatten_eq_nil_iff.mp hflat s hs)

theorem recv_append {n : Nat} {segs segs' : Segments} {b : List Byte} (hrecv : recv n segs = some (b, segs'))
    (hne : ∀ s ∈ segs, s ≠ []) : b ++ segs'.flatten = segs.flatten ∧ ∀ s ∈ segs', s ≠ [] := by
  cases segs with
  | nil => cases hrecv
  | cons seg rest =>
    have hrest : ∀ s ∈ rest, s ≠ [] := fun s hs => hne s (List.mem_cons_of_mem _ hs)
    unfold recv at hrecv
    dsimp only at hrecv
    rw [if_neg (hne seg (List.mem_cons_self ..))] at hrecv
    split at hrecv
    · obtain ⟨rfl, rfl⟩ := Prod.mk.inj (Option.some.inj hrecv)
      exact ⟨rfl, hrest⟩
    · next hlt =>
      obtain ⟨rfl, rfl⟩ := Prod.mk.inj (Option.some.inj hrecv)
      refine ⟨?_, fun s hs => ?_⟩
      · rw [List.flatten_cons, List.flatten_cons, ← List.append_assoc, List.take_append_drop]
      · rcases List.mem_cons.mp hs with rfl | hs
        · exact fun hnil => hlt (List.drop_eq_nil_iff.mp hnil)
        · exact hrest s hs

theorem RecvData_append {n : Nat} {segs : Segments} {r : RecvLoop} (hr : RecvData n segs = some r)
    (hne : ∀ s ∈ segs, s ≠ []) : r.got ++ r.segs.flatten = segs.flatten ∧ ∀ s ∈ r.segs, s ≠ [] := by
  refine (loop_inv (I := fun s : RecvLoop => s.got ++ s.segs.flatten = segs.flatten ∧
    ∀ seg ∈ s.segs, seg ≠ []) (fun s hs _ => ?_) ⟨rfl, hne⟩ hr).1
  obtain ⟨hgot, hsegs⟩ := hs
  unfold RecvLoop.body
  split
  · next b segs' hrecv =>
    obtain ⟨happend, hsegs'⟩ := recv_append hrecv hsegs
    refine ⟨?_, hsegs'⟩
    rw [List.append_assoc, happend]
    exact hgot
  · exact ⟨hgot, hsegs⟩

/-- what is received as a command where the stream is the beginning of a frame is this command -/
theorem RecvCommand_begins {segs rest : Segments} {r : Recved} {c : CMD} {b : List Byte}
    (hc : c.Sized) (hr : RecvCommand segs = some (r, rest)) (hflag : r.bFlag = true)
    (hne : ∀ s ∈ segs, s ≠ []) (hs : segs.flatten <+: c.frame ++ b) :
    r.cmd = c ∧ rest.flatten <+: b ∧ ∀ s ∈ rest, s ≠ [] := by
  obtain ⟨tail, hs⟩ := hs
  unfold RecvCommand at hr
  obtain ⟨hd, hhd, hr⟩ := Option.bind_eq_some_iff.mp hr
  obtain ⟨happend, hsegs⟩ := RecvData_append hhd hne
  rw [← happend, CMD.frame, List.append_assoc, List.append_assoc] at hs
  split at hr
  · next hlen =>
    obtain ⟨hheader, hs⟩ := List.append_inj hs (hlen.trans (CMDH.bytes_length c.header).symm)
    have hread : CMDH.read hd.got = c.header := by
      rw [hheader, ← List.append_nil c.header.bytes, CMDH.read_bytes]
    dsimp only at hr
    rw [hread] at hr
    split at hr
    · next hpos =>
      obtain ⟨p, hp, hr⟩ := Option.map_eq_some_iff.mp hr
      obtain ⟨hpappend, hpsegs⟩ := RecvData_append hp hsegs
      rw [← hpappend, List.append_assoc] at hs
      split at hr
      · next hplen =>
        obtain ⟨rfl, rfl⟩ := Prod.mk.inj hr
        rw [toNat_of_toInt hc] at hplen
        obtain ⟨hparam, hs⟩ := List.append_inj hs hplen
        rw [hparam]
        exact ⟨rfl, ⟨tail, hs⟩, hpsegs⟩
      · obtain ⟨rfl, rfl⟩ := Prod.mk.inj hr
        cases hflag
    · next hpos =>
      obtain ⟨rfl, rfl⟩ := Prod.mk.inj (Option.some.inj hr)
      have hparam : c.param = [] := by
        rw [hc] at hpos
        exact List.eq_nil_of_length_eq_zero (by omega)
      rw [hparam] at hs
      refine ⟨?_, ⟨tail, hs⟩, hsegs⟩
      obtain ⟨header, param⟩ := c
      obtain rfl : param = [] := hparam
      rfl
  · obtain ⟨rfl, rfl⟩ := Prod.mk.inj (Option.some.inj hr)
    cases hflag

theorem RecvCommand_empty {segs rest : Segments} {r : Recved} (hr : RecvCommand segs = some (r, rest))
    (hne : ∀ s ∈ segs, s ≠ []) (hs : segs.flatten = []) : r.bFlag = false := by
  unfold RecvCommand at hr
  obtain ⟨hd, hhd, hr⟩ := Option.bind_eq_some_iff.mp hr
  have hgot := (List.append_eq_nil_iff.mp ((RecvData_append hhd hne).1.trans hs)).1
  rw [hgot, if_neg (by decide)] at hr
  obtain ⟨rfl, rfl⟩ := Prod.mk.inj (Option.some.inj hr)
  rfl

/-- **What is received is the beginning of what is sent**, wherever the stream breaks off and however it
is split. -/
theorem RecvCommands_begins {cs : List CMD} (hcs : ∀ c ∈ cs, c.Sized) {n : Nat} {segs rest : Segments}
    {rs : List Recved} (hr : RecvCommands n segs = some (rs, rest)) (hflag : ∀ r ∈ rs, r.bFlag = true)
    (hne : ∀ s ∈ segs, s ≠ []) (hs : segs.flatten <+: cs.flatMap CMD.frame) :
    rs.map Recved.cmd <+: cs := by
  induction n generalizing cs segs rs with
  | zero =>
    obtain ⟨rfl, rfl⟩ := Prod.mk.inj (Option.some.inj hr)
    exact List.nil_prefix
  | succ n ih =>
    obtain ⟨⟨r, segs1⟩, h1, hr⟩ := Option.bind_eq_some_iff.mp hr
    obtain ⟨⟨rs', rest'⟩, h2, hr⟩ := Option.map_eq_some_iff.mp hr
    obtain ⟨rfl, rfl⟩ := Prod.mk.inj hr
    have hfirst := hflag r (List.mem_cons_self ..)
    cases cs with
    | nil =>
      have hempty := RecvCommand_empty h1 hne (List.prefix_nil.mp hs)
      rw [hfirst] at hempty
      cases hempty
    | cons c cs =>
      rw [List.flatMap_cons] at hs
      obtain ⟨rfl, hs1, hne1⟩ := RecvCommand_begins (hcs c (List.mem_cons_self ..)) h1 hfirst hne hs
      have hrest := ih (fun c' h' => hcs c' (List.mem_cons_of_mem _ h')) h2
        (fun r' h' => hflag r' (List.mem_cons_of_mem _ h')) hne1 hs1
      exact List.cons_prefix_cons.mpr ⟨rfl, hrest⟩

/-- **What is received is what is sent**, when the calls use up the stream. -/
theorem RecvCommands_all {cs : List CMD} (hcs : ∀ c ∈ cs, c.Sized) {n : Nat} {segs : Segments}
    {rs : List Recved} (hr : RecvCommands n segs = some (rs, [])) (hflag : ∀ r ∈ rs, r.bFlag = true)
    (hne : ∀ s ∈ segs, s ≠ []) (hs : segs.flatten = cs.flatMap CMD.frame) : rs.map Recved.cmd = cs := by
  induction n generalizing cs segs rs with
  | zero =>
    obtain ⟨rfl, rfl⟩ := Prod.mk.inj (Option.some.inj hr)
    cases cs with
    | nil => rfl
    | cons c cs =>
      have hlen := congrArg List.length hs
      rw [List.flatMap_cons, List.length_append, CMD.frame_length] at hlen
      exact absurd hlen.symm (Nat.ne_of_gt (Nat.add_pos_left (Nat.add_pos_left (by decide) _) _))
  | succ n ih =>
    obtain ⟨⟨r, segs1⟩, h1, hr⟩ := Option.bind_eq_some_iff.mp hr
    obtain ⟨⟨rs', rest'⟩, h2, hr⟩ := Option.map_eq_some_iff.mp hr
    obtain ⟨rfl, rfl⟩ := Prod.mk.inj hr
    have hfirst := hflag r (List.mem_cons_self ..)
    cases cs with
    | nil =>
      have hempty := RecvCommand_empty h1 hne hs
      rw [hfirst] at hempty
      cases hempty
    | cons c cs =>
      rw [List.flatMap_cons] at hs
      obtain ⟨segs', hframe, hs', hne'⟩ := RecvCommand_frame (hcs c (List.mem_cons_self ..)) hne hs
      obtain ⟨rfl, rfl⟩ := Prod.mk.inj (Option.some.inj (h1.symm.trans hframe))
      exact congrArg (c :: ·) (ih (fun c' h' => hcs c' (List.mem_cons_of_mem _ h')) h2
        (fun r' h' => hflag r' (List.mem_cons_of_mem _ h')) hne' hs')

end VncProxy
