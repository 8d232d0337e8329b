import Secpoline.Proofs.PageAccept

/-!
# What update_mprotect does to the list

Inside one group `update_mprotect_locked` cuts the group into pieces and gives the
middle one the new protection. Across several groups it removes the range with
`remove_page_locked` and links one new group in its place, or so it intends: the loop
that looks for the place stops at the first group that ends before the range, and that
is always the head of the list. The new group is linked behind the head and takes its
flags from it.

A list that is out of order still says something about every address, and what it says
is right but for the flags. So the protection of the range and nothing else changes
exactly if the range lies in one group or the groups it meets have the flags of the
head, and if there are nodes for the new groups.
-/

namespace Secpoline

open Lib

/-! ## Across several groups -/

section Across

variable {held : List Nat} {mm start stop size : Nat} {prot : Prot} {cid : Int}
  {pm pm₁ pm₂ : PageManager} {r : Int} {pre mid post : List VirtPage} {head first last g : VirtPage}

/-- The nodes of the groups inside the range are free afterwards. -/
theorem removeAcross_free (h : Wf pm.pages)
    (hp : pm.pages = (head :: pre) ++ (first :: mid ++ [last]) ++ post)
    (hs : first.start ≤ start) (hsf : start < first.stop) (hl : last.start < stop)
    (hstop : stop ≤ last.stop) :
    (removeAcross start stop pm (head :: pre) first mid last post).2.freePages ≠ [] ↔
      pm.freePages ≠ [] ∨ ∃ g ∈ pm.pages, start ≤ g.start ∧ g.stop ≤ stop := by
  have hwf : Wf ((head :: pre) ++ (first :: mid ++ [last]) ++ post) := hp ▸ h
  have hlast : last.pageEnd = last.stop := last.pageEnd_eq (hwf.noWrap last (by simp))
  obtain ⟨hleft, -, hpost⟩ := ordered_append.mp hwf.ordered
  obtain ⟨-, hrun, hpre⟩ := ordered_append.mp hleft
  obtain ⟨-, hfirst, hrest⟩ := ordered_cons.mp hrun
  obtain ⟨-, -, -, hmid, -⟩ := ordered_mid.mp hrest
  have hfl : first.stop ≤ last.start := hfirst last (by simp)
  -- which of the groups are freed
  have hinside : (∃ g ∈ pm.pages, start ≤ g.start ∧ g.stop ≤ stop) ↔
      start = first.start ∨ mid ≠ [] ∨ stop = last.stop := by
    constructor
    · intro hin
      obtain ⟨g, hg, hsg, hgs⟩ := hin
      have hpos := h.nonempty hg
      rw [hp] at hg
      simp only [List.mem_append, List.mem_cons, List.not_mem_nil, or_false] at hg
      rcases hg with (hg | (rfl | hg) | rfl) | hg
      · have := hpre g (by simpa using hg) first (by simp)
        omega
      · exact .inl (by omega)
      · exact .inr (.inl (List.ne_nil_of_mem hg))
      · exact .inr (.inr (by omega))
      · have := hpost last (by simp) g hg
        omega
    · intro hcase
      rcases hcase with heq | hne | heq
      · exact ⟨first, by simp [hp], by omega, by omega⟩
      · obtain ⟨g, rest, hmem⟩ := List.exists_cons_of_ne_nil hne
        have h₁ := hfirst g (by simp [hmem])
        have h₂ := hmid g (by simp [hmem])
        exact ⟨g, by simp [hp, hmem], by omega, by omega⟩
      · exact ⟨last, by simp [hp], by omega, by omega⟩
  rw [hinside]
  simp only [removeAcross, hlast]
  by_cases hs' : start = first.start <;> by_cases hl' : stop = last.stop <;>
    simp [hs', hl', or_comm, imp_iff_not_or]

/-- What is left after a removal is as far from the pool as the list was. -/
theorem Removed.ready (h : Removed held mm start stop pm pm₁) (hpools : pm₁.pools = pm.pools)
    (hmm : PoolReady pm mm) : PoolReady pm₁ mm := by
  refine ⟨hmm.aligned, hpools ▸ hmm.fresh.pool, fun g hg => ?_⟩
  by_contra hmeets
  have hpos := h.inv.wf.nonempty hg
  -- the group and the pool share the larger of their two starts
  have hx : Tracked pm₁.pages (max g.start mm) g.attr := ⟨g, hg, by omega, by omega, rfl⟩
  rcases (h.tracked _ _).mp hx with ⟨⟨y, hy, hyx, hxy, -⟩, -⟩ | hpool
  · have := hmm.fresh.groups y hy
    omega
  · rw [hpools] at hpool
    exact absurd hpool not_poolAt_self

/-- Linking a group that meets no other one, at any place. -/
theorem tracked_linked {p : VirtPage} {a b : List VirtPage} {x : Nat} {q : Attr} :
    Tracked (a ++ head :: p :: b) x q ↔
      Tracked (a ++ head :: b) x q ∨ (p.start ≤ x ∧ x < p.stop ∧ p.attr = q) := by
  simp only [at_append, at_cons]
  grind

theorem scattered_linked {p : VirtPage} {a b : List VirtPage} (h : Wf (a ++ head :: b))
    (hclear : Clear (a ++ head :: b) p.start p.stop) :
    Scattered VirtPage.start VirtPage.stop (a ++ head :: p :: b) := by
  have hcons : Scattered VirtPage.start VirtPage.stop (p :: (a ++ head :: b)) :=
    scattered_cons.mpr ⟨fun g hg => (hclear g hg).symm, h.ordered.scattered⟩
  have hperm : ((a ++ [head]) ++ p :: b).Perm (p :: ((a ++ [head]) ++ b)) := List.perm_middle
  exact hcons.perm (by simpa using hperm.symm)

/-- An owned range is as far from the pool as its groups are. -/
theorem Fresh.apart_owned (h : Fresh pm mm) (hown : Owned pm.pages start stop cid)
    (hlt : start < stop) : mm + 8192 ≤ start ∨ stop ≤ mm := by
  by_contra hmeets
  obtain ⟨q, ⟨g, hg, hgx, hxg, -⟩, -⟩ := hown (max start mm) (by omega) (by omega)
  have := h.groups g hg
  omega

/-- The range has been removed and a group for it is linked behind the head. -/
theorem Removed.linked_view {p : VirtPage} {rest : List VirtPage} {n : Nat}
    (h : Removed [] mm p.start p.stop pm pm₁) (hwf : Wf pm.pages) (hpools : pm₁.pools = pm.pools)
    (hmm : PoolReady pm mm) (hout : mm + 8192 ≤ p.start ∨ p.stop ≤ mm) (hlt : p.start < p.stop)
    (hp₁ : pm₁.pages = head :: rest) (halloc : virtPageAlloc mm pm₁ = some (n, pm₂)) :
    Says mm pm (setOn p.start p.stop p.attr pm.view)
      { pm₂ with pages := insertAfter head.node p pm₂.pages } := by
  obtain ⟨hi₂, hre⟩ := virtPageAlloc_spec h.inv (fun _ => (h.ready hpools hmm).fresh.pool) halloc
  obtain ⟨a, b, hp₂⟩ := List.append_of_mem (hre.grown.mem head (by simp [hp₁]))
  have hclear : Clear (a ++ head :: b) p.start p.stop :=
    hp₂ ▸ (hre.clear_iff hout).mpr (h.clear hlt)
  have hgrown : pm₂.pools = pm.pools ∨ pm₂.pools = mm :: pm.pools := hpools ▸ hre.grown.once
  rw [hp₂, insertAfter_mid (hi₂.node_ne hp₂).1]
  refine .of_scattered (scattered_linked (hp₂ ▸ hi₂.wf) hclear) hgrown (fun x q => ?_)
    fun x q hx => ?_
  · rw [tracked_linked, ← hp₂, hre.tracked, h.tracked, setOn_eq_some, hwf.view_eq_some, hpools]
    simp only [not_poolAt_self, or_false]
    exact or_right_comm
  · obtain ⟨h₁, h₂⟩ := poolAt_mem hgrown hx
    rw [setOn, if_neg (by omega), hmm.fresh.view_eq_none h₁ h₂]

variable (prot) in
/-- The range is owned and goes beyond the group of its start: its pages are removed and
one new group is linked behind the head. -/
theorem updateMprotect_across_linked (hi : Inv [] pm) (hmm : PoolReady pm mm)
    (hp : pm.pages = head :: pre ++ g :: post) (hs : start % 4096 = 0)
    (hw : start + roundUp size < 2 ^ 64) (hround : size ≤ roundUp size) (hgs : g.start ≤ start)
    (hsg : start < g.stop) (hover : g.stop < start + size)
    (hown : Owned pm.pages start (start + roundUp size) g.cid) :
    ∃ n rest pm₁ pm₂, Removed [] mm start (start + roundUp size) pm pm₁ ∧
      pm₁.pools = pm.pools ∧ pm₁.pages = head :: rest ∧ virtPageAlloc mm pm₁ = some (n, pm₂) ∧
      (pm₁.freePages ≠ [] ↔
        pm.freePages ≠ [] ∨ ∃ y ∈ pm.pages, start ≤ y.start ∧ y.stop ≤ start + roundUp size) ∧
      updateMprotect mm pm start size prot g.cid = some (0, { pm₂ with
        pages := insertAfter head.node ⟨start, size, prot, head.flags, g.cid, n⟩ pm₂.pages }) := by
  have hg : g ∈ pm.pages := by simp [hp]
  have hpost : post ≠ [] := by
    intro hnil
    obtain ⟨q, ⟨y, hy, hys, hsy, -⟩, -⟩ := hown g.stop (by omega) (by omega)
    obtain ⟨-, -, -, -, hbelow, -⟩ := wf_mid.mp (hp ▸ hi.wf)
    rw [hp, hnil, List.mem_append, List.mem_singleton] at hy
    rcases hy with hy | rfl
    · have := hbelow y hy
      omega
    · omega
  obtain ⟨pm₁, hremove⟩ := (removePage_inner g.cid hi (fun _ => hmm) hp hpost hs (by omega) hw
    hgs hsg).1 hown
  rcases removePageLocked_found hi hw hremove with ⟨hr, -⟩ | ⟨-, -, head', pre', before,
    last, post', first, hp', hhead, hfirst, hfs, hsf, hrun, hedit⟩
  · cases hr
  obtain rfl : head' = head := by
    have := hp'.symm.trans hp
    simpa using congrArg List.head? this
  have hmem : first ∈ pm.pages :=
    hp' ▸ List.mem_append_left _ (List.mem_append_right _ (List.mem_of_mem_head? hfirst))
  obtain rfl : first = g := hi.wf.ordered.eq_of_mem hmem hg hfs hsf hgs hsg
  rcases hedit with ⟨rfl, -⟩ | ⟨mid, rfl, hacross⟩
  -- one group would have to contain the range
  · obtain rfl : last = first := by simpa using hfirst
    have := hrun.stops
    omega
  obtain ⟨hpools, rest, hpages, hnode⟩ := removeAcross_left hacross
  have hfree := removeAcross_free hi.wf hp' hfs hsf hrun.starts hrun.stops
  obtain ⟨-, hrem⟩ := removeAcross_spec mm hi hp' hfs hsf hrun.starts hrun.stops
  rw [hacross] at hfree hrem
  obtain ⟨n, pm₂, halloc⟩ := virtPageAlloc_total hrem.inv fun _ => hrem.ready hpools hmm
  have hclear (next : VirtPage) (hnext : next ∈ rest.head?) :
      start + size ≤ next.start ∨ next.stop ≤ start := by
    have hmem : next ∈ pm₁.pages := by
      rw [hpages]
      exact List.mem_cons_of_mem _ (List.mem_of_mem_head? hnext)
    have := hrem.clear (by omega) next hmem
    omega
  have hlookup := lookupAddr_eq hi.wf hg hgs hsg (.inr rfl)
  have hle : start + size < 2 ^ 64 := by omega
  refine ⟨n, rest, pm₁, pm₂, hrem, hpools, hpages, halloc, hfree, ?_⟩
  rw [updateMprotect_across hi hg hlookup hle hover, mprotectAcross_eq hremove hrem.inv hpages hhead
    hle hclear hnode, halloc]
  rfl

variable (prot) in
/-- In whole pages, all of the range is in the new group, with the flags of the head. -/
theorem updateMprotect_across_view (hi : Inv [] pm) (hmm : PoolReady pm mm)
    (hp : pm.pages = head :: pre ++ g :: post) (hs : start % 4096 = 0) (hd : size % 4096 = 0)
    (hw : start + size < 2 ^ 64) (hgs : g.start ≤ start) (hsg : start < g.stop)
    (hover : g.stop < start + size) (hown : Owned pm.pages start (start + size) g.cid) :
    ∃ pm', updateMprotect mm pm start size prot g.cid = some (0, pm') ∧
      Says mm pm (setOn start (start + size) ⟨prot, head.flags, g.cid⟩ pm.view) pm' ∧
      (pm'.pools = pm.pools ↔
        pm.freePages ≠ [] ∨ ∃ y ∈ pm.pages, start ≤ y.start ∧ y.stop ≤ start + size) := by
  have hround : roundUp size = size := roundUp_of_dvd hd (by omega)
  obtain ⟨n, rest, pm₁, pm₂, hrem, hpools, hpages, halloc, hfree, hrun⟩ :=
    updateMprotect_across_linked prot hi hmm hp hs (hround.symm ▸ hw) (Nat.le_of_eq hround.symm)
      hgs hsg hover (by rw [hround]; exact hown)
  rw [hround] at hrem hfree
  have hlt : start < start + size := by omega
  obtain ⟨-, hre⟩ :=
    virtPageAlloc_spec hrem.inv (fun _ => (hrem.ready hpools hmm).fresh.pool) halloc
  refine ⟨_, hrun, ?_, ?_⟩
  · exact Removed.linked_view (p := ⟨start, size, prot, head.flags, g.cid, n⟩) hrem hi.wf hpools
      hmm (hmm.fresh.apart_owned hown hlt) hlt hpages halloc
  · show pm₂.pools = pm.pools ↔ _
    rw [← hfree, ← hpools, hre.enough, Nat.one_le_iff_ne_zero, ne_eq, List.length_eq_zero_iff]

end Across

/-! ## Inside one group -/

section Inside

variable {mm start size : Nat} {prot : Prot} {pm pm' : PageManager} {g : VirtPage}

variable (prot) in
theorem updateMprotect_inside_total (hi : Inv [] pm) (hmm : PoolReady pm mm) (hg : g ∈ pm.pages)
    (hlookup : lookupAddr pm start g.cid = some g) (hpos : 0 < size)
    (hin : start + size ≤ g.stop) :
    ∃ r pm', updateMprotect mm pm start size prot g.cid = some (r, pm') := by
  obtain ⟨-, hgs, hsg, -⟩ := lookupAddr_some hlookup
  have hgw := hi.wf.noWrap g hg
  rw [g.pageEnd_eq hgw] at hsg
  obtain ⟨n₁, pm₁, ha₁⟩ := virtPageAlloc_total hi fun _ => hmm
  obtain ⟨hi₁, hre⟩ := virtPageAlloc_spec hi (fun _ => hmm.fresh.pool) ha₁
  obtain ⟨n₂, pm₂, ha₂⟩ := virtPageAlloc_total hi₁ (hre.ready hmm)
  simp only [updateMprotect, hlookup, g.pageEnd_eq hgw, ha₁, ha₂]
  rw [wadd_eq (by omega), if_neg (List.ne_nil_of_mem hg), if_neg (by simp), if_neg (by omega),
    if_neg (by omega), if_neg (by omega)]
  split
  · exact ⟨_, _, rfl⟩
  · split
    · exact ⟨_, _, rfl⟩
    · split
      · exact ⟨_, _, rfl⟩
      · rw [if_pos (by omega)]
        exact ⟨_, _, rfl⟩

theorem Painted.view (h : Painted mm start size prot g pm pm') (hi : Inv [] pm) (hmm : Fresh pm mm)
    (hg : g ∈ pm.pages) (hgs : g.start ≤ start) (hin : start + size ≤ g.stop) :
    Says mm pm (setOn start (start + size) ⟨prot, g.flags, g.cid⟩ pm.view) pm' := by
  refine .of_tracked h.inv.wf h.once (fun x q => ?_) fun x q hx => ?_
  · rw [h.tracked, setOn_eq_some, hi.wf.view_eq_some, or_assoc]
  · obtain ⟨h₁, h₂⟩ := poolAt_mem h.once hx
    have := hmm.groups g hg
    rw [setOn, if_neg (by omega), hmm.view_eq_none h₁ h₂]

end Inside

/-! ## The law -/

section Law

variable {mm start stop size : Nat} {prot : Prot} {cid : Int} {pm : PageManager}

/-- The range lies in one group, or every group it meets has the flags of the head. -/
def FlagsKept (l : List VirtPage) (start stop : Nat) : Prop :=
  (∃ g ∈ l, g.start ≤ start ∧ stop ≤ g.stop) ∨
    ∀ head ∈ l.head?, ∀ g ∈ l, g.start < stop → start < g.stop → g.flags = head.flags

/-- No refill is needed: in one group there is a node for each end of it that is left,
across several groups there is one for the new group, if none is freed. -/
def NodesAtHand (pm : PageManager) (start stop : Nat) : Prop :=
  match pm.pages.find? fun g => decide (g.start ≤ start) && decide (stop ≤ g.stop) with
  | some g => (if g.start < start then 1 else 0) + (if stop < g.stop then 1 else 0) ≤
      pm.freePages.length
  | none => pm.freePages ≠ [] ∨ ∃ g ∈ pm.pages, start ≤ g.start ∧ g.stop ≤ stop

theorem nodesAtHand_inside {g : VirtPage} (h : Wf pm.pages) (hg : g ∈ pm.pages)
    (hgs : g.start ≤ start) (hlt : start < stop) (hin : stop ≤ g.stop) :
    NodesAtHand pm start stop ↔
      (if g.start < start then 1 else 0) + (if stop < g.stop then 1 else 0) ≤
        pm.freePages.length := by
  have hfind : (pm.pages.find? fun g => decide (g.start ≤ start) && decide (stop ≤ g.stop)) =
      some g := by
    cases hfind : pm.pages.find? fun g => decide (g.start ≤ start) && decide (stop ≤ g.stop) with
    | none =>
        have := List.find?_eq_none.mp hfind g hg
        simp [hgs, hin] at this
    | some y =>
        have hy := List.find?_some hfind
        simp only [Bool.and_eq_true, decide_eq_true_eq] at hy
        rw [h.ordered.eq_of_mem (List.mem_of_find?_eq_some hfind) hg hy.1 (by omega) hgs (by omega)]
  simp only [NodesAtHand, hfind]

theorem nodesAtHand_across (h : ∀ g ∈ pm.pages, ¬ (g.start ≤ start ∧ stop ≤ g.stop)) :
    NodesAtHand pm start stop ↔
      pm.freePages ≠ [] ∨ ∃ g ∈ pm.pages, start ≤ g.start ∧ g.stop ≤ stop := by
  have hfind : (pm.pages.find? fun g => decide (g.start ≤ start) && decide (stop ≤ g.stop)) =
      none :=
    List.find?_eq_none.mpr fun g hg => by simpa using h g hg
  simp only [NodesAtHand, hfind]

/-- One group for the whole range is right if the flags were the same all over it and
no pool was mapped. -/
theorem Says.reprotects_iff {flags : Int} {pm' : PageManager}
    (h : Says mm pm (setOn start stop ⟨prot, flags, cid⟩ pm.view) pm') (hwf : Wf pm.pages)
    (hmm : Fresh pm mm) (hlt : start < stop) (hown : Owned pm.pages start stop cid) :
    pm'.view = mapOn start stop (fun q => { q with prot := prot }) pm.view ↔
      (∀ g ∈ pm.pages, g.start < stop → start < g.stop → g.flags = flags) ∧
        pm'.pools = pm.pools := by
  rcases h with ⟨hpools, hview⟩ | ⟨hpools, hview⟩
  · rw [hview, setOn_eq_mapOn]
    simp only [hpools, and_true]
    constructor
    · intro hmap g hg hgs hsg
      have hpos := hwf.nonempty hg
      have hx : pm.view (max start g.start) = some g.attr :=
        hwf.view_eq_some.mpr ⟨g, hg, by omega, by omega, rfl⟩
      have hattr := hmap (max start g.start) (by omega) (by omega)
      rw [hx] at hattr
      exact congrArg Attr.flags (Option.some.inj hattr)
    · intro hflags x hx hxs
      obtain ⟨q, hq, hcid⟩ := hown x hx hxs
      rw [hwf.view_eq_some.mpr hq]
      obtain ⟨g, hg, hgx, hxg, rfl⟩ := hq
      have hf := hflags g hg (by omega) (by omega)
      simp only [Option.map_some, Option.some.injEq, Attr.mk.injEq, true_and]
      exact ⟨hf, hcid⟩
  · constructor
    · intro heq
      -- the pool is tracked now, and was not before
      have hnone := hmm.view_eq_none (Nat.le_refl mm) (by omega)
      have hat : pm'.view mm = none := by
        rw [heq]
        simp [mapOn, hnone]
      rw [hview, setOn, if_pos ⟨Nat.le_refl mm, by omega⟩] at hat
      cases hat
    · intro hsame
      rw [hpools] at hsame
      exact absurd hsame.2 (by simp)

variable (prot) in
/-- `update_mprotect` changes the protection of the range and nothing else, exactly if
the flags survive and no pool has to be mapped. -/
theorem updateMprotect_exact_iff (hi : Inv [] pm) (hmm : PoolReady pm mm) (hs : start % 4096 = 0)
    (hd : size % 4096 = 0) (hpos : 0 < size) (hw : start + size < 2 ^ 64)
    (hfound : ∃ g, lookupRange pm start size cid = some (some g))
    (hhead : ∀ head ∈ pm.pages.head?, head.stop ≤ start ∨ start + size ≤ head.start) :
    (∃ pm', updateMprotect mm pm start size prot cid = some (0, pm') ∧
        pm'.view = mapOn start (start + size) (fun q => { q with prot := prot }) pm.view) ↔
      FlagsKept pm.pages start (start + size) ∧ NodesAtHand pm start (start + size) := by
  obtain ⟨g, hfound⟩ := hfound
  obtain ⟨hg, hgs, hsg, hown⟩ := (lookupRange_iff hi.wf hpos hw).mp hfound
  have hlt : start < start + size := by omega
  obtain rfl : g.cid = cid := hown.cid_eq hi.wf hg hgs hsg hlt
  by_cases hin : start + size ≤ g.stop
  · have hlookup := lookupAddr_eq hi.wf hg hgs hsg (.inr rfl)
    obtain ⟨r, pm', hrun⟩ := updateMprotect_inside_total prot hi hmm hg hlookup hpos hin
    obtain ⟨rfl, hpaint⟩ := updateMprotect_inside hi hmm.fresh hg hlookup hpos hin hrun
    have hsaid := hpaint.view hi hmm.fresh hg hgs hin
    have hflags : FlagsKept pm.pages start (start + size) := .inl ⟨g, hg, hgs, hin⟩
    have hsame (y : VirtPage) (hy : y ∈ pm.pages) (hys : y.start < start + size)
        (hsy : start < y.stop) : y.flags = g.flags := by
      have hpos := hi.wf.nonempty hy
      rw [hi.wf.ordered.eq_of_mem hy hg (x := max start y.start) (by omega) (by omega) (by omega)
        (by omega)]
    rw [hrun, nodesAtHand_inside hi.wf hg hgs hlt hin, ← hpaint.enough]
    simp only [Option.some.injEq, Prod.mk.injEq, true_and, exists_eq_left']
    rw [hsaid.reprotects_iff hi.wf hmm.fresh hlt hown]
    simp only [hflags, true_and, and_iff_right_iff_imp]
    exact fun _ => hsame
  · obtain ⟨pre, post, hp⟩ := List.append_of_mem hg
    cases pre with
    | nil =>
        have := hhead g (by simp [hp])
        omega
    | cons head pre =>
        obtain ⟨pm', hrun, hsaid, hpools⟩ := updateMprotect_across_view prot hi hmm hp hs hd hw hgs
          hsg (by omega) hown
        have hnot (y : VirtPage) (hy : y ∈ pm.pages) :
            ¬ (y.start ≤ start ∧ start + size ≤ y.stop) := by
          intro hys
          rw [hi.wf.ordered.eq_of_mem hy hg hys.1 (by omega) hgs hsg] at hys
          omega
        have hflags : FlagsKept pm.pages start (start + size) ↔ ∀ y ∈ pm.pages,
            y.start < start + size → start < y.stop → y.flags = head.flags := by
          constructor
          · intro hkept
            rcases hkept with ⟨y, hy, hys⟩ | hkept
            · exact absurd hys (hnot y hy)
            · exact hkept head (by simp [hp])
          · intro hkept
            refine .inr fun y hy => ?_
            obtain rfl : head = y := by simpa [hp] using hy
            exact hkept
        rw [hrun, nodesAtHand_across hnot, ← hpools, hflags]
        simp only [Option.some.injEq, Prod.mk.injEq, true_and, exists_eq_left']
        exact hsaid.reprotects_iff hi.wf hmm.fresh hlt hown

/-- Part of a group. -/
theorem updateMprotect_exact_someGroups :
    ∃ pm', updateMprotect 0x800000 someGroups 0x21000 0x1000 PROT_NONE TS_APPLICATION =
        some (0, pm') ∧
      pm'.view = mapOn 0x21000 0x22000 (fun q => { q with prot := PROT_NONE }) someGroups.view :=
  (updateMprotect_exact_iff PROT_NONE someGroups_inv
    (show PoolReady someGroups 0x800000 from ⟨by decide, by decide⟩)
    (show 0x21000 % 4096 = 0 by decide) (show 0x1000 % 4096 = 0 by decide) (by decide) (by decide)
    (show ∃ g, lookupRange someGroups 0x21000 0x1000 TS_APPLICATION = some (some g) from ⟨_, rfl⟩)
    (by decide)).mpr
    ⟨.inl ⟨appGroup, by decide⟩, show 2 ≤ 2 from Nat.le_refl 2⟩

/-- A list whose first group has other flags than the application's groups. -/
def mixedGroups : PageManager :=
  { someGroups with pages :=
      ⟨0x10000, 0x1000, PROT_READ, 0x2, TS_MONITOR, 0x700000⟩ :: someGroups.pages.tail }

/-- The end of a group and the group behind it: what was mapped with `0x22` is tracked
with the flags of the first group. -/
theorem updateMprotect_loses_flags :
    Inv [] mixedGroups ∧ PoolReady mixedGroups 0x800000 ∧
      (∃ g, lookupRange mixedGroups 0x23000 0x2000 TS_APPLICATION = some (some g)) ∧
      ∃ pm', updateMprotect 0x800000 mixedGroups 0x23000 0x2000 PROT_NONE TS_APPLICATION =
          some (0, pm') ∧
        mixedGroups.view 0x24000 = some ⟨PROT_READ, 0x22, TS_APPLICATION⟩ ∧
        pm'.view 0x24000 = some ⟨PROT_NONE, 0x2, TS_APPLICATION⟩ :=
  ⟨inv_of_nodup ⟨⟨by decide, by decide⟩, by decide⟩ (by decide) (by decide),
    ⟨by decide, by decide⟩, ⟨_, rfl⟩, _, rfl, rfl, rfl⟩

end Law

end Secpoline
