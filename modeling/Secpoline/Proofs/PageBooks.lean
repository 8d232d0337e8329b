import Secpoline.Proofs.PageMprotect

/-!
# What the asserted calls accept

A handler checks the range of a request with `lookup_range` or `lookup_range_allow_gaps`,
lets the kernel do its part, and asserts that `update_mprotect`, or `add_page` with
`map_fixed`, returns 0 for the range or for a part of it. The checks ask who owns the
range. What is asserted asks for more.

`update_mprotect` refuses an empty range, and beyond one group it removes whole pages
with `remove_page`, which refuses a range that starts in the first group. So does
`add_page` once there are threads, with the pool that it may have mapped a moment
before counted among the groups, and it refuses the last group as well. With one thread
it removes what it finds, and accepts whatever the check has accepted.
-/

namespace Secpoline

open Lib

/-! ## Ownership after a call -/

section Retains

variable {start stop lo hi : Nat} {cid : Int} {l l' : List VirtPage} {g : VirtPage}

theorem SortedDisjoint.wf (h : SortedDisjoint l) : Wf l := by
  have hpos (g : VirtPage) (hg : g ∈ l) : g.start < g.stop := by
    have := h.nonempty g hg
    unfold VirtPage.stop
    omega
  refine ⟨⟨hpos, ?_⟩, h.noWrap⟩
  refine (h.sorted.and h.disjoint).imp_of_mem fun {a b} _ hb hab => ?_
  obtain ⟨hlt, hdis⟩ := hab
  have := hpos b hb
  unfold VirtPage.stop at this ⊢
  omega

/-- The range is the compartment's, and what was tracked elsewhere still is. -/
structure Retains (start stop : Nat) (cid : Int) (l l' : List VirtPage) : Prop where
  outside : ∀ x q, Tracked l x q → x < start ∨ stop ≤ x → Tracked l' x q
  inside : Owned l' start stop cid

theorem Retains.owned (h : Retains start stop cid l l') (hown : Owned l lo hi cid) :
    Owned l' lo hi cid := by
  intro x hx hxs
  by_cases hin : start ≤ x ∧ x < stop
  · exact h.inside x hin.1 hin.2
  · obtain ⟨q, hq, hcid⟩ := hown x hx hxs
    exact ⟨q, h.outside x q hq (by omega), hcid⟩

theorem Wf.inner_iff (h : Wf l) (hg : g ∈ l) :
    g ∈ l.tail.dropLast ↔ (∃ y ∈ l, y.stop ≤ g.start) ∧ ∃ y ∈ l, g.stop ≤ y.start := by
  constructor
  · intro hin
    obtain ⟨head, pre, post, rfl, hpost⟩ := mem_inner_iff.mp hin
    obtain ⟨next, rest, rfl⟩ := List.exists_cons_of_ne_nil hpost
    obtain ⟨-, -, -, -, hbelow, habove⟩ := wf_mid.mp h
    exact ⟨⟨head, by simp, hbelow head (by simp)⟩, next, by simp, habove next (by simp)⟩
  · intro hbetween
    obtain ⟨⟨a, ha, hag⟩, b, hb, hgb⟩ := hbetween
    obtain ⟨pre, post, rfl⟩ := List.append_of_mem hg
    obtain ⟨-, -, hpos, -, hbelow, habove⟩ := wf_mid.mp h
    have hapos := h.nonempty ha
    have hbpos := h.nonempty hb
    rw [List.mem_append, List.mem_cons] at ha hb
    have hpre : pre ≠ [] := by
      intro hnil
      subst hnil
      rcases ha with ha | rfl | ha
      · cases ha
      · omega
      · have := habove a ha
        omega
    have hpost : post ≠ [] := by
      intro hnil
      subst hnil
      rcases hb with hb | rfl | hb
      · have := hbelow b hb
        omega
      · omega
      · cases hb
    obtain ⟨head, pre, rfl⟩ := List.exists_cons_of_ne_nil hpre
    exact mem_inner_iff.mpr ⟨head, pre, post, rfl, hpost⟩

end Retains

/-! ## update_mprotect -/

section Update

variable {mm start size : Nat} {prot : Prot} {cid r : Int} {pm pm' : PageManager}

theorem Owned.place {l : List VirtPage} (hown : Owned l start (start + size) cid) (h : Wf l)
    (hpos : 0 < size)
    (hplace : (∃ g ∈ l, g.start ≤ start ∧ start + size ≤ g.stop) ∨
      ∀ head ∈ l.head?, head.stop ≤ start) :
    ∃ g ∈ l, g.cid = cid ∧ g.start ≤ start ∧ start < g.stop ∧
      (start + size ≤ g.stop ∨
        (g.stop < start + size ∧ ∃ head pre post, l = head :: pre ++ g :: post)) := by
  obtain ⟨q, ⟨g, hg, hgs, hsg, -⟩, -⟩ := hown start (Nat.le_refl _) (by omega)
  refine ⟨g, hg, hown.cid_eq h hg hgs hsg (by omega), hgs, hsg, ?_⟩
  by_cases hin : start + size ≤ g.stop
  · exact .inl hin
  · refine .inr ⟨by omega, ?_⟩
    rcases hplace with ⟨y, hy, hys, hsy⟩ | hhead
    · rw [h.ordered.eq_of_mem hg hy hgs hsg hys (by omega)] at hin
      omega
    obtain ⟨pre, post, rfl⟩ := List.append_of_mem hg
    cases pre with
    | nil =>
        have := hhead g (by simp)
        omega
    | cons head pre => exact ⟨head, pre, post, rfl⟩

theorem mprotectAcross_answer (hi : Inv [] pm) (hmm : Fresh pm mm)
    (hw : start + roundUp size < 2 ^ 64)
    (h : mprotectAcross mm pm start size prot cid = some (r, pm')) :
    (r = -1 ∧ pm' = pm) ∨
      (r = 0 ∧ ∃ pm₁, removePage mm pm start size cid = some (0, pm₁)) := by
  simp only [mprotectAcross] at h
  split at h
  · cases h
  · next ret pm₁ hremove =>
      rcases removePageLocked_cases hi (fun _ => hmm) hw hremove with ⟨rfl, rfl⟩ | ⟨rfl, -⟩
      · cases h
        exact .inl ⟨rfl, rfl⟩
      · refine .inr ⟨?_, pm₁, hremove⟩
        simp only [Int.reduceNeg, Int.reduceEq, if_false] at h
        split at h
        · cases h
        · split at h
          · cases h
          · cases h
            rfl
        · split at h
          · cases h
          · split at h
            · cases h
            · cases h
              rfl

theorem updateMprotect_answer (hi : Inv [] pm) (hmm : Fresh pm mm) (hstart : start < 2 ^ 64)
    (hsize : size < 2 ^ 64) (hw : start + roundUp size < 2 ^ 64)
    (h : updateMprotect mm pm start size prot cid = some (r, pm')) :
    (r = -1 ∧ pm' = pm) ∨ r = 0 := by
  rcases updateMprotect_entry pm mm prot cid hstart hsize with
    hrefused | ⟨g, hlookup, rfl, hpos, hle⟩
  · cases hrefused.symm.trans h
    exact .inl ⟨rfl, rfl⟩
  obtain ⟨hg, -⟩ := lookupAddr_some hlookup
  by_cases hin : start + size ≤ g.stop
  · exact .inr (updateMprotect_inside hi hmm hg hlookup hpos hin h).1
  · rw [updateMprotect_across hi hg hlookup hle (by omega)] at h
    rcases mprotectAcross_answer hi hmm hw h with hfail | ⟨hr, -⟩
    · exact .inl hfail
    · exact .inr hr

variable (prot cid) in
/-- `update_mprotect` accepts the owned ranges that are not empty, except those that
start in the first group and end in another one. Those that end in another group have to
own the rest of their last page too. -/
theorem updateMprotect_accepts_iff (hi : Inv [] pm) (hmm : PoolReady pm mm)
    (hs : start % 4096 = 0) (hw : start + roundUp size < 2 ^ 64) (hround : size ≤ roundUp size) :
    (∃ pm', updateMprotect mm pm start size prot cid = some (0, pm')) ↔
      0 < size ∧ Owned pm.pages start (start + size) cid ∧
        ((∃ g ∈ pm.pages, g.start ≤ start ∧ start + size ≤ g.stop) ∨
          (∀ head ∈ pm.pages.head?, head.stop ≤ start) ∧
            Owned pm.pages start (start + roundUp size) cid) := by
  constructor
  · intro h
    obtain ⟨pm', h⟩ := h
    rcases updateMprotect_entry pm mm prot cid (show start < 2 ^ 64 by omega)
      (show size < 2 ^ 64 by omega) with hrefused | ⟨g, hlookup, rfl, hpos, hle⟩
    · cases hrefused.symm.trans h
    obtain ⟨hg, hgs, -, -⟩ := lookupAddr_some hlookup
    refine ⟨hpos, ?_⟩
    by_cases hin : start + size ≤ g.stop
    · exact ⟨owned_of_group hg rfl hgs hin, .inl ⟨g, hg, hgs, hin⟩⟩
    · rw [updateMprotect_across hi hg hlookup hle (by omega)] at h
      rcases mprotectAcross_answer hi hmm.fresh hw h with ⟨hr, -⟩ | ⟨-, hremove⟩
      · cases hr
      obtain ⟨-, -, hown, y, hy, hys, -⟩ := (removePage_owned_iff hi (fun _ => hmm) hw).mp hremove
      refine ⟨fun x hx hxs => hown x hx (by omega), .inr ⟨fun head hhead => ?_, hown⟩⟩
      obtain ⟨first, pre, post, hp, -⟩ := mem_inner_iff.mp hy
      obtain rfl : first = head := by simpa [hp] using hhead
      obtain ⟨-, -, -, -, hbelow, -⟩ := wf_mid.mp (hp ▸ hi.wf)
      have := hbelow first (by simp)
      omega
  · intro h
    obtain ⟨hpos, hown, hplace⟩ := h
    obtain ⟨g, hg, rfl, hgs, hsg, hin | ⟨hover, head, pre, post, hp⟩⟩ :=
      hown.place hi.wf hpos (hplace.imp_right And.left)
    · have hlookup := lookupAddr_eq hi.wf hg hgs hsg (.inr rfl)
      obtain ⟨r, pm', hrun⟩ := updateMprotect_inside_total prot hi hmm hg hlookup hpos hin
      obtain ⟨rfl, -⟩ := updateMprotect_inside hi hmm.fresh hg hlookup hpos hin hrun
      exact ⟨pm', hrun⟩
    · rcases hplace with ⟨y, hy, hys, hsy⟩ | ⟨-, hpages⟩
      · rw [hi.wf.ordered.eq_of_mem hg hy hgs hsg hys (by omega)] at hover
        omega
      obtain ⟨_, _, _, _, -, -, -, -, -, hrun⟩ := updateMprotect_across_linked prot hi hmm hp hs hw
        hround hgs hsg hover hpages
      exact ⟨_, hrun⟩

/-- In whole pages nothing is lost, and if the list is still sorted it can be trusted. -/
theorem updateMprotect_retains (hi : Inv [] pm) (hmm : PoolReady pm mm) (hs : start % 4096 = 0)
    (hround : roundUp size = size) (hw : start + size < 2 ^ 64)
    (h : updateMprotect mm pm start size prot cid = some (0, pm')) :
    Retains start (start + size) cid pm.pages pm'.pages ∧
      (SortedDisjoint pm'.pages → Inv [] pm') := by
  obtain ⟨hpos, hown, hplace⟩ := (updateMprotect_accepts_iff prot cid hi hmm hs (hround.symm ▸ hw)
    (Nat.le_of_eq hround.symm)).mp ⟨pm', h⟩
  obtain ⟨g, hg, rfl, hgs, hsg, hin | ⟨hover, head, pre, post, hp⟩⟩ :=
    hown.place hi.wf hpos (hplace.imp_right And.left)
  · have hlookup := lookupAddr_eq hi.wf hg hgs hsg (.inr rfl)
    obtain ⟨-, hpaint⟩ := updateMprotect_inside hi hmm.fresh hg hlookup hpos hin h
    refine ⟨⟨fun x q hq hx => ?_, fun x hx hxs => ?_⟩, fun _ => hpaint.inv⟩
    · exact (hpaint.tracked x q).mpr (.inl ⟨hq, hx⟩)
    · exact ⟨⟨prot, g.flags, g.cid⟩, (hpaint.tracked x _).mpr (.inr (.inl ⟨hx, hxs, rfl⟩)), rfl⟩
  · obtain ⟨n, rest, pm₁, pm₂, hrem, hpools, hpages, halloc, -, hrun⟩ :=
      updateMprotect_across_linked prot hi hmm hp hs (hround.symm ▸ hw) (Nat.le_of_eq hround.symm)
        hgs hsg hover (by rw [hround]; exact hown)
    rw [hround] at hrem
    cases h.symm.trans hrun
    obtain ⟨hi₂, hre⟩ := virtPageAlloc_spec hrem.inv (fun _ => (hrem.ready hpools hmm).fresh.pool)
      halloc
    obtain ⟨a, b, hp₂⟩ := List.append_of_mem (hre.grown.mem head (by simp [hpages]))
    simp only [hp₂, insertAfter_mid (hi₂.node_ne hp₂).1]
    refine ⟨⟨fun x q hq hx => ?_, fun x hx hxs => ?_⟩, fun hsorted => ?_⟩
    · refine tracked_linked.mpr (.inl ?_)
      rw [← hp₂, hre.tracked, hrem.tracked]
      exact .inl (.inl ⟨hq, hx⟩)
    · exact ⟨_, tracked_linked.mpr (.inr ⟨hx, hxs, rfl⟩), rfl⟩
    · refine hi₂.moved hsorted.wf rfl fun x => ?_
      simp only [nodes, hp₂, List.map_append, List.map_cons, List.count_append, List.count_cons,
        List.count_nil]
      omega

end Update

/-! ## add_page with map_fixed -/

section Add

variable {mm start size lo hi : Nat} {prot : Prot} {flags cid r : Int} {multithreaded : Bool}
  {pm pm' : PageManager}

/-- A group of the list, or the pool that the call has to map first. -/
def ListedWith (mm : Nat) (pm : PageManager) (y : VirtPage) : Prop :=
  y ∈ pm.pages ∨ (pm.freePages = [] ∧ y = poolGroup mm)

/-- The group of the address has one before it and one behind it. -/
def Between (mm : Nat) (pm : PageManager) (x : Nat) : Prop :=
  ∃ g ∈ pm.pages, g.start ≤ x ∧ x < g.stop ∧ (∃ y, ListedWith mm pm y ∧ y.stop ≤ g.start) ∧
    ∃ y, ListedWith mm pm y ∧ g.stop ≤ y.start

theorem addPage_removes_iff {p1 : Nat} {pm₁ : PageManager} (hi₁ : Inv [p1] pm₁)
    (hmm : pm₁.freePages = [] → PoolReady pm₁ mm) (hs : start % 4096 = 0)
    (hround : roundUp size = size) (hpos : 0 < size) (hw : start + size < 2 ^ 64)
    (halloc : virtPageAlloc mm pm = some (p1, pm₁)) :
    (∃ pm', addPage true mm pm start size prot flags cid true = some (0, pm')) ↔
      ∃ pm₂, removePage mm pm₁ start size cid = some (0, pm₂) := by
  have hrw : start + roundUp size < 2 ^ 64 := by omega
  have hfresh : pm₁.freePages = [] → Fresh pm₁ mm := fun hfree => (hmm hfree).fresh
  constructor
  · intro h
    obtain ⟨pm', h⟩ := h
    simp only [addPage_fixed hs hround halloc, if_true] at h
    split at h
    · cases h
    · next ret pm₂ hremove =>
        rcases removePageLocked_cases hi₁ hfresh hrw hremove with ⟨rfl, rfl⟩ | ⟨rfl, -⟩
        · simp at h
        · exact ⟨pm₂, hremove⟩
  · intro h
    obtain ⟨pm₂, hremove⟩ := h
    rcases removePageLocked_cases hi₁ hfresh hrw hremove with ⟨hr, -⟩ | ⟨-, -, -, hrem, -⟩
    · cases hr
    · rw [hround] at hrem
      exact addPage_after_removal hs hround hpos hw halloc hremove hrem

variable (prot flags cid) in
/-- Once there are threads it accepts the owned ranges that start between two groups. -/
theorem addPage_threads_iff (hi : Inv [] pm) (hmm : PoolReady pm mm)
    (hout : mm + 8192 ≤ start ∨ start + size ≤ mm) (hs : start % 4096 = 0)
    (hround : roundUp size = size) (hpos : 0 < size) (hw : start + size < 2 ^ 64) :
    (∃ pm', addPage true mm pm start size prot flags cid true = some (0, pm')) ↔
      Owned pm.pages start (start + size) cid ∧ Between mm pm start := by
  obtain ⟨p1, pm₁, halloc⟩ := virtPageAlloc_total hi fun _ => hmm
  obtain ⟨hi₁, hre⟩ := virtPageAlloc_spec hi (fun _ => hmm.fresh.pool) halloc
  have htracked (x : Nat) (q : Attr) (hx : start ≤ x) (hxs : x < start + size) :
      Tracked pm₁.pages x q ↔ Tracked pm.pages x q := by
    rw [hre.tracked, or_iff_left_iff_imp]
    intro hpool
    obtain ⟨h₁, h₂⟩ := hre.grown.pool x q hpool
    omega
  have hown : Owned pm₁.pages start (start + size) cid ↔
      Owned pm.pages start (start + size) cid := by
    refine forall_congr' fun x => forall_congr' fun hx => forall_congr' fun hxs => ?_
    exact exists_congr fun q => and_congr_left fun _ => htracked x q hx hxs
  have hbetween : (∃ g ∈ pm₁.pages.tail.dropLast, g.start ≤ start ∧ start < g.stop) ↔
      Between mm pm start := by
    constructor
    · intro hin
      obtain ⟨g, hg, hgs, hsg⟩ := hin
      have hmem : g ∈ pm₁.pages := List.mem_of_mem_tail ((List.dropLast_sublist _).subset hg)
      obtain ⟨⟨a, ha, hag⟩, b, hb, hgb⟩ := (hi₁.wf.inner_iff hmem).mp hg
      rcases (hre.mem g).mp hmem with hmem | ⟨-, rfl⟩
      · exact ⟨g, hmem, hgs, hsg, ⟨a, (hre.mem a).mp ha, hag⟩, b, (hre.mem b).mp hb, hgb⟩
      · rw [poolGroup_start] at hgs
        rw [poolGroup_stop] at hsg
        omega
    · intro hin
      obtain ⟨g, hg, hgs, hsg, ⟨a, ha, hag⟩, b, hb, hgb⟩ := hin
      have hmem : g ∈ pm₁.pages := (hre.mem g).mpr (.inl hg)
      refine ⟨g, (hi₁.wf.inner_iff hmem).mpr ⟨⟨a, (hre.mem a).mpr ha, hag⟩, b, ?_, hgb⟩, hgs, hsg⟩
      exact (hre.mem b).mpr hb
  have hrpos : 0 < roundUp size := by omega
  rw [addPage_removes_iff hi₁ (hre.ready hmm) hs hround hpos hw halloc,
    removePage_owned_iff hi₁ (hre.ready hmm) (by omega), hbetween, hround, hown]
  simp only [hs, hpos, true_and]

theorem addPage_accepts_iff (hi : Inv [] pm) (hmm : PoolReady pm mm)
    (hout : mm + 8192 ≤ start ∨ start + size ≤ mm) (hs : start % 4096 = 0)
    (hround : roundUp size = size) (hpos : 0 < size) (hw : start + size < 2 ^ 64)
    (hno : NoForeign pm.pages start (start + size) cid)
    (hown : multithreaded = true → Owned pm.pages start (start + size) cid) :
    (∃ pm', addPage multithreaded mm pm start size prot flags cid true = some (0, pm')) ↔
      (multithreaded = true → Between mm pm start) := by
  cases multithreaded with
  | true =>
      rw [addPage_threads_iff prot flags cid hi hmm hout hs hround hpos hw]
      simp [hown]
  | false =>
      simp only [Bool.false_eq_true, false_implies, iff_true]
      refine addPage_fixed_single hi hmm hout hs hround hpos hw fun g hg hgs hsg => ?_
      have hgpos := hi.wf.nonempty hg
      -- the group and the range share the larger of their two starts
      exact hno (max start g.start) g.attr ⟨g, hg, by omega, by omega, rfl⟩ (by omega) (by omega)

/-- What the check has found out of a range stays true, wherever in it a call adds. -/
theorem addPage_fixed_keeps (hinv : Inv [] pm) (hmm : PoolReady pm mm)
    (hout : mm + 8192 ≤ lo ∨ hi ≤ mm) (hs : start % 4096 = 0) (hround : roundUp size = size)
    (hpos : 0 < size) (hw : start + size < 2 ^ 64)
    (h : addPage multithreaded mm pm start size prot flags cid true = some (r, pm')) :
    Inv [] pm' ∧ (NoForeign pm.pages lo hi cid → NoForeign pm'.pages lo hi cid) ∧
      (Owned pm.pages lo hi cid → Owned pm'.pages lo hi cid) := by
  have hpool (x : Nat) (q : Attr) (hx : PoolAt pm.pools pm'.pools x q) : ¬ (lo ≤ x ∧ x < hi) := by
    obtain ⟨h₁, h₂⟩ := poolAt_mem (addPage_pools hinv hmm hs hround hpos hw h) hx
    omega
  rcases addPage_cases hinv hmm.fresh (hround.symm ▸ hpos) (hround.symm ▸ hw) h with
    ⟨-, hkept⟩ | ⟨-, hadded, -⟩
  · refine ⟨hkept.inv, fun hno x q hx hlo hhi => ?_, fun hown x hlo hhi => ?_⟩
    · rcases (hkept.tracked x q).mp hx with hx | hx
      · exact hno x q hx hlo hhi
      · exact absurd ⟨hlo, hhi⟩ (hpool x q hx)
    · obtain ⟨q, hq, hcid⟩ := hown x hlo hhi
      exact ⟨q, (hkept.tracked x q).mpr (.inl hq), hcid⟩
  · rw [hround] at hadded
    have hretains : Retains start (start + size) cid pm.pages pm'.pages := by
      refine ⟨fun x q hq hx => ?_, fun x hx hxs => ?_⟩
      · exact (hadded.tracked x q).mpr (.inl ⟨.inl hq, fun _ => hx⟩)
      · exact ⟨_, (hadded.tracked x _).mpr (.inr ⟨hx, hxs, rfl⟩), rfl⟩
    refine ⟨hadded.inv, fun hno x q hx hlo hhi => ?_, hretains.owned⟩
    rcases (hadded.tracked x q).mp hx with ⟨hx | hx, -⟩ | ⟨-, -, rfl⟩
    · exact hno x q hx hlo hhi
    · exact absurd ⟨hlo, hhi⟩ (hpool x q hx)
    · rfl

end Add

end Secpoline
