import Secpoline.Lib.PointMap
import Secpoline.Model.Kernel
import Secpoline.Proofs.PageRuns

/-!
# The page manager as a map

What the page manager is for is a partial function: an address is tracked with a
protection, flags and a compartment, or it is not tracked. `view` reads the list
that way, and the theorems of this file say what the operations do to that function
and to nothing else: `add_page` overrides it on a range, `remove_page` takes a range
out, `update_size` moves the end of a group, and the two range lookups decide
questions about it.

An operation that needs a list node when the free list is empty maps a pool of
nodes, and the pool gets a group of its own. So the function after an operation is
the one that the operation is for, or that one with the pool added (`Says`).
-/

namespace Secpoline

open Lib

/-- What the list says about every address. -/
def PageManager.view (pm : PageManager) : Nat → Option Attr :=
  look VirtPage.start VirtPage.stop VirtPage.attr pm.pages

/-- After an operation on `pm` the list says `v`, to which a refill may have added
the pool at `mm`. -/
def Says (mm : Nat) (pm : PageManager) (v : Nat → Option Attr) (pm' : PageManager) : Prop :=
  (pm'.pools = pm.pools ∧ pm'.view = v) ∨
    (pm'.pools = mm :: pm.pools ∧ pm'.view = setOn mm (mm + 8192) (poolGroup mm).attr v)

/-- `v'` is `v` with the two pages of the pool at `mm`, which are readable and writable. -/
def AddsPool (mm : Nat) (v v' : Nat → Option Attr) : Prop :=
  (∀ x, x < mm ∨ mm + 8192 ≤ x → v' x = v x) ∧
    ∀ x, mm ≤ x → x < mm + 8192 → ∃ q, v' x = some q ∧ q.prot = PROT_READ ||| PROT_WRITE

/-- A pool is added exactly if the operation takes a node and none is free. -/
def Refills (mm : Nat) (pm : PageManager) (takesNode : Prop) (pm' : PageManager) : Prop :=
  (pm'.pools = pm.pools ∧ ¬ (takesNode ∧ pm.freePages = [])) ∨
    (pm'.pools = mm :: pm.pools ∧ takesNode ∧ pm.freePages = [])

/-- What an operation on `pm` leaves that is to leave `v`. -/
structure Yields (mm : Nat) (pm : PageManager) (takesNode : Prop) (v : Nat → Option Attr)
    (pm' : PageManager) : Prop where
  kept : ¬ (takesNode ∧ pm.freePages = []) → pm'.pools = pm.pools ∧ pm'.view = v
  refilled : takesNode → pm.freePages = [] →
    pm'.pools = mm :: pm.pools ∧ AddsPool mm v pm'.view

/-- Where the kernel would map a pool: whole pages that nothing uses. -/
structure PoolReady (pm : PageManager) (mm : Nat) : Prop where
  aligned : mm % 4096 = 0
  fresh : Fresh pm mm

section View

variable {mm : Nat} {pm pm' : PageManager} {x : Nat} {q : Attr}

theorem Wf.view_eq_some (h : Wf pm.pages) : pm.view x = some q ↔ Tracked pm.pages x q :=
  h.ordered.scattered.look_eq_some

theorem Fresh.view_eq_none (h : Fresh pm mm) (hx : mm ≤ x) (hx' : x < mm + 8192) :
    pm.view x = none := by
  refine look_eq_none.mpr fun q hq => ?_
  obtain ⟨g, hg, hgx, hxg, -⟩ := hq
  have := h.groups g hg
  omega

/-- A function that agrees with the list outside the new pool. -/
theorem Says.of_scattered {v : Nat → Option Attr}
    (h : Scattered VirtPage.start VirtPage.stop pm'.pages)
    (hpools : pm'.pools = pm.pools ∨ pm'.pools = mm :: pm.pools)
    (ht : ∀ x q, Tracked pm'.pages x q ↔ v x = some q ∨ PoolAt pm.pools pm'.pools x q)
    (hout : ∀ x q, PoolAt pm.pools pm'.pools x q → v x = none) : Says mm pm v pm' := by
  rcases hpools with hpools | hpools
  · refine .inl ⟨hpools, h.look_eq fun x q => (ht x q).trans ?_⟩
    rw [hpools]
    simp
  · refine .inr ⟨hpools, h.look_eq fun x q => (ht x q).trans ?_⟩
    rw [setOn_eq_some, hpools, poolAt_cons]
    constructor
    · intro hx
      rcases hx with hv | hx
      · refine .inl ⟨hv, ?_⟩
        by_contra hin
        have hnone :=
          hout x (poolGroup mm).attr (hpools ▸ poolAt_cons.mpr ⟨by omega, by omega, rfl⟩)
        rw [hnone] at hv
        cases hv
      · exact .inr hx
    · intro hx
      rcases hx with ⟨hv, -⟩ | hx
      · exact .inl hv
      · exact .inr hx

theorem Says.of_tracked {v : Nat → Option Attr} (h : Wf pm'.pages)
    (hpools : pm'.pools = pm.pools ∨ pm'.pools = mm :: pm.pools)
    (ht : ∀ x q, Tracked pm'.pages x q ↔ v x = some q ∨ PoolAt pm.pools pm'.pools x q)
    (hout : ∀ x q, PoolAt pm.pools pm'.pools x q → v x = none) : Says mm pm v pm' :=
  .of_scattered h.ordered.scattered hpools ht hout

theorem addsPool_setOn {v : Nat → Option Attr} :
    AddsPool mm v (setOn mm (mm + 8192) (poolGroup mm).attr v) :=
  ⟨fun x hx => if_neg (by omega), fun x hlo hhi => ⟨_, if_pos ⟨hlo, hhi⟩, rfl⟩⟩

theorem Says.yields {v : Nat → Option Attr} {takesNode : Prop} (h : Says mm pm v pm')
    (hpools : Refills mm pm takesNode pm') : Yields mm pm takesNode v pm' := by
  have hne := List.cons_ne_self mm pm.pools
  rcases hpools with ⟨hsame, hno⟩ | ⟨hcons, htakes, hfree⟩
  · rcases h with h | ⟨hcons, -⟩
    · exact ⟨fun _ => h, fun htakes hfree => absurd ⟨htakes, hfree⟩ hno⟩
    · exact absurd (hcons.symm.trans hsame) hne
  · rcases h with ⟨hsame, -⟩ | ⟨-, hview⟩
    · exact absurd (hcons.symm.trans hsame) hne
    · refine ⟨fun hno => absurd ⟨htakes, hfree⟩ hno, fun _ _ => ⟨hcons, ?_⟩⟩
      rw [hview]
      exact addsPool_setOn

theorem Refill.refills {takesNode : Prop} (h : Refill mm pm pm') (htakes : takesNode) :
    Refills mm pm takesNode pm' := by
  rcases h.once with ⟨-, hsame, hfree⟩ | ⟨hfree, -, hcons⟩
  · exact .inl ⟨hsame, fun hno => hfree hno.2⟩
  · exact .inr ⟨hcons, htakes, hfree⟩

end View

/-! ## A list to look at -/

theorem inv_of_nodup {pm : PageManager} (hwf : Wf pm.pages) (hnodup : (nodes [] pm).Nodup)
    (hpooled : ∀ n ∈ nodes [] pm, ∃ p ∈ pm.pools, p ≤ n ∧ n < p + 8192) : Inv [] pm :=
  ⟨hwf, List.nodup_iff_count_le_one.mp hnodup, hpooled⟩

/-- Four pages of the application. -/
def appGroup : VirtPage :=
  ⟨0x20000, 0x4000, PROT_READ ||| PROT_WRITE, 0x22, TS_APPLICATION, 0x700040⟩

/-- A group of the monitor, two groups of the application that touch, one that stands
alone, and the pool. -/
def someGroups : PageManager :=
  { pages :=
      [⟨0x10000, 0x1000, PROT_READ, 0x22, TS_MONITOR, 0x700000⟩,
       appGroup,
       ⟨0x24000, 0x1000, PROT_READ, 0x22, TS_APPLICATION, 0x700080⟩,
       ⟨0x30000, 0x1000, PROT_READ, 0x22, TS_APPLICATION, 0x7000c0⟩,
       poolGroup 0x700000]
    freePages := [0x700100, 0x700140]
    pools := [0x700000] }

theorem someGroups_inv : Inv [] someGroups := by
  refine inv_of_nodup ⟨⟨by decide, by decide⟩, by decide⟩ (by decide) (by decide)

/-- The same list without a free node. -/
def fullGroups : PageManager := { someGroups with freePages := [] }

theorem fullGroups_inv : Inv [] fullGroups := by
  refine inv_of_nodup ⟨⟨by decide, by decide⟩, by decide⟩ (by decide) (by decide)

/-! ## A call that finds room returns -/

section Total

variable {held : List Nat} {mm : Nat} {pm : PageManager} {l : List VirtPage} {p : VirtPage}
  {mapFixed : Bool}

theorem linkLoop_clear (hl : Wf l) (hne : l ≠ []) (hp : p.stop < 2 ^ 64)
    (hclear : ∀ g ∈ l, g.stop ≤ p.start ∨ p.stop ≤ g.start) :
    ∃ l', linkLoop mapFixed p l = some (0, l') := by
  induction l with
  | nil => exact absurd rfl hne
  | cons cur rest ih =>
      obtain ⟨hrest, -, hcur, -⟩ := wf_cons.mp hl
      have hno : ¬ virtPageOverlap cur p.start p.size > 0 := by
        rw [virtPageOverlap_pos hcur hp]
        have := hclear cur List.mem_cons_self
        show ¬ (cur.start < p.stop ∧ p.start < cur.stop)
        omega
      cases rest with
      | nil => exact ⟨[cur, p], by simp only [linkLoop, if_neg hno]⟩
      | cons next rest =>
          simp only [linkLoop, if_neg hno]
          split
          · obtain ⟨l', hl'⟩ := ih hrest (by simp) fun g hg => hclear g (List.mem_cons_of_mem _ hg)
            exact ⟨cur :: l', by rw [hl']; rfl⟩
          · next hbefore =>
              have hnext := hclear next (by simp)
              have hpos := hrest.nonempty List.mem_cons_self
              have hfits : ¬ wadd p.start p.size > next.start := by
                rw [wadd_eq hp]
                show ¬ next.start < p.stop
                omega
              exact ⟨_, by rw [if_neg hfits]⟩

theorem linkPage_clear (hl : Wf l) (hp : p.stop < 2 ^ 64)
    (hclear : ∀ g ∈ l, g.stop ≤ p.start ∨ p.stop ≤ g.start) :
    ∃ l', linkPage mapFixed p l = some (0, l') := by
  cases l with
  | nil => exact ⟨[p], rfl⟩
  | cons head rest =>
      simp only [linkPage]
      split
      · exact ⟨_, rfl⟩
      · exact linkLoop_clear hl (by simp) hp hclear

theorem virtPageAlloc_total (hi : Inv held pm) (hmm : pm.freePages = [] → PoolReady pm mm) :
    ∃ n pm', virtPageAlloc mm pm = some (n, pm') := by
  simp only [virtPageAlloc]
  split
  · exact ⟨_, _, rfl⟩
  · next hfree =>
      have hready := hmm hfree
      obtain ⟨pages, hlink⟩ : ∃ pages, linkPage false (poolGroup mm) pm.pages = some (0, pages) :=
        linkPage_clear hi.wf hready.fresh.pool.bound fun g hg => (hready.fresh.groups g hg).symm
      have hrefill : refillFreeList mm pm = some
          { pages, freePages := poolNodes mm ++ pm.freePages, pools := mm :: pm.pools } := by
        have hgroup : linkPage false
            { start := mm, size := roundUp 8192, prot := PROT_READ ||| PROT_WRITE,
              flags := TS_MONITOR, cid := 3, node := mm + 64 * 127 } pm.pages = some (0, pages) :=
          hlink
        simp only [refillFreeList, hready.aligned, hgroup]
        simp
      rw [hrefill]
      have hnodes : poolNodes mm = mm :: (List.range' 1 126).map fun i => mm + 64 * i := rfl
      simp only [hnodes, List.cons_append]
      exact ⟨_, _, rfl⟩

end Total

/-! ## Owning a range

An owned range is a chain of touching groups, and both the walk of `lookup_range`
and the search of `remove_page` follow that chain. -/

section Owned

variable {l pre rest : List VirtPage} {g : VirtPage} {start stop : Nat} {cid : Int}

theorem owned_of_group (hg : g ∈ l) (hcid : g.cid = cid) (hs : g.start ≤ start)
    (hstop : stop ≤ g.stop) : Owned l start stop cid := by
  intro x hx hxs
  exact ⟨g.attr, ⟨g, hg, by omega, by omega, rfl⟩, hcid⟩

theorem Owned.cid_eq (h : Owned l start stop cid) (hl : Wf l) (hg : g ∈ l) (hs : g.start ≤ start)
    (hsg : start < g.stop) (hlt : start < stop) : g.cid = cid := by
  obtain ⟨q, hq, hcid⟩ := h start (Nat.le_refl _) hlt
  have hself : Tracked l start g.attr := ⟨g, hg, hs, hsg, rfl⟩
  rw [hl.ordered.at_unique hq hself] at hcid
  exact hcid

theorem owned_cons (h : Wf (g :: rest)) (hlt : g.stop < stop) :
    Owned (g :: rest) g.start stop cid ↔
      g.cid = cid ∧ ∃ next ∈ rest.head?, next.start = g.stop ∧ Owned rest next.start stop cid := by
  obtain ⟨hrest, hpos, -, habove⟩ := wf_cons.mp h
  constructor
  · intro hown
    have htail : Owned rest g.stop stop cid := by
      intro x hx hxs
      obtain ⟨q, hq, hcid⟩ := hown x (by omega) hxs
      rcases at_cons.mp hq with ⟨-, hxg, -⟩ | hq
      · omega
      · exact ⟨q, hq, hcid⟩
    refine ⟨hown.cid_eq h List.mem_cons_self (Nat.le_refl _) hpos (by omega), ?_⟩
    obtain ⟨q, ⟨a, ha, hag, hga, -⟩, -⟩ := htail g.stop (Nat.le_refl _) hlt
    cases rest with
    | nil => cases ha
    | cons next rest =>
        have hnext := habove next List.mem_cons_self
        have hle : next.start ≤ a.start := by
          rcases List.mem_cons.mp ha with rfl | ha
          · exact Nat.le_refl _
          · obtain ⟨-, hnpos, -, hab⟩ := wf_cons.mp hrest
            exact Nat.le_trans (Nat.le_of_lt hnpos) (hab a ha)
        have heq : next.start = g.stop := by omega
        exact ⟨next, rfl, heq, heq ▸ htail⟩
  · intro hnext x hx hxs
    obtain ⟨hcid, next, -, heq, hown⟩ := hnext
    by_cases hxg : x < g.stop
    · exact ⟨g.attr, ⟨g, List.mem_cons_self, hx, hxg, rfl⟩, hcid⟩
    · obtain ⟨q, hq, hc⟩ := hown x (by omega) hxs
      exact ⟨q, at_cons.mpr (.inr hq), hc⟩

/-- The chain of a range begins with the group that the range starts in. -/
theorem owned_from_group (h : Wf (pre ++ g :: rest)) (hs : g.start ≤ start) (hsg : start < g.stop)
    (hlt : start < stop) :
    Owned (pre ++ g :: rest) start stop cid ↔
      g.cid = cid ∧ Owned (g :: rest) g.start stop cid := by
  obtain ⟨-, -, -, -, hbelow, -⟩ := wf_mid.mp h
  constructor
  · intro hown
    have hcid : g.cid = cid := hown.cid_eq h (by simp) hs hsg hlt
    refine ⟨hcid, fun x hx hxs => ?_⟩
    by_cases hxs' : x < start
    · exact ⟨g.attr, ⟨g, List.mem_cons_self, hx, by omega, rfl⟩, hcid⟩
    · obtain ⟨q, hq, hc⟩ := hown x (by omega) hxs
      rcases at_append.mp hq with hq | hq
      · exact absurd hq (hbelow.not_at (by omega))
      · exact ⟨q, hq, hc⟩
  · intro hown x hx hxs
    obtain ⟨q, hq, hc⟩ := hown.2 x (by omega) hxs
    exact ⟨q, at_append.mpr (.inr hq), hc⟩

theorem lookupRangeLoop_iff (h : Wf (g :: rest)) :
    lookupRangeLoop stop cid (g :: rest) = true ↔
      g.cid = cid ∧ Owned (g :: rest) g.start stop cid := by
  induction rest generalizing g with
  | nil =>
      obtain ⟨-, -, hw, -⟩ := wf_cons.mp h
      simp only [lookupRangeLoop, g.pageEnd_eq hw]
      split
      · next hcid => simp [hcid]
      · next hcid =>
          have hcid : g.cid = cid := not_not.mp hcid
          split
          · next hge =>
              simp only [hcid, true_and, true_iff]
              exact owned_of_group List.mem_cons_self hcid (Nat.le_refl _) hge
          · next hlt =>
              rw [owned_cons h (by omega)]
              simp
  | cons next rest ih =>
      obtain ⟨hrest, -, hw, -⟩ := wf_cons.mp h
      rw [lookupRangeLoop]
      simp only [g.pageEnd_eq hw]
      split
      · next hcid => simp [hcid]
      · next hcid =>
          have hcid : g.cid = cid := not_not.mp hcid
          split
          · next hge =>
              simp only [hcid, true_and, true_iff]
              exact owned_of_group List.mem_cons_self hcid (Nat.le_refl _) hge
          · next hlt =>
              have hlt : g.stop < stop := by omega
              rw [owned_cons h hlt]
              split
              · next hgap => simp [hgap]
              · next hgap =>
                  have hgap : next.start = g.stop := not_not.mp hgap
                  rw [ih hrest]
                  simp only [hcid, true_and, List.head?_cons, Option.mem_def, Option.some.injEq,
                    exists_eq_left', hgap]
                  constructor
                  · intro hown
                    exact hown.2
                  · intro hown
                    refine ⟨?_, hown⟩
                    exact hown.cid_eq hrest List.mem_cons_self (Nat.le_of_eq hgap)
                      (by have := hrest.nonempty List.mem_cons_self; omega) hlt

end Owned

/-! ## The lookups -/

section Lookups

variable {pm : PageManager} {start size : Nat} {cid : Int}

theorem virtPageOverlapByte_iff {g : VirtPage} {x : Nat} (hg : g.stop < 2 ^ 64) :
    virtPageOverlapByte g x = true ↔ g.start ≤ x ∧ x < g.stop := by
  simp [virtPageOverlapByte, g.pageEnd_eq hg]

/-- The first loop of `lookup_range` stops at the group of the address, if there is one. -/
theorem Wf.dropWhile_at {l : List VirtPage} (h : Wf l) (x : Nat) :
    ((l.dropWhile fun g => !virtPageOverlapByte g x) = [] ∧
        ∀ g ∈ l, ¬ (g.start ≤ x ∧ x < g.stop)) ∨
      ∃ pre g rest, l = pre ++ g :: rest ∧
        (l.dropWhile fun g => !virtPageOverlapByte g x) = g :: rest ∧
        g.start ≤ x ∧ x < g.stop := by
  induction l with
  | nil => exact .inl ⟨rfl, by simp⟩
  | cons a l ih =>
      obtain ⟨hl, -, hw, -⟩ := wf_cons.mp h
      by_cases hx : a.start ≤ x ∧ x < a.stop
      · refine .inr ⟨[], a, l, rfl, ?_, hx⟩
        simp [(virtPageOverlapByte_iff hw).mpr hx]
      · have hno : virtPageOverlapByte a x = false := by
          rw [Bool.eq_false_iff]
          intro ho
          exact hx ((virtPageOverlapByte_iff hw).mp ho)
        rcases ih hl with ⟨hnil, hnone⟩ | ⟨pre, g, rest, heq, hdrop, hg⟩
        · refine .inl ⟨by simp [hno, hnil], ?_⟩
          simp only [List.mem_cons, forall_eq_or_imp]
          exact ⟨hx, hnone⟩
        · exact .inr ⟨a :: pre, g, rest, by simp [heq], by simp [hno, hdrop], hg⟩

theorem lookupRange_iff (h : Wf pm.pages) (hpos : 0 < size) (hw : start + size < 2 ^ 64)
    {g : VirtPage} :
    lookupRange pm start size cid = some (some g) ↔
      g ∈ pm.pages ∧ g.start ≤ start ∧ start < g.stop ∧
        Owned pm.pages start (start + size) cid := by
  have hlt : start < start + size := by omega
  rcases h.dropWhile_at start with ⟨hdrop, hnone⟩ | ⟨pre, first, rest, hp, hdrop, hfs, hsf⟩
  · constructor
    · intro he
      simp only [lookupRange, hdrop] at he
      split at he <;> cases he
    · intro hg
      exact absurd ⟨hg.2.1, hg.2.2.1⟩ (hnone g hg.1)
  · have hwf : Wf (pre ++ first :: rest) := hp ▸ h
    have hne : pm.pages ≠ [] := by simp [hp]
    have hmem : first ∈ pm.pages := by simp [hp]
    have hloop : lookupRange pm start size cid = some (some g) ↔
        first = g ∧ first.cid = cid ∧ Owned (first :: rest) first.start (start + size) cid := by
      simp only [lookupRange, if_neg hne, hdrop, wadd_eq hw, h.pageEnd hmem]
      rw [← lookupRangeLoop_iff hwf.right]
      split
      · next hcid => simp [lookupRangeLoop, hcid]
      · next hcid =>
          split
          · next hge => simp [lookupRangeLoop, hcid, h.pageEnd hmem, hge]
          · split
            · next hl => simp [hl]
            · next hl => simp [hl]
    rw [hloop, ← owned_from_group hwf hfs hsf hlt, ← hp]
    constructor
    · intro hg
      obtain ⟨rfl, hown⟩ := hg
      exact ⟨hmem, hfs, hsf, hown⟩
    · intro hg
      obtain ⟨hg, hgs, hsg, hown⟩ := hg
      exact ⟨h.ordered.eq_of_mem hmem hg hfs hsf hgs hsg, hown⟩

/-- With the end as it is computed, which may have wrapped. -/
theorem lookupRangeAllowGaps_zero_iff (h : Wf pm.pages) :
    lookupRangeAllowGaps pm start size cid = 0 ↔
      ∀ g ∈ pm.pages, g.start < wadd start size → start < g.stop → g.cid = cid := by
  simp only [lookupRangeAllowGaps]
  split
  · next hany =>
      obtain ⟨g, hg, hbad⟩ := List.any_eq_true.mp hany
      simp only [h.pageEnd hg, Bool.and_eq_true, Bool.not_eq_true', Bool.or_eq_false_iff,
        decide_eq_false_iff_not, bne_iff_ne] at hbad
      constructor
      · intro h0
        cases h0
      · intro hall
        exact absurd (hall g hg (by omega) (by omega)) hbad.2
  · next hnone =>
      simp only [true_iff]
      intro g hg hgs hsg
      by_contra hcid
      refine hnone (List.any_eq_true.mpr ⟨g, hg, ?_⟩)
      simp only [h.pageEnd hg, Bool.and_eq_true, Bool.not_eq_true', Bool.or_eq_false_iff,
        decide_eq_false_iff_not, bne_iff_ne]
      exact ⟨by omega, hcid⟩

theorem lookupRangeAllowGaps_iff (h : Wf pm.pages) (hw : start + size < 2 ^ 64) :
    lookupRangeAllowGaps pm start size cid = 0 ↔
      ∀ g ∈ pm.pages, g.start < start + size → start < g.stop → g.cid = cid := by
  rw [lookupRangeAllowGaps_zero_iff h, wadd_eq hw]

theorem lookupRange_owned_iff (h : Wf pm.pages) (hpos : 0 < size) (hw : start + size < 2 ^ 64) :
    (∃ g, lookupRange pm start size cid = some (some g)) ↔
      Owned pm.pages start (start + size) cid := by
  constructor
  · intro hg
    obtain ⟨g, hg⟩ := hg
    exact ((lookupRange_iff h hpos hw).mp hg).2.2.2
  · intro hown
    obtain ⟨q, ⟨g, hg, hgs, hsg, -⟩, -⟩ := hown start (Nat.le_refl _) (by omega)
    exact ⟨g, (lookupRange_iff h hpos hw).mpr ⟨hg, hgs, hsg, hown⟩⟩

theorem lookupRangeAllowGaps_of_owned (h : Wf pm.pages) (hpos : 0 < size)
    (hw : start + size < 2 ^ 64) (hown : Owned pm.pages start (start + size) cid) :
    lookupRangeAllowGaps pm start size cid = 0 := by
  refine (lookupRangeAllowGaps_iff h hw).mpr fun g hg hgs hsg => ?_
  -- the group and the range share the larger of their two starts
  by_cases hle : g.start ≤ start
  · exact hown.cid_eq h hg hle hsg (by omega)
  · obtain ⟨q, hq, hcid⟩ := hown g.start (by omega) hgs
    rw [h.ordered.at_unique hq ⟨g, hg, Nat.le_refl _, h.nonempty hg, rfl⟩] at hcid
    exact hcid

theorem lookupRange_returns (h : pm.pages ≠ []) :
    ∃ found, lookupRange pm start size cid = some found := by
  simp only [lookupRange, if_neg h]
  split
  · exact ⟨_, rfl⟩
  · split
    · exact ⟨_, rfl⟩
    · split
      · exact ⟨_, rfl⟩
      · split <;> exact ⟨_, rfl⟩

variable (cid) in
/-- Range lookups are exact: `lookup_range` succeeds on the ranges that the
compartment owns, with the group of the start, and returns without one on all others
unless the list is empty; `lookup_range_allow_gaps` succeeds on those that no other
compartment has a part in; the first are among the second. -/
theorem lookups_exact (h : Wf pm.pages) (hpos : 0 < size) (hw : start + size < 2 ^ 64) :
    ((∃ g, lookupRange pm start size cid = some (some g)) ↔
        Owned pm.pages start (start + size) cid) ∧
      (∀ g, lookupRange pm start size cid = some (some g) →
        g ∈ pm.pages ∧ g.start ≤ start ∧ start < g.stop) ∧
      (pm.pages ≠ [] → ¬ Owned pm.pages start (start + size) cid →
        lookupRange pm start size cid = some none) ∧
      (lookupRangeAllowGaps pm start size cid = 0 ↔
        ∀ g ∈ pm.pages, g.start < start + size → start < g.stop → g.cid = cid) ∧
      ((∃ g, lookupRange pm start size cid = some (some g)) →
        lookupRangeAllowGaps pm start size cid = 0) := by
  have hrange : (∃ g, lookupRange pm start size cid = some (some g)) ↔
      Owned pm.pages start (start + size) cid := lookupRange_owned_iff h hpos hw
  refine ⟨hrange, fun g hg => ?_, fun hne hown => ?_, lookupRangeAllowGaps_iff h hw,
    fun hg => lookupRangeAllowGaps_of_owned h hpos hw (hrange.mp hg)⟩
  · obtain ⟨h₁, h₂, h₃, -⟩ := (lookupRange_iff h hpos hw).mp hg
    exact ⟨h₁, h₂, h₃⟩
  · obtain ⟨found, hfound⟩ := lookupRange_returns hne
    cases found with
    | none => exact hfound
    | some g => exact absurd (hrange.mp ⟨g, hfound⟩) hown

theorem lookups_exact_someGroups :
    Owned someGroups.pages 0x21000 0x25000 TS_APPLICATION ∧
      lookupRangeAllowGaps someGroups 0x21000 0x4000 TS_APPLICATION = 0 := by
  have hfound : ∃ g, lookupRange someGroups 0x21000 0x4000 TS_APPLICATION = some (some g) :=
    ⟨_, rfl⟩
  obtain ⟨hrange, -, -, -, hgaps⟩ := lookups_exact TS_APPLICATION someGroups_inv.wf
    (show 0 < 0x4000 by decide) (show 0x21000 + 0x4000 < 2 ^ 64 by decide)
  exact ⟨hrange.mp hfound, hgaps hfound⟩

end Lookups

/-! ## add_page -/

section AddPage

variable {held : List Nat} {mm start size : Nat} {prot : Prot} {flags cid : Int}
  {pm pm₁ pm' : PageManager} {r : Int} {multithreaded mapFixed : Bool}

/-- The list is as it was, but for the group of a pool. -/
def ListKept (mm : Nat) (pm pm' : PageManager) : Prop :=
  pm'.pages = pm.pages ∨
    (pm.freePages = [] ∧ ∃ a b, pm.pages = a ++ b ∧ pm'.pages = a ++ poolGroup mm :: b)

theorem virtPageAlloc_kept {n : Nat} (hi : Inv held pm) (hmm : Fresh pm mm)
    (h : virtPageAlloc mm pm = some (n, pm')) : ListKept mm pm pm' := by
  simp only [virtPageAlloc] at h
  split at h
  · cases h
    exact .inl rfl
  · next hfree =>
      split at h
      · cases h
      · next pm₁ hre =>
          obtain ⟨-, -, a, b, hab, hpages, -⟩ := refillFreeList_cases hi hmm.pool.bound hre
          split at h
          · cases h
            exact .inr ⟨hfree, a, b, hab, hpages⟩
          · cases h

/-- Nothing in the list meets the range. -/
def Clear (l : List VirtPage) (start stop : Nat) : Prop :=
  ∀ g ∈ l, g.stop ≤ start ∨ stop ≤ g.start

theorem Refill.clear_iff {stop : Nat} (h : Refill mm pm pm₁)
    (hout : mm + 8192 ≤ start ∨ stop ≤ mm) :
    Clear pm₁.pages start stop ↔ Clear pm.pages start stop := by
  constructor
  · intro hc g hg
    exact hc g ((h.mem g).mpr (.inl hg))
  · intro hc g hg
    rcases (h.mem g).mp hg with hg | ⟨-, rfl⟩
    · exact hc g hg
    · exact hout

theorem addPage_unfixed {p1 : Nat} (hs : start % 4096 = 0) (hround : roundUp size = size)
    (halloc : virtPageAlloc mm pm = some (p1, pm₁)) :
    addPage multithreaded mm pm start size prot flags cid false =
      (linkPage false { start, size, prot, flags, cid, node := p1 } pm₁.pages).map fun res =>
        (res.1, if res.1 = -1 then virtPageFree p1 { pm₁ with pages := res.2 }
          else { pm₁ with pages := res.2 }) := by
  simp only [addPage, halloc, addPageLocked, hs, hround, ne_eq, not_true_eq_false, if_false,
    Bool.false_eq_true, false_and]
  cases hlink : linkPage false { start, size, prot, flags, cid, node := p1 } pm₁.pages with
  | none => rfl
  | some res =>
      simp only [Option.map_some]
      split
      · next hr => simp only [hr]
      · rfl

/-- With `map_fixed` what is in the range is removed first. -/
theorem addPage_fixed {p1 : Nat} (hs : start % 4096 = 0) (hround : roundUp size = size)
    (halloc : virtPageAlloc mm pm = some (p1, pm₁)) :
    addPage multithreaded mm pm start size prot flags cid true =
      match (if multithreaded then removePageLocked mm pm₁ start size cid
        else removePageMapFixedLocked mm pm₁ start size cid) with
      | none => none
      | some (ret, pm₂) =>
          if ret = -1 then some (-1, virtPageFree p1 pm₂)
          else
            (linkPage true { start, size, prot, flags, cid, node := p1 } pm₂.pages).map fun res =>
              (res.1, if res.1 = -1 then virtPageFree p1 { pm₂ with pages := res.2 }
                else { pm₂ with pages := res.2 }) := by
  simp only [addPage, halloc, addPageLocked, hs, hround, ne_eq, not_true_eq_false, if_false,
    if_true, true_and]
  cases (if multithreaded then removePageLocked mm pm₁ start size cid
    else removePageMapFixedLocked mm pm₁ start size cid) with
  | none => rfl
  | some removed =>
      by_cases hfail : removed.1 = -1
      · simp [hfail]
      · simp only [if_neg hfail]
        cases linkPage true { start, size, prot, flags, cid, node := p1 } removed.2.pages with
        | none => rfl
        | some res =>
            simp only [Option.map_some]
            split
            · next hr => simp only [hr]
            · rfl

theorem mapFixedLoop_total {l : List VirtPage} {stop : Nat} (hl : Wf l)
    (hown : ∀ g ∈ l, g.start < stop → start < g.stop → g.cid = cid) :
    ∃ res, mapFixedLoop start stop cid l = some res := by
  induction l with
  | nil => exact ⟨_, rfl⟩
  | cons g rest ih =>
      obtain ⟨hrest, -, hw, -⟩ := wf_cons.mp hl
      obtain ⟨res, hres⟩ := ih hrest fun x hx => hown x (List.mem_cons_of_mem _ hx)
      simp only [mapFixedLoop, g.pageEnd_eq hw, hres, Option.map_some]
      split
      · exact ⟨_, rfl⟩
      · next hafter =>
          split
          · exact ⟨_, rfl⟩
          · next hbefore =>
              have hcid : g.cid = cid := hown g List.mem_cons_self (by omega) (by omega)
              rw [if_neg (not_not.mpr hcid)]
              split
              · exact ⟨_, rfl⟩
              · split
                · exact ⟨_, rfl⟩
                · split
                  · exact ⟨_, rfl⟩
                  · rw [if_neg (by omega)]
                    exact ⟨_, rfl⟩

theorem PoolReady.shortened {pre post : List VirtPage} {g : VirtPage} (h : PoolReady pm mm)
    (hi : Inv held pm) (hp : pm.pages = pre ++ g :: post) (hs : g.start < start)
    (hsg : start ≤ g.stop) :
    PoolReady { pm with pages := pre ++ { g with size := wsub start g.start } :: post } mm := by
  have hw : g.stop < 2 ^ 64 := hi.wf.noWrap g (by simp [hp])
  rw [wsub_eq (Nat.le_of_lt hs) (by omega)]
  refine ⟨h.aligned, h.fresh.pool, fun x hx => ?_⟩
  have hin (y : VirtPage) (hy : y ∈ pm.pages) := h.fresh.groups y hy
  simp only [List.mem_append, List.mem_cons] at hx
  rcases hx with hx | rfl | hx
  · exact hin x (by simp [hp, hx])
  · have hg := hin g (by simp [hp])
    show mm + 8192 ≤ g.start ∨ g.start + (start - g.start) ≤ mm
    omega
  · exact hin x (by simp [hp, hx])

theorem removePageMapFixedLocked_total (hi : Inv held pm)
    (hmm : pm.freePages = [] → PoolReady pm mm) (hs : start % 4096 = 0)
    (hround : roundUp size = size) (hpos : 0 < size) (hw : start + size < 2 ^ 64)
    (hown : ∀ g ∈ pm.pages, g.start < start + size → start < g.stop → g.cid = cid) :
    ∃ pm', removePageMapFixedLocked mm pm start size cid = some (0, pm') := by
  obtain ⟨⟨pages, freed, split⟩, hloop⟩ := mapFixedLoop_total hi.wf hown
  have hsize : size ≠ 0 := by omega
  simp only [removePageMapFixedLocked, hs, hround, hsize, wadd_eq hw, hloop, ne_eq,
    not_true_eq_false, if_false]
  cases split with
  | none => exact ⟨_, rfl⟩
  | some right =>
      rcases mapFixedLoop_cases hi.wf hloop with ⟨hnone, -⟩ | ⟨node, right', heq, hs⟩
      · cases hnone
      · cases heq
        obtain ⟨pre, g, post, hp, rfl, -, -, hgs, hsg⟩ := hs.split
        cases hs.freed
        have hle : start ≤ g.stop := by omega
        obtain ⟨n, pm₁, halloc⟩ := virtPageAlloc_total (hi.shortened hp hgs hle)
          fun hfree => (hmm hfree).shortened hi hp hgs hle
        simp only [List.reverse_nil, List.nil_append, halloc]
        exact ⟨_, rfl⟩

/-- What a removal leaves does not meet the range. -/
theorem Removed.clear {stop : Nat} (h : Removed held mm start stop pm pm') (hlt : start < stop) :
    Clear pm'.pages start stop := by
  intro g hg
  by_contra hmeets
  have hpos := h.inv.wf.nonempty hg
  -- the group and the range share the larger of their two starts
  have hx : Tracked pm'.pages (max g.start start) g.attr := ⟨g, hg, by omega, by omega, rfl⟩
  rcases (h.tracked _ _).mp hx with ⟨-, hout⟩ | hpool
  · omega
  · have := h.poolOut _ _ hpool
    omega

theorem addPage_after_removal {p1 : Nat} {pm₂ : PageManager} (hs : start % 4096 = 0)
    (hround : roundUp size = size) (hpos : 0 < size) (hw : start + size < 2 ^ 64)
    (halloc : virtPageAlloc mm pm = some (p1, pm₁))
    (hremove : (if multithreaded then removePageLocked mm pm₁ start size cid
      else removePageMapFixedLocked mm pm₁ start size cid) = some (0, pm₂))
    (hrem : Removed held mm start (start + size) pm₁ pm₂) :
    ∃ pm', addPage multithreaded mm pm start size prot flags cid true = some (0, pm') := by
  obtain ⟨l, hlink⟩ : ∃ l, linkPage true { start, size, prot, flags, cid, node := p1 } pm₂.pages =
      some (0, l) :=
    linkPage_clear hrem.inv.wf hw (hrem.clear (by omega))
  rw [addPage_fixed hs hround halloc, hremove]
  simp only [show (0 : Int) ≠ -1 by decide, if_false, hlink, Option.map_some]
  exact ⟨_, rfl⟩

/-- What a refill before an operation leaves is ready for a second one. -/
theorem Refill.ready (h : Refill mm pm pm₁) (hmm : PoolReady pm mm) (hfree : pm₁.freePages = []) :
    PoolReady pm₁ mm :=
  ⟨hmm.aligned, h.fresh hmm.fresh hfree⟩

theorem addPage_pools (hi : Inv [] pm) (hmm : PoolReady pm mm) (hs : start % 4096 = 0)
    (hround : roundUp size = size) (hpos : 0 < size) (hw : start + size < 2 ^ 64)
    (h : addPage multithreaded mm pm start size prot flags cid mapFixed = some (r, pm')) :
    pm'.pools = pm.pools ∨ pm'.pools = mm :: pm.pools := by
  obtain ⟨p1, pm₁, halloc⟩ := virtPageAlloc_total hi fun _ => hmm
  obtain ⟨hi₁, hre⟩ := virtPageAlloc_spec hi (fun _ => hmm.fresh.pool) halloc
  have hone : pm₁.pools = pm.pools ∨ pm₁.pools = mm :: pm.pools ∧ pm₁.freePages ≠ [] := by
    rcases hre.once with ⟨-, hsame, -⟩ | ⟨-, hne, hcons⟩
    · exact .inl hsame
    · exact .inr ⟨hcons, hne⟩
  cases mapFixed with
  | false =>
      rw [addPage_unfixed hs hround halloc] at h
      obtain ⟨res, -, heq⟩ := Option.map_eq_some_iff.mp h
      have hpools : pm'.pools = pm₁.pools := by
        cases heq
        split <;> rfl
      rw [hpools]
      exact hone.imp_right And.left
  | true =>
      rw [addPage_fixed hs hround halloc] at h
      split at h
      · cases h
      · next ret pm₂ hremove =>
          have hpools : pm'.pools = pm₂.pools := by
            split at h
            · cases h
              rfl
            · obtain ⟨res, -, heq⟩ := Option.map_eq_some_iff.mp h
              cases heq
              split <;> rfl
          rw [hpools]
          rw [← hround] at hremove hpos hw
          rcases addPageLocked_removed hi₁ (fun hfree => (hre.ready hmm hfree).fresh) hpos hw
            hremove with
            ⟨-, rfl⟩ | ⟨-, hrem, -⟩
          · exact hone.imp_right And.left
          · rcases hrem.once with hsame | ⟨hnil, -, hcons⟩
            · rw [hsame]
              exact hone.imp_right And.left
            · rcases hone with hsame | ⟨-, hne⟩
              · exact .inr (by rw [hcons, hsame])
              · exact absurd hnil hne

theorem addPage_unfixed_iff (hi : Inv [] pm) (hmm : PoolReady pm mm)
    (hout : mm + 8192 ≤ start ∨ start + size ≤ mm) (hs : start % 4096 = 0)
    (hround : roundUp size = size) (hpos : 0 < size) (hw : start + size < 2 ^ 64) :
    (∃ pm', addPage multithreaded mm pm start size prot flags cid false = some (0, pm')) ↔
      Clear pm.pages start (start + size) := by
  obtain ⟨p1, pm₁, halloc⟩ := virtPageAlloc_total hi fun _ => hmm
  obtain ⟨hi₁, hre⟩ := virtPageAlloc_spec hi (fun _ => hmm.fresh.pool) halloc
  rw [addPage_unfixed hs hround halloc, ← hre.clear_iff hout]
  constructor
  · intro hadd
    obtain ⟨pm', h⟩ := hadd
    obtain ⟨⟨res, l⟩, hlink, heq⟩ := Option.map_eq_some_iff.mp h
    cases heq
    rcases linkPage_cases hi₁.wf (by exact hw) (by show start < start + size; omega) hlink with
      ⟨hr, -⟩ | ⟨-, a, b, hab, -, hbelow, habove⟩
    · cases hr
    · intro g hg
      rw [hab] at hg
      rcases List.mem_append.mp hg with hg | hg
      · exact .inl (hbelow g hg)
      · exact .inr (habove g hg)
  · intro hclear
    obtain ⟨l, hlink⟩ : ∃ l, linkPage false { start, size, prot, flags, cid, node := p1 }
        pm₁.pages = some (0, l) :=
      linkPage_clear hi₁.wf hw hclear
    rw [hlink]
    exact ⟨_, rfl⟩

theorem addPage_unfixed_refused (hi : Inv [] pm) (hmm : PoolReady pm mm) (hs : start % 4096 = 0)
    (hround : roundUp size = size) (hpos : 0 < size) (hw : start + size < 2 ^ 64) (hr : r ≠ 0)
    (h : addPage multithreaded mm pm start size prot flags cid false = some (r, pm')) :
    r = -1 ∧ ListKept mm pm pm' := by
  obtain ⟨p1, pm₁, halloc⟩ := virtPageAlloc_total hi fun _ => hmm
  obtain ⟨hi₁, -⟩ := virtPageAlloc_spec hi (fun _ => hmm.fresh.pool) halloc
  have hkept := virtPageAlloc_kept hi hmm.fresh halloc
  rw [addPage_unfixed hs hround halloc] at h
  obtain ⟨⟨res, l⟩, hlink, heq⟩ := Option.map_eq_some_iff.mp h
  rcases linkPage_cases hi₁.wf (by exact hw) (by show start < start + size; omega) hlink with
    ⟨rfl, rfl⟩ | ⟨rfl, -⟩
  · cases heq
    exact ⟨rfl, hkept⟩
  · cases heq
    exact absurd rfl hr

theorem addPage_fixed_single (hi : Inv [] pm) (hmm : PoolReady pm mm)
    (hout : mm + 8192 ≤ start ∨ start + size ≤ mm) (hs : start % 4096 = 0)
    (hround : roundUp size = size) (hpos : 0 < size) (hw : start + size < 2 ^ 64)
    (hown : ∀ g ∈ pm.pages, g.start < start + size → start < g.stop → g.cid = cid) :
    ∃ pm', addPage false mm pm start size prot flags cid true = some (0, pm') := by
  obtain ⟨p1, pm₁, halloc⟩ := virtPageAlloc_total hi fun _ => hmm
  obtain ⟨hi₁, hre⟩ := virtPageAlloc_spec hi (fun _ => hmm.fresh.pool) halloc
  have hown₁ : ∀ g ∈ pm₁.pages, g.start < start + size → start < g.stop → g.cid = cid := by
    intro g hg hgs hsg
    rcases (hre.mem g).mp hg with hg | ⟨-, rfl⟩
    · exact hown g hg hgs hsg
    · simp only [poolGroup_start, poolGroup_stop] at hgs hsg
      omega
  obtain ⟨pm₂, hremove⟩ :=
    removePageMapFixedLocked_total hi₁ (hre.ready hmm) hs hround hpos hw hown₁
  have hfresh : pm₁.freePages = [] → Fresh pm₁ mm := fun hfree => (hre.ready hmm hfree).fresh
  rcases removePageMapFixedLocked_cases hi₁ hfresh (hround.symm ▸ hw) hremove with
    ⟨-, -, hzero⟩ | ⟨-, hrem, -⟩
  · omega
  · rw [hround] at hrem
    exact addPage_after_removal hs hround hpos hw halloc hremove hrem

theorem addPage_says (hi : Inv [] pm) (hmm : PoolReady pm mm)
    (hout : mm + 8192 ≤ start ∨ start + size ≤ mm) (hs : start % 4096 = 0)
    (hround : roundUp size = size) (hpos : 0 < size) (hw : start + size < 2 ^ 64)
    (h : addPage multithreaded mm pm start size prot flags cid mapFixed = some (0, pm')) :
    Says mm pm (setOn start (start + size) ⟨prot, flags, cid⟩ pm.view) pm' ∧
      SortedDisjoint pm'.pages := by
  have hpools := addPage_pools hi hmm hs hround hpos hw h
  rcases addPage_cases hi hmm.fresh (hround.symm ▸ hpos) (hround.symm ▸ hw) h with
    ⟨hr, -⟩ | ⟨-, hadd, -⟩
  · cases hr
  · rw [hround] at hadd
    have hpool (x : Nat) (q : Attr) (hx : PoolAt pm.pools pm'.pools x q) :
        mm ≤ x ∧ x < mm + 8192 := poolAt_mem hpools hx
    have hclear (hf : mapFixed = false) (x : Nat) (q : Attr) (hx : Tracked pm.pages x q) :
        x < start ∨ start + size ≤ x := by
      subst hf
      obtain ⟨g, hg, hgx, hxg, -⟩ := hx
      have := (addPage_unfixed_iff hi hmm hout hs hround hpos hw).mp ⟨pm', h⟩ g hg
      omega
    refine ⟨.of_tracked hadd.inv.wf hpools (fun x q => ?_) fun x q hx => ?_,
      hadd.inv.wf.sortedDisjoint⟩
    · rw [hadd.tracked, setOn_eq_some, hi.wf.view_eq_some]
      have hx := hpool x q
      cases mapFixed with
      | false =>
          have hc := hclear rfl x q
          simp only [Bool.false_eq_true, false_implies, and_true]
          constructor
          · intro h
            rcases h with (h | h) | h
            · exact .inl (.inl ⟨h, hc h⟩)
            · exact .inr h
            · exact .inl (.inr h)
          · intro h
            rcases h with (h | h) | h
            · exact .inl (.inl h.1)
            · exact .inr h
            · exact .inl (.inr h)
      | true =>
          simp only [true_implies]
          constructor
          · intro h
            rcases h with ⟨h | h, ho⟩ | h
            · exact .inl (.inl ⟨h, ho⟩)
            · exact .inr h
            · exact .inl (.inr h)
          · intro h
            rcases h with (h | h) | h
            · exact .inl ⟨.inl h.1, h.2⟩
            · exact .inr h
            · have := hx h
              exact .inl ⟨.inr h, by omega⟩
    · have hx' := hpool x q hx
      have hnone : pm.view x = none := hmm.fresh.view_eq_none hx'.1 hx'.2
      rw [setOn, if_neg (by omega), hnone]

variable (prot flags cid multithreaded) in
/-- `add_page` has exactly the effect of overriding the map on the range. -/
theorem addPage_exact (hi : Inv [] pm) (hmm : PoolReady pm mm)
    (hout : mm + 8192 ≤ start ∨ start + size ≤ mm) (hs : start % 4096 = 0)
    (hd : size % 4096 = 0) (hpos : 0 < size) (hw : start + size < 2 ^ 64) :
    ((∃ pm', addPage multithreaded mm pm start size prot flags cid false = some (0, pm')) ↔
        Clear pm.pages start (start + size)) ∧
      (¬ Clear pm.pages start (start + size) → ∀ r pm',
        addPage multithreaded mm pm start size prot flags cid false = some (r, pm') →
          r = -1 ∧ ListKept mm pm pm') ∧
      ((∀ g ∈ pm.pages, g.start < start + size → start < g.stop → g.cid = cid) →
        ∃ pm', addPage false mm pm start size prot flags cid true = some (0, pm')) ∧
      (∀ mapFixed pm',
        addPage multithreaded mm pm start size prot flags cid mapFixed = some (0, pm') →
          Says mm pm (setOn start (start + size) ⟨prot, flags, cid⟩ pm.view) pm' ∧
            SortedDisjoint pm'.pages) := by
  have hround : roundUp size = size := roundUp_of_dvd hd (by omega)
  have hiff : (∃ pm', addPage multithreaded mm pm start size prot flags cid false = some (0, pm')) ↔
      Clear pm.pages start (start + size) :=
    addPage_unfixed_iff hi hmm hout hs hround hpos hw
  refine ⟨hiff, ?_, addPage_fixed_single hi hmm hout hs hround hpos hw, ?_⟩
  · intro hmeets r pm' h
    refine addPage_unfixed_refused hi hmm hs hround hpos hw ?_ h
    intro hr
    subst hr
    exact hmeets (hiff.mp ⟨pm', h⟩)
  · exact fun mapFixed pm' h => addPage_says hi hmm hout hs hround hpos hw h

/-- A fixed mapping over the end of one group, a second group and a gap. -/
theorem addPage_exact_someGroups :
    ∃ pm', addPage false 0x800000 someGroups 0x23000 0x3000 PROT_READ 0x32 TS_APPLICATION true =
        some (0, pm') ∧
      Says 0x800000 someGroups
        (setOn 0x23000 0x26000 ⟨PROT_READ, 0x32, TS_APPLICATION⟩ someGroups.view) pm' ∧
      SortedDisjoint pm'.pages := by
  obtain ⟨-, -, hfixed, hsaid⟩ := addPage_exact PROT_READ 0x32 TS_APPLICATION false someGroups_inv
    (show PoolReady someGroups 0x800000 from ⟨by decide, by decide⟩)
    (show 0x800000 + 8192 ≤ 0x23000 ∨ 0x23000 + 0x3000 ≤ 0x800000 by decide)
    (by decide) (by decide) (by decide) (by decide)
  obtain ⟨pm', h⟩ := hfixed (by decide)
  exact ⟨pm', h, hsaid true pm' h⟩

end AddPage

/-! ## remove_page -/

section RemovePage

variable {mm start size : Nat} {cid : Int} {pm pm' : PageManager}

theorem roundUp_eq (hw : start + 4096 * pageCount size < 2 ^ 64) :
    roundUp size = 4096 * pageCount size := by
  unfold pageCount at hw ⊢
  unfold roundUp
  omega

theorem Removed.view {stop : Nat} (h : Removed [] mm start stop pm pm') (hi : Inv [] pm)
    (hmm : Fresh pm mm) : Says mm pm (clearOn start stop pm.view) pm' := by
  have hpools : pm'.pools = pm.pools ∨ pm'.pools = mm :: pm.pools :=
    h.once.imp_right fun hre => hre.2.2
  refine .of_tracked h.inv.wf hpools (fun x q => ?_) fun x q hx => ?_
  · rw [h.tracked, clearOn_eq_some, hi.wf.view_eq_some]
  · obtain ⟨h₁, h₂⟩ := poolAt_mem hpools hx
    have hnone : pm.view x = none := hmm.view_eq_none h₁ h₂
    simp [clearOn, hnone]

/-- The range is in the middle of one group. -/
def StrictlyInside (l : List VirtPage) (start stop : Nat) : Prop :=
  ∃ g ∈ l, g.start < start ∧ stop < g.stop

theorem Wf.strictlyInside_iff {l : List VirtPage} {g : VirtPage} {stop : Nat} (h : Wf l)
    (hg : g ∈ l) (hgs : g.start ≤ start) (hsg : start < g.stop) (hlt : start < stop) :
    StrictlyInside l start stop ↔ g.start < start ∧ stop < g.stop := by
  constructor
  · rintro ⟨g', hg', hgs', hsg'⟩
    rw [h.ordered.eq_of_mem hg hg' hgs hsg (Nat.le_of_lt hgs') (Nat.lt_trans hlt hsg')]
    exact ⟨hgs', hsg'⟩
  · exact fun hin => ⟨g, hg, hin⟩

theorem removeInside_pools {pre post : List VirtPage} {g : VirtPage} {stop : Nat} {r : Int}
    (hi : Inv [] pm) (hmm : Fresh pm mm) (hp : pm.pages = pre ++ g :: post)
    (hgs : g.start ≤ start) (hlt : start < stop) (hsg : stop ≤ g.stop)
    (h : removeInside mm start stop pm pre g post = some (r, pm')) :
    Refills mm pm (g.start < start ∧ stop < g.stop) pm' := by
  unfold removeInside at h
  rw [g.pageEnd_eq (hi.wf.noWrap g (by simp [hp]))] at h
  split at h
  · cases h
    exact .inl ⟨rfl, fun hin => by omega⟩
  split at h
  · cases h
    exact .inl ⟨rfl, fun hin => by omega⟩
  split at h
  · cases h
    exact .inl ⟨rfl, fun hin => by omega⟩
  split at h
  · cases h
  · next n pm₁ halloc =>
      cases h
      have hin : g.start < start ∧ stop < g.stop := by omega
      obtain ⟨-, hre⟩ := virtPageAlloc_spec (hi.shortened hp hin.1 (by omega))
        (fun _ => hmm.pool) halloc
      exact hre.refills hin

/-- Only a removal from the middle of a group takes a node, for the second half. -/
theorem removePage_pools (hi : Inv [] pm) (hmm : Fresh pm mm)
    (hw : start + roundUp size < 2 ^ 64) (h : removePage mm pm start size cid = some (0, pm')) :
    Refills mm pm (StrictlyInside pm.pages start (start + roundUp size)) pm' := by
  rcases removePageLocked_found hi hw h with ⟨hr, -⟩ | ⟨-, hpos, head, pre, before, last, post,
    first, hp, -, hfirst, hfs, hsf, hrun, hedit⟩
  · cases hr
  have hmem : first ∈ pm.pages := by
    rw [hp]
    exact List.mem_append_left _ (List.mem_append_right _ (List.mem_of_mem_head? hfirst))
  rw [Refills, hi.wf.strictlyInside_iff hmem hfs hsf (by omega)]
  rcases hedit with ⟨rfl, hinside⟩ | ⟨mid, rfl, hacross⟩
  · obtain rfl : last = first := by simpa using hfirst
    exact removeInside_pools hi hmm (by simpa using hp) hfs (by omega) hrun.stops hinside
  · -- the first of several groups ends before the last one begins, and that is in the range
    have hbefore : first.stop ≤ last.start := by
      have hwf : Wf ((head :: pre) ++ (first :: mid ++ [last]) ++ post) := hp ▸ hi.wf
      obtain ⟨-, -, -, habove⟩ := wf_cons.mp hwf.left.right
      exact habove last (by simp)
    have hstarts := hrun.starts
    exact .inl ⟨(removeAcross_left hacross).1, fun hin => by omega⟩

variable (cid) in
/-- `remove_page` is exact and atomic. What it takes out was owned; nothing else
changes, but that a removal from the middle of a group maps a pool when there is no
free node for the second half. -/
theorem removePage_exact (hi : Inv [] pm) (hmm : Fresh pm mm)
    (hw : start + 4096 * pageCount size < 2 ^ 64) :
    (∀ pm', removePage mm pm start size cid = some (0, pm') →
        Owned pm.pages start (start + 4096 * pageCount size) cid ∧
          Yields mm pm (StrictlyInside pm.pages start (start + 4096 * pageCount size))
            (clearOn start (start + 4096 * pageCount size) pm.view) pm' ∧
          SortedDisjoint pm'.pages) ∧
      (∀ pm', removePage mm pm start size cid = some (-1, pm') → pm' = pm) := by
  have hround : roundUp size = 4096 * pageCount size := roundUp_eq hw
  rw [← hround] at hw ⊢
  constructor
  · intro pm' h
    rcases removePageLocked_cases hi (fun _ => hmm) hw h with ⟨hr, -⟩ | ⟨-, -, -, hrem, hown⟩
    · cases hr
    · exact ⟨hown, (hrem.view hi hmm).yields (removePage_pools hi hmm hw h),
        hrem.inv.wf.sortedDisjoint⟩
  · intro pm' h
    rcases removePageLocked_cases hi (fun _ => hmm) hw h with ⟨-, rfl⟩ | ⟨hr, -⟩
    · rfl
    · cases hr

theorem removePage_exact_someGroups :
    ∃ pm', removePage 0x800000 someGroups 0x23000 0x1800 TS_APPLICATION = some (0, pm') ∧
      Owned someGroups.pages 0x23000 0x25000 TS_APPLICATION ∧
      pm'.view = clearOn 0x23000 0x25000 someGroups.view ∧ SortedDisjoint pm'.pages := by
  obtain ⟨hdone, -⟩ := removePage_exact TS_APPLICATION someGroups_inv
    (show Fresh someGroups 0x800000 by decide)
    (show 0x23000 + 4096 * pageCount 0x1800 < 2 ^ 64 by decide)
  obtain ⟨hown, hyields, hsorted⟩ := hdone _ rfl
  exact ⟨_, rfl, hown, (hyields.kept fun htakes => nomatch htakes.2).2, hsorted⟩

/-- A page from the middle of a group, when no node is free: the pool that is mapped
for the second half is tracked afterwards. -/
theorem removePage_tracks_pool :
    Inv [] fullGroups ∧ Fresh fullGroups 0x800000 ∧
      ∃ pm', removePage 0x800000 fullGroups 0x21000 0x1000 TS_APPLICATION = some (0, pm') ∧
        fullGroups.view 0x800000 = none ∧ (pm'.view 0x800000).isSome :=
  ⟨fullGroups_inv, by decide, _, rfl, rfl, rfl⟩

end RemovePage

/-! ## update_size -/

section UpdateSize

variable {mm start oldSize newSize : Nat} {cid : Int} {pm pm' : PageManager} {r : Int}
  {pre post : List VirtPage} {g : VirtPage}

theorem lookupAddr_eq {x : Nat} (h : Wf pm.pages) (hg : g ∈ pm.pages) (hgx : g.start ≤ x)
    (hxg : x < g.stop) (hcid : cid = -1 ∨ g.cid = cid) : lookupAddr pm x cid = some g := by
  cases hfind : lookupAddr pm x cid with
  | none =>
      have hnone := List.find?_eq_none.mp hfind g hg
      simp only [(virtPageOverlapByte_iff (h.noWrap g hg)).mpr ⟨hgx, hxg⟩, Bool.true_and,
        Bool.or_eq_true, beq_iff_eq] at hnone
      exact absurd hcid hnone
  | some g' =>
      obtain ⟨hg', hgx', hxg', -⟩ := lookupAddr_some hfind
      rw [h.pageEnd hg'] at hxg'
      rw [h.ordered.eq_of_mem hg' hg hgx' hxg' hgx hxg]

/-- Only a group that loses an inner part needs a node. -/
theorem updateSize_pools (hi : Inv [] pm) (hmm : Fresh pm mm)
    (hg : lookupAddr pm start cid = some g) (hwo : start + oldSize < 2 ^ 64)
    (h : updateSize mm pm start oldSize newSize cid = some (r, pm')) :
    Refills mm pm (newSize < oldSize ∧ start + oldSize < g.stop) pm' := by
  have hend : g.pageEnd = g.stop := hi.wf.pageEnd (lookupAddr_some hg).1
  cases updateSize_ways h with
  | missing hnone => cases hg.symm.trans hnone
  | same => exact .inl ⟨rfl, fun htakes => by omega⟩
  | outside g' hg' _ hout =>
      cases hg.symm.trans hg'
      rw [hend, wadd_eq hwo] at hout
      exact .inl ⟨rfl, fun htakes => by omega⟩
  | blocked => exact .inl ⟨rfl, fun htakes => by omega⟩
  | grows => exact .inl ⟨rfl, fun htakes => by omega⟩
  | shrinks g' hg' _ hstop =>
      cases hg.symm.trans hg'
      rw [hend, wadd_eq hwo] at hstop
      exact .inl ⟨rfl, fun htakes => by omega⟩
  | splits g' hg' hlt hin n pm₁ halloc =>
      cases hg.symm.trans hg'
      rw [hend, wadd_eq hwo] at hin
      obtain ⟨-, hre⟩ := virtPageAlloc_spec hi (fun _ => hmm.pool) halloc
      exact hre.refills ⟨hlt, hin⟩

theorem Resized.view (h : Resized start oldSize newSize cid pm pm') (hi : Inv [] pm)
    (hmm : Fresh pm mm) (hg : g ∈ pm.pages) (hgs : g.start ≤ start) (hsg : start < g.stop)
    (hcid : g.cid = cid)
    (honce : pm'.pools = pm.pools ∨ newSize < oldSize ∧ pm'.pools = mm :: pm.pools) :
    Says mm pm (if newSize ≤ oldSize then clearOn (start + newSize) (start + oldSize) pm.view
      else setOn (start + oldSize) (start + newSize) g.attr pm.view) pm' := by
  obtain ⟨g', hg', hgs', hsg', hfits, -, htracked⟩ := h.tracked
  obtain rfl : g' = g := hi.wf.ordered.eq_of_mem hg' hg hgs' hsg' hgs hsg
  have htracked := htracked hcid
  have hpools : pm'.pools = pm.pools ∨ pm'.pools = mm :: pm.pools := honce.imp_right And.right
  have hnone (x : Nat) (q : Attr) (hx : PoolAt pm.pools pm'.pools x q) : pm.view x = none := by
    obtain ⟨h₁, h₂⟩ := poolAt_mem hpools hx
    exact hmm.view_eq_none h₁ h₂
  split
  · next hle =>
      refine .of_tracked h.inv.wf hpools (fun x q => ?_) fun x q hx => ?_
      · rw [htracked, clearOn_eq_some, hi.wf.view_eq_some]
        constructor
        · intro hx
          rcases hx with hx | hx | hx
          · exact .inl hx
          · omega
          · exact .inr hx
        · intro hx
          exact hx.imp_right .inr
      · simp [clearOn, hnone x q hx]
  · next hlt =>
      -- in the new part of the group there is only one answer, and it is the group's
      have hnew (x : Nat) (q : Attr) (hlo : start + oldSize ≤ x) (hhi : x < start + newSize)
          (hx : Tracked pm.pages x q) : g'.attr = q :=
        h.inv.wf.ordered.at_unique ((htracked x g'.attr).mpr (.inr (.inl ⟨hlo, hhi, rfl⟩)))
          ((htracked x q).mpr (.inl ⟨hx, .inr hlo⟩))
      refine .of_tracked h.inv.wf hpools (fun x q => ?_) fun x q hx => ?_
      · rw [htracked, setOn_eq_some, hi.wf.view_eq_some]
        constructor
        · intro hx
          rcases hx with ⟨hx, -⟩ | hx | hx
          · by_cases hin : start + oldSize ≤ x ∧ x < start + newSize
            · exact .inl (.inr ⟨hin.1, hin.2, hnew x q hin.1 hin.2 hx⟩)
            · exact .inl (.inl ⟨hx, by omega⟩)
          · exact .inl (.inr hx)
          · exact .inr hx
        · intro hx
          rcases hx with (⟨hx, hout⟩ | hx) | hx
          · exact .inl ⟨hx, by omega⟩
          · exact .inr (.inl hx)
          · exact .inr (.inr hx)
      · rcases honce with hsame | ⟨hshrinks, -⟩
        · rw [hsame] at hx
          exact absurd hx not_poolAt_self
        · omega

/-- Growing is refused exactly if the old range does not reach the end of the group
or the new one would meet the next group. -/
theorem updateSize_grow_iff (hi : Inv [] pm) (hp : pm.pages = pre ++ g :: post)
    (hcid : cid = -1 ∨ g.cid = cid) (hgs : g.start ≤ start) (hold : 0 < oldSize)
    (hin : start + oldSize ≤ g.stop) (hlt : oldSize < newSize) (hwn : start + newSize < 2 ^ 64) :
    (∃ pm', updateSize mm pm start oldSize newSize cid = some (-2, pm')) ↔
      start + oldSize ≠ g.stop ∨ ∃ next ∈ post.head?, next.start < start + newSize := by
  have hg : g ∈ pm.pages := by simp [hp]
  have hgw := hi.wf.noWrap g hg
  have hwo : start + oldSize < 2 ^ 64 := by omega
  have hlookup : lookupAddr pm start cid = some g := lookupAddr_eq hi.wf hg hgs (by omega) hcid
  simp only [updateSize, hlookup, wadd_eq hwo, wadd_eq hwn, g.pageEnd_eq hgw, hi.next_of_node hp]
  rw [if_neg (by omega), if_neg (by omega), if_pos hlt]
  split
  · next hend => simp [Ne.symm hend]
  · next hend =>
      have hend : g.stop = start + oldSize := not_not.mp hend
      cases hnext : post.head? with
      | none => simp [hend]
      | some next =>
          dsimp only
          split
          · next hmeets =>
              simp only [Option.some.injEq, Prod.mk.injEq, true_and, exists_eq']
              simp only [true_iff]
              exact .inr ⟨next, rfl, hmeets⟩
          · next hfits =>
              simp only [hend, ne_eq, not_true_eq_false, false_or, Option.mem_def,
                Option.some.injEq, exists_eq_left']
              constructor
              · intro h
                obtain ⟨pm', h⟩ := h
                cases h
              · intro h
                omega

theorem updateSize_says (hi : Inv [] pm) (hmm : Fresh pm mm) (hg : g ∈ pm.pages)
    (hcid : g.cid = cid) (hgs : g.start ≤ start) (hold : 0 < oldSize)
    (hin : start + oldSize ≤ g.stop) (hnew : 0 < newSize)
    (hwn : start + newSize < 2 ^ 64)
    (h : updateSize mm pm start oldSize newSize cid = some (0, pm')) :
    Says mm pm (if newSize ≤ oldSize then clearOn (start + newSize) (start + oldSize) pm.view
      else setOn (start + oldSize) (start + newSize) g.attr pm.view) pm' ∧
      SortedDisjoint pm'.pages := by
  have hwo : start + oldSize < 2 ^ 64 := Nat.lt_of_le_of_lt hin (hi.wf.noWrap g hg)
  have hpools := updateSize_pools hi hmm (lookupAddr_eq hi.wf hg hgs (by omega) (.inr hcid)) hwo h
  have honce : pm'.pools = pm.pools ∨ newSize < oldSize ∧ pm'.pools = mm :: pm.pools :=
    hpools.imp And.left fun hrefill => ⟨hrefill.2.1.1, hrefill.1⟩
  rcases updateSize_cases hi hmm hnew hwo hwn h with ⟨hr, -⟩ | ⟨-, hres⟩
  · rcases hr with hr | hr <;> cases hr
  · exact ⟨hres.view hi hmm hg hgs (by omega) hcid honce, hres.inv.wf.sortedDisjoint⟩

/-- `update_size` moves the end of a group and changes nothing else, but that taking
a part out of the middle of a group maps a pool when there is no free node. -/
theorem updateSize_exact (hi : Inv [] pm) (hmm : Fresh pm mm) (hp : pm.pages = pre ++ g :: post)
    (hcid : g.cid = cid) (hgs : g.start ≤ start) (hold : 0 < oldSize)
    (hin : start + oldSize ≤ g.stop) (hnew : 0 < newSize) (hwn : start + newSize < 2 ^ 64) :
    (∀ pm', updateSize mm pm start oldSize newSize cid = some (0, pm') →
        Yields mm pm (newSize < oldSize ∧ start + oldSize < g.stop)
          (if newSize ≤ oldSize then clearOn (start + newSize) (start + oldSize) pm.view
            else setOn (start + oldSize) (start + newSize) g.attr pm.view) pm' ∧
          SortedDisjoint pm'.pages) ∧
      (∀ r pm', updateSize mm pm start oldSize newSize cid = some (r, pm') → r = -1 ∨ r = -2 →
        pm' = pm) ∧
      (oldSize < newSize →
        ((∃ pm', updateSize mm pm start oldSize newSize cid = some (-2, pm')) ↔
          start + oldSize ≠ g.stop ∨ ∃ next ∈ post.head?, next.start < start + newSize)) := by
  have hg : g ∈ pm.pages := by simp [hp]
  have hwo : start + oldSize < 2 ^ 64 := by
    have := hi.wf.noWrap g hg
    omega
  refine ⟨fun pm' h => ?_, fun r pm' h hr => ?_, fun hlt => ?_⟩
  · obtain ⟨hsaid, hsorted⟩ := updateSize_says hi hmm hg hcid hgs hold hin hnew hwn h
    have hlookup : lookupAddr pm start cid = some g :=
      lookupAddr_eq hi.wf hg hgs (by omega) (.inr hcid)
    exact ⟨hsaid.yields (updateSize_pools hi hmm hlookup hwo h), hsorted⟩
  · rcases updateSize_cases hi hmm hnew hwo hwn h with ⟨-, heq⟩ | ⟨rfl, -⟩
    · exact heq
    · rcases hr with hr | hr <;> cases hr
  · exact updateSize_grow_iff hi hp (.inr hcid) hgs hold hin hlt hwn

theorem updateSize_exact_someGroups :
    ∃ pm', updateSize 0x800000 someGroups 0x30000 0x1000 0x3000 TS_APPLICATION = some (0, pm') ∧
      pm'.view = setOn 0x31000 0x33000 ⟨PROT_READ, 0x22, TS_APPLICATION⟩ someGroups.view ∧
      SortedDisjoint pm'.pages := by
  obtain ⟨hdone, -, -⟩ := updateSize_exact someGroups_inv (show Fresh someGroups 0x800000 by decide)
    (show someGroups.pages = someGroups.pages.take 3 ++
      ⟨0x30000, 0x1000, PROT_READ, 0x22, TS_APPLICATION, 0x7000c0⟩ :: [poolGroup 0x700000] from rfl)
    rfl (show 0x30000 ≤ 0x30000 by decide) (show 0 < 0x1000 by decide) (by decide)
    (show 0 < 0x3000 by decide) (by decide)
  obtain ⟨hyields, hsorted⟩ := hdone _ rfl
  exact ⟨_, rfl, (hyields.kept fun htakes => nomatch htakes.2).2, hsorted⟩

/-- The second page of a group is cut off from the rest when no node is free. -/
theorem updateSize_tracks_pool :
    Inv [] fullGroups ∧ Fresh fullGroups 0x800000 ∧
      ∃ pm', updateSize 0x800000 fullGroups 0x20000 0x2000 0x1000 TS_APPLICATION = some (0, pm') ∧
        fullGroups.view 0x800000 = none ∧ (pm'.view 0x800000).isSome :=
  ⟨fullGroups_inv, by decide, _, rfl, rfl, rfl⟩

end UpdateSize

end Secpoline
