import Secpoline.Proofs.PageCalls

/-!
# Removing a range

Both removals cut an interval out of the list. `remove_page_locked` first walks
the list to find the groups the interval meets, refusing gaps and foreign
compartments, and only then edits; `remove_page_map_fixed_locked` edits as it
walks. In both cases the result is the old list with one stretch replaced by
the parts of it that stick out on the left and on the right, so the order of
the result and what it says about an address come from facts about that stretch
alone.

The interval must not wrap around the end of the address space. When it does,
the walk compares with the wrapped end and a group that contains both ends of
the interval is "split" into two groups that overlap.
-/

namespace Secpoline

open Lib

/-! ## Cutting an interval out of a stretch -/

/-- `l'` says what `l` says, except that nothing in `[start, stop)` is tracked. -/
def Cut (start stop : Nat) (l l' : List VirtPage) : Prop :=
  ∀ x q, Tracked l' x q ↔ Tracked l x q ∧ (x < start ∨ stop ≤ x)

section Cut

variable {start stop : Nat} {old new : List VirtPage} {g : VirtPage}

theorem cut_self (h : g.stop ≤ start ∨ stop ≤ g.start) : Cut start stop [g] [g] := by
  intro x q
  simp only [at_cons, at_nil, or_false]
  constructor
  · rintro ⟨h₁, h₂, rfl⟩
    exact ⟨⟨h₁, h₂, rfl⟩, by omega⟩
  · exact And.left

/-- Cutting inside a stretch when the interval misses both neighbours. -/
theorem Cut.frame (h : Cut start stop old new) (pre post : List VirtPage)
    (hpre : Below VirtPage.stop pre start) (hpost : Above VirtPage.start post stop) :
    Cut start stop (pre ++ old ++ post) (pre ++ new ++ post) := by
  intro x q
  have hl : Tracked pre x q → x < start := fun ht => by
    by_contra hx
    exact hpre.not_at (by omega) ht
  have hr : Tracked post x q → stop ≤ x := fun ht => by
    by_contra hx
    exact hpost.not_at (by omega) ht
  have hc := h x q
  simp only [at_append]
  grind

/-- A list inside the interval is cut away. -/
theorem cut_nil (hlo : Above VirtPage.start old start) (hhi : Below VirtPage.stop old stop) :
    Cut start stop old [] := by
  rintro x q
  refine ⟨fun h => absurd h at_nil, ?_⟩
  rintro ⟨⟨g, hg, hgx, hxg, -⟩, hx⟩
  have h₁ := hlo g hg
  have h₂ := hhi g hg
  rcases hx with hx | hx <;> omega

theorem Cut.append {old₁ old₂ new₁ new₂ : List VirtPage} (h₁ : Cut start stop old₁ new₁)
    (h₂ : Cut start stop old₂ new₂) : Cut start stop (old₁ ++ old₂) (new₁ ++ new₂) := by
  intro x q
  have := h₁ x q
  have := h₂ x q
  simp only [at_append]
  grind

/-- The part of a group before the interval. -/
theorem cut_left (size node : Nat) (hstart : start ≤ g.stop)
    (hstop : g.stop ≤ stop) (hsize : g.start + size = start) :
    Cut start stop [g] [{ g with size, node }] := by
  intro x q
  simp only [at_cons, at_nil, or_false, VirtPage.stop, VirtPage.attr] at hstart hstop ⊢
  constructor
  · rintro ⟨h₁, h₂, rfl⟩
    exact ⟨⟨h₁, by omega, rfl⟩, by omega⟩
  · rintro ⟨⟨h₁, h₂, rfl⟩, h₃⟩
    exact ⟨h₁, by omega, rfl⟩

/-- The part of a group after the interval. -/
theorem cut_right (size node : Nat) (hs : start ≤ g.start) (hstart : g.start ≤ stop)
    (hsize : stop + size = g.stop) :
    Cut start stop [g] [{ g with start := stop, size, node }] := by
  intro x q
  simp only [at_cons, at_nil, or_false, VirtPage.stop, VirtPage.attr] at hsize ⊢
  constructor
  · rintro ⟨h₁, h₂, rfl⟩
    exact ⟨⟨by omega, by omega, rfl⟩, by omega⟩
  · rintro ⟨⟨h₁, h₂, rfl⟩, h₃⟩
    exact ⟨by omega, by omega, rfl⟩

/-- Both parts of a group that contains the interval. -/
theorem cut_both (size₁ size₂ node₁ node₂ : Nat) (hs : g.start ≤ start) (hlt : start < stop)
    (hstop : stop ≤ g.stop) (h₁ : g.start + size₁ = start) (h₂ : stop + size₂ = g.stop) :
    Cut start stop [g] [{ g with size := size₁, node := node₁ },
      { g with start := stop, size := size₂, node := node₂ }] := by
  intro x q
  simp only [at_cons, at_nil, or_false, VirtPage.stop, VirtPage.attr] at hstop h₂ ⊢
  constructor
  · rintro (⟨h₃, h₄, rfl⟩ | ⟨h₃, h₄, rfl⟩)
    · exact ⟨⟨h₃, by omega, rfl⟩, by omega⟩
    · exact ⟨⟨by omega, by omega, rfl⟩, by omega⟩
  · rintro ⟨⟨h₃, h₄, rfl⟩, h₅⟩
    rcases h₅ with h₅ | h₅
    · exact .inl ⟨h₃, by omega, rfl⟩
    · exact .inr ⟨h₅, by omega, rfl⟩

end Cut

/-! ## The search -/

section Search

variable {start stop : Nat} {cid : Int} {l pre before after : List VirtPage} {last : VirtPage}

/-- A run of groups, all of the compartment, that covers `[lo, stop)`. -/
structure Run (lo stop : Nat) (cid : Int) (before : List VirtPage) (last : VirtPage) : Prop where
  starts : last.start < stop
  stops : stop ≤ last.stop
  cids : ∀ g ∈ before ++ [last], g.cid = cid
  covers : ∀ x, lo ≤ x → x < stop → ∃ g ∈ before ++ [last], g.start ≤ x ∧ x < g.stop

theorem findEnd_range (hl : Wf l) (h : findEnd stop cid l = .range before last after) :
    l = before ++ last :: after ∧
      ∀ g ∈ l.head?, Run g.start stop cid before last := by
  induction l generalizing before with
  | nil => simp [findEnd] at h
  | cons next rest ih =>
      obtain ⟨hrest, hnext, hw, -⟩ := wf_cons.mp hl
      simp only [List.head?_cons, Option.mem_def, Option.some.injEq, forall_eq']
      simp only [findEnd, next.pageEnd_eq hw] at h
      split at h
      · cases h
      rename_i hcid
      have hcid : next.cid = cid := not_not.mp hcid
      split at h
      · rename_i hge
        split at h
        · cases h
        rename_i hlt
        cases h
        refine ⟨rfl, by omega, hge, by simpa using hcid, fun x hlo hx => ?_⟩
        exact ⟨last, by simp, hlo, by omega⟩
      · split at h
        · cases h
        rename_i nextNext rest'
        split at h
        · cases h
        rename_i hgap
        have hgap : next.stop = nextNext.start := not_not.mp hgap
        split at h
        · rename_i b l' a hrec
          cases h
          obtain ⟨heq, hrun⟩ := ih hrest hrec
          have hrun := hrun nextNext rfl
          refine ⟨by simp [heq], hrun.starts, hrun.stops, ?_, fun x hlo hx => ?_⟩
          · simpa [hcid] using hrun.cids
          · by_cases hxn : x < next.stop
            · exact ⟨next, by simp, hlo, hxn⟩
            · obtain ⟨g, hg, hgx⟩ := hrun.covers x (by omega) hx
              exact ⟨g, by simpa using .inr (by simpa using hg), hgx⟩
        · rename_i hr
          exact (hr _ _ _ h).elim

theorem findStart_range (hl : Wf l)
    (h : findStart start stop cid l = .range pre before last after) :
    l = pre ++ (before ++ last :: after) ∧
      ∃ first ∈ (before ++ [last]).head?, first.start ≤ start ∧ start < first.stop ∧
        Run start stop cid before last := by
  induction l generalizing pre with
  | nil => simp [findStart] at h
  | cons next rest ih =>
      obtain ⟨hrest, hnext, hw, -⟩ := wf_cons.mp hl
      simp only [findStart, next.pageEnd_eq hw] at h
      split at h
      · cases h
      split at h
      · split at h
        · cases h
        rename_i hin
        split at h
        · cases h
        · cases h
        · rename_i b l' a hrec
          cases h
          obtain ⟨heq, hrun⟩ := findEnd_range hl hrec
          have hrun := hrun next rfl
          refine ⟨by simpa using heq, next, ?_, by omega, by omega,
            hrun.starts, hrun.stops, hrun.cids, fun x hlo hx => hrun.covers x (by omega) hx⟩
          cases before <;> simp_all
      · split at h
        · rename_i p b l' a hrec
          cases h
          obtain ⟨heq, hfirst⟩ := ih hrest hrec
          exact ⟨by simp [heq], hfirst⟩
        · rename_i hr
          exact (hr _ _ _ _ h).elim

end Search

/-! ## What a removal leaves -/

/-- The list after a removal that succeeded: the interval is gone, the rest is as
it was, and at most one pool was added, outside the interval. -/
structure Removed (held : List Nat) (mm start stop : Nat) (pm pm' : PageManager) : Prop where
  inv : Inv held pm'
  tracked : ∀ x q, Tracked pm'.pages x q ↔
    (Tracked pm.pages x q ∧ (x < start ∨ stop ≤ x)) ∨ PoolAt pm.pools pm'.pools x q
  poolOut : ∀ x q, PoolAt pm.pools pm'.pools x q → x < start ∨ stop ≤ x
  once : pm'.pools = pm.pools ∨
    (pm.freePages = [] ∧ pm'.freePages ≠ [] ∧ pm'.pools = mm :: pm.pools)

/-- A removal that took no node: the list was cut, the nodes were moved. -/
theorem Removed.of_cut {held : List Nat} {mm start stop : Nat} {pm pm' : PageManager}
    (hi : Inv held pm) (hwf : Wf pm'.pages) (hpools : pm'.pools = pm.pools)
    (hcount : ∀ n, (nodes held pm').count n ≤ (nodes held pm).count n)
    (hcut : Cut start stop pm.pages pm'.pages) : Removed held mm start stop pm pm' := by
  refine ⟨hi.moved hwf hpools hcount, fun x q => ?_, fun x q h => ?_, .inl hpools⟩
  · rw [hpools, hcut x q]
    simp
  · rw [hpools] at h
    exact absurd h not_poolAt_self

section Split

variable {held : List Nat} {mm n start stop : Nat} {pm pm₁ : PageManager}
  {pre post : List VirtPage} {g : VirtPage}

/-- A group shortened to what is before `start`. -/
theorem Inv.shortened (hi : Inv held pm)
    (hp : pm.pages = pre ++ g :: post) (hs : g.start < start) (hsg : start ≤ g.stop) :
    Inv held { pm with pages := pre ++ { g with size := wsub start g.start } :: post } := by
  have hwf : Wf (pre ++ g :: post) := hp ▸ hi.wf
  have hw : g.stop < 2 ^ 64 := hwf.noWrap g (by simp)
  rw [wsub_eq (Nat.le_of_lt hs) (by omega)]
  refine hi.moved (hwf.shrink (Nat.le_refl _) ?_ ?_) rfl fun n => by simp [nodes, hp]
  · show g.start < g.start + (start - g.start)
    omega
  · show g.start + (start - g.start) ≤ g.stop
    omega

/-- When a node is taken for a shortened group, the list may gain a pool, but nothing comes
to stand where the rest of the group was: the kernel did not give out memory that the whole
group covered. -/
theorem Refill.gap {left : VirtPage} (hi : Inv held pm) (hp : pm.pages = pre ++ g :: post)
    (hstart : left.start = g.start) (hstop : left.stop ≤ g.stop) (hpos : left.start < left.stop)
    (hwf : Wf pm₁.pages) (hre : Refill mm { pm with pages := pre ++ left :: post } pm₁)
    (hmm : pm.freePages = [] → Fresh pm mm) :
    ∃ pre' post', pm₁.pages = pre' ++ left :: post' ∧ Above VirtPage.start post' g.stop := by
  obtain ⟨-, -, -, -, hbelow, habove⟩ := wf_mid.mp (hp ▸ hi.wf)
  obtain ⟨pre', post', hp₁⟩ := List.append_of_mem ((hre.mem left).mpr (.inl (by simp)))
  obtain ⟨-, hpost', -, -, -, habove'⟩ := wf_mid.mp (hp₁ ▸ hwf)
  refine ⟨pre', post', hp₁, fun x hx => ?_⟩
  have hxl := habove' x hx
  have hxpos := hpost'.nonempty hx
  rcases (hre.mem x).mp (by simp [hp₁, hx]) with hx₀ | ⟨hfree, rfl⟩
  · simp only [List.mem_append, List.mem_cons] at hx₀
    rcases hx₀ with hx₀ | rfl | hx₀
    · have := hbelow x hx₀
      omega
    · omega
    · exact habove x hx₀
  · have := (hmm hfree).groups g (by simp [hp])
    simp only [poolGroup_start, poolGroup_stop] at *
    omega

/-- A group is shortened to its left part, a node is taken, and the right part is
linked behind the left one. -/
theorem Removed.split (hi : Inv held pm) (hp : pm.pages = pre ++ g :: post)
    (hs : g.start < start) (hlt : start < stop) (hstop : stop < g.stop)
    (hmm : pm.freePages = [] → Fresh pm mm)
    (halloc : virtPageAlloc mm
      { pm with pages := pre ++ { g with size := wsub start g.start } :: post } = some (n, pm₁)) :
    Removed held mm start stop pm
      { pm₁ with
        pages := insertAfter g.node
          { g with start := stop, size := wsub g.pageEnd stop, node := n } pm₁.pages } := by
  have hw : g.stop < 2 ^ 64 := hi.wf.noWrap g (by simp [hp])
  have hi₀ := hi.shortened hp hs (by omega : start ≤ g.stop)
  rw [g.pageEnd_eq hw, wsub_eq (by omega) hw]
  rw [wsub_eq (by omega) (by omega)] at halloc hi₀
  obtain ⟨left, hleft⟩ : ∃ left, left = { g with size := start - g.start } := ⟨_, rfl⟩
  obtain ⟨right, hright⟩ :
    ∃ right, right = { g with start := stop, size := g.stop - stop, node := n } := ⟨_, rfl⟩
  have hleftStart : left.start = g.start := by rw [hleft]
  have hleftStop : left.stop = start := by
    rw [hleft]
    exact Nat.add_sub_cancel' (Nat.le_of_lt hs)
  have hrightStart : right.start = stop := by rw [hright]
  have hrightNode : right.node = n := by rw [hright]
  have hrightStop : right.stop = g.stop := by
    rw [hright]
    exact Nat.add_sub_cancel' (Nat.le_of_lt hstop)
  rw [← hleft] at halloc hi₀
  rw [← hright]
  obtain ⟨-, -, -, -, hbelow, habove⟩ := wf_mid.mp (hp ▸ hi.wf)
  obtain ⟨hi₁, hre⟩ := virtPageAlloc_spec hi₀ (fun h => (hmm h).pool) halloc
  obtain ⟨pre', post', hp₁, hpost'g⟩ :=
    hre.gap hi hp hleftStart (by omega) (by omega) hi₁.wf hmm
  obtain ⟨-, hpost', -, -, hbelow', -⟩ := wf_mid.mp (hp₁ ▸ hi₁.wf)
  have hpages : insertAfter g.node right pm₁.pages = pre' ++ left :: right :: post' := by
    have := hi₁.node_ne hp₁
    rw [hp₁, ← insertAfter_mid this.1]
    simp [hleft]
  have hcutg : Cut start stop [g] [left, right] := by
    rw [hleft, hright]
    exact cut_both _ _ g.node n (Nat.le_of_lt hs) hlt (Nat.le_of_lt hstop) (by omega) (by omega)
  have hcut : ∀ x q, Tracked (pre ++ left :: post) x q ∨ Tracked [right] x q ↔
      Tracked pm.pages x q ∧ (x < start ∨ stop ≤ x) := by
    intro x q
    have hframe := (hcutg.frame pre post (hbelow.mono (Nat.le_of_lt hs))
      (habove.mono (Nat.le_of_lt hstop))) x q
    simp only [hp, at_append, at_cons, at_nil, or_false] at hframe ⊢
    grind
  refine ⟨hi₁.moved ?_ rfl fun x => ?_, fun x q => ?_, fun x q hx => ?_, ?_⟩
  · rw [hpages, ← List.singleton_append, ← List.append_assoc]
    refine wf_mid.mpr ⟨?_, hpost', by omega, by omega, ?_, by rwa [hrightStop]⟩
    · have hwf₁ : Wf (pre' ++ [left] ++ post') := by
        simpa [hp₁] using hi₁.wf
      exact hwf₁.left
    · simp only [below_append, below_cons, below_nil, and_true]
      exact ⟨hbelow'.mono (by omega), by omega⟩
  · simp only [nodes, hpages]
    simp only [hp₁, hrightNode, List.map_append, List.map_cons, List.count_append,
      List.count_cons, List.cons_append]
    omega
  · rw [← hcut, hpages]
    have := hre.tracked x q
    simp only [hp₁, at_append, at_cons, at_nil, or_false] at this ⊢
    grind
  · obtain ⟨m, hpm, hmx, hxm, -⟩ := hx
    rcases hre.once with ⟨-, hsame, -⟩ | ⟨hfree, -, hcons⟩
    · exact absurd (hsame.symm.trans hpm).symm (List.cons_ne_self _ _)
    · cases hcons.symm.trans hpm
      have := (hmm hfree).groups g (by simp [hp])
      omega
  · rcases hre.once with ⟨-, hsame, -⟩ | h
    · exact .inl hsame
    · exact .inr h

end Split

/-! ## remove_page_locked -/

section RemovePage

variable {held : List Nat} {mm start stop : Nat} {cid : Int} {pm pm' : PageManager} {r : Int}
  {pre mid post : List VirtPage} {g first last : VirtPage}

theorem removeInside_spec (hi : Inv held pm) (hp : pm.pages = pre ++ g :: post)
    (hs : g.start ≤ start) (hlt : start < stop) (hstop : stop ≤ g.stop)
    (hmm : pm.freePages = [] → Fresh pm mm)
    (h : removeInside mm start stop pm pre g post = some (r, pm')) :
    r = 0 ∧ Removed held mm start stop pm pm' := by
  have hwf : Wf (pre ++ g :: post) := hp ▸ hi.wf
  obtain ⟨-, -, -, hw, hbelow, habove⟩ := wf_mid.mp hwf
  -- Each branch cuts the interval out of `[g]`; the neighbours are not met.
  have hframe {new : List VirtPage} (hcut : Cut start stop [g] new) :
      Cut start stop pm.pages (pre ++ new ++ post) := by
    have := hcut.frame pre post (hbelow.mono hs) (habove.mono hstop)
    rwa [List.append_assoc pre [g] post, List.singleton_append, ← hp] at this
  unfold removeInside at h
  rw [g.pageEnd_eq hw] at h
  split at h
  -- the whole group
  · rename_i hall
    cases h
    refine ⟨rfl, .of_cut hi hwf.drop rfl (fun n => ?_) ?_⟩
    · simp only [nodes, virtPageFree, hp, List.map_append, List.map_cons, List.count_append,
        List.count_cons]
      omega
    · have hnil : Cut start stop [g] [] := cut_nil (by simp [hall.1]) (by simp [hall.2])
      simpa [virtPageFree] using hframe hnil
  split at h
  -- its beginning: the node now describes the end
  · rename_i hnot heq
    cases h
    rw [wsub_eq hstop hw]
    refine ⟨rfl, .of_cut hi (hwf.shrink (show g.start ≤ stop by omega) ?_ ?_) rfl
      (fun n => by simp [nodes, hp]) ?_⟩
    · exact show stop < stop + (g.stop - stop) by omega
    · exact show stop + (g.stop - stop) ≤ g.stop by omega
    · simpa using hframe (cut_right (g.stop - stop) g.node
        (by omega) (by omega) (by omega))
  split at h
  -- its end
  · rename_i hnot heq
    cases h
    rw [wsub_eq hs (by omega)]
    refine ⟨rfl, .of_cut hi (hwf.shrink (Nat.le_refl _) ?_ ?_) rfl
      (fun n => by simp [nodes, hp]) ?_⟩
    · exact show g.start < g.start + (start - g.start) by omega
    · exact show g.start + (start - g.start) ≤ g.stop by omega
    · simpa using hframe (cut_left (start - g.start) g.node
        (by omega) (by omega) (by omega))
  -- its middle
  · rename_i hs' he'
    split at h
    · cases h
    · rename_i n pm₁ halloc
      cases h
      have := Removed.split hi hp (by omega) hlt (by omega) hmm halloc
      rw [g.pageEnd_eq hw] at this
      exact ⟨rfl, this⟩

/-- The part of the first group that stays, if any. -/
theorem cut_first (hs : first.start ≤ start) (hfirst : start < first.stop) (hlt : first.stop ≤ stop)
    (hw : first.stop < 2 ^ 64) :
    Cut start stop [first] (if start = first.start then []
      else [{ first with size := wsub start first.start }]) := by
  rw [wsub_eq hs (by omega)]
  split
  · exact cut_nil (by simp; omega) (by simp; omega)
  · exact cut_left _ first.node (by omega) hlt (by omega)

/-- The part of the last group that stays, if any. -/
theorem cut_last (hs : start ≤ last.start) (hl : last.start < stop) (hstop : stop ≤ last.stop)
    (hw : last.stop < 2 ^ 64) :
    Cut start stop [last] (if stop = last.stop then []
      else [{ last with size := wsub last.stop stop, start := stop }]) := by
  rw [wsub_eq hstop hw]
  split
  · exact cut_nil (by simpa using hs) (by simp; omega)
  · exact cut_right _ last.node hs (by omega) (by omega)

theorem removeAcross_spec (mm : Nat) (hi : Inv held pm)
    (hp : pm.pages = pre ++ (first :: mid ++ [last]) ++ post)
    (hs : first.start ≤ start) (hfirst : start < first.stop) (hl : last.start < stop)
    (hstop : stop ≤ last.stop) :
    (removeAcross start stop pm pre first mid last post).1 = 0 ∧
      Removed held mm start stop pm (removeAcross start stop pm pre first mid last post).2 := by
  have hwf : Wf (pre ++ (first :: mid ++ [last]) ++ post) := hp ▸ hi.wf
  obtain ⟨hleft, hpost, hcross⟩ := ordered_append.mp hwf.ordered
  obtain ⟨-, hold, hprecross⟩ := ordered_append.mp hleft
  obtain ⟨-, hfirstAbove, hrest⟩ := ordered_cons.mp hold
  obtain ⟨-, -, -, hmidBelow, -⟩ := ordered_mid.mp hrest
  obtain ⟨hmidAbove, hfl⟩ := above_append.mp hfirstAbove
  have hfl : first.stop ≤ last.start := hfl last (by simp)
  have hw₁ : first.stop < 2 ^ 64 := hwf.noWrap first (by simp)
  have hw₂ : last.stop < 2 ^ 64 := hwf.noWrap last (by simp)
  obtain ⟨kept, hkept⟩ : ∃ kept, kept = if start = first.start then []
      else [{ first with size := wsub start first.start }] := ⟨_, rfl⟩
  obtain ⟨right, hright⟩ : ∃ right, right = if stop = last.stop then []
      else [{ last with size := wsub last.stop stop, start := stop }] := ⟨_, rfl⟩
  have hkeptMem : ∀ c ∈ kept, c.start = first.start ∧ c.stop = start ∧ first.start < start := by
    rw [hkept, wsub_eq hs (by omega)]
    split <;> simp [VirtPage.stop]
    omega
  have hrightMem : ∀ c ∈ right, c.start = stop ∧ c.stop = last.stop ∧ stop < last.stop := by
    rw [hright, wsub_eq hstop hw₂]
    split <;> simp [VirtPage.stop] at *
    omega
  have hkeptOrd : Ordered VirtPage.start VirtPage.stop kept := by
    rw [hkept, wsub_eq hs (by omega)]
    split <;> simp [VirtPage.stop]
    omega
  have hrightOrd : Ordered VirtPage.start VirtPage.stop right := by
    rw [hright, wsub_eq hstop hw₂]
    split <;> simp [VirtPage.stop] at *
    omega
  have hcut : Cut start stop pm.pages (pre ++ (kept ++ right) ++ post) := by
    have h₁ : Cut start stop [first] kept := hkept ▸ cut_first hs hfirst (by omega) hw₁
    have h₂ : Cut start stop mid [] :=
      cut_nil (hmidAbove.mono (by omega)) (hmidBelow.mono (by omega))
    have h₃ : Cut start stop [last] right := hright ▸ cut_last (by omega) hl hstop hw₂
    rw [hp]
    have := (h₁.append (h₂.append h₃)).frame pre post
      (fun a ha => Nat.le_trans (hprecross a ha first (by simp)) hs)
      (fun b hb => Nat.le_trans hstop (hcross last (by simp) b hb))
    simpa using this
  have hnew : Wf (pre ++ (kept ++ right) ++ post) := by
    refine hwf.replace (ordered_append.mpr ⟨hkeptOrd, hrightOrd, fun a ha b hb => ?_⟩)
      (fun c hc => ?_) (fun c hc => ?_)
    · have := hkeptMem a ha
      have := hrightMem b hb
      omega
    · refine ⟨first, by simp, ?_⟩
      rcases List.mem_append.mp hc with hc | hc
      · exact Nat.le_of_eq (hkeptMem c hc).1.symm
      · have := hrightMem c hc
        omega
    · refine ⟨last, by simp, ?_⟩
      rcases List.mem_append.mp hc with hc | hc
      · have := hkeptMem c hc
        omega
      · exact Nat.le_of_eq (hrightMem c hc).2.1
  have hpages : (removeAcross start stop pm pre first mid last post).2.pages =
      pre ++ (kept ++ right) ++ post := by
    simp only [removeAcross, last.pageEnd_eq hw₂, hkept, hright]
    split <;> simp
  refine ⟨?_, .of_cut hi (hpages ▸ hnew) ?_ (fun n => ?_) (hpages ▸ hcut)⟩
  · simp only [removeAcross]
    split <;> rfl
  · simp only [removeAcross]
    split <;> rfl
  · simp only [nodes, hp, removeAcross, last.pageEnd_eq hw₂]
    split <;> split <;>
      simp only [List.map_append, List.map_cons, List.map_nil, List.count_append,
        List.count_cons, List.count_reverse, List.count_nil, List.cons_append] <;> omega

/-- Every address of the interval is tracked, for the compartment `cid`. -/
def Owned (l : List VirtPage) (start stop : Nat) (cid : Int) : Prop :=
  ∀ x, start ≤ x → x < stop → ∃ q, Tracked l x q ∧ q.cid = cid

theorem Run.owned {before l : List VirtPage} (h : Run start stop cid before last)
    (hsub : ∀ g ∈ before ++ [last], g ∈ l) : Owned l start stop cid := by
  intro x hx hxs
  obtain ⟨g, hg, hgx, hxg⟩ := h.covers x hx hxs
  exact ⟨g.attr, ⟨g, hsub g hg, hgx, hxg, rfl⟩, h.cids g hg⟩

/-- `remove_page_locked` refuses, or finds a run of groups behind the head of the
list and edits there. -/
theorem removePageLocked_found {size : Nat} (hi : Inv held pm)
    (hw : start + roundUp size < 2 ^ 64)
    (h : removePageLocked mm pm start size cid = some (r, pm')) :
    (r = -1 ∧ pm' = pm) ∨
      (start % 4096 = 0 ∧ 0 < roundUp size ∧
        ∃ head pre before last post first,
          pm.pages = (head :: pre) ++ (before ++ [last]) ++ post ∧ head.stop ≤ start ∧
          first ∈ (before ++ [last]).head? ∧ first.start ≤ start ∧ start < first.stop ∧
          Run start (start + roundUp size) cid before last ∧
          ((before = [] ∧
            removeInside mm start (start + roundUp size) pm (head :: pre) last post =
              some (r, pm')) ∨
          ∃ mid, before = first :: mid ∧
            removeAcross start (start + roundUp size) pm (head :: pre) first mid last post =
              (r, pm'))) := by
  have hend : wadd start (roundUp size) = start + roundUp size := wadd_eq hw
  cases removePageLocked_ways h with
  | refused => exact .inl ⟨rfl, rfl⟩
  | inside hs hpos head rest pre g post hpages hhead hfind _ _ h =>
      obtain ⟨hwf, -, hwhead, -⟩ := wf_cons.mp (hpages ▸ hi.wf)
      rw [head.pageEnd_eq hwhead] at hhead
      rw [hend] at hfind h
      obtain ⟨heq, first, hfirst, hfs, hsf, hrun⟩ := findStart_range hwf hfind
      exact .inr ⟨hs, Nat.pos_of_ne_zero hpos, head, pre, [], g, post, first,
        by simpa [hpages] using heq, hhead, hfirst, hfs, hsf, hrun, .inl ⟨rfl, h⟩⟩
  | across hs hpos head rest pre first mid last post hpages hhead hfind _ _ h =>
      obtain ⟨hwf, -, hwhead, -⟩ := wf_cons.mp (hpages ▸ hi.wf)
      rw [head.pageEnd_eq hwhead] at hhead
      rw [hend] at hfind h
      obtain ⟨heq, first', hfirst, hfs, hsf, hrun⟩ := findStart_range hwf hfind
      simp only [List.cons_append, List.head?_cons, Option.mem_def, Option.some.injEq] at hfirst
      subst hfirst
      exact .inr ⟨hs, Nat.pos_of_ne_zero hpos, head, pre, first :: mid, last, post, first,
        by simpa [hpages] using heq, hhead, by simp, hfs, hsf, hrun, .inr ⟨mid, rfl, h⟩⟩

/-- `remove_page_locked` refuses, or cuts out an interval the compartment owns. -/
theorem removePageLocked_cases {size : Nat} (hi : Inv held pm)
    (hmm : pm.freePages = [] → Fresh pm mm) (hw : start + roundUp size < 2 ^ 64)
    (h : removePageLocked mm pm start size cid = some (r, pm')) :
    (r = -1 ∧ pm' = pm) ∨
      (r = 0 ∧ start % 4096 = 0 ∧ 0 < roundUp size ∧
        Removed held mm start (start + roundUp size) pm pm' ∧
        Owned pm.pages start (start + roundUp size) cid) := by
  rcases removePageLocked_found hi hw h with hfail | ⟨halign, hsize, head, pre, before, last, post,
    first, hp, -, hfirst, hfs, hsf, hrun, hedit⟩
  · exact .inl hfail
  have howned : Owned pm.pages start (start + roundUp size) cid := hrun.owned fun g hg => by
    rw [hp]
    exact List.mem_append_left _ (List.mem_append_right _ hg)
  rcases hedit with ⟨rfl, hinside⟩ | ⟨mid, rfl, hacross⟩
  · obtain rfl : last = first := by simpa using hfirst
    obtain ⟨rfl, hrem⟩ := removeInside_spec hi (by simpa using hp) hfs (by omega) hrun.stops hmm
      hinside
    exact .inr ⟨rfl, halign, hsize, hrem, howned⟩
  · obtain ⟨h₀, hrem⟩ := removeAcross_spec mm hi hp hfs hsf hrun.starts hrun.stops
    rw [hacross] at h₀ hrem
    exact .inr ⟨h₀, halign, hsize, hrem, howned⟩

end RemovePage

/-! ## remove_page_map_fixed_locked -/

section MapFixed

variable {held : List Nat} {mm start stop : Nat} {cid : Int} {pm pm' : PageManager} {r : Int}
  {l l' : List VirtPage} {freed : List Nat}

/-- Every tracked address of the interval is tracked for the compartment `cid`. -/
def NoForeign (l : List VirtPage) (start stop : Nat) (cid : Int) : Prop :=
  ∀ x q, Tracked l x q → start ≤ x → x < stop → q.cid = cid

theorem noForeign_cons {g : VirtPage}
    (hg : g.cid = cid ∨ g.stop ≤ start ∨ stop ≤ g.start) (h : NoForeign l start stop cid) :
    NoForeign (g :: l) start stop cid := by
  intro x q hx hlo hhi
  rcases at_cons.mp hx with ⟨h₁, h₂, rfl⟩ | hx
  · rcases hg with hg | hg | hg
    · exact hg
    · omega
    · omega
  · exact h x q hx hlo hhi

theorem noForeign_of_above (h : Above VirtPage.start l stop) : NoForeign l start stop cid :=
  fun _ _ hx _ hhi => absurd hx (h.not_at hhi)

/-- What the loop does when no group has to be split. -/
structure MapFixedCut (start stop : Nat) (cid : Int) (l l' : List VirtPage) (freed : List Nat) :
    Prop where
  wf : Wf l'
  cut : Cut start stop l l'
  nodes : ∀ n, (l'.map VirtPage.node).count n + freed.count n = (l.map VirtPage.node).count n
  above : ∀ x, Above VirtPage.start l x → Above VirtPage.start l' x
  noForeign : NoForeign l start stop cid

/-- What the loop does when it ends in a split. -/
structure MapFixedSplit (start stop : Nat) (cid : Int) (l l' : List VirtPage) (freed : List Nat)
    (node : Nat) (right : VirtPage) : Prop where
  split : ∃ pre g post, l = pre ++ g :: post ∧
    l' = pre ++ { g with size := wsub start g.start } :: post ∧
    node = g.node ∧ right = { g with start := stop, size := wsub g.pageEnd stop } ∧
    g.start < start ∧ stop < g.stop
  freed : freed = []
  noForeign : NoForeign l start stop cid

theorem MapFixedCut.of_above (hl : Wf l) (h : Above VirtPage.start l stop) :
    MapFixedCut start stop cid l l [] where
  wf := hl
  cut := by
    intro x q
    refine ⟨fun hx => ⟨hx, .inr ?_⟩, And.left⟩
    by_contra hxs
    exact h.not_at (by omega) hx
  nodes := by simp
  above := fun _ hx => hx
  noForeign := noForeign_of_above h

/-- A group that keeps its place and its start, whole or shortened. -/
theorem MapFixedCut.keep {g g' : VirtPage} (h : MapFixedCut start stop cid l l' freed)
    (hl : Wf (g :: l)) (hcut : Cut start stop [g] [g']) (hstart : g'.start = g.start)
    (hnode : g'.node = g.node) (hpos : g'.start < g'.stop) (hle : g'.stop ≤ g.stop)
    (hg : g.cid = cid ∨ g.stop ≤ start ∨ stop ≤ g.start) :
    MapFixedCut start stop cid (g :: l) (g' :: l') freed where
  wf := by
    obtain ⟨-, -, hw, habove⟩ := wf_cons.mp hl
    exact wf_cons.mpr ⟨h.wf, hpos, by omega, (h.above _ habove).mono hle⟩
  cut := hcut.append h.cut
  nodes := by
    intro n
    have := h.nodes n
    simp only [List.map_cons, List.count_cons, hnode]
    omega
  above := by
    intro x hx
    obtain ⟨hxg, hxl⟩ := above_cons.mp hx
    exact above_cons.mpr ⟨by rw [hstart]; exact hxg, h.above x hxl⟩
  noForeign := noForeign_cons hg h.noForeign

/-- A group inside the interval. -/
theorem MapFixedCut.free {g : VirtPage} (h : MapFixedCut start stop cid l l' freed)
    (hstart : start ≤ g.start) (hstop : g.stop ≤ stop) (hcid : g.cid = cid) :
    MapFixedCut start stop cid (g :: l) l' (g.node :: freed) where
  wf := h.wf
  cut := by
    have hnil : Cut start stop [g] [] := cut_nil (by simpa using hstart) (by simpa using hstop)
    exact hnil.append h.cut
  nodes := by
    intro n
    have := h.nodes n
    simp only [List.map_cons, List.count_cons]
    omega
  above := fun x hx => h.above x (above_cons.mp hx).2
  noForeign := noForeign_cons (.inl hcid) h.noForeign

/-- A group over the end of the interval, behind which nothing is left to do. -/
theorem MapFixedCut.trim {g : VirtPage} (hl : Wf (g :: l)) (hstart : start ≤ g.start)
    (hlt : g.start < stop) (hstop : stop < g.stop) (hcid : g.cid = cid) :
    MapFixedCut start stop cid (g :: l) ({ g with start := stop, size := g.stop - stop } :: l)
      [] := by
  obtain ⟨-, -, -, habove⟩ := wf_cons.mp hl
  have hbehind : Above VirtPage.start l stop := habove.mono (Nat.le_of_lt hstop)
  have hcut : Cut start stop [g] [{ g with start := stop, size := g.stop - stop }] :=
    cut_right _ g.node hstart (by omega) (by omega)
  refine ⟨?_, ?_, by simp, fun x hx => ?_, noForeign_cons (.inl hcid) (noForeign_of_above hbehind)⟩
  · exact Wf.shrink (by simpa using hl : Wf ([] ++ g :: l)) (show g.start ≤ stop by omega)
      (show stop < stop + (g.stop - stop) by omega) (show stop + (g.stop - stop) ≤ g.stop by omega)
  · simpa using hcut.frame [] l below_nil hbehind
  · obtain ⟨hxg, hxl⟩ := above_cons.mp hx
    exact above_cons.mpr ⟨show x ≤ stop by omega, hxl⟩

/-- A group further on cannot reach over the interval's start. -/
theorem MapFixedSplit.not_above {node : Nat} {right : VirtPage}
    (h : MapFixedSplit start stop cid l l' freed node right) {x : Nat} (hx : start ≤ x)
    (habove : Above VirtPage.start l x) : False := by
  obtain ⟨pre, g, post, rfl, -, -, -, hg, -⟩ := h.split
  have := habove g (by simp)
  omega

theorem mapFixedLoop_cases {split : Option (Nat × VirtPage)} (hl : Wf l)
    (h : mapFixedLoop start stop cid l = some (l', freed, split)) :
    (split = none ∧ MapFixedCut start stop cid l l' freed) ∨
      ∃ node right, split = some (node, right) ∧
        MapFixedSplit start stop cid l l' freed node right := by
  induction l generalizing l' freed split with
  | nil =>
      cases h
      exact .inl ⟨rfl, .of_above hl (by simp)⟩
  | cons g rest ih =>
      obtain ⟨hrest, hpos, hw, habove⟩ := wf_cons.mp hl
      simp only [mapFixedLoop, g.pageEnd_eq hw] at h
      split at h
      -- before the interval
      · rename_i hbefore
        obtain ⟨⟨l₁, freed₁, split₁⟩, hrec, heq⟩ := Option.map_eq_some_iff.mp h
        cases heq
        have hforeign : g.cid = cid ∨ g.stop ≤ start ∨ stop ≤ g.start := .inr (.inl hbefore)
        rcases ih hrest hrec with ⟨rfl, hc⟩ | ⟨node, right, rfl, hs⟩
        · have hself : Cut start stop [g] [g] := cut_self (.inl hbefore)
          exact .inl ⟨rfl, hc.keep hl hself rfl rfl hpos (Nat.le_refl _) hforeign⟩
        · obtain ⟨pre, g', post, rfl, rfl, hnode, hright, hg'⟩ := hs.split
          exact .inr ⟨node, right, rfl, ⟨g :: pre, g', post, rfl, rfl, hnode, hright, hg'⟩,
            hs.freed, noForeign_cons hforeign hs.noForeign⟩
      split at h
      -- behind the interval
      · rename_i hbehind
        cases h
        exact .inl ⟨rfl, .of_above hl (above_cons.mpr ⟨hbehind, habove.mono (by omega)⟩)⟩
      rename_i hmeets₁ hmeets₂
      split at h
      · cases h
      rename_i hcid
      have hcid : g.cid = cid := not_not.mp hcid
      split at h
      -- inside the interval
      · rename_i hin
        obtain ⟨⟨l₁, freed₁, split₁⟩, hrec, heq⟩ := Option.map_eq_some_iff.mp h
        cases heq
        rcases ih hrest hrec with ⟨rfl, hc⟩ | ⟨node, right, rfl, hs⟩
        · exact .inl ⟨rfl, hc.free hin.1 hin.2 hcid⟩
        · exact (hs.not_above (by omega) habove).elim
      split at h
      -- over its end
      · rename_i hover
        cases h
        rw [wsub_eq (by omega) hw]
        exact .inl ⟨rfl, .trim hl hover.1 (by omega) (by omega) hcid⟩
      split at h
      -- over its start
      · rename_i hover
        obtain ⟨⟨l₁, freed₁, split₁⟩, hrec, heq⟩ := Option.map_eq_some_iff.mp h
        cases heq
        rw [wsub_eq (by omega) (by omega)]
        rcases ih hrest hrec with ⟨rfl, hc⟩ | ⟨node, right, rfl, hs⟩
        · have hleft : Cut start stop [g] [{ g with size := start - g.start }] :=
            cut_left _ g.node (by omega) hover.1 (by omega)
          exact .inl ⟨rfl, hc.keep hl hleft rfl rfl
            (show g.start < g.start + (start - g.start) by omega)
            (show g.start + (start - g.start) ≤ g.stop by omega) (.inl hcid)⟩
        · exact (hs.not_above (by omega) habove).elim
      split at h
      · cases h
      -- over both: the group is split
      · rename_i hboth
        cases h
        have hboth := not_not.mp hboth
        refine .inr ⟨_, _, rfl, ⟨[], g, rest, rfl, rfl, rfl, ?_, hboth⟩, rfl, ?_⟩
        · rw [g.pageEnd_eq hw]
        · exact noForeign_cons (.inl hcid)
            (noForeign_of_above (habove.mono (show stop ≤ g.stop by omega)))

theorem removePageMapFixedLocked_cases {size : Nat} (hi : Inv held pm)
    (hmm : pm.freePages = [] → Fresh pm mm) (hw : start + roundUp size < 2 ^ 64)
    (h : removePageMapFixedLocked mm pm start size cid = some (r, pm')) :
    (r = -1 ∧ pm' = pm ∧ roundUp size = 0) ∨
      (r = 0 ∧ Removed held mm start (start + roundUp size) pm pm' ∧
        NoForeign pm.pages start (start + roundUp size) cid) := by
  simp only [removePageMapFixedLocked, wadd_eq hw] at h
  split at h
  · cases h
  split at h
  · rename_i hzero
    cases h
    exact .inl ⟨rfl, rfl, hzero⟩
  rename_i hsize
  have hlt : start < start + roundUp size := by omega
  split at h
  · cases h
  · rename_i pages freed hloop
    cases h
    rcases mapFixedLoop_cases hi.wf hloop with ⟨-, hc⟩ | ⟨_, _, heq, -⟩
    · refine .inr ⟨rfl, .of_cut hi hc.wf rfl (fun n => ?_) hc.cut, hc.noForeign⟩
      have := hc.nodes n
      simp only [nodes, List.count_append, List.count_reverse]
      omega
    · cases heq
  · rename_i pages freed node right hloop
    split at h
    · cases h
    rename_i n' pm₁ halloc
    cases h
    rcases mapFixedLoop_cases hi.wf hloop with ⟨heq, -⟩ | ⟨_, _, heq, hs⟩
    · cases heq
    · cases heq
      obtain ⟨pre, g, post, hp, rfl, rfl, rfl, hg, hgs⟩ := hs.split
      cases hs.freed
      exact .inr ⟨rfl, Removed.split hi hp hg hlt hgs hmm halloc, hs.noForeign⟩

end MapFixed

end Secpoline
