import Mathlib.Data.List.TakeWhile
import Secpoline.Proofs.PageView

/-!
# What remove_page accepts

`remove_page_locked` looks for the group of the range's start by walking from the
second group on, with special cases for the first gap and for the last group, and
from there follows the chain of groups that `lookup_range` follows. Where the start
lies in the list decides what becomes of the range: in an inner group the range is
removed if it is owned and refused otherwise; in the first or the last group it is
refused even if it is owned; in the first gap the group behind the gap is taken for
the group of the start, and a range that is owned from there on ends in a null
dereference; in a later gap the search traps, unless only the last group is left.

So the answer is right exactly for the ranges that are not `Misjudged`.
-/

namespace Secpoline

open Lib

/-! ## The search -/

section Search

variable {start stop : Nat} {cid : Int} {l pre rest : List VirtPage} {g : VirtPage}

/-- The search for the end walks the chain that `lookup_range` walks. -/
theorem findEnd_fail_iff : findEnd stop cid l = .fail ↔ lookupRangeLoop stop cid l = false := by
  induction l with
  | nil => simp [findEnd, lookupRangeLoop]
  | cons g rest ih =>
      cases rest with
      | nil =>
          simp only [findEnd, lookupRangeLoop]
          split
          · simp
          · split
            · split <;> simp
            · simp
      | cons next rest =>
          rw [findEnd, lookupRangeLoop]
          split
          · simp
          · split
            · split <;> simp
            · simp only [ne_comm (a := next.start)]
              split
              · simp
              · rw [← ih]
                split
                · next hrec => simp [hrec]
                · rfl

theorem findEnd_ne_trap (h : Wf (g :: rest)) (hlt : g.start < stop) :
    findEnd stop cid (g :: rest) ≠ .trap := by
  induction rest generalizing g with
  | nil =>
      obtain ⟨-, -, hw, -⟩ := wf_cons.mp h
      simp only [findEnd, g.pageEnd_eq hw]
      split
      · simp
      · split
        · rw [if_neg (by omega)]
          simp
        · simp
  | cons next rest ih =>
      obtain ⟨hrest, -, hw, -⟩ := wf_cons.mp h
      rw [findEnd]
      simp only [g.pageEnd_eq hw]
      split
      · simp
      · split
        · rw [if_neg (by omega)]
          simp
        · split
          · simp
          · next hlt' hgap =>
              have hrec := ih hrest (by omega)
              split
              · simp
              · exact hrec

/-- What the walk of `remove_page_locked` finds before a group is put in front. -/
def Search.behind (pre : List VirtPage) : Search → Search
  | .range p before last after => .range (pre ++ p) before last after
  | r => r

theorem findStart_skip (h : Wf (pre ++ l)) (hbelow : Below VirtPage.stop pre start) (hl : l ≠ []) :
    findStart start stop cid (pre ++ l) = (findStart start stop cid l).behind pre := by
  induction pre with
  | nil => cases hs : findStart start stop cid l <;> simp [hs, Search.behind]
  | cons g pre ih =>
      obtain ⟨hrest, -, hw, -⟩ := wf_cons.mp h
      obtain ⟨hg, hpre⟩ := below_cons.mp hbelow
      have hne : pre ++ l ≠ [] := by simp [hl]
      rw [List.cons_append, findStart]
      simp only [g.pageEnd_eq hw]
      rw [if_neg hne, if_neg (by omega), ih hrest hpre]
      cases findStart start stop cid l <;> simp [Search.behind]

theorem findStart_below (h : Wf l) (hbelow : Below VirtPage.stop l start) :
    findStart start stop cid l = .fail := by
  induction l with
  | nil => rfl
  | cons g rest ih =>
      obtain ⟨hrest, -, hw, -⟩ := wf_cons.mp h
      obtain ⟨hg, hbelow⟩ := below_cons.mp hbelow
      rw [findStart]
      simp only [g.pageEnd_eq hw]
      split
      · rfl
      · rw [if_neg (by omega), ih hrest hbelow]

end Search

/-! ## The answer, by the place of the start -/

section Place

variable {held : List Nat} {mm start size : Nat} {cid : Int} {pm : PageManager}
  {pre post rest : List VirtPage} {head second next g : VirtPage}

theorem removePage_head (hi : Inv held pm) (hp : pm.pages = head :: rest) (hs : start % 4096 = 0)
    (hlt : start < head.stop) : removePage mm pm start size cid = some (-1, pm) := by
  have hw : head.stop < 2 ^ 64 := hi.wf.noWrap head (by simp [hp])
  cases rest with
  | nil => simp only [removePage, removePageLocked, hp]
  | cons second rest =>
      simp only [removePage, removePageLocked, hp, hs, head.pageEnd_eq hw, ne_eq, not_true_eq_false,
        if_false, gt_iff_lt, hlt, if_true]
      split <;> rfl

variable (mm cid) in
/-- The range starts in the first gap: the group behind the gap is taken for the one
of the start. -/
theorem removePage_firstGap (hi : Inv held pm) (hp : pm.pages = head :: second :: rest)
    (hs : start % 4096 = 0) (hpos : 0 < roundUp size) (hhead : head.stop ≤ start)
    (hsecond : start < second.start) :
    removePage mm pm start size cid =
      if lookupRangeLoop (wadd start (roundUp size)) cid (second :: rest) then none
      else some (-1, pm) := by
  have hw : head.stop < 2 ^ 64 := hi.wf.noWrap head (by simp [hp])
  simp only [removePage, removePageLocked, hp, hs, head.pageEnd_eq hw, ne_eq, not_true_eq_false,
    if_false, Nat.pos_iff_ne_zero.mp hpos, gt_iff_lt, Nat.not_lt.mpr hhead, hsecond, if_true]
  split
  · next hfail => rw [findEnd_fail_iff.mp hfail, if_neg (by simp)]
  · next hne =>
      rw [if_pos]
      by_contra hloop
      rw [Bool.not_eq_true, ← findEnd_fail_iff] at hloop
      exact hne hloop

/-- What becomes of a range that the search was asked for, from the head of the list. -/
def Search.answer (mm start stop : Nat) (pm : PageManager) (head : VirtPage) :
    Search → Option (Int × PageManager)
  | .fail => some (-1, pm)
  | .trap => none
  | .range pre [] g post => removeInside mm start stop pm (head :: pre) g post
  | .range pre (first :: mid) last post =>
      some (removeAcross start stop pm (head :: pre) first mid last post)

theorem removePage_tail (hi : Inv held pm) (hp : pm.pages = head :: second :: rest)
    (hs : start % 4096 = 0) (hpos : 0 < roundUp size) (hsecond : second.start ≤ start) :
    removePage mm pm start size cid =
      (findStart start (wadd start (roundUp size)) cid (second :: rest)).answer mm start
        (wadd start (roundUp size)) pm head := by
  obtain ⟨-, -, hw, habove⟩ := wf_cons.mp (hp ▸ hi.wf)
  have hhead : head.stop ≤ start := Nat.le_trans (habove second List.mem_cons_self) hsecond
  simp only [removePage, removePageLocked, hp, hs, head.pageEnd_eq hw, ne_eq, not_true_eq_false,
    if_false, Nat.pos_iff_ne_zero.mp hpos, gt_iff_lt, Nat.not_lt.mpr hhead,
    Nat.not_lt.mpr hsecond]
  cases findStart start (wadd start (roundUp size)) cid (second :: rest) with
  | fail => rfl
  | trap => rfl
  | range pre before last post => cases before <;> rfl

theorem exists_second (hi : Inv held pm) (hp : pm.pages = head :: pre ++ g :: post)
    (hbelow : Below VirtPage.stop pre start) (hstart : pre = [] → g.start ≤ start) :
    ∃ second rest, pm.pages = head :: second :: rest ∧ second :: rest = pre ++ g :: post ∧
      second.start ≤ start ∧ Wf (pre ++ g :: post) := by
  have hwf : Wf (head :: (pre ++ g :: post)) := by simpa [hp] using hi.wf
  obtain ⟨htail, -⟩ := wf_cons.mp hwf
  cases pre with
  | nil => exact ⟨g, post, by simpa using hp, rfl, hstart rfl, htail⟩
  | cons a pre =>
      refine ⟨a, pre ++ g :: post, by simpa using hp, rfl, ?_, htail⟩
      have hle := hbelow a List.mem_cons_self
      have hpos := htail.nonempty (g := a) (by simp)
      omega

theorem removePage_above (hi : Inv held pm) (hp : pm.pages = head :: second :: rest)
    (hs : start % 4096 = 0) (hpos : 0 < roundUp size)
    (hbelow : Below VirtPage.stop pm.pages start) :
    removePage mm pm start size cid = some (-1, pm) := by
  have hwf := hi.wf
  rw [hp] at hbelow hwf
  obtain ⟨-, htail⟩ := below_cons.mp hbelow
  have hwtail := (wf_cons.mp hwf).1
  have hsecond := htail second List.mem_cons_self
  have hspos := hwtail.nonempty List.mem_cons_self
  rw [removePage_tail hi hp hs hpos (by omega), findStart_below hwtail htail]
  rfl

variable (mm cid) in
theorem removePage_gap (hi : Inv held pm) (hp : pm.pages = head :: pre ++ next :: post)
    (hpre : pre ≠ []) (hs : start % 4096 = 0) (hpos : 0 < roundUp size)
    (hbelow : Below VirtPage.stop pre start) (hnext : start < next.start) :
    removePage mm pm start size cid = if post = [] then some (-1, pm) else none := by
  obtain ⟨second, rest, hp', htail, hstart, hwf⟩ :=
    exists_second hi hp hbelow fun hnil => absurd hnil hpre
  have hw : next.stop < 2 ^ 64 := hi.wf.noWrap next (by simp [hp])
  have hnpos := hi.wf.nonempty (g := next) (by simp [hp])
  have heval : findStart start (wadd start (roundUp size)) cid (next :: post) =
      if post = [] then .fail else .trap := by
    rw [findStart]
    simp only [next.pageEnd_eq hw]
    split
    · rfl
    · rw [if_pos (by omega), if_pos (by omega)]
  rw [removePage_tail hi hp' hs hpos hstart, htail, findStart_skip hwf hbelow (by simp), heval]
  by_cases hpost : post = []
  · simp only [if_pos hpost, Search.behind, Search.answer]
  · simp only [if_neg hpost, Search.behind, Search.answer]

theorem removeInside_total {stop : Nat} (hi : Inv held pm)
    (hmm : pm.freePages = [] → PoolReady pm mm)
    (hp : pm.pages = pre ++ g :: post) (hgs : g.start ≤ start) (hsg : start < g.stop) :
    ∃ pm', removeInside mm start stop pm pre g post = some (0, pm') := by
  simp only [removeInside]
  split
  · exact ⟨_, rfl⟩
  split
  · exact ⟨_, rfl⟩
  rename_i hne
  split
  · exact ⟨_, rfl⟩
  · have hlt : g.start < start := by omega
    have hle : start ≤ g.stop := by omega
    obtain ⟨n, pm₁, halloc⟩ := virtPageAlloc_total (hi.shortened hp hlt hle)
      fun hfree => (hmm hfree).shortened hi hp hlt hle
    rw [halloc]
    exact ⟨_, rfl⟩

theorem removePage_last (hi : Inv held pm) (hp : pm.pages = head :: pre ++ [g])
    (hs : start % 4096 = 0) (hpos : 0 < roundUp size) (hgs : g.start ≤ start) :
    removePage mm pm start size cid = some (-1, pm) := by
  have hwf : Wf ((head :: pre) ++ [g]) := hp ▸ hi.wf
  obtain ⟨-, -, -, -, hbelow, -⟩ := wf_mid.mp hwf
  have hpre : Below VirtPage.stop pre start := (below_cons.mp (hbelow.mono hgs)).2
  obtain ⟨second, rest, hp', htail, hstart, hwtail⟩ := exists_second hi hp hpre fun _ => hgs
  rw [removePage_tail hi hp' hs hpos hstart, htail, findStart_skip hwtail hpre (by simp), findStart]
  rfl

variable (cid) in
/-- The range starts in an inner group: the answer is that of the walk to its end, which
may have wrapped. -/
theorem removePage_inner_found (hi : Inv held pm) (hmm : pm.freePages = [] → PoolReady pm mm)
    (hp : pm.pages = head :: pre ++ g :: post) (hpost : post ≠ []) (hs : start % 4096 = 0)
    (hpos : 0 < roundUp size) (hgs : g.start ≤ start) (hsg : start < g.stop) :
    (findEnd (wadd start (roundUp size)) cid (g :: post) = .fail →
        removePage mm pm start size cid = some (-1, pm)) ∧
      (findEnd (wadd start (roundUp size)) cid (g :: post) = .trap →
        removePage mm pm start size cid = none) ∧
      ∀ before last after,
        findEnd (wadd start (roundUp size)) cid (g :: post) = .range before last after →
          ∃ pm', removePage mm pm start size cid = some (0, pm') := by
  have hwf : Wf ((head :: pre) ++ g :: post) := hp ▸ hi.wf
  obtain ⟨-, -, -, hgw, hbelow, -⟩ := wf_mid.mp hwf
  have hpre : Below VirtPage.stop pre start := (below_cons.mp (hbelow.mono hgs)).2
  obtain ⟨second, rest, hp', htail, hstart, hwtail⟩ := exists_second hi hp hpre fun _ => hgs
  rw [removePage_tail hi hp' hs hpos hstart, htail, findStart_skip hwtail hpre (by simp), findStart]
  simp only [g.pageEnd_eq hgw]
  rw [if_neg hpost, if_pos (by omega), if_neg (by omega)]
  refine ⟨fun hend => ?_, fun hend => ?_, fun before last after hend => ?_⟩
  · rw [hend]
    rfl
  · rw [hend]
    rfl
  · rw [hend]
    obtain ⟨hsplit, -⟩ := findEnd_range hwtail.right hend
    cases before with
    | nil =>
        cases hsplit
        exact removeInside_total hi hmm (by simpa using hp) hgs hsg
    | cons first mid =>
        simp only [Search.behind, Search.answer, removeAcross]
        split <;> exact ⟨_, rfl⟩

variable (cid) in
theorem removePage_inner (hi : Inv held pm) (hmm : pm.freePages = [] → PoolReady pm mm)
    (hp : pm.pages = head :: pre ++ g :: post) (hpost : post ≠ []) (hs : start % 4096 = 0)
    (hpos : 0 < roundUp size) (hw : start + roundUp size < 2 ^ 64) (hgs : g.start ≤ start)
    (hsg : start < g.stop) :
    (Owned pm.pages start (start + roundUp size) cid →
        ∃ pm', removePage mm pm start size cid = some (0, pm')) ∧
      (¬ Owned pm.pages start (start + roundUp size) cid →
        removePage mm pm start size cid = some (-1, pm)) := by
  have hwf : Wf ((head :: pre) ++ g :: post) := hp ▸ hi.wf
  have hlt : start < start + roundUp size := by omega
  have hiff : Owned pm.pages start (start + roundUp size) cid ↔
      findEnd (start + roundUp size) cid (g :: post) ≠ .fail := by
    rw [hp, owned_from_group hwf hgs hsg hlt, ← lookupRangeLoop_iff hwf.right, ne_eq,
      findEnd_fail_iff, Bool.not_eq_false]
  obtain ⟨hfail, -, hrange⟩ := removePage_inner_found cid hi hmm hp hpost hs hpos hgs hsg
  rw [wadd_eq hw] at hfail hrange
  rw [hiff, not_not]
  refine ⟨fun hne => ?_, hfail⟩
  cases hend : findEnd (start + roundUp size) cid (g :: post) with
  | fail => exact absurd hend hne
  | trap => exact absurd hend (findEnd_ne_trap hwf.right (by omega))
  | range before last after => exact hrange before last after hend

end Place

/-! ## The ranges that are judged by their contents -/

section Judged

variable {mm start stop size : Nat} {cid : Int} {pm : PageManager}

/-- The range is not answered as its contents deserve. What decides is the first
group that does not end before the range, and how many groups are before and behind
it: an owned range in the first or in the last group is refused; behind the first
group, a gap is not seen if the range is owned from the next group on; in a later gap
the search traps if two groups are left. -/
def Misjudged (l : List VirtPage) (start stop : Nat) (cid : Int) : Prop :=
  match l.takeWhile (fun g => decide (g.stop ≤ start)),
      l.dropWhile fun g => decide (g.stop ≤ start) with
  | _, [] => False
  | before, next :: behind =>
      if next.start ≤ start then Owned l start stop cid ∧ (before = [] ∨ behind = [])
      else
        match before with
        | [] => False
        | [_] => next.cid = cid ∧ Owned l next.start stop cid
        | _ => behind ≠ []

theorem split_at (l : List VirtPage) (start : Nat) :
    l = l.takeWhile (fun g => decide (g.stop ≤ start)) ++
        l.dropWhile (fun g => decide (g.stop ≤ start)) ∧
      Below VirtPage.stop (l.takeWhile fun g => decide (g.stop ≤ start)) start ∧
      ∀ next behind, (l.dropWhile fun g => decide (g.stop ≤ start)) = next :: behind →
        start < next.stop := by
  refine ⟨List.takeWhile_append_dropWhile.symm, fun g hg => ?_, fun next behind heq => ?_⟩
  · simpa using List.mem_takeWhile_imp hg
  · have hhead := List.head?_dropWhile_not (fun g => decide (g.stop ≤ start)) l
    rw [heq] at hhead
    simpa using hhead

/-- Whatever the end of the range, wrapped or not, it is accepted only if it starts in
an inner group and the walk to the end succeeds. -/
theorem removePage_accepts_iff {held : List Nat} (hi : Inv held pm)
    (hmm : pm.freePages = [] → PoolReady pm mm) :
    (∃ pm', removePage mm pm start size cid = some (0, pm')) ↔
      start % 4096 = 0 ∧ 0 < roundUp size ∧ ∃ head pre g post,
        pm.pages = head :: pre ++ g :: post ∧ post ≠ [] ∧ g.start ≤ start ∧ start < g.stop ∧
          ∃ before last after, findEnd (wadd start (roundUp size)) cid (g :: post) =
            .range before last after := by
  constructor
  · intro h
    obtain ⟨pm', h⟩ := h
    obtain ⟨head, second, rest, hp⟩ : ∃ head second rest, pm.pages = head :: second :: rest := by
      cases hp : pm.pages with
      | nil => simp [removePage, removePageLocked, hp] at h
      | cons head rest =>
          cases rest with
          | nil => simp [removePage, removePageLocked, hp] at h
          | cons second rest => exact ⟨head, second, rest, rfl⟩
    have hs : start % 4096 = 0 := by
      by_contra hs
      simp [removePage, removePageLocked, hp, hs] at h
    have hpos : 0 < roundUp size := by
      by_contra hpos
      simp [removePage, removePageLocked, hp, hs, Nat.eq_zero_of_not_pos hpos] at h
    refine ⟨hs, hpos, ?_⟩
    obtain ⟨hsplit, hbelow, hnext⟩ := split_at pm.pages start
    generalize pm.pages.takeWhile (fun g => decide (g.stop ≤ start)) = before at hsplit hbelow
    generalize pm.pages.dropWhile (fun g => decide (g.stop ≤ start)) = after at hsplit hnext
    cases after with
    | nil =>
        rw [List.append_nil] at hsplit
        rw [removePage_above hi hp hs hpos (hsplit ▸ hbelow)] at h
        cases h
    | cons next behind =>
        have hsn := hnext next behind rfl
        by_cases hns : next.start ≤ start
        · cases before with
          | nil =>
              rw [removePage_head hi (by simpa using hsplit) hs hsn] at h
              cases h
          | cons head before =>
              have hpost : behind ≠ [] := by
                intro hnil
                subst hnil
                rw [removePage_last hi hsplit hs hpos hns] at h
                cases h
              obtain ⟨hfail, htrap, -⟩ := removePage_inner_found cid hi hmm hsplit hpost hs hpos hns
                hsn
              refine ⟨head, before, next, behind, hsplit, hpost, hns, hsn, ?_⟩
              cases hend : findEnd (wadd start (roundUp size)) cid (next :: behind) with
              | fail => cases h.symm.trans (hfail hend)
              | trap => cases h.symm.trans (htrap hend)
              | range before last after => exact ⟨before, last, after, rfl⟩
        · match before with
          | [] =>
              rw [removePage_head hi (by simpa using hsplit) hs hsn] at h
              cases h
          | [head] =>
              rw [removePage_firstGap mm cid hi hsplit hs hpos (hbelow head (by simp))
                (by omega)] at h
              split at h <;> cases h
          | head :: second :: mid =>
              rw [removePage_gap mm cid hi hsplit (List.cons_ne_nil _ _) hs hpos
                (fun g hg => hbelow g (List.mem_cons_of_mem _ hg)) (by omega)] at h
              split at h <;> cases h
  · intro h
    obtain ⟨hs, hpos, head, pre, g, post, hp, hpost, hgs, hsg, before, last, after, hend⟩ := h
    exact (removePage_inner_found cid hi hmm hp hpost hs hpos hgs hsg).2.2 before last after hend

theorem mem_inner_iff {l : List VirtPage} {g : VirtPage} : g ∈ l.tail.dropLast ↔
    ∃ head pre post, l = head :: pre ++ g :: post ∧ post ≠ [] := by
  constructor
  · intro hg
    obtain ⟨pre, post, heq⟩ := List.append_of_mem hg
    have hne : l.tail ≠ [] := List.ne_nil_of_mem ((List.dropLast_sublist _).subset hg)
    cases l with
    | nil => cases hg
    | cons head rest =>
        refine ⟨head, pre, post ++ [rest.getLast hne], ?_, by simp⟩
        have hrest : rest.dropLast ++ [rest.getLast hne] = rest := List.dropLast_concat_getLast hne
        rw [show rest.dropLast = pre ++ g :: post from heq] at hrest
        exact congrArg (head :: ·) (by simpa using hrest.symm)
  · intro hl
    obtain ⟨head, pre, post, rfl, hpost⟩ := hl
    simp [List.dropLast_append_of_ne_nil, List.dropLast_cons_of_ne_nil hpost]

theorem removePage_owned_iff {held : List Nat} (hi : Inv held pm)
    (hmm : pm.freePages = [] → PoolReady pm mm) (hw : start + roundUp size < 2 ^ 64) :
    (∃ pm', removePage mm pm start size cid = some (0, pm')) ↔
      start % 4096 = 0 ∧ 0 < roundUp size ∧ Owned pm.pages start (start + roundUp size) cid ∧
        ∃ g ∈ pm.pages.tail.dropLast, g.start ≤ start ∧ start < g.stop := by
  constructor
  · intro h
    obtain ⟨hs, hpos, head, pre, g, post, hp, hpost, hgs, hsg, -⟩ :=
      (removePage_accepts_iff hi hmm).mp h
    refine ⟨hs, hpos, ?_, g, mem_inner_iff.mpr ⟨head, pre, post, hp, hpost⟩, hgs, hsg⟩
    by_contra hnot
    obtain ⟨pm', h⟩ := h
    cases h.symm.trans ((removePage_inner cid hi hmm hp hpost hs hpos hw hgs hsg).2 hnot)
  · intro h
    obtain ⟨hs, hpos, hown, g, hg, hgs, hsg⟩ := h
    obtain ⟨head, pre, post, hp, hpost⟩ := mem_inner_iff.mp hg
    exact (removePage_inner cid hi hmm hp hpost hs hpos hw hgs hsg).1 hown

theorem not_owned_of_gap {pre post : List VirtPage} {next : VirtPage}
    (h : Wf (pre ++ next :: post)) (hbelow : Below VirtPage.stop pre start)
    (hnext : start < next.start) (hlt : start < stop) :
    ¬ Owned (pre ++ next :: post) start stop cid := by
  intro hown
  obtain ⟨q, ⟨g, hg, hgs, hsg, -⟩, -⟩ := hown start (Nat.le_refl _) hlt
  obtain ⟨-, -, hpos, -, -, habove⟩ := wf_mid.mp h
  simp only [List.mem_append, List.mem_cons] at hg
  rcases hg with hg | rfl | hg
  · have := hbelow g hg
    omega
  · omega
  · have := habove g hg
    omega

variable (stop cid) in
/-- From the group behind the first gap on, a range is owned in the list exactly if
the walk from that group accepts it. -/
theorem owned_from_second {head second : VirtPage} {rest : List VirtPage}
    (h : Wf (head :: second :: rest)) :
    (second.cid = cid ∧ Owned (head :: second :: rest) second.start stop cid) ↔
      lookupRangeLoop stop cid (second :: rest) = true := by
  obtain ⟨htail, -, -, habove⟩ := wf_cons.mp h
  have hsecond := habove second List.mem_cons_self
  rw [lookupRangeLoop_iff htail]
  refine and_congr_right fun _ => ⟨fun hown x hx hxs => ?_, fun hown x hx hxs => ?_⟩
  · obtain ⟨q, hq, hcid⟩ := hown x hx hxs
    rcases at_cons.mp hq with ⟨-, hxh, -⟩ | hq
    · omega
    · exact ⟨q, hq, hcid⟩
  · obtain ⟨q, hq, hcid⟩ := hown x hx hxs
    exact ⟨q, at_cons.mpr (.inr hq), hcid⟩

theorem exists_two {α : Type} {l : List α} (h : 2 ≤ l.length) : ∃ a b rest, l = a :: b :: rest := by
  match l with
  | a :: b :: rest => exact ⟨a, b, rest, rfl⟩

variable (cid) in
/-- `remove_page` accepts the owned ranges and refuses the others, unless the range is
misjudged. -/
theorem removePage_judges_iff (hi : Inv [] pm) (hmm : PoolReady pm mm)
    (hlen : 2 ≤ pm.pages.length) (hs : start % 4096 = 0) (hpos : 0 < size)
    (hw : start + 4096 * pageCount size < 2 ^ 64) :
    ((Owned pm.pages start (start + 4096 * pageCount size) cid →
          ∃ pm', removePage mm pm start size cid = some (0, pm')) ∧
        (¬ Owned pm.pages start (start + 4096 * pageCount size) cid →
          ∃ pm', removePage mm pm start size cid = some (-1, pm'))) ↔
      ¬ Misjudged pm.pages start (start + 4096 * pageCount size) cid := by
  have hround : roundUp size = 4096 * pageCount size := roundUp_eq hw
  have hrpos : 0 < roundUp size := by
    rw [hround, pageCount]
    omega
  rw [← hround] at hw ⊢
  have hlt : start < start + roundUp size := by omega
  obtain ⟨hsplit, hbelow, hnext⟩ := split_at pm.pages start
  simp only [Misjudged]
  generalize pm.pages.takeWhile (fun g => decide (g.stop ≤ start)) = before at hsplit hbelow ⊢
  generalize pm.pages.dropWhile (fun g => decide (g.stop ≤ start)) = after at hsplit hnext ⊢
  cases after with
  -- behind the last group
  | nil =>
      rw [List.append_nil] at hsplit
      obtain ⟨head, second, rest, hp⟩ := exists_two hlen
      have hrefused : removePage mm pm start size cid = some (-1, pm) :=
        removePage_above hi hp hs hrpos (hsplit ▸ hbelow)
      have hnot : ¬ Owned pm.pages start (start + roundUp size) cid := by
        intro hown
        obtain ⟨q, ⟨g, hg, -, hsg, -⟩, -⟩ := hown start (Nat.le_refl _) hlt
        have := hbelow g (hsplit ▸ hg)
        omega
      simp [hrefused, hnot]
  | cons next behind =>
      have hsn := hnext next behind rfl
      by_cases hns : next.start ≤ start
      -- in a group
      · simp only [hns, if_true]
        cases before with
        | nil =>
            have hrefused : removePage mm pm start size cid = some (-1, pm) :=
              removePage_head hi (by simpa using hsplit) hs hsn
            simp [hrefused]
        | cons head before =>
            by_cases hlast : behind = []
            · subst hlast
              have hrefused : removePage mm pm start size cid = some (-1, pm) :=
                removePage_last hi hsplit hs hrpos hns
              simp [hrefused]
            · obtain ⟨hyes, hno⟩ := removePage_inner cid hi (fun _ => hmm) hsplit hlast hs hrpos hw
                hns hsn
              simp only [reduceCtorEq, hlast, or_self, and_false, not_false_eq_true, iff_true]
              exact ⟨hyes, fun hnot => ⟨pm, hno hnot⟩⟩
      -- in a gap
      · have hnot : ¬ Owned pm.pages start (start + roundUp size) cid := by
          rw [hsplit]
          exact not_owned_of_gap (hsplit ▸ hi.wf) hbelow (by omega) hlt
        simp only [hns, if_false]
        match before with
        | [] =>
            have hrefused : removePage mm pm start size cid = some (-1, pm) :=
              removePage_head hi (by simpa using hsplit) hs hsn
            simp [hrefused, hnot]
        | [head] =>
            have hanswer := removePage_firstGap mm cid hi hsplit hs hrpos (hbelow head (by simp))
              (by omega)
            rw [wadd_eq hw] at hanswer
            have hiff := owned_from_second (start + roundUp size) cid (hsplit ▸ hi.wf)
            rw [show head :: next :: behind = pm.pages from hsplit.symm] at hiff
            by_cases hloop : lookupRangeLoop (start + roundUp size) cid (next :: behind) = true
            · simp [hanswer, hiff.mpr hloop, hnot, hloop]
            · simp [hanswer, hiff, hnot, hloop]
        | head :: second :: mid =>
            have hanswer := removePage_gap mm cid hi hsplit (List.cons_ne_nil _ _) hs hrpos
              (fun g hg => hbelow g (List.mem_cons_of_mem _ hg)) (by omega)
            by_cases hlast : behind = []
            · simp [hanswer, hlast, hnot]
            · simp [hanswer, hlast, hnot]

theorem removePage_judges_someGroups :
    (Owned someGroups.pages 0x23000 0x25000 TS_APPLICATION →
        ∃ pm', removePage 0x800000 someGroups 0x23000 0x1800 TS_APPLICATION = some (0, pm')) ∧
      (¬ Owned someGroups.pages 0x23000 0x25000 TS_APPLICATION →
        ∃ pm', removePage 0x800000 someGroups 0x23000 0x1800 TS_APPLICATION =
          some (-1, pm')) :=
  (removePage_judges_iff TS_APPLICATION someGroups_inv
    (show PoolReady someGroups 0x800000 from ⟨by decide, by decide⟩) (by decide)
    (show 0x23000 % 4096 = 0 by decide) (show 0 < 0x1800 by decide)
    (show 0x23000 + 4096 * pageCount 0x1800 < 2 ^ 64 by decide)).mpr
    (by simp [Misjudged, someGroups, appGroup, VirtPage.stop])

/-- A range in a gap, one that begins in the first gap, and owned pages of the last and
of the first group. -/
theorem removePage_misjudges :
    Inv [] someGroups ∧ PoolReady someGroups 0x800000 ∧
      removePage 0x800000 someGroups 0x28000 0x1000 TS_APPLICATION = none ∧
      removePage 0x800000 someGroups 0x1f000 0x2000 TS_APPLICATION = none ∧
      (Owned someGroups.pages 0x701000 0x702000 3 ∧
        removePage 0x800000 someGroups 0x701000 0x1000 3 = some (-1, someGroups)) ∧
      Owned someGroups.pages 0x10000 0x11000 TS_MONITOR ∧
        removePage 0x800000 someGroups 0x10000 0x1000 TS_MONITOR = some (-1, someGroups) :=
  ⟨someGroups_inv, ⟨by decide, by decide⟩, rfl, rfl,
    ⟨owned_of_group (g := poolGroup 0x700000) (by decide) rfl (by decide) (by decide), rfl⟩,
    owned_of_group (g := ⟨0x10000, 0x1000, PROT_READ, 0x22, TS_MONITOR, 0x700000⟩) (by decide)
      rfl (by decide) (by decide), rfl⟩

end Judged

end Secpoline
