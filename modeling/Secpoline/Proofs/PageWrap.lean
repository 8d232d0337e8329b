import Secpoline.Proofs.PageAccept

/-!
# Ranges beyond the end of the address space

The checks compute the end of a range in 64 bits, and only `update_mprotect` looks
whether it has wrapped. A wrapped end lies before the start of the range, so every
comparison that asks whether the end is still inside a group succeeds in the group of
the start. `Slips` says which requests that leave the address space are accepted for
that reason.
-/

namespace Secpoline

open Lib

/-- A range that one of the checks is asked about, with the arguments of a syscall. -/
inductive RangeRequest where
  | removePage (start size : UInt64)
  | lookupRange (start size : UInt64)
  | lookupRangeAllowGaps (start size : UInt64)
  | updateSize (start oldSize newSize : UInt64)
deriving DecidableEq

/-- The call returns 0, or a group. -/
def RangeRequest.Accepted (mm : Nat) (pm : PageManager) (cid : Int) : RangeRequest → Prop
  | .removePage start size =>
      ∃ pm', Secpoline.removePage mm pm start.toNat size.toNat cid = some (0, pm')
  | .lookupRange start size =>
      ∃ g, Secpoline.lookupRange pm start.toNat size.toNat cid = some (some g)
  | .lookupRangeAllowGaps start size =>
      Secpoline.lookupRangeAllowGaps pm start.toNat size.toNat cid = 0
  | .updateSize start oldSize newSize =>
      ∃ pm', Secpoline.updateSize mm pm start.toNat oldSize.toNat newSize.toNat cid = some (0, pm')

/-- The range, rounded up to whole pages, ends inside the address space. -/
def EndsInside (start size : UInt64) : Prop :=
  start.toNat + 4096 * pageCount size.toNat ≤ 2 ^ 64

def RangeRequest.EndsInside : RangeRequest → Prop
  | .removePage start size => Secpoline.EndsInside start size
  | .lookupRange start size => Secpoline.EndsInside start size
  | .lookupRangeAllowGaps start size => Secpoline.EndsInside start size
  | .updateSize start oldSize newSize =>
      Secpoline.EndsInside start oldSize ∧ Secpoline.EndsInside start newSize

instance (start size : UInt64) : Decidable (EndsInside start size) :=
  inferInstanceAs (Decidable (_ ≤ _))

instance : (r : RangeRequest) → Decidable r.EndsInside
  | .removePage .. => inferInstanceAs (Decidable (Secpoline.EndsInside _ _))
  | .lookupRange .. => inferInstanceAs (Decidable (Secpoline.EndsInside _ _))
  | .lookupRangeAllowGaps .. => inferInstanceAs (Decidable (Secpoline.EndsInside _ _))
  | .updateSize .. => inferInstanceAs (Decidable (_ ∧ _))

/-- Why a range that leaves the address space is accepted. -/
def RangeRequest.Slips (pm : PageManager) (cid : Int) : RangeRequest → Prop
  -- the range comes back into the group it starts in, behind its beginning
  | .removePage start size =>
      start.toNat % 4096 = 0 ∧ size.toNat + 4095 < 2 ^ 64 ∧
        ∃ g ∈ pm.pages.tail.dropLast, g.cid = cid ∧ g.start ≤ start.toNat ∧ start.toNat < g.stop ∧
          2 ^ 64 + g.start < start.toNat + 4096 * pageCount size.toNat
  -- the group of the start is enough, however long the range is
  | .lookupRange start size =>
      ∃ g ∈ pm.pages, g.cid = cid ∧ g.start ≤ start.toNat ∧ start.toNat < g.stop ∧
        (2 ^ 64 ≤ start.toNat + size.toNat ∨
          Owned pm.pages start.toNat (start.toNat + size.toNat) cid)
  -- only a group around the start and the wrapped end is met
  | .lookupRangeAllowGaps start size =>
      ∀ g ∈ pm.pages, g.start < (start.toNat + size.toNat) % 2 ^ 64 → start.toNat < g.stop →
        g.cid = cid
  | .updateSize start oldSize newSize =>
      ∃ g, lookupAddr pm start.toNat cid = some g ∧
        (oldSize = newSize ∨
          (newSize < oldSize ∧
            (2 ^ 64 ≤ start.toNat + oldSize.toNat ∨ start.toNat + oldSize.toNat ≤ g.stop)) ∨
          (oldSize < newSize ∧ start.toNat + oldSize.toNat = g.stop ∧
            (2 ^ 64 ≤ start.toNat + newSize.toNat ∨
              ∀ next ∈ pm.pages, g.stop ≤ next.start → start.toNat + newSize.toNat ≤ next.start)))

section Checks

variable {mm start size oldSize newSize : Nat} {cid : Int} {pm : PageManager}

theorem wadd_wrapped (hs : start < 2 ^ 64) (hd : size < 2 ^ 64) (hw : 2 ^ 64 ≤ start + size) :
    wadd start size = start + size - 2 ^ 64 := by
  unfold wadd
  omega

theorem roundUp_pos_iff (hover : 2 ^ 64 < start + 4096 * pageCount size) (hs : start < 2 ^ 64)
    (hd : size < 2 ^ 64) : 0 < roundUp size ↔ size + 4095 < 2 ^ 64 := by
  unfold roundUp
  unfold pageCount at hover
  omega

theorem findEnd_first {stop : Nat} {g : VirtPage} {post : List VirtPage} (hw : g.stop < 2 ^ 64)
    (hle : stop ≤ g.stop) :
    (∃ before last after, findEnd stop cid (g :: post) = .range before last after) ↔
      g.cid = cid ∧ g.start < stop := by
  have heval : findEnd stop cid (g :: post) =
      if g.cid ≠ cid then .fail else if stop ≤ g.start then .trap else .range [] g post := by
    cases post <;> simp only [findEnd, g.pageEnd_eq hw, ge_iff_le, hle, if_true]
  rw [heval]
  split
  · next hcid => simp [hcid]
  · next hcid =>
      rw [not_not] at hcid
      split
      · next hbefore => simp [Nat.not_lt.mpr hbefore]
      · next hbefore => simp [hcid, Nat.lt_of_not_le hbefore]

theorem removePage_wrapped_iff (hi : Inv [] pm) (hmm : PoolReady pm mm) (hs : start < 2 ^ 64)
    (hd : size < 2 ^ 64) (hover : 2 ^ 64 < start + 4096 * pageCount size) :
    (∃ pm', removePage mm pm start size cid = some (0, pm')) ↔
      start % 4096 = 0 ∧ size + 4095 < 2 ^ 64 ∧
        ∃ g ∈ pm.pages.tail.dropLast, g.cid = cid ∧ g.start ≤ start ∧ start < g.stop ∧
          2 ^ 64 + g.start < start + 4096 * pageCount size := by
  rw [removePage_accepts_iff hi fun _ => hmm, roundUp_pos_iff hover hs hd]
  refine and_congr_right fun halign => and_congr_right fun hsize => ?_
  have hround : roundUp size = 4096 * pageCount size := by
    unfold roundUp pageCount
    omega
  have hsmall : 4096 * pageCount size < 2 ^ 64 := by
    unfold pageCount
    omega
  have hend : wadd start (roundUp size) = start + 4096 * pageCount size - 2 ^ 64 := by
    rw [hround, wadd_wrapped hs hsmall (by omega)]
  constructor
  · intro h
    obtain ⟨head, pre, g, post, hp, hpost, hgs, hsg, hfound⟩ := h
    have hgw := hi.wf.noWrap g (by simp [hp])
    obtain ⟨hcid, hstart⟩ := (findEnd_first hgw (by omega)).mp hfound
    exact ⟨g, mem_inner_iff.mpr ⟨head, pre, post, hp, hpost⟩, hcid, hgs, hsg, by omega⟩
  · intro h
    obtain ⟨g, hg, hcid, hgs, hsg, hstart⟩ := h
    obtain ⟨head, pre, post, hp, hpost⟩ := mem_inner_iff.mp hg
    have hgw := hi.wf.noWrap g (by simp [hp])
    exact ⟨head, pre, g, post, hp, hpost, hgs, hsg,
      (findEnd_first hgw (by omega)).mpr ⟨hcid, by omega⟩⟩

theorem lookupRange_short_iff (h : Wf pm.pages) (hend : wadd start size ≤ start) :
    (∃ g, lookupRange pm start size cid = some (some g)) ↔
      ∃ g ∈ pm.pages, g.cid = cid ∧ g.start ≤ start ∧ start < g.stop := by
  rcases h.dropWhile_at start with ⟨hdrop, hnone⟩ | ⟨pre, first, rest, hp, hdrop, hfs, hsf⟩
  · constructor
    · intro hfound
      obtain ⟨g, he⟩ := hfound
      simp only [lookupRange, hdrop] at he
      split at he <;> cases he
    · intro hfound
      obtain ⟨g, hg, -, hgs, hsg⟩ := hfound
      exact absurd ⟨hgs, hsg⟩ (hnone g hg)
  · have hmem : first ∈ pm.pages := by simp [hp]
    have heval : lookupRange pm start size cid =
        if first.cid ≠ cid then some none else some (some first) := by
      simp only [lookupRange, if_neg (List.ne_nil_of_mem hmem), hdrop, h.pageEnd hmem]
      rw [if_pos (show first.stop ≥ wadd start size by omega)]
    rw [heval]
    constructor
    · intro hfound
      split at hfound
      · simp at hfound
      · next hcid => exact ⟨first, hmem, not_not.mp hcid, hfs, hsf⟩
    · intro hfound
      obtain ⟨g, hg, hcid, hgs, hsg⟩ := hfound
      rw [h.ordered.eq_of_mem hmem hg hfs hsf hgs hsg, if_neg (not_not.mpr hcid)]
      exact ⟨g, rfl⟩

theorem lookupRange_accepts_iff (h : Wf pm.pages) (hs : start < 2 ^ 64) (hd : size < 2 ^ 64) :
    (∃ g, lookupRange pm start size cid = some (some g)) ↔
      ∃ g ∈ pm.pages, g.cid = cid ∧ g.start ≤ start ∧ start < g.stop ∧
        (2 ^ 64 ≤ start + size ∨ Owned pm.pages start (start + size) cid) := by
  by_cases hshort : wadd start size ≤ start
  · have hall : 2 ^ 64 ≤ start + size ∨ Owned pm.pages start (start + size) cid := by
      by_cases hw : 2 ^ 64 ≤ start + size
      · exact .inl hw
      · rw [wadd_eq (by omega)] at hshort
        exact .inr fun x hx hxs => by omega
    simp only [lookupRange_short_iff h hshort, hall, and_true]
  · have hw : start + size < 2 ^ 64 := by
      unfold wadd at hshort
      omega
    have hlt : start < start + size := by
      rw [wadd_eq hw] at hshort
      omega
    constructor
    · intro hfound
      obtain ⟨g, hfound⟩ := hfound
      obtain ⟨hg, hgs, hsg, hown⟩ := (lookupRange_iff h (by omega) hw).mp hfound
      exact ⟨g, hg, hown.cid_eq h hg hgs hsg hlt, hgs, hsg, .inr hown⟩
    · intro hfound
      obtain ⟨g, hg, -, hgs, hsg, hover | hown⟩ := hfound
      · omega
      · exact ⟨g, (lookupRange_iff h (by omega) hw).mpr ⟨hg, hgs, hsg, hown⟩⟩

/-- Growing is accepted if the old range reaches the end of its group and the new one
fits, or wraps. -/
theorem updateSize_grows_iff {g : VirtPage} (hi : Inv [] pm)
    (hlookup : lookupAddr pm start cid = some g) (hs : start < 2 ^ 64) (hnew : newSize < 2 ^ 64)
    (hlt : oldSize < newSize) :
    (∃ pm', updateSize mm pm start oldSize newSize cid = some (0, pm')) ↔
      start + oldSize = g.stop ∧ (2 ^ 64 ≤ start + newSize ∨
        ∀ next ∈ pm.pages, g.stop ≤ next.start → start + newSize ≤ next.start) := by
  obtain ⟨hg, hgs, hsg, -⟩ := lookupAddr_some hlookup
  have hgw := hi.wf.noWrap g hg
  rw [g.pageEnd_eq hgw] at hsg
  obtain ⟨pre, post, hp⟩ := List.append_of_mem hg
  obtain ⟨-, hpost, -, -, hbelow, habove⟩ := wf_mid.mp (hp ▸ hi.wf)
  have hbehind (y : VirtPage) (hy : y ∈ pm.pages) (hgy : g.stop ≤ y.start) : y ∈ post := by
    have hpos := hi.wf.nonempty hy
    rw [hp, List.mem_append, List.mem_cons] at hy
    rcases hy with hy | rfl | hy
    · have := hbelow y hy
      omega
    · omega
    · exact hy
  simp only [updateSize, hlookup, g.pageEnd_eq hgw, hi.next_of_node hp, if_neg (Nat.ne_of_lt hlt),
    if_pos hlt]
  by_cases hend : start + oldSize = g.stop
  · rw [wadd_eq (by omega), if_neg (by omega), if_neg (by simp [hend])]
    cases post with
    | nil =>
        have hnone : ∀ next ∈ pm.pages, g.stop ≤ next.start → start + newSize ≤ next.start :=
          fun y hy hgy => absurd (hbehind y hy hgy) (by simp)
        exact iff_of_true ⟨_, rfl⟩ ⟨hend, .inr hnone⟩
    | cons next post =>
        have hnext := habove next (by simp)
        have hfits : ¬ wadd start newSize > next.start ↔ 2 ^ 64 ≤ start + newSize ∨
            ∀ next ∈ pm.pages, g.stop ≤ next.start → start + newSize ≤ next.start := by
          constructor
          · intro hle
            by_cases hw : 2 ^ 64 ≤ start + newSize
            · exact .inl hw
            · rw [wadd_eq (by omega)] at hle
              refine .inr fun y hy hgy => ?_
              have hnpos := (wf_cons.mp hpost).2.1
              rcases List.mem_cons.mp (hbehind y hy hgy) with rfl | hy
              · omega
              · have := (wf_cons.mp hpost).2.2.2 y hy
                omega
          · intro hfits
            rcases hfits with hw | hfits
            · rw [wadd_wrapped hs hnew hw]
              omega
            · have hle := hfits next (by simp [hp]) hnext
              have : wadd start newSize ≤ start + newSize := Nat.mod_le _ _
              omega
        rw [← hfits]
        dsimp only [List.head?_cons]
        split
        · next hover => simp [hover]
        · next hover => simp [hover, hend]
  · have hne : g.stop ≠ wadd start oldSize := by
      unfold wadd
      omega
    simp only [hend, false_and, iff_false]
    split <;> simp

theorem updateSize_shrinks_iff {g : VirtPage} (hi : Inv [] pm) (hmm : PoolReady pm mm)
    (hlookup : lookupAddr pm start cid = some g) (hs : start < 2 ^ 64) (hold : oldSize < 2 ^ 64)
    (hlt : newSize < oldSize) :
    (∃ pm', updateSize mm pm start oldSize newSize cid = some (0, pm')) ↔
      2 ^ 64 ≤ start + oldSize ∨ start + oldSize ≤ g.stop := by
  obtain ⟨hg, hgs, hsg, -⟩ := lookupAddr_some hlookup
  have hgw := hi.wf.noWrap g hg
  rw [g.pageEnd_eq hgw] at hsg
  have hend : wadd start oldSize > g.stop ↔
      ¬ (2 ^ 64 ≤ start + oldSize ∨ start + oldSize ≤ g.stop) := by
    unfold wadd
    omega
  obtain ⟨n, pm₁, halloc⟩ := virtPageAlloc_total hi fun _ => hmm
  simp only [updateSize, hlookup, g.pageEnd_eq hgw, halloc, if_neg (Nat.ne_of_gt hlt),
    if_neg (Nat.lt_asymm hlt)]
  split
  · next hover => exact iff_of_false (by simp) (hend.mp hover)
  · next hover =>
      refine iff_of_true ?_ (not_not.mp fun hno => hover (hend.mpr hno))
      split <;> exact ⟨_, rfl⟩

variable (cid) in
theorem updateSize_accepts_iff (hi : Inv [] pm) (hmm : PoolReady pm mm) (hs : start < 2 ^ 64)
    (hold : oldSize < 2 ^ 64) (hnew : newSize < 2 ^ 64) :
    (∃ pm', updateSize mm pm start oldSize newSize cid = some (0, pm')) ↔
      ∃ g, lookupAddr pm start cid = some g ∧
        (oldSize = newSize ∨
          (newSize < oldSize ∧ (2 ^ 64 ≤ start + oldSize ∨ start + oldSize ≤ g.stop)) ∨
          (oldSize < newSize ∧ start + oldSize = g.stop ∧
            (2 ^ 64 ≤ start + newSize ∨
              ∀ next ∈ pm.pages, g.stop ≤ next.start → start + newSize ≤ next.start))) := by
  cases hlookup : lookupAddr pm start cid with
  | none => simp [updateSize, hlookup]
  | some g =>
      simp only [Option.some.injEq, exists_eq_left']
      rcases Nat.lt_trichotomy oldSize newSize with hlt | heq | hlt
      · rw [updateSize_grows_iff hi hlookup hs hnew hlt]
        simp [hlt, Nat.ne_of_lt hlt, Nat.lt_asymm hlt]
      · simp [updateSize, hlookup, heq]
      · rw [updateSize_shrinks_iff hi hmm hlookup hs hold hlt]
        simp [hlt, Nat.ne_of_gt hlt, Nat.lt_asymm hlt]

end Checks

section NoWrap

variable {mm : Nat} {cid : Int} {pm : PageManager}

/-- Of the requests that leave the address space exactly those that slip through are
accepted. -/
theorem RangeRequest.accepted_iff (hi : Inv [] pm) (hmm : PoolReady pm mm) {r : RangeRequest}
    (hout : ¬ r.EndsInside) : r.Accepted mm pm cid ↔ r.Slips pm cid := by
  cases r with
  | removePage start size =>
      exact removePage_wrapped_iff hi hmm start.toNat_lt size.toNat_lt (Nat.lt_of_not_le hout)
  | lookupRange start size =>
      exact lookupRange_accepts_iff hi.wf start.toNat_lt size.toNat_lt
  | lookupRangeAllowGaps start size =>
      exact lookupRangeAllowGaps_zero_iff hi.wf
  | updateSize start oldSize newSize =>
      have hiff := updateSize_accepts_iff cid hi hmm start.toNat_lt oldSize.toNat_lt
        newSize.toNat_lt
      simpa [Accepted, Slips, UInt64.toNat_inj, UInt64.lt_iff_toNat_lt] using hiff

variable (cid) in
/-- An accepted request ends inside the address space, unless it slips through. -/
theorem RangeRequest.endsInside_iff (hi : Inv [] pm) (hmm : PoolReady pm mm) (r : RangeRequest) :
    (r.Accepted mm pm cid → r.EndsInside) ↔ r.EndsInside ∨ ¬ r.Slips pm cid := by
  by_cases hout : r.EndsInside
  · simp [hout]
  · simp [hout, accepted_iff hi hmm hout]

theorem RangeRequest.endsInside_someGroups :
    (lookupRangeAllowGaps 0x20000 0x2000).Accepted 0x800000 someGroups TS_APPLICATION ∧
      (lookupRangeAllowGaps 0x20000 0x2000).EndsInside := by
  have haccepted : (lookupRangeAllowGaps 0x20000 0x2000).Accepted 0x800000 someGroups
      TS_APPLICATION := rfl
  exact ⟨haccepted, (endsInside_iff TS_APPLICATION someGroups_inv ⟨by decide, by decide⟩ _).mpr
    (.inl (show (_ : Nat) ≤ _ by decide)) haccepted⟩

/-- From the third page of a group around the whole address space to its second page:
every check accepts. -/
theorem RangeRequest.not_endsInside :
    Inv [] someGroups ∧ PoolReady someGroups 0x800000 ∧
      ∀ r ∈ [removePage 0x22000 0xfffffffffffff000, lookupRange 0x22000 0xfffffffffffff000,
          lookupRangeAllowGaps 0x22000 0xfffffffffffff000,
          updateSize 0x22000 0xfffffffffffff000 0x1000],
        r.Accepted 0x800000 someGroups TS_APPLICATION ∧ ¬ r.EndsInside := by
  have hready : PoolReady someGroups 0x800000 := ⟨by decide, by decide⟩
  refine ⟨someGroups_inv, hready, fun r hr => ?_⟩
  have hout : ¬ r.EndsInside := by
    simp only [List.mem_cons, List.not_mem_nil, or_false] at hr
    rcases hr with rfl | rfl | rfl | rfl <;> decide
  refine ⟨(accepted_iff someGroups_inv hready hout).mpr ?_, hout⟩
  simp only [List.mem_cons, List.not_mem_nil, or_false] at hr
  rcases hr with rfl | rfl | rfl | rfl
  · exact ⟨by decide, by decide, appGroup, by decide⟩
  · exact ⟨appGroup, by decide, by decide, by decide, by decide, .inl (by decide)⟩
  · show ∀ g ∈ someGroups.pages, _
    decide
  · exact ⟨_, rfl, .inr (.inl (by decide))⟩

end NoWrap

end Secpoline
