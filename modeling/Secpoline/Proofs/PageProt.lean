import Secpoline.Proofs.PageCalls

/-!
# Where the attributes in the page manager come from

No operation of the page manager makes up a protection or an owner: a group's are
those that some group had before, those the caller passed, or those of a pool of
list nodes, and the last only if the operation has refilled the free list. This
holds of any list, sorted or not, so it needs none of the assumptions under which
the list is known to be in order.
-/

namespace Secpoline

/-- Every group has a protection in `P` and an owner in `C`. -/
def AllAttr (P : Prot → Prop) (C : Int → Prop) (l : List VirtPage) : Prop :=
  ∀ g ∈ l, P g.prot ∧ C g.cid

variable {P : Prot → Prop} {C : Int → Prop} {pm pm' : PageManager} {l l' l₁ l₂ : List VirtPage}
  {g : VirtPage}
  {mm start size stop n : Nat} {prot : Prot} {flags cid r : Int} {mapFixed multithreaded : Bool}

theorem allAttr_nil : AllAttr P C [] := nofun

theorem allAttr_cons : AllAttr P C (g :: l) ↔ (P g.prot ∧ C g.cid) ∧ AllAttr P C l :=
    List.forall_mem_cons

theorem allAttr_append : AllAttr P C (l₁ ++ l₂) ↔ AllAttr P C l₁ ∧ AllAttr P C l₂ :=
  List.forall_mem_append

theorem allAttr_prot : AllAttr P (fun _ => True) l ↔ ∀ g ∈ l, P g.prot :=
  ⟨fun h g hg => (h g hg).1, fun h g hg => ⟨h g hg, trivial⟩⟩

/-- A group rewritten in place keeps its attributes or gets some in `P` and `C`. -/
theorem AllAttr.updateNode {f : VirtPage → VirtPage} (h : AllAttr P C l)
    (hf : ∀ g, P g.prot ∧ C g.cid → P (f g).prot ∧ C (f g).cid) :
    AllAttr P C (updateNode n f l) := by
  intro g hg
  obtain ⟨g', hg', rfl⟩ := List.mem_map.mp hg
  split
  · exact hf g' (h g' hg')
  · exact h g' hg'

theorem AllAttr.insertAfter (h : AllAttr P C l) (hg : P g.prot ∧ C g.cid) :
    AllAttr P C (insertAfter n g l) := by
  induction l with
  | nil => exact allAttr_nil
  | cons x rest ih =>
      obtain ⟨hx, hrest⟩ := allAttr_cons.mp h
      rw [Secpoline.insertAfter]
      split
      · exact allAttr_cons.mpr ⟨hx, allAttr_cons.mpr ⟨hg, hrest⟩⟩
      · exact allAttr_cons.mpr ⟨hx, ih hrest⟩

theorem AllAttr.endAfter (h : AllAttr P C l) (hg : P g.prot ∧ C g.cid) :
    AllAttr P C (endAfter n g l) := by
  induction l with
  | nil => exact allAttr_nil
  | cons x rest ih =>
      obtain ⟨hx, hrest⟩ := allAttr_cons.mp h
      rw [Secpoline.endAfter]
      split
      · exact allAttr_cons.mpr ⟨hx, allAttr_cons.mpr ⟨hg, allAttr_nil⟩⟩
      · exact allAttr_cons.mpr ⟨hx, ih hrest⟩

/-! ## Linking and allocating -/

theorem Linking.attr (h : Linking g l r l') (hg : P g.prot ∧ C g.cid) (hl : AllAttr P C l) :
    AllAttr P C l' := by
  intro x hx
  rcases h.mem_or hx with rfl | hmem
  · exact hg
  · exact hl x hmem

/-- What an operation makes of the list: there are not fewer pools, and if there are
not more either, or the group of a pool is in `P` and `C`, then all groups still
are. -/
structure Derived (P : Prot → Prop) (C : Int → Prop) (pm pm' : PageManager) : Prop where
  pools : pm.pools.length ≤ pm'.pools.length
  attr : pm'.pools.length ≤ pm.pools.length ∨ (P (PROT_READ ||| PROT_WRITE) ∧ C 3) →
    AllAttr P C pm.pages → AllAttr P C pm'.pages

theorem Derived.refl : Derived P C pm pm := ⟨Nat.le_refl _, fun _ h => h⟩

/-- What follows an operation and takes no node may use what held before it. -/
theorem Derived.rewrite {pm₁ : PageManager} (h : Derived P C pm pm₁)
    (hpools : pm'.pools = pm₁.pools)
    (hattr : AllAttr P C pm.pages → AllAttr P C pm₁.pages → AllAttr P C pm'.pages) :
    Derived P C pm pm' := by
  constructor
  · rw [hpools]
    exact h.pools
  · intro hpool hall
    rw [hpools] at hpool
    exact hattr hall (h.attr hpool hall)

theorem Derived.trans {pm₁ : PageManager} (h : Derived P C pm pm₁) (h' : Derived P C pm₁ pm') :
    Derived P C pm pm' := by
  refine ⟨Nat.le_trans h.pools h'.pools, fun hpool hall => h'.attr ?_ (h.attr ?_ hall)⟩
  · exact hpool.imp_left fun hle => Nat.le_trans hle h.pools
  · exact hpool.imp_left fun hle => Nat.le_trans h'.pools hle

theorem virtPageAlloc_derived (he : virtPageAlloc mm pm = some (n, pm')) : Derived P C pm pm' := by
  cases virtPageAlloc_ways he with
  | free => exact Derived.refl.rewrite rfl fun h _ => h
  | refill _ l hlink =>
      refine ⟨Nat.le_succ _, fun hpool h => ?_⟩
      rcases hpool with hle | hpool
      · exact absurd hle (Nat.not_succ_le_self _)
      · exact hlink.attr hpool h

/-! ## Removing -/

theorem removeInside_derived {pre post : List VirtPage} (hp : pm.pages = pre ++ g :: post)
    (he : removeInside mm start stop pm pre g post = some (r, pm')) : Derived P C pm pm' := by
  have hsplit : AllAttr P C pm.pages →
      AllAttr P C pre ∧ (P g.prot ∧ C g.cid) ∧ AllAttr P C post := by
    rw [hp, allAttr_append, allAttr_cons]
    exact id
  -- The group is replaced by one with the same attributes.
  have hmid : ∀ g' : VirtPage, g'.prot = g.prot → g'.cid = g.cid →
      Derived P C pm { pm with pages := pre ++ g' :: post } := by
    intro g' hprot hcid
    refine Derived.refl.rewrite rfl fun h _ => ?_
    obtain ⟨hpre, hg, hpost⟩ := hsplit h
    refine allAttr_append.mpr ⟨hpre, allAttr_cons.mpr ⟨?_, hpost⟩⟩
    rw [hprot, hcid]
    exact hg
  unfold removeInside at he
  split at he
  · cases he
    refine Derived.refl.rewrite rfl fun h _ => ?_
    exact allAttr_append.mpr ⟨(hsplit h).1, (hsplit h).2.2⟩
  split at he
  · cases he
    exact hmid _ rfl rfl
  split at he
  · cases he
    exact hmid _ rfl rfl
  split at he
  · cases he
  · rename_i n pm₁ ha
    cases he
    have hleft := hmid { g with size := wsub start g.start } rfl rfl
    refine (hleft.trans (virtPageAlloc_derived ha)).rewrite rfl fun h h₁ => ?_
    exact h₁.insertAfter (hsplit h).2.1

theorem removeAcross_attr {pre mid post : List VirtPage} {first last : VirtPage}
    (hpre : AllAttr P C pre) (hfirst : P first.prot ∧ C first.cid)
    (hlast : P last.prot ∧ C last.cid) (hpost : AllAttr P C post) :
    AllAttr P C (removeAcross start stop pm pre first mid last post).2.pages := by
  have hkept : AllAttr P C
      (if start = first.start then [] else [{ first with size := wsub start first.start }]) := by
    split
    · exact allAttr_nil
    · exact allAttr_cons.mpr ⟨hfirst, allAttr_nil⟩
  unfold removeAcross
  dsimp only
  split
  · exact allAttr_append.mpr ⟨allAttr_append.mpr ⟨hpre, hkept⟩, hpost⟩
  · exact allAttr_append.mpr ⟨allAttr_append.mpr ⟨hpre, hkept⟩, allAttr_cons.mpr ⟨hlast, hpost⟩⟩

theorem removePageLocked_derived (he : removePageLocked mm pm start size cid = some (r, pm')) :
    Derived P C pm pm' := by
  cases removePageLocked_ways he with
  | refused => exact .refl
  | inside _ _ head rest pre g post hpages _ hfind _ _ h =>
      refine removeInside_derived ?_ h
      rw [hpages, findStart_split hfind]
      rfl
  | across _ _ head rest pre first mid last post hpages _ hfind _ _ h =>
      obtain rfl : _ = pm' := congrArg Prod.snd h
      refine Derived.refl.rewrite ?_ fun hall _ => ?_
      · unfold removeAcross
        dsimp only
        split <;> rfl
      · rw [hpages, findStart_split hfind, allAttr_cons, allAttr_append, allAttr_append,
          allAttr_cons, allAttr_cons] at hall
        obtain ⟨hhead, hpre, ⟨hfirst, -⟩, hlast, hpost⟩ := hall
        exact removeAcross_attr (allAttr_cons.mpr ⟨hhead, hpre⟩) hfirst hlast hpost

theorem mapFixedLoop_attr {freed : List Nat} {split : Option (Nat × VirtPage)} (h : AllAttr P C l)
    (he : mapFixedLoop start stop cid l = some (l', freed, split)) :
    AllAttr P C l' ∧ ∀ n g, split = some (n, g) → P g.prot ∧ C g.cid := by
  induction l generalizing l' freed split with
  | nil =>
      cases he
      exact ⟨allAttr_nil, nofun⟩
  | cons g rest ih =>
      obtain ⟨hg, hrest⟩ := allAttr_cons.mp h
      rw [mapFixedLoop] at he
      split at he
      · obtain ⟨⟨l₁, f₁, s₁⟩, hl₁, heq⟩ := Option.map_eq_some_iff.mp he
        cases heq
        obtain ⟨hl, hs⟩ := ih hrest hl₁
        exact ⟨allAttr_cons.mpr ⟨hg, hl⟩, hs⟩
      split at he
      · cases he
        exact ⟨h, nofun⟩
      split at he
      · cases he
      split at he
      · obtain ⟨⟨l₁, f₁, s₁⟩, hl₁, heq⟩ := Option.map_eq_some_iff.mp he
        cases heq
        exact ih hrest hl₁
      split at he
      · cases he
        exact ⟨allAttr_cons.mpr ⟨hg, hrest⟩, nofun⟩
      split at he
      · obtain ⟨⟨l₁, f₁, s₁⟩, hl₁, heq⟩ := Option.map_eq_some_iff.mp he
        cases heq
        obtain ⟨hl, hs⟩ := ih hrest hl₁
        exact ⟨allAttr_cons.mpr ⟨hg, hl⟩, hs⟩
      split at he
      · cases he
      · cases he
        refine ⟨allAttr_cons.mpr ⟨hg, hrest⟩, ?_⟩
        intro n g' hs
        cases hs
        exact hg

theorem removePageMapFixedLocked_derived
    (he : removePageMapFixedLocked mm pm start size cid = some (r, pm')) : Derived P C pm pm' := by
  unfold removePageMapFixedLocked at he
  dsimp only at he
  split at he
  · cases he
  split at he
  · cases he
    exact .refl
  split at he
  · cases he
  · rename_i pages freed hm
    cases he
    exact Derived.refl.rewrite rfl fun h _ => (mapFixedLoop_attr h hm).1
  · rename_i pages freed n g hm
    split at he
    · cases he
    · rename_i n' pm₁ ha
      cases he
      have hloop : Derived P C pm
          { pm with pages := pages, freePages := freed.reverse ++ pm.freePages } :=
        Derived.refl.rewrite rfl fun h _ => (mapFixedLoop_attr h hm).1
      refine (hloop.trans (virtPageAlloc_derived ha)).rewrite rfl fun h h₁ => ?_
      exact h₁.insertAfter ((mapFixedLoop_attr h hm).2 n g rfl)

/-! ## The operations -/

theorem removeFirst_derived
    (he : removeFirst multithreaded mm pm start size cid mapFixed = some (r, pm')) :
    Derived P C pm pm' := by
  unfold removeFirst at he
  split at he
  · split at he
    · exact removePageLocked_derived he
    · exact removePageMapFixedLocked_derived he
  · cases he
    exact .refl

theorem addPage_derived (hprot : P prot) (hcid : C cid)
    (he : addPage multithreaded mm pm start size prot flags cid mapFixed = some (r, pm')) :
    Derived P C pm pm' := by
  cases addPage_ways he with
  | blocked _ n pm₁ ha _ pm₂ hrem =>
      exact ((virtPageAlloc_derived ha).trans (removeFirst_derived hrem)).rewrite rfl fun _ h => h
  | links _ n pm₁ ha ret pm₂ hrem _ _ l hlink =>
      have hlinked : Derived P C pm { pm₂ with pages := l } :=
        ((virtPageAlloc_derived ha).trans (removeFirst_derived hrem)).rewrite rfl fun _ h =>
          (linkPage_ways hlink).attr ⟨hprot, hcid⟩ h
      split
      · exact hlinked.rewrite rfl fun _ h => h
      · exact hlinked

theorem Replacement.derived (hprot : P prot) (hcid : C cid)
    (h : Replacement mm pm start size prot cid r pm') :
    Derived P C pm pm' := by
  cases h with
  | refused _ hrem => exact removePageLocked_derived hrem
  | ends _ _ hrem _ _ _ _ _ ha =>
      refine ((removePageLocked_derived hrem).trans (virtPageAlloc_derived ha)).rewrite rfl
        fun _ h₂ => ?_
      exact h₂.endAfter ⟨hprot, hcid⟩
  | links _ _ hrem _ _ _ _ _ _ _ ha =>
      refine ((removePageLocked_derived hrem).trans (virtPageAlloc_derived ha)).rewrite rfl
        fun _ h₂ => ?_
      exact h₂.insertAfter ⟨hprot, hcid⟩

/-- A re-protection is refused unless it is for the owner of the first group, so it
brings no new owner into the list. -/
theorem updateMprotect_derived (hprot : P prot)
    (he : updateMprotect mm pm start size prot cid = some (r, pm')) : Derived P C pm pm' := by
  have hall {g : VirtPage} (hg : lookupAddr pm start cid = some g) (hcid : g.cid = cid)
      (h : AllAttr P C pm.pages) :
      P g.prot ∧ C cid := hcid ▸ h g (lookupAddr_some hg).1
  cases updateMprotect_ways he with
  | refused => exact .refl
  | whole => exact Derived.refl.rewrite rfl fun h _ => h.updateNode fun _ hx => ⟨hprot, hx.2⟩
  | front g hg hcid _ n pm₁ ha =>
      refine (virtPageAlloc_derived ha).rewrite rfl fun h h₁ => ?_
      have hpart := hall hg hcid h
      exact .insertAfter (.updateNode h₁ fun _ hx => ⟨hprot, hx.2⟩) hpart
  | back g hg hcid _ n pm₁ ha =>
      refine (virtPageAlloc_derived ha).rewrite rfl fun h h₁ => ?_
      exact .insertAfter (.updateNode h₁ fun _ hx => hx) ⟨hprot, (hall hg hcid h).2⟩
  | middle g hg hcid _ n₁ pm₁ ha₁ n₂ pm₂ ha₂ =>
      refine ((virtPageAlloc_derived ha₁).trans (virtPageAlloc_derived ha₂)).rewrite rfl
        fun h h₂ => ?_
      have hpart := hall hg hcid h
      exact .insertAfter (.insertAfter (.updateNode h₂ fun _ hx => hx) hpart) ⟨hprot, hpart.2⟩
  | across g hg hcid _ _ hr =>
      refine ⟨?_, fun hpool h => ?_⟩
      · exact (hr.derived (P := fun _ => True) (C := fun _ => True) trivial trivial).pools
      · exact (hr.derived hprot (hall hg hcid h).2).attr hpool h

theorem updateSize_derived {oldSize newSize : Nat} (hcid : C cid)
    (he : updateSize mm pm start oldSize newSize cid = some (r, pm')) : Derived P C pm pm' := by
  cases updateSize_ways he with
  | missing => exact .refl
  | same => exact .refl
  | outside => exact .refl
  | blocked => exact .refl
  | grows => exact Derived.refl.rewrite rfl fun h _ => h.updateNode fun _ hx => hx
  | shrinks => exact Derived.refl.rewrite rfl fun h _ => h.updateNode fun _ hx => hx
  | splits g hg _ _ n pm₁ ha =>
      refine (virtPageAlloc_derived ha).rewrite rfl fun h h₁ => ?_
      refine .insertAfter (.updateNode h₁ fun _ hx => hx) ?_
      exact ⟨(h g (List.mem_of_find?_eq_some hg)).1, hcid⟩

end Secpoline
