import Secpoline.Proofs.PageRemove

/-!
# Adding, re-protecting and resizing

The remaining operations of the page manager. Each theorem says, for a call that
returns, whether the list was left alone and otherwise what it now says about
every address; the representation invariant comes along in every case.

Two of the operations need an argument that does not wrap, as removal does.
`update_mprotect` needs more when its range covers several groups. After the
removal it links the new group behind the first group that ends at or before
`start`, and the first such group is the head of the list. That is the right
place only if nothing else is left before `start`, so the theorem about it asks
that every group behind the head starts at or after `start`.
-/

namespace Secpoline

open Lib

theorem roundUp_of_dvd {size : Nat} (hd : size % 4096 = 0) (hw : size < 2 ^ 64) :
    roundUp size = size := by
  unfold roundUp
  omega

theorem le_roundUp {start size : Nat} (hs : start % 4096 = 0) (hw : start + size < 2 ^ 64)
    (hpos : 0 < roundUp size) : size ≤ roundUp size := by
  unfold roundUp at hpos ⊢
  omega

/-! ## add_page -/

section AddPage

variable {held : List Nat} {mm start size : Nat} {prot : Prot} {flags cid : Int}
  {pm pm' : PageManager} {r : Int} {multithreaded mapFixed : Bool}

theorem linkLoop_fixed {p : VirtPage} {l l' : List VirtPage} :
    linkLoop true p l ≠ some (-1, l') := by
  induction l generalizing l' with
  | nil => simp [linkLoop]
  | cons cur rest ih =>
      cases rest with
      | nil =>
          simp only [linkLoop]
          split <;> simp
      | cons next rest =>
          simp only [linkLoop, if_true]
          split
          · simp
          split
          · intro h
            obtain ⟨⟨r, l''⟩, hrec, heq⟩ := Option.map_eq_some_iff.mp h
            cases heq
            exact ih hrec
          · split <;> simp

/-- With `map_fixed` an overlap is an assertion failure, not an answer. -/
theorem linkPage_fixed {p : VirtPage} {l l' : List VirtPage} :
    linkPage true p l ≠ some (-1, l') := by
  match l with
  | [] => simp [linkPage]
  | head :: rest =>
      simp only [linkPage]
      split
      · simp
      · exact linkLoop_fixed

/-- One refill at most: two steps in a row add the pool of one of them. -/
theorem poolAt_trans {pools pools₁ pools₂ : List Nat} {x : Nat} {q : Attr}
    (h : pools₁ = pools ∨ pools₂ = pools₁) :
    PoolAt pools pools₂ x q ↔ PoolAt pools pools₁ x q ∨ PoolAt pools₁ pools₂ x q := by
  rcases h with rfl | rfl <;> simp

/-- A successful `add_page`: the interval now has the given attributes, and with
`map_fixed` what was there before is gone. -/
structure Added (start stop : Nat) (q₀ : Attr) (mapFixed : Bool) (pm pm' : PageManager) : Prop where
  inv : Inv [] pm'
  tracked : ∀ x q, Tracked pm'.pages x q ↔
    ((Tracked pm.pages x q ∨ PoolAt pm.pools pm'.pools x q) ∧
      (mapFixed → x < start ∨ stop ≤ x)) ∨ (start ≤ x ∧ x < stop ∧ q₀ = q)

/-- A step that may have taken a pool and left the rest of the list alone. -/
structure Untouched (pm pm' : PageManager) : Prop where
  inv : Inv [] pm'
  tracked : ∀ x q, Tracked pm'.pages x q ↔
    Tracked pm.pages x q ∨ PoolAt pm.pools pm'.pools x q

theorem Inv.free {n : Nat} (h : Inv [n] pm) : Inv [] (virtPageFree n pm) := by
  refine h.moved h.wf rfl fun x => ?_
  simp only [nodes, virtPageFree, List.count_append, List.count_cons, List.count_nil]
  omega

/-- Linking the node in hand. -/
theorem Inv.linked {p : VirtPage} {l' : List VirtPage} (hi : Inv [p.node] pm)
    (hw : p.stop < 2 ^ 64) (hpos : p.start < p.stop) (h : Linked p pm.pages 0 l') :
    Inv [] { pm with pages := l' } ∧
      ∀ x q, Tracked l' x q ↔ Tracked pm.pages x q ∨ (p.start ≤ x ∧ x < p.stop ∧ p.attr = q) := by
  rcases h with ⟨hr, -⟩ | ⟨-, a, b, hab, rfl, hbelow, habove⟩
  · exact absurd hr (by decide)
  refine ⟨hi.moved ((hab ▸ hi.wf).link hw hpos hbelow habove) rfl fun x => ?_, fun x q => ?_⟩
  · simp only [nodes, hab, List.map_append, List.map_cons, List.count_append, List.count_cons,
      List.count_nil]
    omega
  · simp only [hab, at_append, at_cons]
    grind

/-- The removal that `add_page_locked` makes for a fixed mapping. -/
theorem addPageLocked_removed {pm₁ pm₂ : PageManager} (hi : Inv held pm₁)
    (hmm : pm₁.freePages = [] → Fresh pm₁ mm) (hpos : 0 < roundUp size)
    (hw : start + roundUp size < 2 ^ 64)
    (h : (if multithreaded then removePageLocked mm pm₁ start (roundUp size) cid
      else removePageMapFixedLocked mm pm₁ start (roundUp size) cid) = some (r, pm₂)) :
    (r = -1 ∧ pm₂ = pm₁) ∨ (r = 0 ∧ Removed held mm start (start + roundUp size) pm₁ pm₂ ∧
      NoForeign pm₁.pages start (start + roundUp size) cid) := by
  have hround : roundUp (roundUp size) = roundUp size := by
    refine roundUp_of_dvd ?_ (by omega)
    unfold roundUp
    omega
  split at h
  · rcases removePageLocked_cases hi hmm (by rwa [hround]) h with hfail | ⟨rfl, -, -, hrem, hown⟩
    · exact .inl hfail
    · rw [hround] at hrem hown
      refine .inr ⟨rfl, hrem, fun x q hx hlo hhi => ?_⟩
      obtain ⟨q', hq', hcid⟩ := hown x hlo hhi
      rwa [hi.wf.ordered.at_unique hx hq']
  · rcases removePageMapFixedLocked_cases hi hmm (by rwa [hround]) h with
      ⟨-, -, hzero⟩ | ⟨rfl, hrem, hno⟩
    · omega
    · rw [hround] at hrem hno
      exact .inr ⟨rfl, hrem, hno⟩

/-- What a refill leaves can be refilled once more. -/
theorem Refill.fresh {pm₁ : PageManager} (h : Refill mm pm pm₁) (hmm : Fresh pm mm)
    (hfree : pm₁.freePages = []) : Fresh pm₁ mm := by
  rcases h.once with ⟨hpages, hpools, -⟩ | ⟨-, hne, -⟩
  · exact ⟨hpools ▸ hmm.pool, hpages ▸ hmm.groups⟩
  · exact absurd hfree hne

theorem addPage_cases (hi : Inv [] pm) (hmm : Fresh pm mm) (hpos : 0 < roundUp size)
    (hw : start + roundUp size < 2 ^ 64)
    (h : addPage multithreaded mm pm start size prot flags cid mapFixed = some (r, pm')) :
    (r = -1 ∧ Untouched pm pm') ∨
      (r = 0 ∧ Added start (start + roundUp size) ⟨prot, flags, cid⟩ mapFixed pm pm' ∧
        (mapFixed → NoForeign pm.pages start (start + roundUp size) cid)) := by
  cases addPage_ways h with
  | blocked _ n pm₁ ha hfixed pm₂ hrem =>
      obtain ⟨hi₁, hre⟩ := virtPageAlloc_spec hi (fun _ => hmm.pool) ha
      subst hfixed
      rcases addPageLocked_removed hi₁ (hre.fresh hmm) hpos hw hrem with ⟨-, rfl⟩ | ⟨hr, -⟩
      · exact .inl ⟨rfl, hi₁.free, hre.tracked⟩
      · cases hr
  | links _ n pm₁ ha ret pm₂ hrem hret _ l hlink =>
      obtain ⟨hi₁, hre⟩ := virtPageAlloc_spec hi (fun _ => hmm.pool) ha
      obtain ⟨p, hp⟩ : ∃ p : VirtPage, p = ⟨start, roundUp size, prot, flags, cid, n⟩ := ⟨_, rfl⟩
      have hpstop : p.stop = start + roundUp size := by rw [hp]; rfl
      have hpstart : p.start = start := by rw [hp]
      have hpattr : p.attr = ⟨prot, flags, cid⟩ := by rw [hp]; rfl
      have hpnode : p.node = n := by rw [hp]
      rw [← hp] at hlink
      cases mapFixed with
      | false =>
          cases hrem
          rcases linkPage_cases hi₁.wf (by omega) (by omega) hlink with ⟨rfl, rfl⟩ | ⟨rfl, hrest⟩
          · exact .inl ⟨rfl, hi₁.free, hre.tracked⟩
          · obtain ⟨hi', ht⟩ := Inv.linked (hpnode ▸ hi₁) (by omega) (by omega) (.inr ⟨rfl, hrest⟩)
            refine .inr ⟨rfl, ⟨hi', fun x q => ?_⟩, by simp⟩
            rw [if_neg (by decide), ht x q, hre.tracked x q, hpstart, hpstop, hpattr]
            simp
      | true =>
          rcases addPageLocked_removed hi₁ (hre.fresh hmm) hpos hw hrem with
            ⟨rfl, -⟩ | ⟨-, hrem, hno⟩
          · exact absurd ⟨rfl, rfl⟩ hret
          rcases linkPage_cases hrem.inv.wf (by omega) (by omega) hlink with
            ⟨rfl, rfl⟩ | ⟨rfl, hrest⟩
          · exact absurd hlink linkPage_fixed
          obtain ⟨hi', ht⟩ := Inv.linked (hpnode ▸ hrem.inv) (by omega) (by omega)
            (.inr ⟨rfl, hrest⟩)
          have honce : pm₁.pools = pm.pools ∨ pm₂.pools = pm₁.pools := by
            rcases hre.once with ⟨-, hsame, -⟩ | ⟨-, hne, -⟩
            · exact .inl hsame
            · rcases hrem.once with hsame | ⟨hnil, -⟩
              · exact .inr hsame
              · exact absurd hnil hne
          refine .inr ⟨rfl, ⟨hi', fun x q => ?_⟩, fun _ x q hx => ?_⟩
          · have hout := hrem.poolOut x q
            rw [if_neg (by decide), ht x q, hrem.tracked x q, hre.tracked x q, hpstart,
              hpstop, hpattr, poolAt_trans honce]
            simp only [forall_const]
            grind
          · exact hno x q ((hre.tracked x q).mpr (.inl hx))

end AddPage

/-! ## Replacing one group by pieces -/

/-- `l'` says what `l` says, except that `[start, stop)` now carries `q₀`. -/
def Repaint (start stop : Nat) (q₀ : Attr) (l l' : List VirtPage) : Prop :=
  ∀ x q, Tracked l' x q ↔
    (Tracked l x q ∧ (x < start ∨ stop ≤ x)) ∨ (start ≤ x ∧ x < stop ∧ q₀ = q)

section Pieces

variable {held taken : List Nat} {start stop : Nat} {q₀ : Attr} {pm : PageManager}
  {pre old ps post : List VirtPage} {g : VirtPage}

theorem Repaint.frame (h : Repaint start stop q₀ old ps)
    (hpre : Below VirtPage.stop pre start) (hpost : Above VirtPage.start post stop) :
    Repaint start stop q₀ (pre ++ old ++ post) (pre ++ ps ++ post) := by
  intro x q
  have hl : Tracked pre x q → x < start := fun ht => by
    by_contra hx
    exact hpre.not_at (by omega) ht
  have hr : Tracked post x q → stop ≤ x := fun ht => by
    by_contra hx
    exact hpost.not_at (by omega) ht
  have hc := h x q
  simp only [at_append]
  grind

/-- A group may be replaced by pieces of it, on its own node and on nodes in hand. -/
theorem Inv.pieces (hi : Inv (taken ++ held) pm) (hp : pm.pages = pre ++ g :: post)
    (hord : Ordered VirtPage.start VirtPage.stop ps)
    (hlo : ∀ c ∈ ps, g.start ≤ c.start) (hhi : ∀ c ∈ ps, c.stop ≤ g.stop)
    (hnodes : (ps.map VirtPage.node).Perm (g.node :: taken)) :
    Inv held { pm with pages := pre ++ ps ++ post } := by
  have hwf : Wf (pre ++ [g] ++ post) := by simpa [hp] using hi.wf
  refine hi.moved (hwf.replace hord (by simpa using hlo) (by simpa using hhi)) rfl fun n => ?_
  have := hnodes.count_eq n
  simp only [nodes, hp, List.map_append, List.map_cons, List.count_append, List.count_cons]
    at this ⊢
  omega

/-- The pieces of `g` when `[start, stop)` inside it gets new attributes. -/
def paintPieces (g : VirtPage) (start stop : Nat) (q₀ : Attr) (node right : Nat) : List VirtPage :=
  (if g.start < start then [{ g with size := start - g.start }] else []) ++
  [⟨start, stop - start, q₀.prot, q₀.flags, q₀.cid, node⟩] ++
  (if stop < g.stop then [{ g with start := stop, size := g.stop - stop, node := right }] else [])

theorem length_paintPieces (q₀ : Attr) (node right : Nat) :
    (paintPieces g start stop q₀ node right).length =
      (if g.start < start then 1 else 0) + (if stop < g.stop then 1 else 0) + 1 := by
  unfold paintPieces
  split <;> split <;> rfl

theorem paintPieces_repaint (q₀ : Attr) (node right : Nat) (hs : g.start ≤ start)
    (hlt : start < stop) (hstop : stop ≤ g.stop) :
    Repaint start stop q₀ [g] (paintPieces g start stop q₀ node right) := by
  intro x q
  simp only [paintPieces, at_append, at_ite, at_cons, at_nil, or_false]
  simp only [VirtPage.stop, VirtPage.attr] at hstop ⊢
  have hend : start + (stop - start) = stop := by omega
  have hrest : stop + (g.start + g.size - stop) = g.start + g.size := by omega
  have hleft : g.start + (start - g.start) = start := by omega
  rw [hend, hrest, hleft]
  constructor
  · rintro ((⟨h₁, h₂, h₃, rfl⟩ | ⟨h₁, h₂, rfl⟩) | ⟨h₁, h₂, h₃, rfl⟩)
    · exact .inl ⟨⟨h₂, by omega, rfl⟩, .inl h₃⟩
    · exact .inr ⟨h₁, h₂, rfl⟩
    · exact .inl ⟨⟨by omega, h₃, rfl⟩, .inr h₂⟩
  · rintro (⟨⟨h₁, h₂, rfl⟩, h₃ | h₃⟩ | ⟨h₁, h₂, rfl⟩)
    · exact .inl (.inl ⟨by omega, h₁, h₃, rfl⟩)
    · exact .inr ⟨by omega, h₃, h₂, rfl⟩
    · exact .inl (.inr ⟨h₁, h₂, rfl⟩)

theorem paintPieces_ordered (q₀ : Attr) (node right : Nat) (hs : g.start ≤ start)
    (hlt : start < stop) (hstop : stop ≤ g.stop) :
    Ordered VirtPage.start VirtPage.stop (paintPieces g start stop q₀ node right) ∧
      (∀ c ∈ paintPieces g start stop q₀ node right, g.start ≤ c.start) ∧
      ∀ c ∈ paintPieces g start stop q₀ node right, c.stop ≤ g.stop := by
  unfold paintPieces
  split <;> split <;> simp [VirtPage.stop] at * <;> omega

end Pieces

/-! ## update_mprotect -/

section Mprotect

variable {held : List Nat} {mm start size : Nat} {prot : Prot} {cid : Int}
  {pm pm₁ pm₂ pm' : PageManager} {r : Int} {g : VirtPage} {pre post : List VirtPage}

/-- A new pool is where the kernel has mapped it. -/
theorem poolAt_mem {pools pools' : List Nat} {x : Nat} {q : Attr}
    (h : pools' = pools ∨ pools' = mm :: pools) (hx : PoolAt pools pools' x q) :
    mm ≤ x ∧ x < mm + 8192 := by
  rcases h with rfl | rfl
  · exact absurd hx not_poolAt_self
  · obtain ⟨h₁, h₂, -⟩ := poolAt_cons.mp hx
    exact ⟨h₁, h₂⟩

/-- The list may have gained the pool at `mm`, and says the same otherwise. -/
structure Grown (mm : Nat) (pm pm' : PageManager) : Prop where
  mem : ∀ g ∈ pm.pages, g ∈ pm'.pages
  tracked : ∀ x q, Tracked pm'.pages x q ↔ Tracked pm.pages x q ∨ PoolAt pm.pools pm'.pools x q
  once : pm'.pools = pm.pools ∨ pm'.pools = mm :: pm.pools

theorem Grown.pool (h : Grown mm pm pm') (x : Nat) (q : Attr)
    (hx : PoolAt pm.pools pm'.pools x q) : mm ≤ x ∧ x < mm + 8192 :=
  poolAt_mem h.once hx

theorem Grown.refl : Grown mm pm pm :=
  ⟨fun _ h => h, by simp, .inl rfl⟩

theorem Refill.grown (h : Refill mm pm pm₁) : Grown mm pm pm₁ :=
  ⟨fun g hg => (h.mem g).mpr (.inl hg), h.tracked, h.once.imp (·.2.1) (·.2.2)⟩

/-- A refill is what happens when there is no free node. -/
theorem Refill.enough (h : Refill mm pm pm₁) :
    pm₁.pools = pm.pools ↔ 1 ≤ pm.freePages.length := by
  rw [Nat.one_le_iff_ne_zero, ne_eq, List.length_eq_zero_iff]
  rcases h.once with ⟨-, hsame, hne⟩ | ⟨hnil, -, hcons⟩
  · simp [hsame, hne]
  · simp [hcons, hnil]

theorem Refill.trans (h₁ : Refill mm pm pm₁) (h₂ : Refill mm pm₁ pm₂) : Grown mm pm pm₂ := by
  have honce : pm₁.pools = pm.pools ∨ pm₂.pools = pm₁.pools := by
    rcases h₁.once with ⟨-, hsame, -⟩ | ⟨-, hne, -⟩
    · exact .inl hsame
    · rcases h₂.once with ⟨-, hsame, -⟩ | ⟨hnil, -⟩
      · exact .inr hsame
      · exact absurd hnil hne
  refine ⟨fun g hg => h₂.grown.mem g (h₁.grown.mem g hg), fun x q => ?_, ?_⟩
  · rw [h₂.tracked, h₁.tracked, poolAt_trans honce, or_assoc]
  · rcases honce with hsame | hsame
    · exact hsame ▸ h₂.grown.once
    · exact hsame ▸ h₁.grown.once

/-- Taking a second node: if the first one came from a refill, this one does not. -/
theorem Refill.fresh_again (h : Refill mm pm pm₁) (hmm : Fresh pm mm) :
    pm₁.freePages = [] → FreshPool pm₁.pools mm := by
  intro hfree
  rcases h.once with ⟨-, hsame, -⟩ | ⟨-, hne, -⟩
  · exact hsame ▸ hmm.pool
  · exact absurd hfree hne

theorem virtPageAlloc_twice_enough {n : Nat} (ha : virtPageAlloc mm pm = some (n, pm₁))
    (h₁ : Refill mm pm pm₁) (h₂ : Refill mm pm₁ pm₂) :
    pm₂.pools = pm.pools ↔ 2 ≤ pm.freePages.length := by
  cases hfree : pm.freePages with
  | nil =>
      rcases h₁.once with ⟨-, -, hne⟩ | ⟨-, hne, hcons⟩
      · exact absurd hfree hne
      · rcases h₂.once with ⟨-, hsame, -⟩ | ⟨hnil, -⟩
        · simp [hsame, hcons]
        · exact absurd hnil hne
  | cons m free =>
      simp only [virtPageAlloc, hfree, Option.some.injEq, Prod.mk.injEq] at ha
      obtain ⟨rfl, rfl⟩ := ha
      rw [show pm.pools = ({ pm with freePages := free } : PageManager).pools from rfl, h₂.enough]
      simp

/-- A successful `update_mprotect` changes memory of the compartment only. The
removal rounds the size up and the new group does not, so the two ends differ when
the size is not a multiple of the page size. -/
structure Reprotected (start size : Nat) (prot : Prot) (cid : Int) (pm pm' : PageManager) :
    Prop where
  inv : Inv [] pm'
  tracked : ∃ stop flags, start + size ≤ stop ∧ (size % 4096 = 0 → stop = start + size) ∧
    NoForeign pm.pages start stop cid ∧ ∀ x q, Tracked pm'.pages x q ↔
      (Tracked pm.pages x q ∧ (x < start ∨ stop ≤ x)) ∨
      (start ≤ x ∧ x < start + size ∧ ⟨prot, flags, cid⟩ = q) ∨ PoolAt pm.pools pm'.pools x q

/-- The range lies in `g`, and the group was replaced by its pieces, on nodes that may
have come with a pool. -/
structure Painted (mm start size : Nat) (prot : Prot) (g : VirtPage) (pm pm' : PageManager) :
    Prop where
  inv : Inv [] pm'
  tracked : ∀ x q, Tracked pm'.pages x q ↔
    (Tracked pm.pages x q ∧ (x < start ∨ start + size ≤ x)) ∨
      (start ≤ x ∧ x < start + size ∧ ⟨prot, g.flags, g.cid⟩ = q) ∨ PoolAt pm.pools pm'.pools x q
  once : pm'.pools = pm.pools ∨ pm'.pools = mm :: pm.pools
  /-- One node for each end of the group that is left. -/
  enough : pm'.pools = pm.pools ↔
    (if g.start < start then 1 else 0) + (if start + size < g.stop then 1 else 0) ≤
      pm.freePages.length

theorem Painted.of_pieces {taken : List Nat} (prot : Prot) (size node right : Nat)
    (hi : Inv taken pm₁) (hp : pm₁.pages = pre ++ g :: post) (hs : g.start ≤ start)
    (hpos : 0 < size) (hstop : start + size ≤ g.stop) (hgrown : Grown mm pm pm₁)
    (hmm : Fresh pm mm) (hg : g ∈ pm.pages)
    (hnodes : ((paintPieces g start (start + size) ⟨prot, g.flags, g.cid⟩ node right).map
      VirtPage.node).Perm (g.node :: taken))
    (henough : pm₁.pools = pm.pools ↔ taken.length ≤ pm.freePages.length) :
    Painted mm start size prot g pm { pm₁ with
      pages := pre ++ paintPieces g start (start + size) ⟨prot, g.flags, g.cid⟩ node right ++
        post } := by
  have hlt : start < start + size := by omega
  obtain ⟨hord, hlo, hhi⟩ := paintPieces_ordered ⟨prot, g.flags, g.cid⟩ node right hs hlt hstop
  obtain ⟨-, -, -, -, hbelow, habove⟩ := wf_mid.mp (hp ▸ hi.wf)
  have hpaint := (paintPieces_repaint ⟨prot, g.flags, g.cid⟩ node right hs hlt hstop).frame
    (hbelow.mono hs) (habove.mono hstop)
  refine ⟨Inv.pieces (by simpa using hi) hp hord hlo hhi hnodes, fun x q => ?_, hgrown.once, ?_⟩
  · have hout : PoolAt pm.pools pm₁.pools x q → x < start ∨ start + size ≤ x := fun hx => by
      have := hgrown.pool x q hx
      have := hmm.groups g hg
      omega
    have htr := hgrown.tracked x q
    have hx := hpaint x q
    rw [List.append_assoc pre [g] post, List.singleton_append, ← hp] at hx
    rw [hx, htr]
    grind
  · have hlen := hnodes.length_eq
    rw [List.length_map, length_paintPieces, List.length_cons] at hlen
    rw [henough]
    omega

theorem Painted.reprotected (h : Painted mm start size prot g pm pm') (hi : Inv [] pm)
    (hg : g ∈ pm.pages) (hs : g.start ≤ start) (hstop : start + size ≤ g.stop) :
    Reprotected start size prot g.cid pm pm' := by
  refine ⟨h.inv, start + size, g.flags, Nat.le_refl _, fun _ => rfl, fun x q hx hlo hhi => ?_,
    h.tracked⟩
  have hin : Tracked pm.pages x g.attr := ⟨g, hg, by omega, by omega, rfl⟩
  rw [hi.wf.ordered.at_unique hx hin]
  rfl

/-- Writing the fields of a node and linking another one behind it. -/
theorem Inv.update_insert (hi : Inv held pm) (hp : pm.pages = pre ++ g :: post)
    {f : VirtPage → VirtPage} (hf : (f g).node = g.node) (p : VirtPage) :
    insertAfter g.node p (updateNode g.node f pm.pages) = pre ++ f g :: p :: post := by
  obtain ⟨hpre, hpost⟩ := hi.node_ne hp
  rw [hp]
  exact insertAfter_updateNode hf hpre hpost

/-- Where the new group goes when only the head is left before `start`. -/
theorem Inv.place_after_head {head p : VirtPage} {rest : List VirtPage} {n : Nat}
    (hi : Inv [n] pm) (hp : pm.pages = head :: rest) (hn : p.node = n)
    (hhead : head.stop ≤ p.start) (hpos : p.start < p.stop) (hw : p.stop < 2 ^ 64)
    (hrest : Above VirtPage.start rest p.stop) :
    Inv [] { pm with pages := head :: p :: rest } := by
  obtain ⟨hrwf, hhpos, hhw, -⟩ := wf_cons.mp (hp ▸ hi.wf)
  refine hi.moved (wf_cons.mpr ⟨wf_cons.mpr ⟨hrwf, hpos, hw, hrest⟩, hhpos, hhw, ?_⟩) rfl
    fun x => ?_
  · exact above_cons.mpr ⟨hhead, hrest.mono (by omega)⟩
  · simp only [nodes, hp, hn, List.map_cons, List.count_append, List.count_cons, List.count_nil]
    omega

/-- After a removal the new group is linked behind the head of the list, the first
group that ends before it, whatever stands between the two. -/
theorem mprotectAcross_eq {head : VirtPage} {rest : List VirtPage}
    (hremove : removePageLocked mm pm start size cid = some (0, pm₁)) (hi₁ : Inv [] pm₁)
    (hp₁ : pm₁.pages = head :: rest) (hhead : head.stop ≤ start) (hle : start + size < 2 ^ 64)
    (hclear : ∀ next ∈ rest.head?, start + size ≤ next.start ∨ next.stop ≤ start)
    (hnode : rest = [] → pm₁.freePages ≠ []) :
    mprotectAcross mm pm start size prot cid = (virtPageAlloc mm pm₁).map fun a =>
      (0, { a.2 with
        pages := insertAfter head.node ⟨start, size, prot, head.flags, cid, a.1⟩ a.2.pages }) := by
  have hw : head.stop < 2 ^ 64 := hi₁.wf.noWrap head (by simp [hp₁])
  have hfound : mprotectPlace start pm₁.pages = some (head, rest.head?) := by
    simp [hp₁, mprotectPlace, head.pageEnd_eq hw, hhead]
  simp only [mprotectAcross, hremove, hfound, Int.reduceNeg, Int.reduceEq, if_false]
  cases rest with
  | nil =>
      obtain ⟨n, free, hfree⟩ := List.exists_cons_of_ne_nil (hnode rfl)
      simp [virtPageAlloc, hfree, hp₁, endAfter, insertAfter]
  | cons next rest =>
      have hno : ¬ virtPageOverlap next start size > 0 := by
        rw [virtPageOverlap_pos (hi₁.wf.noWrap next (by simp [hp₁])) hle]
        have := hclear next rfl
        omega
      have hzero : virtPageOverlap next start size = 0 := by
        have := virtPageOverlap_nonneg next start size
        omega
      simp only [List.head?_cons, hzero, ne_eq, not_true_eq_false, if_false]
      cases virtPageAlloc mm pm₁ <;> rfl

/-- If the range begins with a group, that group's node has been freed, and what is behind the
head is behind the range as well if it was so before. -/
theorem removeAcross_front {stop : Nat} {mid post : List VirtPage} {head first last : VirtPage}
    (h : removeAcross start stop pm [head] first mid last post = (r, pm₁))
    (hstart : first.start = start) (hpost : Above VirtPage.start post stop) :
    ∃ rest, pm₁.pages = head :: rest ∧ Above VirtPage.start rest stop ∧ pm₁.freePages ≠ [] := by
  simp only [removeAcross, hstart, if_true] at h
  split at h
  · cases h
    exact ⟨post, by simp, hpost, by simp⟩
  · cases h
    exact ⟨_, by simp; rfl, above_cons.mpr ⟨Nat.le_refl _, hpost⟩, by simp⟩

/-- A range that was removed with a free node left is placed behind the head, in front of
what is behind the range. -/
theorem Removed.place {stop n : Nat} {head : VirtPage} {rest : List VirtPage} (hi : Inv [] pm)
    (h : Removed [] mm start stop pm pm₁) (hpools : pm₁.pools = pm.pools)
    (hpages : pm₁.pages = head :: rest) (hhead : head.stop ≤ start)
    (hrest : Above VirtPage.start rest stop) (hfree : pm₁.freePages ≠ [])
    (hown : Owned pm.pages start stop cid) (hpos : 0 < size) (hstop : start + size ≤ stop)
    (hw : start + size < 2 ^ 64) (hround : size % 4096 = 0 → stop = start + size)
    (halloc : virtPageAlloc mm pm₁ = some (n, pm₂)) :
    pm₂.pages = head :: rest ∧ Reprotected start size prot cid pm { pm₂ with
      pages := head :: ⟨start, size, prot, head.flags, cid, n⟩ :: rest } := by
  obtain ⟨hi₂, hre⟩ := virtPageAlloc_spec h.inv (fun hnil => absurd hnil hfree) halloc
  rcases hre.once with ⟨hpages₂, hpools₂, -⟩ | ⟨hnil, -⟩
  · rw [hpages] at hpages₂
    refine ⟨hpages₂, ?_, stop, head.flags, hstop, hround, fun x q hx hlo hhi => ?_, fun x q => ?_⟩
    · refine hi₂.place_after_head hpages₂ rfl hhead ?_ hw (hrest.mono hstop)
      exact show start < start + size by omega
    · obtain ⟨q', hq', hcid⟩ := hown x hlo hhi
      rw [hi.wf.ordered.at_unique hx hq']
      exact hcid
    · have ht := h.tracked x q
      simp only [hpools, not_poolAt_self, or_false, hpages, at_cons] at ht
      simp only [hpools₂, hpools, not_poolAt_self, or_false, at_cons, ← ht]
      constructor
      · rintro (hx | hx | hx)
        · exact .inl (.inl hx)
        · exact .inr hx
        · exact .inl (.inr hx)
      · rintro ((hx | hx) | hx)
        · exact .inl hx
        · exact .inr (.inr hx)
        · exact .inr (.inl hx)
  · exact absurd hnil hfree

theorem mprotectAcross_cases (hi : Inv [] pm) (hmm : Fresh pm mm)
    (hw : start + roundUp size < 2 ^ 64) (hle : start + size < 2 ^ 64) (hg : g ∈ pm.pages)
    (hgs : g.start ≤ start) (hsg : start < g.stop) (hover : g.stop < start + size)
    (hplace : ∀ x ∈ pm.pages.tail, start ≤ x.start)
    (h : mprotectAcross mm pm start size prot cid = some (r, pm')) :
    (r = -1 ∧ pm' = pm) ∨ (r = 0 ∧ Reprotected start size prot cid pm pm') := by
  obtain ⟨ret, pm₁, hremove⟩ : ∃ ret pm₁, removePageLocked mm pm start size cid =
      some (ret, pm₁) := by
    cases hremove : removePageLocked mm pm start size cid with
    | none => simp [mprotectAcross, hremove] at h
    | some a => exact ⟨a.1, a.2, rfl⟩
  rcases removePageLocked_found hi hw hremove with ⟨rfl, rfl⟩ | ⟨halign, hpos, head, pre, before,
    last, post, first, hp, hhead, hfirst, hfs, hsf, hrun, hedit⟩
  · simp only [mprotectAcross, hremove, if_true] at h
    cases h
    exact .inl ⟨rfl, rfl⟩
  have hround := le_roundUp halign hle hpos
  have hfirstMem : first ∈ before ++ [last] := List.mem_of_mem_head? hfirst
  have hmem : first ∈ pm.pages := hp ▸ List.mem_append_left _ (List.mem_append_right _ hfirstMem)
  have hfg : first = g := hi.wf.ordered.eq_of_mem hmem hg hfs hsf hgs hsg
  subst hfg
  rcases hedit with ⟨rfl, -⟩ | ⟨mid, rfl, hacross⟩
  -- one group would have to contain the rounded range
  · obtain rfl : last = first := by simpa using hfirst
    have := hrun.stops
    omega
  have howned : Owned pm.pages start (start + roundUp size) cid := hrun.owned fun g hg => by
    rw [hp]
    exact List.mem_append_left _ (List.mem_append_right _ hg)
  have htail : pm.pages.tail = pre ++ (first :: mid ++ [last]) ++ post := by simp [hp]
  have hstart : first.start = start :=
    Nat.le_antisymm hfs (hplace first (by rw [htail]; simp))
  have hwf : Wf (head :: pre ++ (first :: mid ++ [last]) ++ post) := hp ▸ hi.wf
  obtain ⟨hordl, -, hcross⟩ := ordered_append.mp hwf.ordered
  -- nothing stands between the head and the range
  obtain rfl : pre = [] := by
    refine List.eq_nil_iff_forall_not_mem.mpr fun x hx => ?_
    have h₁ := (ordered_append.mp hordl).2.2 x (by simp [hx]) first (by simp)
    have h₂ := hplace x (by rw [htail]; simp [hx])
    have h₃ := hwf.nonempty (g := x) (by simp [hx])
    omega
  obtain ⟨h₀, hrem⟩ := removeAcross_spec mm hi hp hfs hsf hrun.starts hrun.stops
  have hwlast : last.stop < 2 ^ 64 := hwf.noWrap last (by simp)
  have hpost : Above VirtPage.start post (start + roundUp size) := fun b hb =>
    Nat.le_trans hrun.stops (hcross last (by simp) b hb)
  obtain ⟨rest, hpages, hrest, hfree⟩ := removeAcross_front hacross hstart hpost
  have hsame := (removeAcross_left hacross).1
  rw [hacross] at h₀ hrem
  obtain rfl : ret = 0 := h₀
  rw [mprotectAcross_eq hremove hrem.inv hpages hhead hle
    (fun next hnext => .inl (Nat.le_trans (by omega) (hrest next (List.mem_of_mem_head? hnext))))
    fun _ => hfree] at h
  obtain ⟨⟨n, pm₂⟩, halloc, heq⟩ := Option.map_eq_some_iff.mp h
  obtain ⟨hpages₂, hrep⟩ := hrem.place hi hsame hpages hhead hrest hfree howned (by omega)
    (by omega) hle (fun hd => by rw [roundUp_of_dvd hd (by omega)]) halloc
  cases heq
  exact .inr ⟨rfl, by simpa [hpages₂, insertAfter] using hrep⟩

/-- The place of a re-protection: in one group, or with at most the head before it. -/
def MprotectPlace (pm : PageManager) (start size : Nat) : Prop :=
  (∃ g ∈ pm.pages, g.start ≤ start ∧ start + size ≤ g.stop) ∨
    ∀ g ∈ pm.pages.tail, start ≤ g.start

/-- One node is taken, and the group is still there. -/
theorem Inv.alloc_mid (hi : Inv [] pm) (hmm : Fresh pm mm) (hg : g ∈ pm.pages) {n : Nat}
    (ha : virtPageAlloc mm pm = some (n, pm₁)) :
    ∃ pre post, pm₁.pages = pre ++ g :: post ∧ Inv [n] pm₁ ∧ Refill mm pm pm₁ := by
  obtain ⟨hi₁, hre⟩ := virtPageAlloc_spec hi (fun _ => hmm.pool) ha
  obtain ⟨pre, post, hp⟩ := List.append_of_mem (hre.grown.mem g hg)
  exact ⟨pre, post, hp, hi₁, hre⟩

theorem painted_whole (hi : Inv [] pm) (hmm : Fresh pm mm) (hg : g ∈ pm.pages) (hpos : 0 < size)
    (hs : start = g.start) (hend : start + size = g.stop) :
    Painted mm start size prot g pm
      { pm with pages := updateNode g.node (fun g => { g with prot := prot }) pm.pages } := by
  have hl : ¬ g.start < start := by omega
  have hr : ¬ start + size < g.stop := by omega
  obtain ⟨pre, post, hp⟩ := List.append_of_mem hg
  have hrep := Painted.of_pieces prot size g.node 0 hi hp (Nat.le_of_eq hs.symm) hpos
    (Nat.le_of_eq hend) Grown.refl hmm hg
    (by simp [paintPieces, hl, hr]) (by simp)
  have hgsize : g.size = size := by
    unfold VirtPage.stop at hend
    omega
  rw [hi.updateNode_mid hp]
  simpa [paintPieces, hl, hr, hgsize, ← hs] using hrep

theorem painted_beginning (hi : Inv [] pm) (hmm : Fresh pm mm) (hg : g ∈ pm.pages)
    (hpos : 0 < size) (hs : start = g.start) (hend : start + size < g.stop) {n : Nat}
    (ha : virtPageAlloc mm pm = some (n, pm₁)) :
    Painted mm start size prot g pm { pm₁ with
      pages := insertAfter g.node
        { g with start := start + size, size := wsub g.stop (start + size), node := n }
        (updateNode g.node (fun g => { g with prot := prot, size := size }) pm₁.pages) } := by
  have hl : ¬ g.start < start := by omega
  obtain ⟨pre, post, hp, hi₁, hre⟩ := hi.alloc_mid hmm hg ha
  have hrep := Painted.of_pieces prot size g.node n hi₁ hp (Nat.le_of_eq hs.symm) hpos
    (Nat.le_of_lt hend) hre.grown hmm hg
    (by simp [paintPieces, hl, hend]) hre.enough
  rw [hi₁.update_insert hp rfl, wsub_eq (by omega) (hi.wf.noWrap g hg)]
  simpa [paintPieces, hl, hend, ← hs] using hrep

theorem painted_end (hi : Inv [] pm) (hmm : Fresh pm mm) (hg : g ∈ pm.pages)
    (hpos : 0 < size) (hs : g.start < start) (hend : start + size = g.stop) {n : Nat}
    (ha : virtPageAlloc mm pm = some (n, pm₁)) :
    Painted mm start size prot g pm { pm₁ with
      pages := insertAfter g.node { start, size, prot, flags := g.flags, cid := g.cid, node := n }
        (updateNode g.node (fun g => { g with size := wsub start g.start }) pm₁.pages) } := by
  have hgw := hi.wf.noWrap g hg
  have hr : ¬ start + size < g.stop := by omega
  obtain ⟨pre, post, hp, hi₁, hre⟩ := hi.alloc_mid hmm hg ha
  have hrep := Painted.of_pieces prot size n 0 hi₁ hp (Nat.le_of_lt hs) hpos
    (Nat.le_of_eq hend) hre.grown hmm hg
    (by simp [paintPieces, hs, hr]) hre.enough
  rw [hi₁.update_insert hp rfl, wsub_eq (Nat.le_of_lt hs) (by omega)]
  simpa [paintPieces, hs, hr] using hrep

/-- The middle takes two nodes, and `group2` is linked in before `group1`. -/
theorem painted_middle (hi : Inv [] pm) (hmm : Fresh pm mm) (hg : g ∈ pm.pages)
    (hpos : 0 < size) (hs : g.start < start) (hend : start + size < g.stop) {n₁ n₂ : Nat}
    (ha₁ : virtPageAlloc mm pm = some (n₁, pm₁)) (ha₂ : virtPageAlloc mm pm₁ = some (n₂, pm₂)) :
    Painted mm start size prot g pm { pm₂ with
      pages := insertAfter g.node { start, size, prot, flags := g.flags, cid := g.cid, node := n₁ }
        (insertAfter g.node
          { g with start := start + size, size := wsub g.stop (start + size), node := n₂ }
          (updateNode g.node (fun g => { g with size := wsub start g.start }) pm₂.pages)) } := by
  have hgw := hi.wf.noWrap g hg
  obtain ⟨-, -, -, hi₁, hre₁⟩ := hi.alloc_mid hmm hg ha₁
  obtain ⟨hi₂, hre₂⟩ := virtPageAlloc_spec hi₁ (hre₁.fresh_again hmm) ha₂
  have hgrown := hre₁.trans hre₂
  obtain ⟨pre, post, hp⟩ := List.append_of_mem (hgrown.mem g hg)
  have hrep := Painted.of_pieces prot size n₁ n₂ hi₂ hp (Nat.le_of_lt hs) hpos
    (Nat.le_of_lt hend) hgrown hmm hg
    (by simpa [paintPieces, hs, hend] using List.Perm.swap _ _ _)
    (virtPageAlloc_twice_enough ha₁ hre₁ hre₂)
  rw [hi₂.update_insert hp rfl, wsub_eq (Nat.le_of_lt hs) (by omega), wsub_eq (by omega) hgw]
  rw [insertAfter_mid (g := { g with size := start - g.start }) (hi₂.node_ne hp).1]
  simpa [paintPieces, hs, hend] using hrep

/-- In one group, all four cases put the pieces of the group in its place. -/
theorem updateMprotect_inside (hi : Inv [] pm) (hmm : Fresh pm mm) (hg : g ∈ pm.pages)
    (hlookup : lookupAddr pm start g.cid = some g) (hpos : 0 < size)
    (hin : start + size ≤ g.stop)
    (h : updateMprotect mm pm start size prot g.cid = some (r, pm')) :
    r = 0 ∧ Painted mm start size prot g pm pm' := by
  obtain ⟨-, hgs, hsg, -⟩ := lookupAddr_some hlookup
  have hgw := hi.wf.noWrap g hg
  rw [g.pageEnd_eq hgw] at hsg
  have hne : pm.pages ≠ [] := List.ne_nil_of_mem hg
  simp only [updateMprotect, hlookup, g.pageEnd_eq hgw] at h
  rw [wadd_eq (by omega), if_neg hne, if_neg (by simp), if_neg (by omega), if_neg (by omega),
    if_neg (by omega)] at h
  split at h
  · next hall =>
      cases h
      exact ⟨rfl, painted_whole hi hmm hg hpos hall.1 hall.2⟩
  split at h
  · next hpart =>
      split at h <;> cases h
      rename_i ha
      exact ⟨rfl, painted_beginning hi hmm hg hpos hpart.1 hpart.2 ha⟩
  split at h
  · next hpart =>
      split at h <;> cases h
      rename_i ha
      exact ⟨rfl, painted_end hi hmm hg hpos hpart.1 hpart.2 ha⟩
  split at h
  · next hpart =>
      split at h
      · cases h
      rename_i ha₁
      split at h <;> cases h
      rename_i ha₂
      exact ⟨rfl, painted_middle hi hmm hg hpos hpart.1 hpart.2 ha₁ ha₂⟩
  · next h₁ h₂ h₃ h₄ => omega

/-- Beyond the group the range is removed first. -/
theorem updateMprotect_across (hi : Inv [] pm) (hg : g ∈ pm.pages)
    (hlookup : lookupAddr pm start g.cid = some g) (hle : start + size < 2 ^ 64)
    (hover : g.stop < start + size) :
    updateMprotect mm pm start size prot g.cid = mprotectAcross mm pm start size prot g.cid := by
  obtain ⟨-, hgs, hsg, -⟩ := lookupAddr_some hlookup
  have hgw := hi.wf.noWrap g hg
  have hne : pm.pages ≠ [] := List.ne_nil_of_mem hg
  rw [g.pageEnd_eq hgw] at hsg
  simp only [updateMprotect, hlookup, g.pageEnd_eq hgw]
  rw [wadd_eq hle, if_neg hne, if_neg (by simp), if_neg (by omega), if_neg (by omega),
    if_neg (by omega), if_neg (by omega), if_neg (by omega), if_neg (by omega), if_neg (by omega)]

/-- The tests at the entry. -/
theorem updateMprotect_entry (pm : PageManager) (mm : Nat) (prot : Prot) (cid : Int)
    (hstart : start < 2 ^ 64) (hsize : size < 2 ^ 64) :
    updateMprotect mm pm start size prot cid = some (-1, pm) ∨
      ∃ g, lookupAddr pm start cid = some g ∧ g.cid = cid ∧ 0 < size ∧ start + size < 2 ^ 64 := by
  by_cases hne : pm.pages = []
  · exact .inl (if_pos hne)
  cases hlookup : lookupAddr pm start cid with
  | none => exact .inl (by simp [updateMprotect, hne, hlookup])
  | some g =>
      by_cases hcid : g.cid = cid
      · by_cases hpos : 0 < size
        · by_cases hle : start + size < 2 ^ 64
          · exact .inr ⟨g, rfl, hcid, hpos, hle⟩
          · left
            have hwrap : wadd start size < start := by
              unfold wadd
              omega
            simp [updateMprotect, hne, hlookup, hcid, hwrap]
        · left
          simp [updateMprotect, hne, hlookup, hcid, Nat.eq_zero_of_not_pos hpos]
      · exact .inl (by simp [updateMprotect, hne, hlookup, hcid])

theorem updateMprotect_cases (hi : Inv [] pm) (hmm : Fresh pm mm) (hstart : start < 2 ^ 64)
    (hsize : size < 2 ^ 64) (hw : start + roundUp size < 2 ^ 64)
    (hplace : MprotectPlace pm start size)
    (h : updateMprotect mm pm start size prot cid = some (r, pm')) :
    (r = -1 ∧ pm' = pm) ∨ (r = 0 ∧ Reprotected start size prot cid pm pm') := by
  rcases updateMprotect_entry pm mm prot cid hstart hsize with
    hrefused | ⟨g, hlookup, rfl, hpos, hle⟩
  · cases hrefused.symm.trans h
    exact .inl ⟨rfl, rfl⟩
  obtain ⟨hg, hgs, hsg, -⟩ := lookupAddr_some hlookup
  rw [g.pageEnd_eq (hi.wf.noWrap g hg)] at hsg
  by_cases hin : start + size ≤ g.stop
  · obtain ⟨rfl, hpaint⟩ := updateMprotect_inside hi hmm hg hlookup hpos hin h
    exact .inr ⟨rfl, hpaint.reprotected hi hg hgs hin⟩
  · rw [updateMprotect_across hi hg hlookup hle (by omega)] at h
    rcases hplace with ⟨g', hg', hgs', hsg'⟩ | hplace
    · have := hi.wf.ordered.eq_of_mem hg hg' hgs hsg hgs' (by omega)
      subst this
      omega
    · exact mprotectAcross_cases hi hmm hw hle hg hgs hsg (by omega) hplace h

end Mprotect

/-! ## update_size -/

section UpdateSize

variable {mm start oldSize newSize : Nat} {cid : Int} {pm pm' : PageManager} {r : Int}

/-- A successful `update_size`: the end of the old range moved, inside or at the
end of the group that contains it. Equal sizes are answered before the old range
is compared with the group. -/
structure Resized (start oldSize newSize : Nat) (cid : Int) (pm pm' : PageManager) : Prop where
  inv : Inv [] pm'
  tracked : ∃ g ∈ pm.pages, g.start ≤ start ∧ start < g.stop ∧
    (oldSize = newSize ∨ start + oldSize ≤ g.stop) ∧ (cid = -1 ∨ g.cid = cid) ∧
    (g.cid = cid → ∀ x q, Tracked pm'.pages x q ↔
      (Tracked pm.pages x q ∧ (x < start + newSize ∨ start + oldSize ≤ x)) ∨
      (start + oldSize ≤ x ∧ x < start + newSize ∧ g.attr = q) ∨ PoolAt pm.pools pm'.pools x q)

/-- The group behind the node of `g`. -/
theorem Inv.next_of_node {pre post : List VirtPage} {g : VirtPage} (hi : Inv [] pm)
    (hp : pm.pages = pre ++ g :: post) :
    (pm.pages.dropWhile fun h => h.node ≠ g.node).tail.head? = post.head? := by
  rw [hp]
  exact Secpoline.next_of_node (hi.node_ne hp).1

/-- A group that grows into the free space behind it. -/
theorem Resized.grow {pre post : List VirtPage} {g : VirtPage} {size : Nat} (hi : Inv [] pm)
    (hp : pm.pages = pre ++ g :: post) (hgs : g.start ≤ start) (hsg : start < g.stop)
    (hcid : cid = -1 ∨ g.cid = cid) (hend : g.stop = start + oldSize) (hlt : oldSize < newSize)
    (hw : start + newSize < 2 ^ 64) (hsize : g.start + size = start + newSize)
    (hnext : ∀ x ∈ post.head?, start + newSize ≤ x.start) :
    Resized start oldSize newSize cid pm { pm with pages := pre ++ { g with size } :: post } := by
  obtain ⟨hpre, hpost, hpos, hgw, hbelow, habove⟩ := wf_mid.mp (hp ▸ hi.wf)
  have habove' : Above VirtPage.start post (start + newSize) := by
    match post with
    | [] => exact above_nil
    | next :: rest =>
        have hn : start + newSize ≤ next.start := hnext next rfl
        obtain ⟨-, hnpos, -, hrest⟩ := wf_cons.mp hpost
        exact above_cons.mpr ⟨hn, hrest.mono (by omega)⟩
  refine ⟨hi.moved (wf_mid.mpr ⟨hpre, hpost, ?_, ?_, hbelow, ?_⟩) rfl
    (fun n => by simp [nodes, hp]),
    g, by simp [hp], hgs, hsg, .inr (by omega), hcid, fun _ x q => ?_⟩
  · exact show g.start < g.start + size by omega
  · exact show g.start + size < 2 ^ 64 by omega
  · exact habove'.mono (show g.start + size ≤ start + newSize by omega)
  · simp only [hp, at_append, at_cons, not_poolAt_self, or_false]
    simp only [VirtPage.stop, VirtPage.attr] at hend ⊢
    rw [hsize, hend]
    constructor
    · rintro (hx | ⟨h₁, h₂, h₃⟩ | hx)
      · exact .inl ⟨.inl hx, by omega⟩
      · by_cases hxo : x < start + oldSize
        · exact .inl ⟨.inr (.inl ⟨h₁, hxo, h₃⟩), .inl h₂⟩
        · exact .inr ⟨by omega, h₂, h₃⟩
      · exact .inl ⟨.inr (.inr hx), by omega⟩
    · rintro (⟨hx | ⟨h₁, h₂, h₃⟩ | hx, -⟩ | ⟨h₁, h₂, h₃⟩)
      · exact .inl hx
      · exact .inr (.inl ⟨h₁, by omega, h₃⟩)
      · exact .inr (.inr hx)
      · exact .inr (.inl ⟨by omega, h₂, h₃⟩)

/-- A group that loses its end. -/
theorem Resized.trim {pre post : List VirtPage} {g : VirtPage} {size : Nat} (hi : Inv [] pm)
    (hp : pm.pages = pre ++ g :: post) (hgs : g.start ≤ start) (hsg : start < g.stop)
    (hcid : cid = -1 ∨ g.cid = cid) (hend : g.stop = start + oldSize) (hlt : newSize < oldSize)
    (hpos : 0 < newSize) (hsize : g.start + size = start + newSize) :
    Resized start oldSize newSize cid pm { pm with pages := pre ++ { g with size } :: post } := by
  have hwf : Wf (pre ++ g :: post) := hp ▸ hi.wf
  obtain ⟨-, -, -, -, hbelow, habove⟩ := wf_mid.mp hwf
  have hcut : Cut (start + newSize) (start + oldSize) [g] [{ g with size }] :=
    cut_left size g.node (by omega) (by omega) hsize
  refine ⟨hi.moved (hwf.shrink (Nat.le_refl _) ?_ ?_) rfl (fun n => by simp [nodes, hp]),
    g, by simp [hp], hgs, hsg, .inr (by omega), hcid, fun _ x q => ?_⟩
  · exact show g.start < g.start + size by omega
  · exact show g.start + size ≤ g.stop by omega
  · have hx := hcut.frame pre post (hbelow.mono (by omega)) (habove.mono (by omega)) x q
    rw [List.append_assoc pre [g] post, List.singleton_append, ← hp] at hx
    rw [show pre ++ { g with size } :: post = pre ++ [{ g with size }] ++ post by simp, hx]
    simp only [not_poolAt_self, or_false]
    constructor
    · exact .inl
    · rintro (hx | ⟨h₁, h₂, -⟩)
      · exact hx
      · omega

/-- A group that loses an inner part: the end goes to a node of its own. -/
theorem Resized.split {pre post : List VirtPage} {g : VirtPage} {n : Nat} {pm₁ : PageManager}
    (hi₁ : Inv [n] pm₁) (hre : Refill mm pm pm₁) (hmm : Fresh pm mm) (hg : g ∈ pm.pages)
    (hp : pm₁.pages = pre ++ g :: post) (hgs : g.start ≤ start) (hsg : start < g.stop)
    (hcid : cid = -1 ∨ g.cid = cid) (hend : start + oldSize < g.stop) (hlt : newSize < oldSize)
    (hpos : 0 < newSize) :
    Resized start oldSize newSize cid pm { pm₁ with
      pages := pre ++ { g with size := start + newSize - g.start } ::
        { g with cid := cid, start := start + oldSize, size := g.stop - (start + oldSize),
                 node := n } :: post } := by
  obtain ⟨-, -, -, -, hbelow, habove⟩ := wf_mid.mp (hp ▸ hi₁.wf)
  refine ⟨?_, g, hg, hgs, hsg, .inr (by omega), hcid, fun hcid x q => ?_⟩
  · obtain ⟨ps, hps⟩ : ∃ ps, ps = [{ g with size := start + newSize - g.start },
      { g with cid := cid, start := start + oldSize, size := g.stop - (start + oldSize),
               node := n }] := ⟨_, rfl⟩
    have hpieces : Inv [] { pm₁ with pages := pre ++ ps ++ post } := by
      refine Inv.pieces (by simpa using hi₁ : Inv ([n] ++ []) pm₁) hp ?_ ?_ ?_ (by simp [hps])
      · simp [hps, VirtPage.stop] at hend ⊢
        omega
      · simp [hps]
        omega
      · simp [hps, VirtPage.stop] at hend ⊢
        omega
    simpa [hps] using hpieces
  · have hcut := cut_both (g := g) (start + newSize - g.start) (g.stop - (start + oldSize)) g.node n
      (show g.start ≤ start + newSize by omega) (show start + newSize < start + oldSize by omega)
      (by omega) (by omega) (by omega)
    have hx := hcut.frame pre post (hbelow.mono (by omega)) (habove.mono (by omega)) x q
    rw [List.append_assoc pre [g] post, List.singleton_append, ← hp, hre.tracked x q] at hx
    have hout : PoolAt pm.pools pm₁.pools x q → x < start + newSize ∨ start + oldSize ≤ x :=
      fun hpool => by
        have := hre.grown.pool x q hpool
        have := hmm.groups g hg
        omega
    simp only [List.append_assoc, List.cons_append, List.nil_append, hcid] at hx ⊢
    rw [hx]
    grind

theorem updateSize_cases (hi : Inv [] pm) (hmm : Fresh pm mm) (hnew : 0 < newSize)
    (hwo : start + oldSize < 2 ^ 64) (hwn : start + newSize < 2 ^ 64)
    (h : updateSize mm pm start oldSize newSize cid = some (r, pm')) :
    ((r = -1 ∨ r = -2) ∧ pm' = pm) ∨ (r = 0 ∧ Resized start oldSize newSize cid pm pm') := by
  have hoe : wadd start oldSize = start + oldSize := wadd_eq hwo
  have hne : wadd start newSize = start + newSize := wadd_eq hwn
  cases updateSize_ways h with
  | missing => exact .inl ⟨.inl rfl, rfl⟩
  | outside => exact .inl ⟨.inl rfl, rfl⟩
  | blocked => exact .inl ⟨.inr rfl, rfl⟩
  | same g hlookup heq =>
      obtain ⟨hg, hgs, hsg, hcid⟩ := lookupAddr_some hlookup
      rw [hi.wf.pageEnd hg] at hsg
      refine .inr ⟨rfl, hi, g, hg, hgs, hsg, .inl heq, hcid, fun _ x q => ?_⟩
      subst heq
      simp only [not_poolAt_self, or_false]
      constructor
      · exact fun hx => .inl ⟨hx, by omega⟩
      · rintro (hx | ⟨h₁, h₂, -⟩)
        · exact hx.1
        · omega
  | grows g hlookup hlt hend hnext =>
      obtain ⟨hg, hgs, hsg, hcid⟩ := lookupAddr_some hlookup
      have hgw := hi.wf.noWrap g hg
      rw [hi.wf.pageEnd hg] at hsg hend
      rw [hoe] at hend
      obtain ⟨pre, post, hp⟩ := List.append_of_mem hg
      have hgstop : g.stop = g.start + g.size := rfl
      have hsize : g.start + wadd g.size (wsub newSize oldSize) = start + newSize := by
        rw [wsub_eq (by omega) (by omega), wadd_eq (by omega)]
        omega
      rw [hi.updateNode_mid hp]
      refine .inr ⟨rfl, .grow hi hp hgs hsg hcid hend hlt hwn hsize fun x hx => ?_⟩
      rw [← hne]
      refine hnext x ?_
      rw [behind, hi.next_of_node hp]
      exact hx
  | shrinks g hlookup hlt hend =>
      obtain ⟨hg, hgs, hsg, hcid⟩ := lookupAddr_some hlookup
      have hgw := hi.wf.noWrap g hg
      rw [hi.wf.pageEnd hg] at hsg hend
      rw [hoe] at hend
      obtain ⟨pre, post, hp⟩ := List.append_of_mem hg
      have hgstop : g.stop = g.start + g.size := rfl
      have hsize : g.start + wsub g.size (wsub oldSize newSize) = start + newSize := by
        rw [wsub_eq (a := oldSize) (by omega) (by omega), wsub_eq (by omega) (by omega)]
        omega
      rw [hi.updateNode_mid hp]
      exact .inr ⟨rfl, .trim hi hp hgs hsg hcid hend.symm hlt hnew hsize⟩
  | splits g hlookup hlt hin n pm₁ halloc =>
      obtain ⟨hg, hgs, hsg, hcid⟩ := lookupAddr_some hlookup
      have hgw := hi.wf.noWrap g hg
      rw [hi.wf.pageEnd hg] at hsg hin ⊢
      rw [hoe] at hin ⊢
      rw [hne]
      obtain ⟨hi₁, hre⟩ := virtPageAlloc_spec hi (fun _ => hmm.pool) halloc
      obtain ⟨pre₁, post₁, hp₁⟩ := List.append_of_mem (hre.grown.mem g hg)
      rw [hi₁.update_insert hp₁ rfl, wsub_eq (by omega) hgw, wsub_eq (by omega) hwn]
      exact .inr ⟨rfl, .split hi₁ hre hmm hg hp₁ hgs hsg hcid hin hlt hnew⟩

end UpdateSize

end Secpoline
