import Secpoline.Lib.Ordered
import Secpoline.Model.PageManager

/-!
# The page list is ordered

The representation invariant of the page manager. `Wf` is the part a reader of
`pages` relies on: the groups are non-empty, disjoint and in order, and none of
them reaches the end of the address space. `Inv` adds what the operations
themselves rely on: no node is in two places at once, counting the nodes the
operation in progress holds (`held`), and every node lies in a pool the manager
mapped.

The node part is stated by counting, because the operations only ever move
nodes between `pages`, the free list and their own hands, and a move is then an
equation between sums.
-/

namespace Secpoline

open Lib

/-- Where the group ends, as a number. -/
def VirtPage.stop (g : VirtPage) : Nat := g.start + g.size

/-- What the list says about an address in the group. -/
structure Attr where
  prot : Prot
  flags : Int
  cid : Int
deriving DecidableEq, Repr

def VirtPage.attr (g : VirtPage) : Attr := ⟨g.prot, g.flags, g.cid⟩

/-- The address is in a group with these attributes. -/
abbrev Tracked (l : List VirtPage) (x : Nat) (q : Attr) : Prop :=
  At VirtPage.start VirtPage.stop VirtPage.attr l x q

structure Wf (l : List VirtPage) : Prop where
  ordered : Ordered VirtPage.start VirtPage.stop l
  noWrap : ∀ g ∈ l, g.stop < 2 ^ 64

theorem VirtPage.pageEnd_eq {g : VirtPage} (h : g.stop < 2 ^ 64) : g.pageEnd = g.stop :=
  Nat.mod_eq_of_lt h

theorem wadd_eq {a b : Nat} (h : a + b < 2 ^ 64) : wadd a b = a + b := Nat.mod_eq_of_lt h

theorem wsub_eq {a b : Nat} (hb : b ≤ a) (ha : a < 2 ^ 64) : wsub a b = a - b := by
  unfold wsub
  omega

section Wf

variable {l pre old new post : List VirtPage} {g : VirtPage}

theorem wf_nil : Wf [] := ⟨ordered_nil, by simp⟩

theorem Wf.pageEnd (h : Wf l) (hg : g ∈ l) : g.pageEnd = g.stop :=
  g.pageEnd_eq (h.noWrap g hg)

theorem Wf.nonempty (h : Wf l) (hg : g ∈ l) : g.start < g.stop := h.ordered.1 g hg

theorem wf_mid : Wf (pre ++ g :: post) ↔
    Wf pre ∧ Wf post ∧ g.start < g.stop ∧ g.stop < 2 ^ 64 ∧
      Below VirtPage.stop pre g.start ∧ Above VirtPage.start post g.stop := by
  constructor
  · rintro ⟨ho, hw⟩
    obtain ⟨h₁, h₂, hg, hb, ha⟩ := ordered_mid.mp ho
    exact ⟨⟨h₁, fun x hx => hw x (by simp [hx])⟩, ⟨h₂, fun x hx => hw x (by simp [hx])⟩, hg,
      hw g (by simp), hb, ha⟩
  · rintro ⟨h₁, h₂, hg, hgw, hb, ha⟩
    refine ⟨ordered_mid.mpr ⟨h₁.ordered, h₂.ordered, hg, hb, ha⟩, fun x hx => ?_⟩
    simp only [List.mem_append, List.mem_cons] at hx
    rcases hx with hx | rfl | hx
    · exact h₁.noWrap x hx
    · exact hgw
    · exact h₂.noWrap x hx

theorem wf_cons : Wf (g :: post) ↔
    Wf post ∧ g.start < g.stop ∧ g.stop < 2 ^ 64 ∧ Above VirtPage.start post g.stop := by
  have h : Wf ([] ++ g :: post) ↔ _ := wf_mid
  simpa [wf_nil] using h

theorem Wf.left (h : Wf (pre ++ post)) : Wf pre :=
  ⟨h.ordered.left, fun g hg => h.noWrap g (List.mem_append_left _ hg)⟩

theorem Wf.right (h : Wf (pre ++ post)) : Wf post :=
  ⟨h.ordered.right, fun g hg => h.noWrap g (List.mem_append_right _ hg)⟩

/-- Local surgery: what replaces a stretch stays inside the stretch. -/
theorem Wf.replace (h : Wf (pre ++ old ++ post))
    (hnew : Ordered VirtPage.start VirtPage.stop new)
    (hlo : ∀ c ∈ new, ∃ a ∈ old, a.start ≤ c.start)
    (hhi : ∀ c ∈ new, ∃ b ∈ old, c.stop ≤ b.stop) : Wf (pre ++ new ++ post) := by
  refine ⟨h.ordered.replace hnew hlo hhi, fun g hg => ?_⟩
  simp only [List.mem_append] at hg
  rcases hg with (hg | hg) | hg
  · exact h.noWrap g (by simp [hg])
  · obtain ⟨b, hb, hle⟩ := hhi g hg
    exact Nat.lt_of_le_of_lt hle (h.noWrap b (by simp [hb]))
  · exact h.noWrap g (by simp [hg])

/-- A group may be replaced by one inside it. -/
theorem Wf.shrink {g' : VirtPage} (h : Wf (pre ++ g :: post)) (hlo : g.start ≤ g'.start)
    (hpos : g'.start < g'.stop) (hhi : g'.stop ≤ g.stop) : Wf (pre ++ g' :: post) := by
  obtain ⟨hpre, hpost, -, hw, hbelow, habove⟩ := wf_mid.mp h
  exact wf_mid.mpr ⟨hpre, hpost, hpos, by omega, hbelow.mono hlo, habove.mono hhi⟩

/-- A group may be left out. -/
theorem Wf.drop (h : Wf (pre ++ g :: post)) : Wf (pre ++ post) := by
  rw [← List.singleton_append, ← List.append_assoc] at h
  have hnil : Wf (pre ++ [] ++ post) := h.replace ordered_nil (by simp) (by simp)
  simpa using hnil

end Wf

/-! ## Nodes -/

/-- Every node the manager owns: in the operation's hands, in `pages`, or free. -/
def nodes (held : List Nat) (pm : PageManager) : List Nat :=
  held ++ pm.pages.map VirtPage.node ++ pm.freePages

structure Inv (held : List Nat) (pm : PageManager) : Prop where
  wf : Wf pm.pages
  unique : ∀ n, (nodes held pm).count n ≤ 1
  pooled : ∀ n ∈ nodes held pm, ∃ p ∈ pm.pools, p ≤ n ∧ n < p + 8192

theorem inv_empty : Inv [] {} := ⟨wf_nil, by simp [nodes], by simp [nodes]⟩

/-- A step that only moves nodes around, or drops some, keeps the node part. -/
theorem Inv.moved {held held' : List Nat} {pm pm' : PageManager} (h : Inv held pm)
    (hwf : Wf pm'.pages) (hpools : pm'.pools = pm.pools)
    (hcount : ∀ n, (nodes held' pm').count n ≤ (nodes held pm).count n) : Inv held' pm' := by
  refine ⟨hwf, fun n => Nat.le_trans (hcount n) (h.unique n), fun n hn => ?_⟩
  rw [hpools]
  refine h.pooled n (List.count_pos_iff.mp ?_)
  exact Nat.lt_of_lt_of_le (List.count_pos_iff.mpr hn) (hcount n)

section Nodes

variable {held : List Nat} {pm : PageManager} {pre post : List VirtPage} {g p : VirtPage}

/-- No other group uses the node of `g`. -/
theorem Inv.node_ne (h : Inv held pm) (hp : pm.pages = pre ++ g :: post) :
    (∀ x ∈ pre, x.node ≠ g.node) ∧ ∀ x ∈ post, x.node ≠ g.node := by
  have hone := h.unique g.node
  simp only [nodes, hp, List.map_append, List.map_cons, List.count_append, List.count_cons_self]
    at hone
  constructor
  · intro x hx heq
    have : 0 < (pre.map VirtPage.node).count g.node :=
      List.count_pos_iff.mpr (heq ▸ List.mem_map_of_mem hx)
    omega
  · intro x hx heq
    have : 0 < (post.map VirtPage.node).count g.node :=
      List.count_pos_iff.mpr (heq ▸ List.mem_map_of_mem hx)
    omega

theorem updateNode_of_ne {n : Nat} {f : VirtPage → VirtPage} {l : List VirtPage}
    (h : ∀ x ∈ l, x.node ≠ n) : updateNode n f l = l := by
  unfold updateNode
  conv_rhs => rw [← List.map_id l]
  exact List.map_congr_left fun x hx => by simp [h x hx]

theorem updateNode_mid (hpre : ∀ x ∈ pre, x.node ≠ g.node) (hpost : ∀ x ∈ post, x.node ≠ g.node)
    (f : VirtPage → VirtPage) : updateNode g.node f (pre ++ g :: post) = pre ++ f g :: post := by
  have hsplit : updateNode g.node f (pre ++ g :: post) =
      updateNode g.node f pre ++ f g :: updateNode g.node f post := by
    simp [updateNode]
  rw [hsplit, updateNode_of_ne hpre, updateNode_of_ne hpost]

theorem Inv.updateNode_mid (h : Inv held pm) (hp : pm.pages = pre ++ g :: post)
    (f : VirtPage → VirtPage) : updateNode g.node f pm.pages = pre ++ f g :: post := by
  obtain ⟨hpre, hpost⟩ := h.node_ne hp
  rw [hp, Secpoline.updateNode_mid hpre hpost]

theorem insertAfter_mid (hpre : ∀ x ∈ pre, x.node ≠ g.node) :
    insertAfter g.node p (pre ++ g :: post) = pre ++ g :: p :: post := by
  induction pre with
  | nil => simp [insertAfter]
  | cons x pre ih =>
      have hx : x.node ≠ g.node := hpre x (by simp)
      simp only [List.cons_append, insertAfter, if_neg hx]
      rw [ih fun y hy => hpre y (by simp [hy])]

theorem insertAfter_updateNode {f : VirtPage → VirtPage} (hf : (f g).node = g.node)
    (hpre : ∀ x ∈ pre, x.node ≠ g.node) (hpost : ∀ x ∈ post, x.node ≠ g.node) :
    insertAfter g.node p (updateNode g.node f (pre ++ g :: post)) = pre ++ f g :: p :: post := by
  rw [updateNode_mid hpre hpost, ← hf]
  exact insertAfter_mid (hf ▸ hpre)

theorem next_of_node (hpre : ∀ x ∈ pre, x.node ≠ g.node) :
    ((pre ++ g :: post).dropWhile fun h => h.node ≠ g.node).tail.head? = post.head? := by
  rw [List.dropWhile_append_of_pos (by simpa using hpre)]
  simp

end Nodes

/-! ## Linking a group -/

/-- A positive answer of `virt_page_overlap` is an overlap. -/
theorem virtPageOverlap_pos {g : VirtPage} {start size : Nat} (hg : g.stop < 2 ^ 64)
    (hs : start + size < 2 ^ 64) :
    virtPageOverlap g start size > 0 ↔ g.start < start + size ∧ start < g.stop := by
  unfold virtPageOverlap
  rw [g.pageEnd_eq hg, wadd_eq hs]
  dsimp only
  split
  · constructor <;> intro h
    · exact absurd h (by decide)
    · omega
  · split
    · constructor <;> intro h
      · exact absurd h (by decide)
      · omega
    · split_ifs <;> constructor <;> intro h <;> omega

theorem virtPageOverlap_nonneg (g : VirtPage) (start size : Nat) :
    0 ≤ virtPageOverlap g start size := by
  unfold virtPageOverlap
  dsimp only
  split_ifs <;> decide

/-- What a call that links `p` into `l` can do. -/
def Linked (p : VirtPage) (l : List VirtPage) (r : Int) (l' : List VirtPage) : Prop :=
  (r = -1 ∧ l' = l) ∨
    (r = 0 ∧ ∃ a b, l = a ++ b ∧ l' = a ++ p :: b ∧
      Below VirtPage.stop a p.start ∧ Above VirtPage.start b p.stop)

theorem linkLoop_cases {mapFixed : Bool} {p : VirtPage} {l l' : List VirtPage} {r : Int}
    (hl : Wf l) (hp : p.stop < 2 ^ 64) (hpos : p.start < p.stop)
    (hhead : ∀ x ∈ l.head?, x.start < p.stop)
    (h : linkLoop mapFixed p l = some (r, l')) : Linked p l r l' := by
  induction l generalizing r l' with
  | nil => simp [linkLoop] at h
  | cons cur rest ih =>
      obtain ⟨hrest, -, hcur, habove⟩ := wf_cons.mp hl
      have hcurp : cur.start < p.stop := hhead cur (by simp)
      -- No overlap is reported, and the current group starts before `p` ends.
      have hclear (hno : ¬ (cur.start < p.start + p.size ∧ p.start < cur.stop)) :
          cur.stop ≤ p.start := by
        by_contra hlt
        exact hno ⟨hcurp, by omega⟩
      match rest with
      | [] =>
          simp only [linkLoop, virtPageOverlap_pos hcur hp] at h
          split at h
          · split at h <;> cases h
            exact .inl ⟨rfl, rfl⟩
          · rename_i hno
            cases h
            exact .inr ⟨rfl, [cur], [], rfl, rfl, by simpa using hclear hno, above_nil⟩
      | next :: rest =>
          simp only [linkLoop, virtPageOverlap_pos hcur hp, wadd_eq hp] at h
          split at h
          · cases h
          rename_i hno
          split at h
          · rename_i hge
            obtain ⟨⟨r', l''⟩, hrec, heq⟩ := Option.map_eq_some_iff.mp h
            cases heq
            have hnext : ∀ x ∈ (next :: rest).head?, x.start < p.stop := by
              simp only [List.head?_cons, Option.mem_def, Option.some.injEq]
              rintro x rfl
              omega
            rcases ih hrest hnext hrec with ⟨rfl, rfl⟩ | ⟨rfl, a, b, hab, rfl, hbelow, hafter⟩
            · exact .inl ⟨rfl, rfl⟩
            · exact .inr ⟨rfl, cur :: a, b, by simp [hab], rfl,
                below_cons.mpr ⟨hclear hno, hbelow⟩, hafter⟩
          · split at h
            · split at h <;> cases h
              exact .inl ⟨rfl, rfl⟩
            · rename_i hle
              cases h
              refine .inr ⟨rfl, [cur], next :: rest, rfl, rfl, by simpa using hclear hno, ?_⟩
              obtain ⟨-, -, -, hnext⟩ := wf_cons.mp hrest
              have hnn := hrest.nonempty (g := next) (by simp)
              have hpn : p.stop ≤ next.start := Nat.le_of_not_lt hle
              exact above_cons.mpr ⟨hpn, hnext.mono (by omega)⟩

theorem linkPage_cases {mapFixed : Bool} {p : VirtPage} {l l' : List VirtPage} {r : Int}
    (hl : Wf l) (hp : p.stop < 2 ^ 64) (hpos : p.start < p.stop)
    (h : linkPage mapFixed p l = some (r, l')) : Linked p l r l' := by
  match l with
  | [] =>
      cases h
      exact .inr ⟨rfl, [], [], rfl, rfl, below_nil, above_nil⟩
  | head :: rest =>
      simp only [linkPage, wadd_eq hp] at h
      split at h
      · rename_i hge
        cases h
        obtain ⟨-, hpos', -, habove⟩ := wf_cons.mp hl
        have hph : p.stop ≤ head.start := hge
        exact .inr ⟨rfl, [], head :: rest, rfl, rfl, below_nil,
          above_cons.mpr ⟨hph, habove.mono (by omega)⟩⟩
      · rename_i hlt
        refine linkLoop_cases hl hp hpos ?_ h
        simp only [List.head?_cons, Option.mem_def, Option.some.injEq]
        rintro x rfl
        exact Nat.lt_of_not_le hlt

/-- Linking `p` between the two halves it was compared with. -/
theorem Wf.link {a b : List VirtPage} {p : VirtPage} (h : Wf (a ++ b))
    (hp : p.stop < 2 ^ 64) (hpos : p.start < p.stop)
    (hbelow : Below VirtPage.stop a p.start) (habove : Above VirtPage.start b p.stop) :
    Wf (a ++ p :: b) :=
  wf_mid.mpr ⟨h.left, h.right, hpos, hp, hbelow, habove⟩

/-! ## Taking a node -/

/-- The group a refill adds for the pool at `mm`. -/
def poolGroup (mm : Nat) : VirtPage :=
  { start := mm, size := 8192, prot := PROT_READ ||| PROT_WRITE, flags := TS_MONITOR,
    cid := 3, node := mm + 64 * 127 }

@[simp] theorem poolGroup_start (mm : Nat) : (poolGroup mm).start = mm := rfl

@[simp] theorem poolGroup_stop (mm : Nat) : (poolGroup mm).stop = mm + 8192 := rfl

/-- The kernel gives a refill memory that is not in use: away from every pool
mapped before, and not at the end of the address space. -/
structure FreshPool (pools : List Nat) (mm : Nat) : Prop where
  bound : mm + 8192 < 2 ^ 64
  apart : ∀ p ∈ pools, mm + 8192 ≤ p ∨ p + 8192 ≤ mm

/-- It is also away from every group tracked at that moment. -/
structure Fresh (pm : PageManager) (mm : Nat) : Prop where
  pool : FreshPool pm.pools mm
  groups : ∀ g ∈ pm.pages, mm + 8192 ≤ g.start ∨ g.stop ≤ mm

theorem refillFreeList_cases {held : List Nat} {mm : Nat} {pm pm' : PageManager}
    (hi : Inv held pm) (hbound : mm + 8192 < 2 ^ 64)
    (h : refillFreeList mm pm = some pm') :
    pm'.freePages = poolNodes mm ++ pm.freePages ∧ pm'.pools = mm :: pm.pools ∧
      ∃ a b, pm.pages = a ++ b ∧ pm'.pages = a ++ poolGroup mm :: b ∧ Wf pm'.pages := by
  simp only [refillFreeList] at h
  split at h
  · cases h
  split at h
  · rename_i pages hlink
    cases h
    have hlinked := linkPage_cases (p := poolGroup mm) hi.wf hbound
      (by simp) hlink
    rcases hlinked with ⟨hr, -⟩ | ⟨-, a, b, hab, rfl, hbelow, habove⟩
    · exact absurd hr (by decide)
    · refine ⟨rfl, rfl, a, b, hab, rfl, ?_⟩
      exact (hab ▸ hi.wf).link hbound (by simp) hbelow habove
  · cases h

theorem poolNodes_count (mm n : Nat) : (poolNodes mm).count n ≤ 1 := by
  refine List.nodup_iff_count_le_one.mp ?_ n
  refine List.Nodup.map (fun i j hij => ?_) List.nodup_range
  omega

theorem mem_poolNodes {mm n : Nat} (h : n ∈ poolNodes mm) : mm ≤ n ∧ n < mm + 64 * 127 := by
  simp only [poolNodes, List.mem_map, List.mem_range] at h
  obtain ⟨i, hi, rfl⟩ := h
  omega

/-- After a refill the new nodes are the pool's, and no old node was there. -/
theorem Inv.refill {held : List Nat} {mm : Nat} {pm pm' : PageManager} {a b : List VirtPage}
    (hi : Inv held pm) (hmm : FreshPool pm.pools mm)
    (hfree : pm'.freePages = poolNodes mm ++ pm.freePages)
    (hpool : pm'.pools = mm :: pm.pools) (hab : pm.pages = a ++ b)
    (hpages : pm'.pages = a ++ poolGroup mm :: b) (hwf : Wf pm'.pages) : Inv held pm' := by
  have hcount (n : Nat) : (nodes held pm').count n =
      (nodes held pm).count n + (poolNodes mm).count n + if mm + 64 * 127 = n then 1 else 0 := by
    simp only [nodes, hfree, hab, hpages, poolGroup, List.map_append, List.map_cons,
      List.count_append, List.count_cons, beq_iff_eq]
    omega
  have hold (n : Nat) (hn : n ∈ nodes held pm) : n < mm ∨ mm + 8192 ≤ n := by
    obtain ⟨p, hp, hpn, hnp⟩ := hi.pooled n hn
    rcases hmm.apart p hp with h | h <;> omega
  refine ⟨hwf, fun n => ?_, fun n hn => ?_⟩
  · rw [hcount]
    have hone := hi.unique n
    have hpone := poolNodes_count mm n
    by_cases hin : n ∈ nodes held pm
    · have hout := hold n hin
      have : (poolNodes mm).count n = 0 := by
        refine List.count_eq_zero.mpr fun hm => ?_
        have := mem_poolNodes hm
        omega
      rw [if_neg (by omega)]
      omega
    · rw [List.count_eq_zero.mpr hin]
      by_cases hlast : mm + 64 * 127 = n
      · have : (poolNodes mm).count n = 0 := by
          refine List.count_eq_zero.mpr fun hm => ?_
          have := mem_poolNodes hm
          omega
        rw [if_pos hlast]
        omega
      · rw [if_neg hlast]
        omega
  · have hpos := List.count_pos_iff.mpr hn
    rw [hcount] at hpos
    rw [hpool]
    by_cases hin : n ∈ nodes held pm
    · obtain ⟨p, hp, hpn⟩ := hi.pooled n hin
      exact ⟨p, by simp [hp], hpn⟩
    · refine ⟨mm, by simp, ?_⟩
      rw [List.count_eq_zero.mpr hin] at hpos
      by_cases hm : n ∈ poolNodes mm
      · have := mem_poolNodes hm
        omega
      · rw [List.count_eq_zero.mpr hm] at hpos
        split at hpos <;> omega

/-- The address is in the pool that a refill added between the two states. -/
def PoolAt (pools pools' : List Nat) (x : Nat) (q : Attr) : Prop :=
  ∃ mm, pools' = mm :: pools ∧ mm ≤ x ∧ x < mm + 8192 ∧ q = (poolGroup mm).attr

@[simp] theorem not_poolAt_self {pools : List Nat} {x : Nat} {q : Attr} :
    ¬ PoolAt pools pools x q := by
  rintro ⟨mm, h, -⟩
  exact absurd h.symm (List.cons_ne_self mm pools)

theorem poolAt_cons {pools : List Nat} {mm x : Nat} {q : Attr} :
    PoolAt pools (mm :: pools) x q ↔ mm ≤ x ∧ x < mm + 8192 ∧ (poolGroup mm).attr = q := by
  constructor
  · rintro ⟨mm', h, hx⟩
    cases h
    exact ⟨hx.1, hx.2.1, hx.2.2.symm⟩
  · rintro ⟨h₁, h₂, rfl⟩
    exact ⟨mm, rfl, h₁, h₂, rfl⟩

/-- Taking a node does nothing to the list, or links the new pool. -/
structure Refill (mm : Nat) (pm pm' : PageManager) : Prop where
  mem : ∀ g, g ∈ pm'.pages ↔ g ∈ pm.pages ∨ (pm.freePages = [] ∧ g = poolGroup mm)
  tracked : ∀ x q, Tracked pm'.pages x q ↔ Tracked pm.pages x q ∨ PoolAt pm.pools pm'.pools x q
  /-- Either nothing happened, or the free list was empty and is not now. -/
  once : (pm'.pages = pm.pages ∧ pm'.pools = pm.pools ∧ pm.freePages ≠ []) ∨
    (pm.freePages = [] ∧ pm'.freePages ≠ [] ∧ pm'.pools = mm :: pm.pools)

/-- One spec for `virt_page_alloc`; freshness is needed only for a refill. -/
theorem virtPageAlloc_spec {held : List Nat} {mm n : Nat} {pm pm' : PageManager}
    (hi : Inv held pm) (hmm : pm.freePages = [] → FreshPool pm.pools mm)
    (h : virtPageAlloc mm pm = some (n, pm')) : Inv (n :: held) pm' ∧ Refill mm pm pm' := by
  unfold virtPageAlloc at h
  split at h
  · rename_i m rest hfree
    cases h
    refine ⟨hi.moved hi.wf rfl fun x => ?_, ?_, ?_, .inl ⟨rfl, rfl, by simp [hfree]⟩⟩
    · simp only [nodes, hfree, List.count_append, List.count_cons]
      omega
    · simp [hfree]
    · simp
  · rename_i hfree
    split at h
    · cases h
    rename_i pm₁ hre
    obtain ⟨hf₁, hp₁, a, b, hab, hpages, hwf⟩ := refillFreeList_cases hi (hmm hfree).bound hre
    have hi₁ := hi.refill (hmm hfree) hf₁ hp₁ hab hpages hwf
    split at h
    · rename_i m rest hfree₁
      cases h
      have hrest : rest ≠ [] := by
        rintro rfl
        have hlen := congrArg List.length (hfree₁.symm.trans hf₁)
        simp [poolNodes, hfree] at hlen
      refine ⟨hi₁.moved hi₁.wf rfl fun x => ?_, fun g => ?_, fun x q => ?_,
        .inr ⟨hfree, hrest, hp₁⟩⟩
      · simp only [nodes, hfree₁, List.count_append, List.count_cons]
        omega
      · simp only [hpages, hab, hfree, List.mem_append, List.mem_cons, true_and]
        grind
      · simp only [hpages, hab, hp₁, poolAt_cons, at_append, at_cons, poolGroup_start,
          poolGroup_stop]
        grind
    · cases h

end Secpoline
