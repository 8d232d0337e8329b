import Secpoline.Proofs.PageList

/-!
# What a call of the page manager can do

The ways through `remove_page`, `add_page`, `update_mprotect` and `update_size` that return, with
what each of them tests, answers and leaves. Nothing is assumed of the list, and ends of ranges
and groups are words. A call that answers -1 or -2 has not found what it was to work on.
-/

namespace Secpoline

def PageCall.cid : PageCall → Int
  | .addPage _ _ _ _ cid _ | .removePage _ _ cid | .updateMprotect _ _ _ cid
  | .updateSize _ _ _ cid => cid

section
variable {mm n stop : Nat} {pm pm' : PageManager} {start size oldSize newSize : Nat} {prot : Prot}
  {flags cid r : Int} {multithreaded mapFixed : Bool} {p : VirtPage} {l l' : List VirtPage}

/-! ## Taking a node -/

theorem insertAfter_sublist : l.Sublist (insertAfter n p l) := by
  induction l with
  | nil => exact .slnil
  | cons x rest ih =>
      rw [insertAfter]
      split
      · exact (List.sublist_cons_self p rest).cons_cons x
      · exact ih.cons_cons x

/-- A group is linked somewhere between the others, or refused. -/
inductive Linking (p : VirtPage) (l : List VirtPage) : Int → List VirtPage → Prop where
  | refused : Linking p l (-1) l
  | linked (a b : List VirtPage) (hab : l = a ++ b) : Linking p l 0 (a ++ p :: b)

theorem linkLoop_ways (h : linkLoop mapFixed p l = some (r, l')) : Linking p l r l' := by
  induction l generalizing r l' with
  | nil => cases h
  | cons cur rest ih =>
      cases rest with
      | nil =>
          rw [linkLoop] at h
          split at h
          · split at h <;> cases h
            exact .refused
          · cases h
            exact .linked [cur] [] rfl
      | cons next rest =>
          rw [linkLoop] at h
          split at h
          · cases h
          split at h
          · obtain ⟨⟨r', l₁⟩, hl₁, heq⟩ := Option.map_eq_some_iff.mp h
            cases heq
            cases ih hl₁ with
            | refused => exact .refused
            | linked a b hab => exact .linked (cur :: a) b (congrArg (cur :: ·) hab)
          split at h
          · split at h <;> cases h
            exact .refused
          · cases h
            exact .linked [cur] (next :: rest) rfl

theorem linkPage_ways (h : linkPage mapFixed p l = some (r, l')) : Linking p l r l' := by
  cases l with
  | nil =>
      cases h
      exact .linked [] [] rfl
  | cons head rest =>
      rw [linkPage] at h
      split at h
      · cases h
        exact .linked [] (head :: rest) rfl
      · exact linkLoop_ways h

theorem Linking.sublist (h : Linking p l r l') : l.Sublist l' := by
  cases h with
  | refused => exact .refl l
  | linked a b hab =>
      rw [hab]
      exact (List.sublist_cons_self p b).append_left a

theorem Linking.mem (h : Linking p l 0 l') : p ∈ l' := by
  cases h with
  | linked a b => exact List.mem_append_right a List.mem_cons_self

theorem Linking.mem_or {x : VirtPage} (h : Linking p l r l') (hx : x ∈ l') : x = p ∨ x ∈ l := by
  cases h with
  | refused => exact .inr hx
  | linked a b hab =>
      rw [hab]
      simpa [or_left_comm] using hx

/-- A node comes from the free list, or from a new pool, whose own group is linked. -/
inductive Taking (mm : Nat) (pm : PageManager) : Nat → PageManager → Prop where
  | free (n : Nat) (rest : List Nat) (hfree : pm.freePages = n :: rest) :
      Taking mm pm n { pm with freePages := rest }
  | refill (hfree : pm.freePages = []) (l : List VirtPage)
      (hlink : Linking (poolGroup mm) pm.pages 0 l)
      (n : Nat) (rest : List Nat) (hrest : rest ≠ []) :
      Taking mm pm n { pm with
        pages := l
        freePages := rest
        pools := mm :: pm.pools }

theorem virtPageAlloc_ways (h : virtPageAlloc mm pm = some (n, pm')) : Taking mm pm n pm' := by
  unfold virtPageAlloc at h
  split at h
  · rename_i m rest hfree
    cases h
    exact .free _ rest hfree
  · rename_i hfree
    split at h
    · cases h
    rename_i pm₁ hrefill
    unfold refillFreeList at hrefill
    split at hrefill
    · cases hrefill
    split at hrefill <;> cases hrefill
    rename_i pages hlink
    cases h
    exact .refill hfree pages (linkPage_ways hlink) _ _ (by simp [hfree])

/-- No group goes away. -/
theorem virtPageAlloc_keeps (h : virtPageAlloc mm pm = some (n, pm')) :
    pm.pages.Sublist pm'.pages := by
  cases virtPageAlloc_ways h with
  | free => exact .refl _
  | refill _ _ hlink => exact hlink.sublist

/-! ## remove_page -/

inductive Removal (mm : Nat) (pm : PageManager) (start size : Nat) (cid : Int) :
    Int → PageManager → Prop where
  | refused : Removal mm pm start size cid (-1) pm
  /-- The range lies in one group behind the head of the list. -/
  | inside (hs : start % 4096 = 0) (hpos : roundUp size ≠ 0) (head : VirtPage)
      (rest pre : List VirtPage) (g : VirtPage) (post : List VirtPage)
      (hpages : pm.pages = head :: rest) (hhead : head.pageEnd ≤ start)
      (hfind : findStart start (wadd start (roundUp size)) cid rest = .range pre [] g post)
      (r : Int)
      (pm' : PageManager)
      (h : removeInside mm start (wadd start (roundUp size)) pm (head :: pre) g post =
        some (r, pm')) :
      Removal mm pm start size cid r pm'
  | across (hs : start % 4096 = 0) (hpos : roundUp size ≠ 0) (head : VirtPage)
      (rest pre : List VirtPage) (first : VirtPage) (mid : List VirtPage) (last : VirtPage)
      (post : List VirtPage) (hpages : pm.pages = head :: rest) (hhead : head.pageEnd ≤ start)
      (hfind : findStart start (wadd start (roundUp size)) cid rest =
        .range pre (first :: mid) last post) (r : Int) (pm' : PageManager)
      (h : removeAcross start (wadd start (roundUp size)) pm (head :: pre) first mid last post =
        (r, pm')) : Removal mm pm start size cid r pm'

theorem removePageLocked_ways (h : removePageLocked mm pm start size cid = some (r, pm')) :
    Removal mm pm start size cid r pm' := by
  unfold removePageLocked at h
  split at h
  · cases h
    exact .refused
  · cases h
    exact .refused
  rename_i head second rest hpages
  dsimp only at h
  split at h
  · cases h
  rename_i hs
  split at h
  · cases h
    exact .refused
  rename_i hpos
  split at h
  · cases h
    exact .refused
  rename_i hhead
  split at h
  · split at h <;> cases h
    exact .refused
  split at h
  · cases h
    exact .refused
  · cases h
  · rename_i pre g post hfind
    exact .inside (Decidable.not_not.mp hs) hpos head _ pre g post hpages (Nat.le_of_not_lt hhead)
      hfind r pm' h
  · rename_i pre first mid last post hfind
    exact .across (Decidable.not_not.mp hs) hpos head _ pre first mid last post hpages
      (Nat.le_of_not_lt hhead) hfind r pm' (Option.some.inj h)

theorem findEnd_split {before after : List VirtPage} {last : VirtPage}
    (he : findEnd stop cid l = .range before last after) : l = before ++ last :: after := by
  induction l generalizing before with
  | nil => cases he
  | cons next rest ih =>
      unfold findEnd at he
      split at he
      · cases he
      · split at he
        · split at he <;> cases he
          rfl
        · split at he
          · cases he
          · rename_i nextNext tail
            split at he
            · cases he
            · split at he
              · rename_i b la af hf
                cases he
                rw [ih hf]
                rfl
              · rename_i hno
                exact absurd he (hno _ _ _)

theorem findStart_split {pre before after : List VirtPage} {last : VirtPage}
    (he : findStart start stop cid l = .range pre before last after) :
    l = pre ++ (before ++ last :: after) := by
  induction l generalizing pre with
  | nil => cases he
  | cons next rest ih =>
      rw [findStart] at he
      split at he
      · cases he
      · split at he
        · split at he
          · cases he
          · split at he <;> cases he
            rename_i hf
            rw [findEnd_split hf]
            rfl
        · split at he
          · rename_i hf
            cases he
            rw [ih hf]
            rfl
          · rename_i hno
            exact absurd he (hno _ _ _ _)

/-- The head of the list stays, and either there is something behind it or a node has
been freed. -/
theorem removeAcross_left {pre mid post : List VirtPage} {head first last : VirtPage}
    (h : removeAcross start stop pm (head :: pre) first mid last post = (r, pm')) :
    pm'.pools = pm.pools ∧
      ∃ rest, pm'.pages = head :: rest ∧ (rest = [] → pm'.freePages ≠ []) := by
  simp only [removeAcross] at h
  split at h
  · cases h
    exact ⟨rfl, _, rfl, fun _ => by simp⟩
  · cases h
    exact ⟨rfl, _, rfl, fun hnil => by simp at hnil⟩

/-- The removal that a fixed mapping makes first. -/
def removeFirst (multithreaded : Bool) (mm : Nat) (pm : PageManager) (start size : Nat) (cid : Int)
    (mapFixed : Bool) : Option (Int × PageManager) :=
  if mapFixed then
    if multithreaded then removePageLocked mm pm start size cid
    else removePageMapFixedLocked mm pm start size cid
  else some (0, pm)

inductive Addition (multithreaded : Bool) (mm : Nat) (pm : PageManager) (start size : Nat)
    (prot : Prot) (flags cid : Int) (mapFixed : Bool) : Int → PageManager → Prop where
  /-- What is there cannot be removed. -/
  | blocked (hs : start % 4096 = 0) (n : Nat) (pm₁ : PageManager)
      (ha : virtPageAlloc mm pm = some (n, pm₁)) (hfixed : mapFixed = true) (pm₂ : PageManager)
      (hrem : removeFirst multithreaded mm pm₁ start (roundUp size) cid mapFixed = some (-1, pm₂)) :
      Addition multithreaded mm pm start size prot flags cid mapFixed (-1) (virtPageFree n pm₂)
  /-- The new group is linked, or it meets another one. -/
  | links (hs : start % 4096 = 0) (n : Nat) (pm₁ : PageManager)
      (ha : virtPageAlloc mm pm = some (n, pm₁)) (ret : Int) (pm₂ : PageManager)
      (hrem : removeFirst multithreaded mm pm₁ start (roundUp size) cid mapFixed = some (ret, pm₂))
      (hret : ¬ (mapFixed = true ∧ ret = -1)) (r : Int) (l : List VirtPage)
      (hlink : linkPage mapFixed ⟨start, roundUp size, prot, flags, cid, n⟩ pm₂.pages =
        some (r, l)) :
      Addition multithreaded mm pm start size prot flags cid mapFixed r
        (if r = -1 then virtPageFree n { pm₂ with pages := l } else { pm₂ with pages := l })

theorem addPage_ways
    (h : addPage multithreaded mm pm start size prot flags cid mapFixed = some (r, pm')) :
    Addition multithreaded mm pm start size prot flags cid mapFixed r pm' := by
  unfold addPage at h
  split at h
  · cases h
  rename_i n pm₁ ha
  split at h
  · cases h
  rename_i ret pm₂ hlocked
  unfold addPageLocked at hlocked
  dsimp only at hlocked
  split at hlocked
  · cases hlocked
  rename_i hs
  split at hlocked
  · cases hlocked
  rename_i ret₁ pm₃ hrem
  split at hlocked
  · rename_i hblocked
    obtain ⟨hfixed, rfl⟩ := hblocked
    cases hlocked
    cases h
    exact .blocked (Decidable.not_not.mp hs) n pm₁ ha hfixed _ hrem
  · rename_i hret
    obtain ⟨⟨r', l⟩, hlink, heq⟩ := Option.map_eq_some_iff.mp hlocked
    cases heq
    have hres : some (r', if r' = -1 then virtPageFree n { pm₃ with pages := l }
        else { pm₃ with pages := l }) = some (r, pm') := by
      rw [← h]
      split <;> rfl
    cases hres
    exact .links (Decidable.not_not.mp hs) n pm₁ ha ret₁ pm₃ hrem hret _ l hlink

theorem addPage_aligned
    (h : addPage multithreaded mm pm start size prot flags cid mapFixed = some (r, pm')) :
    start % 4096 = 0 := by
  cases addPage_ways h with
  | blocked hs => exact hs
  | links hs => exact hs

/-! ## update_mprotect -/

theorem lookupAddr_some {addr : Nat} {g : VirtPage} (h : lookupAddr pm addr cid = some g) :
    g ∈ pm.pages ∧ g.start ≤ addr ∧ addr < g.pageEnd ∧ (cid = -1 ∨ g.cid = cid) := by
  have hg := List.find?_some h
  simp only [virtPageOverlapByte, Bool.and_eq_true, Bool.or_eq_true, decide_eq_true_eq,
    beq_iff_eq] at hg
  exact ⟨List.mem_of_find?_eq_some h, hg.1.1, hg.1.2, hg.2⟩

/-- The ways through the last branch of `update_mprotect`. -/
inductive Replacement (mm : Nat) (pm : PageManager) (start size : Nat) (prot : Prot) (cid : Int) :
    Int → PageManager → Prop where
  | refused (pm₁ : PageManager) (hrem : removePageLocked mm pm start size cid = some (-1, pm₁)) :
      Replacement mm pm start size prot cid (-1) pm₁
  /-- The new group is the last one. -/
  | ends (ret : Int) (pm₁ : PageManager)
      (hrem : removePageLocked mm pm start size cid = some (ret, pm₁)) (hret : ret ≠ -1)
      (cur : VirtPage) (hplace : mprotectPlace start pm₁.pages = some (cur, none)) (n : Nat)
      (pm₂ : PageManager) (ha : virtPageAlloc mm pm₁ = some (n, pm₂)) :
      Replacement mm pm start size prot cid 0
        { pm₂ with pages := endAfter cur.node ⟨start, size, prot, cur.flags, cid, n⟩ pm₂.pages }
  | links (ret : Int) (pm₁ : PageManager)
      (hrem : removePageLocked mm pm start size cid = some (ret, pm₁)) (hret : ret ≠ -1)
      (cur next : VirtPage) (hplace : mprotectPlace start pm₁.pages = some (cur, some next))
      (hclear : virtPageOverlap next start size = 0) (n : Nat) (pm₂ : PageManager)
      (ha : virtPageAlloc mm pm₁ = some (n, pm₂)) :
      Replacement mm pm start size prot cid 0
        { pm₂ with pages := insertAfter cur.node ⟨start, size, prot, cur.flags, cid, n⟩ pm₂.pages }

theorem mprotectAcross_ways (h : mprotectAcross mm pm start size prot cid = some (r, pm')) :
    Replacement mm pm start size prot cid r pm' := by
  unfold mprotectAcross at h
  split at h
  · cases h
  rename_i ret pm₁ hrem
  split at h
  · rename_i hret
    cases h
    exact .refused _ (hret ▸ hrem)
  rename_i hret
  split at h
  · cases h
  · rename_i cur hplace
    split at h
    · cases h
    rename_i n pm₂ ha
    cases h
    exact .ends ret pm₁ hrem hret cur hplace n pm₂ ha
  · rename_i cur next hplace
    split at h
    · cases h
    rename_i hclear
    split at h
    · cases h
    rename_i n pm₂ ha
    cases h
    exact .links ret pm₁ hrem hret cur next hplace (Decidable.not_not.mp hclear) n pm₂ ha

/-- `g` is the group in which the range begins, and it is the caller's. -/
inductive ProtUpdate (mm : Nat) (pm : PageManager) (start size : Nat) (prot : Prot) (cid : Int) :
    Int → PageManager → Prop where
  | refused : ProtUpdate mm pm start size prot cid (-1) pm
  | whole (g : VirtPage) (hg : lookupAddr pm start cid = some g) (hcid : g.cid = cid)
      (hin : start = g.start ∧ wadd start size = g.pageEnd) :
      ProtUpdate mm pm start size prot cid 0
        { pm with pages := updateNode g.node (fun g => { g with prot := prot }) pm.pages }
  | front (g : VirtPage) (hg : lookupAddr pm start cid = some g) (hcid : g.cid = cid)
      (hin : start = g.start ∧ wadd start size < g.pageEnd) (n : Nat) (pm₁ : PageManager)
      (ha : virtPageAlloc mm pm = some (n, pm₁)) :
      ProtUpdate mm pm start size prot cid 0
        { pm₁ with
          pages :=
            insertAfter g.node
              { g with
                cid := cid
                start := wadd start size
                size := wsub g.pageEnd (wadd start size)
                node := n }
              (updateNode g.node (fun g => { g with prot := prot, size := size }) pm₁.pages) }
  | back (g : VirtPage) (hg : lookupAddr pm start cid = some g) (hcid : g.cid = cid)
      (hin : start > g.start ∧ wadd start size = g.pageEnd) (n : Nat) (pm₁ : PageManager)
      (ha : virtPageAlloc mm pm = some (n, pm₁)) :
      ProtUpdate mm pm start size prot cid 0
        { pm₁ with
          pages :=
            insertAfter g.node ⟨start, size, prot, g.flags, cid, n⟩
              (updateNode g.node (fun g => { g with size := wsub start g.start }) pm₁.pages) }
  | middle (g : VirtPage) (hg : lookupAddr pm start cid = some g) (hcid : g.cid = cid)
      (hin : start > g.start ∧ wadd start size < g.pageEnd) (n₁ : Nat) (pm₁ : PageManager)
      (ha₁ : virtPageAlloc mm pm = some (n₁, pm₁)) (n₂ : Nat) (pm₂ : PageManager)
      (ha₂ : virtPageAlloc mm pm₁ = some (n₂, pm₂)) :
      ProtUpdate mm pm start size prot cid 0
        { pm₂ with
          pages :=
            insertAfter g.node ⟨start, size, prot, g.flags, cid, n₁⟩
              (insertAfter g.node
                { g with
                  cid := cid
                  start := wadd start size
                  size := wsub g.pageEnd (wadd start size)
                  node := n₂ }
                (updateNode g.node (fun g => { g with size := wsub start g.start }) pm₂.pages)) }
  | across (g : VirtPage) (hg : lookupAddr pm start cid = some g) (hcid : g.cid = cid) (r : Int)
      (pm' : PageManager) (h : Replacement mm pm start size prot cid r pm') :
      ProtUpdate mm pm start size prot cid r pm'

/-- The branches are taken one by one, since each of them is large. -/
theorem updateMprotect_ways (h : updateMprotect mm pm start size prot cid = some (r, pm')) :
    ProtUpdate mm pm start size prot cid r pm' := by
  unfold updateMprotect at h
  by_cases hempty : pm.pages = []
  · rw [if_pos hempty] at h
    cases h
    exact .refused
  rw [if_neg hempty] at h
  cases hg : lookupAddr pm start cid with
  | none =>
      rw [hg] at h
      cases h
      exact .refused
  | some g =>
      rw [hg] at h
      dsimp only at h
      by_cases hcid : g.cid = cid
      swap
      · rw [if_pos hcid] at h
        cases h
        exact .refused
      rw [if_neg (not_not.mpr hcid)] at h
      by_cases hrefused : size = 0 ∨ wadd start size < start ∨ start < g.start ∨ start ≥ g.pageEnd
      · have hsame : (-1, pm) = (r, pm') := by
          rcases hrefused with hsize | hwrap | hout
          · rw [if_pos hsize] at h
            exact Option.some.inj h
          · rw [if_pos hwrap, ite_self] at h
            exact Option.some.inj h
          · rw [if_pos hout, ite_self, ite_self] at h
            exact Option.some.inj h
        cases hsame
        exact .refused
      · obtain ⟨hsize, hwrap, hout⟩ := not_or.mp hrefused |>.imp_right not_or.mp
        rw [if_neg hsize, if_neg hwrap, if_neg hout] at h
        by_cases hwhole : start = g.start ∧ wadd start size = g.pageEnd
        · rw [if_pos hwhole] at h
          cases h
          exact .whole g hg hcid hwhole
        rw [if_neg hwhole] at h
        by_cases hfront : start = g.start ∧ wadd start size < g.pageEnd
        · rw [if_pos hfront] at h
          cases ha : virtPageAlloc mm pm with
          | none =>
              rw [ha] at h
              cases h
          | some y =>
              rw [ha] at h
              cases h
              exact .front g hg hcid hfront y.1 y.2 ha
        rw [if_neg hfront] at h
        by_cases hback : start > g.start ∧ wadd start size = g.pageEnd
        · rw [if_pos hback] at h
          cases ha : virtPageAlloc mm pm with
          | none =>
              rw [ha] at h
              cases h
          | some y =>
              rw [ha] at h
              cases h
              exact .back g hg hcid hback y.1 y.2 ha
        rw [if_neg hback] at h
        by_cases hmiddle : start > g.start ∧ wadd start size < g.pageEnd
        · rw [if_pos hmiddle] at h
          cases ha₁ : virtPageAlloc mm pm with
          | none =>
              rw [ha₁] at h
              cases h
          | some y =>
              rw [ha₁] at h
              dsimp only at h
              cases ha₂ : virtPageAlloc mm y.2 with
              | none =>
                  rw [ha₂] at h
                  cases h
              | some z =>
                  rw [ha₂] at h
                  cases h
                  exact .middle g hg hcid hmiddle y.1 y.2 ha₁ z.1 z.2 ha₂
        · rw [if_neg hmiddle] at h
          exact .across g hg hcid r pm' (mprotectAcross_ways h)

/-! ## update_size -/

/-- The group behind the one with this node. -/
def behind (pm : PageManager) (node : Nat) : Option VirtPage :=
  (pm.pages.dropWhile fun h => h.node ≠ node).tail.head?

inductive SizeUpdate (mm : Nat) (pm : PageManager) (start oldSize newSize : Nat) (cid : Int) :
    Int → PageManager → Prop where
  | missing (h : lookupAddr pm start cid = none) :
      SizeUpdate mm pm start oldSize newSize cid (-1) pm
  | same (g : VirtPage) (hg : lookupAddr pm start cid = some g) (h : oldSize = newSize) :
      SizeUpdate mm pm start oldSize newSize cid 0 pm
  | outside (g : VirtPage) (hg : lookupAddr pm start cid = some g) (hne : oldSize ≠ newSize)
      (h : g.pageEnd < wadd start oldSize) : SizeUpdate mm pm start oldSize newSize cid (-1) pm
  /-- It cannot grow there. -/
  | blocked (g : VirtPage) (hg : lookupAddr pm start cid = some g) (hlt : oldSize < newSize)
      (hin : wadd start oldSize ≤ g.pageEnd)
      (h : g.pageEnd ≠ wadd start oldSize ∨ ∃ next ∈ behind pm g.node,
        next.start < wadd start newSize) :
      SizeUpdate mm pm start oldSize newSize cid (-2) pm
  | grows (g : VirtPage) (hg : lookupAddr pm start cid = some g) (hlt : oldSize < newSize)
      (hend : g.pageEnd = wadd start oldSize)
      (hnext : ∀ next ∈ behind pm g.node, wadd start newSize ≤ next.start) :
      SizeUpdate mm pm start oldSize newSize cid 0
        { pm with pages :=
          updateNode g.node (fun g => { g with size := wadd g.size (wsub newSize oldSize) }) pm.pages }
  | shrinks (g : VirtPage) (hg : lookupAddr pm start cid = some g) (hlt : newSize < oldSize)
      (hend : wadd start oldSize = g.pageEnd) :
      SizeUpdate mm pm start oldSize newSize cid 0
        { pm with pages :=
          updateNode g.node (fun g => { g with size := wsub g.size (wsub oldSize newSize) }) pm.pages }
  /-- What is behind the range goes to a node of its own. -/
  | splits (g : VirtPage) (hg : lookupAddr pm start cid = some g) (hlt : newSize < oldSize)
      (hin : wadd start oldSize < g.pageEnd) (n : Nat) (pm₁ : PageManager)
      (ha : virtPageAlloc mm pm = some (n, pm₁)) :
      SizeUpdate mm pm start oldSize newSize cid 0
        { pm₁ with
          pages :=
            insertAfter g.node
              { g with
                cid := cid
                start := wadd start oldSize
                size := wsub g.pageEnd (wadd start oldSize)
                node := n }
              (updateNode g.node (fun g => { g with size := wsub (wadd start newSize) g.start })
                pm₁.pages) }

theorem updateSize_ways (h : updateSize mm pm start oldSize newSize cid = some (r, pm')) :
    SizeUpdate mm pm start oldSize newSize cid r pm' := by
  unfold updateSize at h
  dsimp only at h
  split at h
  · rename_i hnone
    cases h
    exact .missing hnone
  rename_i g hg
  split at h
  · rename_i heq
    cases h
    exact .same g hg heq
  rename_i hne
  split at h
  · rename_i hout
    cases h
    exact .outside g hg hne hout
  rename_i hin
  split at h
  · rename_i hlt
    split at h
    · rename_i hend
      cases h
      exact .blocked g hg hlt (Nat.le_of_not_lt hin) (.inl hend)
    rename_i hend
    split at h
    · rename_i next hnext
      split at h
      · rename_i hmeets
        cases h
        exact .blocked g hg hlt (Nat.le_of_not_lt hin) (.inr ⟨next, hnext, hmeets⟩)
      · rename_i hfits
        cases h
        refine .grows g hg hlt (Decidable.not_not.mp hend) fun x hx => ?_
        cases hnext.symm.trans hx
        exact Nat.le_of_not_lt hfits
    · rename_i hnext
      cases h
      refine .grows g hg hlt (Decidable.not_not.mp hend) fun x hx => ?_
      cases hnext.symm.trans hx
  · rename_i hge
    have hlt : newSize < oldSize := by omega
    split at h
    · rename_i hend
      cases h
      exact .shrinks g hg hlt hend
    · rename_i hend
      split at h
      · cases h
      · rename_i n pm₁ ha
        cases h
        exact .splits g hg hlt (by omega) n pm₁ ha

/-- A size that is not changed leaves everything as it was. -/
theorem updateSize_refused (hr : r ≠ 0)
    (h : updateSize mm pm start oldSize newSize cid = some (r, pm')) : pm' = pm := by
  cases updateSize_ways h with
  | missing => rfl
  | same => rfl
  | outside => rfl
  | blocked => rfl
  | grows => exact absurd rfl hr
  | shrinks => exact absurd rfl hr
  | splits => exact absurd rfl hr

end

end Secpoline
