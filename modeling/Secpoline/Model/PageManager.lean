import Secpoline.Model.Word

/-!
# The page manager

`virt_page_manager` keeps the mappings of the process in a singly linked list of
`virt_page` groups and the unused list nodes in a second one. A list is modelled
by the list of its nodes in `next` order; a node keeps its own address, because
the operations hold pointers to nodes across calls that may insert another one
(`virt_page_alloc` can refill the free list, and the refill adds the pool it just
mapped to `pages` before it returns).

Every function answers `none` where the code ends the process: a failed
assertion, `ud2`, or a dereference of a null pointer. The argument `mm` is the
address the kernel gives to the `mmap` of a refill, should one happen; a refill
yields 127 nodes and no operation takes more than two, so it happens at most
once in an operation.

The locks are not modelled: each operation runs under the manager's lock from
beginning to end.
-/

namespace Secpoline

/-- A group of pages with the same attributes, and the address of its node. -/
structure VirtPage where
  start : Nat
  size : Nat
  prot : Prot
  flags : Int
  cid : Int
  node : Nat
deriving DecidableEq, Repr

/-- `start + size`, as the code computes it. -/
def VirtPage.pageEnd (g : VirtPage) : Nat := wadd g.start g.size

structure PageManager where
  pages : List VirtPage := []
  freePages : List Nat := []
  /-- The pools mapped by `refill_free_list` so far; no function reads it. -/
  pools : List Nat := []
deriving DecidableEq, Repr

/-! ## Comparing a range with a group -/

/-- 0: no overlap, 1: partial, 2: the same range, 3: the range is inside the
group, 4: the group is inside the range. -/
def virtPageOverlap (g : VirtPage) (start size : Nat) : Int :=
  let stop := wadd start size
  if g.start ≥ stop then 0
  else if g.pageEnd ≤ start then 0
  else if g.start = start ∧ g.pageEnd = stop then 2
  else if g.start ≤ start ∧ g.pageEnd ≥ stop then 3
  else if g.start > start ∧ g.pageEnd < stop then 4
  else 1

def virtPageOverlapByte (g : VirtPage) (byte : Nat) : Bool :=
  decide (byte ≥ g.start) && decide (byte < g.pageEnd)

/-! ## Changing the list at a node -/

/-- Write fields of the node at address `n`. -/
def updateNode (n : Nat) (f : VirtPage → VirtPage) (l : List VirtPage) : List VirtPage :=
  l.map fun g => if g.node = n then f g else g

/-- `p->next = n->next; n->next = p`. -/
def insertAfter (n : Nat) (p : VirtPage) : List VirtPage → List VirtPage
  | [] => []
  | g :: rest => if g.node = n then g :: p :: rest else g :: insertAfter n p rest

/-- `p->next = NULL; n->next = p`: whatever followed `n` is dropped. -/
def endAfter (n : Nat) (p : VirtPage) : List VirtPage → List VirtPage
  | [] => []
  | g :: rest => if g.node = n then [g, p] else g :: endAfter n p rest

/-! ## Linking a new group -/

/-- The `for` loop of `add_page_locked` and the check of the last group after it. -/
def linkLoop (mapFixed : Bool) (p : VirtPage) :
    List VirtPage → Option (Int × List VirtPage)
  | [] => none
  | [cur] =>
      if virtPageOverlap cur p.start p.size > 0 then
        if mapFixed then none else some (-1, [cur])
      else some (0, [cur, p])
  | cur :: next :: rest =>
      if virtPageOverlap cur p.start p.size > 0 then none
      else if p.start ≥ next.start then
        (linkLoop mapFixed p (next :: rest)).map fun r => (r.1, cur :: r.2)
      else if wadd p.start p.size > next.start then
        if mapFixed then none else some (-1, cur :: next :: rest)
      else some (0, cur :: p :: next :: rest)

/-- `add_page_locked` from the test of `pages` on. -/
def linkPage (mapFixed : Bool) (p : VirtPage) :
    List VirtPage → Option (Int × List VirtPage)
  | [] => some (0, [p])
  | head :: rest =>
      if head.start ≥ wadd p.start p.size then some (0, p :: head :: rest)
      else linkLoop mapFixed p (head :: rest)

/-! ## The free list -/

/-- The nodes of a fresh pool that go to the free list: a pool is two pages of
64-byte nodes and the last of its 128 nodes describes the pool itself. -/
def poolNodes (mm : Nat) : List Nat := (List.range 127).map fun i => mm + 64 * i

/-- The call of `add_page_locked` passes `TS_MONITOR` in the place of `flags` and
`MAP_PRIVATE|MAP_SHARED`, which is 3, in the place of `cid`. -/
def refillFreeList (mm : Nat) (pm : PageManager) : Option PageManager :=
  if mm % 4096 ≠ 0 then none
  else
    match linkPage false
        { start := mm, size := roundUp 8192, prot := PROT_READ ||| PROT_WRITE,
          flags := TS_MONITOR, cid := 3, node := mm + 64 * 127 } pm.pages with
    | some (0, pages) =>
        some { pages, freePages := poolNodes mm ++ pm.freePages, pools := mm :: pm.pools }
    | _ => none

def virtPageFree (n : Nat) (pm : PageManager) : PageManager :=
  { pm with freePages := n :: pm.freePages }

def virtPageAlloc (mm : Nat) (pm : PageManager) : Option (Nat × PageManager) :=
  match pm.freePages with
  | n :: rest => some (n, { pm with freePages := rest })
  | [] =>
      match refillFreeList mm pm with
      | none => none
      | some pm' =>
          match pm'.freePages with
          | n :: rest => some (n, { pm' with freePages := rest })
          | [] => none

/-! ## remove_page -/

/-- What the first loop of `remove_page_locked` finds. -/
inductive Found where
  | fail
  | trap
  | range (before : List VirtPage) (last : VirtPage) (after : List VirtPage)

/-- The loop once `start_page` is set. `before` are the groups it walked past. -/
def findEnd (stop : Nat) (cid : Int) : List VirtPage → Found
  | [] => .fail
  | next :: rest =>
      if next.cid ≠ cid then .fail
      else if next.pageEnd ≥ stop then
        if stop ≤ next.start then .trap else .range [] next rest
      else
        match rest with
        | [] => .fail
        | nextNext :: _ =>
            if next.pageEnd ≠ nextNext.start then .fail
            else
              match findEnd stop cid rest with
              | .range before last after => .range (next :: before) last after
              | r => r

/-- What the whole search gives: the groups before `start_page`, and the range
that starts with `start_page`. -/
inductive Search where
  | fail
  | trap
  | range (pre : List VirtPage) (before : List VirtPage) (last : VirtPage)
      (after : List VirtPage)

/-- The loop while `start_page` is not set; a start on the last group is refused. -/
def findStart (start stop : Nat) (cid : Int) : List VirtPage → Search
  | [] => .fail
  | next :: rest =>
      if rest = [] then .fail
      else if next.pageEnd > start then
        if start < next.start ∨ start ≥ next.pageEnd then .trap
        else
          match findEnd stop cid (next :: rest) with
          | .fail => .fail
          | .trap => .trap
          | .range before last after => .range [] before last after
      else
        match findStart start stop cid rest with
        | .range pre before last after => .range (next :: pre) before last after
        | r => r

/-- Removing inside one group: all of it, its beginning, its end or its middle. -/
def removeInside (mm start stop : Nat) (pm : PageManager) (pre : List VirtPage)
    (g : VirtPage) (post : List VirtPage) : Option (Int × PageManager) :=
  if g.start = start ∧ g.pageEnd = stop then
    some (0, virtPageFree g.node { pm with pages := pre ++ post })
  else if g.start = start then
    some (0, { pm with pages :=
      pre ++ { g with start := stop, size := wsub g.pageEnd stop } :: post })
  else if g.pageEnd = stop then
    some (0, { pm with pages := pre ++ { g with size := wsub start g.start } :: post })
  else
    match virtPageAlloc mm
        { pm with pages := pre ++ { g with size := wsub start g.start } :: post } with
    | none => none
    | some (n, pm') =>
        let newGroup := { g with start := stop, size := wsub g.pageEnd stop, node := n }
        some (0, { pm' with pages := insertAfter g.node newGroup pm'.pages })

/-- Removing across several groups. -/
def removeAcross (start stop : Nat) (pm : PageManager) (pre : List VirtPage)
    (first : VirtPage) (mid : List VirtPage) (last : VirtPage) (post : List VirtPage) :
    Int × PageManager :=
  let kept := if start = first.start then [] else [{ first with size := wsub start first.start }]
  let freed := if start = first.start then first :: mid else mid
  if stop = last.pageEnd then
    (0, { pm with
      pages := pre ++ kept ++ post
      freePages := ((freed ++ [last]).map VirtPage.node).reverse ++ pm.freePages })
  else
    (0, { pm with
      pages := pre ++ kept ++
        { last with size := wsub last.pageEnd stop, start := stop } :: post
      freePages := (freed.map VirtPage.node).reverse ++ pm.freePages })

def removePageLocked (mm : Nat) (pm : PageManager) (start size : Nat) (cid : Int) :
    Option (Int × PageManager) :=
  match pm.pages with
  | [] => some (-1, pm)
  | [_] => some (-1, pm)
  | head :: second :: rest =>
      let size := roundUp size
      if start % 4096 ≠ 0 then none
      else if size = 0 then some (-1, pm)
      else
        let stop := wadd start size
        if head.pageEnd > start then some (-1, pm)
        else if second.start > start then
          -- `start_page` is `pages` and `prev_page` is NULL: any range that is
          -- found ends in the dereference of `prev_page`.
          match findEnd stop cid (second :: rest) with
          | .fail => some (-1, pm)
          | _ => none
        else
          match findStart start stop cid (second :: rest) with
          | .fail => some (-1, pm)
          | .trap => none
          | .range pre [] g post => removeInside mm start stop pm (head :: pre) g post
          | .range pre (first :: mid) last post =>
              some (removeAcross start stop pm (head :: pre) first mid last post)

/-! ## Removing for a fixed mapping -/

/-- The `while` loop of `remove_page_map_fixed_locked`: the list after it, the nodes
it freed, and the node to insert after with the second half of a split group. -/
def mapFixedLoop (start stop : Nat) (cid : Int) :
    List VirtPage → Option (List VirtPage × List Nat × Option (Nat × VirtPage))
  | [] => some ([], [], none)
  | g :: rest =>
      if g.pageEnd ≤ start then
        (mapFixedLoop start stop cid rest).map fun r => (g :: r.1, r.2)
      else if g.start ≥ stop then some (g :: rest, [], none)
      else if g.cid ≠ cid then none
      else if start ≤ g.start ∧ stop ≥ g.pageEnd then
        (mapFixedLoop start stop cid rest).map fun r => (r.1, g.node :: r.2.1, r.2.2)
      else if start ≤ g.start ∧ stop < g.pageEnd then
        some ({ g with start := stop, size := wsub g.pageEnd stop } :: rest, [], none)
      else if stop ≥ g.pageEnd ∧ start > g.start then
        (mapFixedLoop start stop cid rest).map fun r =>
          ({ g with size := wsub start g.start } :: r.1, r.2)
      else if ¬ (start > g.start ∧ stop < g.pageEnd) then none
      else
        some ({ g with size := wsub start g.start } :: rest, [],
          some (g.node, { g with start := stop, size := wsub g.pageEnd stop }))

def removePageMapFixedLocked (mm : Nat) (pm : PageManager) (start size : Nat) (cid : Int) :
    Option (Int × PageManager) :=
  let size := roundUp size
  if start % 4096 ≠ 0 then none
  else if size = 0 then some (-1, pm)
  else
    match mapFixedLoop start (wadd start size) cid pm.pages with
    | none => none
    | some (pages, freed, none) =>
        some (0, { pm with pages, freePages := freed.reverse ++ pm.freePages })
    | some (pages, freed, some (n, g)) =>
        match virtPageAlloc mm
            { pm with pages, freePages := freed.reverse ++ pm.freePages } with
        | none => none
        | some (n', pm') =>
            some (0, { pm' with pages := insertAfter n { g with node := n' } pm'.pages })

/-! ## add_page -/

def addPageLocked (multithreaded : Bool) (mm : Nat) (pm : PageManager) (start size : Nat)
    (prot : Prot) (flags cid : Int) (mapFixed : Bool) (p1 : Nat) :
    Option (Int × PageManager) :=
  let size := roundUp size
  if start % 4096 ≠ 0 then none
  else
    let removed :=
      if mapFixed then
        if multithreaded then removePageLocked mm pm start size cid
        else removePageMapFixedLocked mm pm start size cid
      else some (0, pm)
    match removed with
    | none => none
    | some (ret, pm') =>
        if mapFixed ∧ ret = -1 then some (-1, pm')
        else
          (linkPage mapFixed { start, size, prot, flags, cid, node := p1 } pm'.pages).map
            fun r => (r.1, { pm' with pages := r.2 })

def addPage (multithreaded : Bool) (mm : Nat) (pm : PageManager) (start size : Nat)
    (prot : Prot) (flags cid : Int) (mapFixed : Bool) : Option (Int × PageManager) :=
  match virtPageAlloc mm pm with
  | none => none
  | some (p1, pm₁) =>
      match addPageLocked multithreaded mm pm₁ start size prot flags cid mapFixed p1 with
      | none => none
      | some (ret, pm₂) =>
          if ret = -1 then some (ret, virtPageFree p1 pm₂) else some (ret, pm₂)

def removePage (mm : Nat) (pm : PageManager) (start size : Nat) (cid : Int) :
    Option (Int × PageManager) :=
  removePageLocked mm pm start size cid

/-! ## Lookups -/

def lookupAddr (pm : PageManager) (addr : Nat) (cid : Int) : Option VirtPage :=
  pm.pages.find? fun g => virtPageOverlapByte g addr && (cid == -1 || g.cid == cid)

/-- The second loop of `lookup_range_locked`, from the group of the start on. -/
def lookupRangeLoop (stop : Nat) (cid : Int) : List VirtPage → Bool
  | [] => false
  | g :: rest =>
      if g.cid ≠ cid then false
      else if g.pageEnd ≥ stop then true
      else
        match rest with
        | [] => false
        | next :: _ => if next.start ≠ g.pageEnd then false else lookupRangeLoop stop cid rest

/-- The outer `none` is the assertion that the list is not empty. -/
def lookupRange (pm : PageManager) (start size : Nat) (cid : Int) :
    Option (Option VirtPage) :=
  if pm.pages = [] then none
  else
    let stop := wadd start size
    match pm.pages.dropWhile fun g => !virtPageOverlapByte g start with
    | [] => some none
    | first :: rest =>
        if first.cid ≠ cid then some none
        else if first.pageEnd ≥ stop then some (some first)
        else if lookupRangeLoop stop cid (first :: rest) then some (some first)
        else some none

def lookupRangeAllowGaps (pm : PageManager) (start size : Nat) (cid : Int) : Int :=
  let stop := wadd start size
  if pm.pages.any fun g =>
      !(decide (g.pageEnd ≤ start) || decide (g.start ≥ stop)) && g.cid != cid
  then -1 else 0

/-! ## update_mprotect -/

/-- The loop that looks for the place of the new group after a removal: the first
group that ends at or before `start`, and its successor. -/
def mprotectPlace (start : Nat) : List VirtPage → Option (VirtPage × Option VirtPage)
  | [] => none
  | g :: rest => if start ≥ g.pageEnd then some (g, rest.head?) else mprotectPlace start rest

/-- The range covers several groups: remove everything, then add the new group. -/
def mprotectAcross (mm : Nat) (pm : PageManager) (start size : Nat) (prot : Prot)
    (cid : Int) : Option (Int × PageManager) :=
  match removePageLocked mm pm start size cid with
  | none => none
  | some (ret, pm₁) =>
      if ret = -1 then some (-1, pm₁)
      else
        match mprotectPlace start pm₁.pages with
        | none => none
        | some (cur, none) =>
            match virtPageAlloc mm pm₁ with
            | none => none
            | some (n, pm₂) =>
                let newGroup := { start, size, prot, flags := cur.flags, cid, node := n }
                some (0, { pm₂ with pages := endAfter cur.node newGroup pm₂.pages })
        | some (cur, some next) =>
            if virtPageOverlap next start size ≠ 0 then none
            else
              match virtPageAlloc mm pm₁ with
              | none => none
              | some (n, pm₂) =>
                  let newGroup := { start, size, prot, flags := cur.flags, cid, node := n }
                  some (0, { pm₂ with pages := insertAfter cur.node newGroup pm₂.pages })

def updateMprotect (mm : Nat) (pm : PageManager) (start size : Nat) (prot : Prot)
    (cid : Int) : Option (Int × PageManager) :=
  if pm.pages = [] then some (-1, pm)
  else
    match lookupAddr pm start cid with
    | none => some (-1, pm)
    | some g =>
        let stop := wadd start size
        if g.cid ≠ cid then some (-1, pm)
        else if size = 0 then some (-1, pm)
        else if stop < start then some (-1, pm)
        else if start < g.start ∨ start ≥ g.pageEnd then some (-1, pm)
        else if start = g.start ∧ stop = g.pageEnd then
          some (0, { pm with
            pages := updateNode g.node (fun g => { g with prot := prot }) pm.pages })
        else if start = g.start ∧ stop < g.pageEnd then
          match virtPageAlloc mm pm with
          | none => none
          | some (n, pm') =>
              let newGroup :=
                { g with cid := cid, start := stop, size := wsub g.pageEnd stop, node := n }
              let pages :=
                updateNode g.node (fun g => { g with prot := prot, size := size }) pm'.pages
              some (0, { pm' with pages := insertAfter g.node newGroup pages })
        else if start > g.start ∧ stop = g.pageEnd then
          match virtPageAlloc mm pm with
          | none => none
          | some (n, pm') =>
              let newGroup := { start, size, prot, flags := g.flags, cid, node := n }
              let pages :=
                updateNode g.node (fun g => { g with size := wsub start g.start }) pm'.pages
              some (0, { pm' with pages := insertAfter g.node newGroup pages })
        else if start > g.start ∧ stop < g.pageEnd then
          match virtPageAlloc mm pm with
          | none => none
          | some (n₁, pm₁) =>
              match virtPageAlloc mm pm₁ with
              | none => none
              | some (n₂, pm₂) =>
                  let group1 := { start, size, prot, flags := g.flags, cid, node := n₁ }
                  let group2 :=
                    { g with cid := cid, start := stop, size := wsub g.pageEnd stop, node := n₂ }
                  let pages :=
                    updateNode g.node (fun g => { g with size := wsub start g.start }) pm₂.pages
                  -- start_page -> group1 -> group2 -> what followed start_page
                  let pages := insertAfter g.node group1 (insertAfter g.node group2 pages)
                  some (0, { pm₂ with pages := pages })
        else mprotectAcross mm pm start size prot cid

/-! ## update_size -/

/-- 0 for success, -1 for failure, -2 if growing would meet an existing mapping. -/
def updateSize (mm : Nat) (pm : PageManager) (start oldSize newSize : Nat) (cid : Int) :
    Option (Int × PageManager) :=
  let oldEnd := wadd start oldSize
  let newEnd := wadd start newSize
  match lookupAddr pm start cid with
  | none => some (-1, pm)
  | some g =>
      if oldSize = newSize then some (0, pm)
      else if oldEnd > g.pageEnd then some (-1, pm)
      else if oldSize < newSize then
        let dsize := wsub newSize oldSize
        if g.pageEnd ≠ oldEnd then some (-2, pm)
        else
          let grown := updateNode g.node (fun g => { g with size := wadd g.size dsize }) pm.pages
          match (pm.pages.dropWhile fun h => h.node ≠ g.node).tail.head? with
          | some next =>
              if newEnd > next.start then some (-2, pm) else some (0, { pm with pages := grown })
          | none => some (0, { pm with pages := grown })
      else
        let dsize := wsub oldSize newSize
        if oldEnd = g.pageEnd then
          let pages := updateNode g.node (fun g => { g with size := wsub g.size dsize }) pm.pages
          some (0, { pm with pages := pages })
        else
          match virtPageAlloc mm pm with
          | none => none
          | some (n, pm') =>
              let newGroup :=
                { g with cid := cid, start := oldEnd, size := wsub g.pageEnd oldEnd, node := n }
              let pages :=
                updateNode g.node (fun g => { g with size := wsub newEnd g.start }) pm'.pages
              some (0, { pm' with pages := insertAfter g.node newGroup pages })

/-! ## Calls

The public operations, with the 64-bit arguments of their callers. -/

inductive PageCall where
  | addPage (start size : UInt64) (prot : Prot) (flags cid : Int) (mapFixed : Bool)
  | removePage (start size : UInt64) (cid : Int)
  | updateMprotect (start size : UInt64) (prot : Prot) (cid : Int)
  | updateSize (start oldSize newSize : UInt64) (cid : Int)
deriving DecidableEq, Repr

def PageCall.run (multithreaded : Bool) (mm : Nat) (pm : PageManager) :
    PageCall → Option (Int × PageManager)
  | .addPage start size prot flags cid mapFixed =>
      Secpoline.addPage multithreaded mm pm start.toNat size.toNat prot flags cid mapFixed
  | .removePage start size cid => Secpoline.removePage mm pm start.toNat size.toNat cid
  | .updateMprotect start size prot cid =>
      Secpoline.updateMprotect mm pm start.toNat size.toNat prot cid
  | .updateSize start oldSize newSize cid =>
      Secpoline.updateSize mm pm start.toNat oldSize.toNat newSize.toNat cid

/-- What the callers make sure of: starts are page aligned, `mmap` does not pass a
size that rounds to zero, `mprotect` passes ranges that `lookup_range` accepted
and `mremap` passes non-zero multiples of the page size. The size that `munmap`
passes is the application's. -/
def PageCall.Allowed (pm : PageManager) : PageCall → Prop
  | .addPage start size _ _ _ _ => start.toNat % 4096 = 0 ∧ 0 < roundUp size.toNat
  | .removePage start _ _ => start.toNat % 4096 = 0
  | .updateMprotect start size _ cid =>
      start.toNat % 4096 = 0 ∧ (lookupRange pm start.toNat size.toNat cid).join.isSome
  | .updateSize start oldSize newSize _ =>
      start.toNat % 4096 = 0 ∧
        (oldSize.toNat % 4096 = 0 ∧ 0 < oldSize.toNat) ∧
        (newSize.toNat % 4096 = 0 ∧ 0 < newSize.toNat)

instance (pm : PageManager) : DecidablePred (PageCall.Allowed pm) := fun c =>
  match c with
  | .addPage .. => inferInstanceAs (Decidable (_ ∧ _))
  | .removePage .. => inferInstanceAs (Decidable (_ = _))
  | .updateMprotect .. => inferInstanceAs (Decidable (_ ∧ _))
  | .updateSize .. => inferInstanceAs (Decidable (_ ∧ _ ∧ _))

end Secpoline
