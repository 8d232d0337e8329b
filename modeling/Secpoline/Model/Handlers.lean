import Secpoline.Lib.Prog
import Secpoline.Model.Kernel
import Secpoline.Model.PageManager
import Secpoline.Model.Scan
import Secpoline.Model.UnsafePages

/-!
# The memory handlers

The handlers of the memory system calls, the scanner they call, the SIGSEGV
handler and the start-up code, as programs over the operations they perform:
kernel calls, calls to the page manager, changes to the list of unsafe pages,
and reads of the memory they scan. A failed `assert` gives up, since it ends the
process.

An `int` that carries an error number is an `Int`; a `char*` result is a word,
so an error number there is a large address.
-/

namespace Secpoline

open Lib

/-! ## Constants -/

def EINVAL : Int := 22
def EFAULT : Int := 14

def SECPOLINE_MPKEY : Nat := 0
def UNTRUSTED_MPKEY : Nat := 2

def MAP_PRIVATE : Nat := 0x02
def MAP_FIXED : Nat := 0x10
def MAP_HUGETLB : Nat := 0x40000
def MREMAP_MAYMOVE : Nat := 1
def MREMAP_FIXED : Nat := 2
def MREMAP_DONTUNMAP : Nat := 4

/-- `flags & mask`, as a condition. -/
def hasFlag (flags mask : Nat) : Bool := flags &&& mask != 0

/-- A signed result read as a pointer. -/
def toWord (r : Int) : Nat := (r % 2 ^ 64).toNat

/-- A `size_t` passed as an `int`. -/
def toInt32 (n : Nat) : Int := (BitVec.ofNat 32 n).toInt

/-- `get_pkey`. -/
def getPkey (cid : Int) : Option Nat :=
  if cid = TS_MONITOR then some SECPOLINE_MPKEY
  else if cid = TS_APPLICATION then some UNTRUSTED_MPKEY
  else none

/-! ## Operations -/

/-- What `prev_page_ptr` points to: null for the first page of a scan, the page
before this one, or -1 once that page has turned out to hold an instruction that
runs into this one. For the page before this one at address 0 the code takes the branch
for null; as it then leaves that page out, all that comes of it is the same. -/
inductive Prev where
  | null
  | page (address : Nat)
  | flagged
deriving DecidableEq, Repr

inductive Op where
  /-- A kernel call by `inline_syscall6`. -/
  | inline (c : KCall)
  /-- A kernel call by `syscall_wrapper` for a compartment; `do_syscall_untrusted` is the one
  for the application. -/
  | wrapper (c : KCall) (cid : Int)
  /-- The `read` loop of `map_file_baked`, into a range it has just mapped. -/
  | readFile (start size : Nat)
  | isMultithreaded
  | setMultithreaded
  | lookupAddr (addr : Nat) (cid : Int)
  | lookupRange (start size : Nat) (cid : Int)
  | lookupRangeAllowGaps (start size : Nat) (cid : Int)
  | addPage (start size : Nat) (prot : Prot) (flags cid : Int) (mapFixed : Bool)
  | removePage (start size : Nat) (cid : Int)
  | updateMprotect (start size : Nat) (prot : Prot) (cid : Int)
  | updateSize (start oldSize newSize : Nat) (cid : Int)
  | findUnsafePage (address : Nat)
  | addUnsafePage (address : Nat) (currentPerm desiredPerm : Prot) (trustedPage : Bool)
      (unsafeInstructions : Option (List Nat))
  | updateUnsafePage (address : Nat) (currentPerm desiredPerm : Prot) (trustedPage : Bool)
      (unsafeInstructions : List Nat)
  | updateUnsafeInstruction (address instruction : Nat) (currentPerm desiredPerm : Prot)
      (trustedPage : Bool)
  | setCurrentPerm (address : Nat) (perm : Prot)
  | lockUnsafePages
  | unlockUnsafePages
  /-- The bytes at an address near the end of the page before the one that is
  scanned. What is given besides the address are arguments of the scan, without
  influence on the answer; likewise in the next two. -/
  | readPrev (page address : Nat) (unsafePerm : Prot) (prev : Prev)
  /-- The bytes at an address near the beginning of the page after it. -/
  | readNext (page address : Nat) (unsafePerm : Prot)
  /-- The bytes of the page itself. -/
  | scan (page : Nat) (whitelist : List Nat) (unsafePerm : Prot)
  | hardwareBreakpoints
  | setHardwareBreakpoints (c : HbController)
  /-- `mpk_check_readonly`. -/
  | checkReadable (address : Nat)
  /-- Overwrite a `syscall` instruction with `call *%rax`. -/
  | rewriteSyscall (address : Nat)

/-- What each operation answers. -/
abbrev Resp : Op → Type
  | .inline _ | .wrapper .. => Int
  | .isMultithreaded | .lookupRange .. => Bool
  | .lookupAddr .. => Option VirtPage
  | .lookupRangeAllowGaps .. | .addPage .. | .removePage .. | .updateMprotect ..
  | .updateSize .. => Int
  | .findUnsafePage _ => Option UnsafePage
  | .readPrev .. | .readNext .. | .scan .. => Mem
  | .hardwareBreakpoints => HbController
  | .readFile .. | .setMultithreaded | .addUnsafePage .. | .updateUnsafePage ..
  | .updateUnsafeInstruction ..
  | .setCurrentPerm .. | .lockUnsafePages | .unlockUnsafePages | .setHardwareBreakpoints _
  | .checkReadable _ | .rewriteSyscall _ => Unit

abbrev M := Prog Op Resp

/-- Perform one operation. -/
def perform (e : Op) : M (Resp e) := Prog.call e

/-- `assert(f(...)==0)`. -/
def expectZero (p : M Int) : M Unit := do
  let r ← p
  Prog.require (r = 0)

/-- The addresses of `for(page = start; page < start+size; page += PAGE_SIZE)`. -/
def pageLoop (start size : Nat) : List Nat :=
  (List.range ((wadd start size - start + 4095) / 4096)).map fun i => start + 4096 * i

/-! ## The scanner -/

/-- A neighbour of the page being scanned: its address, and the protection and
compartment that its re-protection will use. -/
structure Neighbour where
  prev : Option Nat
  next : Option Nat
  prot : Prot
  cid : Int
deriving DecidableEq, Repr

/-- A page that `lookup_addr` found and that is not `PROT_NONE`. -/
def accessible (g : Option VirtPage) : Option VirtPage :=
  g.filter fun g => g.prot != PROT_NONE

/-- Nothing is known of either neighbour. -/
def Neighbour.unknown : Neighbour := { prev := none, next := none, prot := 0, cid := -1 }

/-- Which previous page to look at: inside a scan the one before, at its start
whatever the page manager has there. -/
def erimPrev (start : Nat) (perm : Prot) (trustedPage : Bool) : Prev → M Neighbour
  | .null =>
      if start ≥ 4096 then do
        let g ← perform (.lookupAddr (start - 4096) (-1))
        match accessible g with
        | some g =>
            pure { Neighbour.unknown with
              prev := some (start - 4096), prot := g.prot, cid := g.cid }
        | none => pure .unknown
      else pure .unknown
  | .page address =>
      pure { Neighbour.unknown with
        prev := some address, prot := perm
        cid := if trustedPage then TS_MONITOR else TS_APPLICATION }
  | .flagged => .abort

/-- Which next page to look at. `temp_prot` and `temp_cid` are one pair of
variables for both neighbours, so what the next page puts there also serves for
the previous one. -/
def erimNext (start : Nat) (before : Neighbour) : M Neighbour := do
  let g ← perform (.lookupAddr (wadd start 4096) (-1))
  match accessible g with
  | some g => pure { before with next := some (wadd start 4096), prot := g.prot, cid := g.cid }
  | none => pure before

/-- `if(prev_page)` and `if(next_page)`: page 0 is a null pointer. -/
def nonNull (page : Option Nat) : Option Nat :=
  page.filter (· != 0)

theorem nonNull_some {page : Option Nat} {address : Nat} :
    nonNull page = some address ↔ page = some address ∧ address ≠ 0 := by
  rw [nonNull, Option.filter_eq_some_iff, bne_iff_ne]

/-- One turn of the loop over the last bytes of the previous page. -/
def erimScanPrevByte (start prevPage : Nat) (nb : Neighbour) (perm unsafePerm : Prot)
    (trustedPage : Bool) (prev : Prev) (offset : Nat) : M Prev := do
  let m ← perform (.readPrev prevPage (start - offset) unsafePerm prev)
  if isUnsafe m (start - offset) then do
    perform (.updateUnsafeInstruction prevPage (start - offset) unsafePerm perm trustedPage)
    match prev with
    | .null => do
        expectZero (perform (.wrapper (.mprotect prevPage 4096 nb.prot.noExec none) nb.cid))
        pure .null
    | _ => pure .flagged
  else pure prev

/-- The bytes before the page: an instruction that begins there is recorded for
the previous page, which is re-protected at once if this is the first page of
the scan and flagged otherwise. -/
def erimScanPrev (start : Nat) (nb : Neighbour) (perm unsafePerm : Prot) (trustedPage : Bool)
    (prev : Prev) : M Prev :=
  match nonNull nb.prev with
  | some prevPage =>
      Prog.fold (erimScanPrevByte start prevPage nb perm unsafePerm trustedPage) [3, 2, 1] prev
  | none => pure prev

/-- One turn of the loop over the first bytes of the next page. -/
def erimScanNextByte (nextPage : Nat) (nb : Neighbour) (perm unsafePerm : Prot)
    (trustedPage : Bool) (offset : Nat) : M Unit := do
  let m ← perform (.readNext nextPage (nextPage + offset) unsafePerm)
  Prog.whenever (isUnsafe m (nextPage + offset)) do
    perform (.updateUnsafeInstruction nextPage (nextPage + offset) unsafePerm perm trustedPage)
    expectZero (perform (.wrapper (.mprotect nextPage 4096 nb.prot.noExec none) nb.cid))

/-- The first bytes of the next page. -/
def erimScanNext (nb : Neighbour) (perm unsafePerm : Prot) (trustedPage : Bool) : M Unit :=
  match nonNull nb.next with
  | some nextPage =>
      Prog.fold (fun _ => erimScanNextByte nextPage nb perm unsafePerm trustedPage) [0, 1, 2, 3] ()
  | none => pure ()

/-- The end of `erim_memScanRegion`: record what the scan of the page itself found. -/
def erimRecord (start : Nat) (perm unsafePerm : Prot) (trustedPage : Bool)
    (instructions : List Nat) : M Bool :=
  if instructions ≠ [] then do
    perform (.addUnsafePage start unsafePerm perm trustedPage (some instructions))
    pure true
  else do
    perform (.updateUnsafePage start perm perm trustedPage instructions)
    pure false

/-- `erim_memScanRegion` of one page: whether it returned an entry, and what it
left in `*prev_page_ptr`. -/
def erimMemScanRegion (start : Nat) (whitelist : List Nat) (perm unsafePerm : Prot)
    (trustedPage : Bool) (prev : Prev) : M (Bool × Prev) := do
  let before ← erimPrev start perm trustedPage prev
  let nb ← erimNext start before
  let prev ← erimScanPrev start nb perm unsafePerm trustedPage prev
  erimScanNext nb perm unsafePerm trustedPage
  let m ← perform (.scan start whitelist unsafePerm)
  let found ← erimRecord start perm unsafePerm trustedPage (scanPage m whitelist start)
  pure (found, prev)

/-! ## Executable mappings -/

/-- The loop variables of `scan_exec_mapping` and `scan_exec_mapping_mprotect`; a start of 0 is
`NULL`. -/
structure Group where
  start : Nat
  size : Nat
  prev : Prev
deriving DecidableEq, Repr

/-- Where the open group begins: at this page, if there is none. -/
def Group.openAt (g : Group) (page : Nat) : M Nat :=
  if g.start = 0 then do
    Prog.require (g.size = 0)
    pure page
  else pure g.start

/-- Re-protect a range in the kernel and add it to the page manager. -/
def addGroup (start size : Nat) (prot : Prot) (flags cid : Int) (mapFixed : Bool) (key : Nat) :
    M Unit := do
  expectZero (perform (.addPage start size prot flags cid mapFixed))
  expectZero (perform (.inline (.mprotect start size prot (some key))))

/-- The previous page has just been flagged: take it out of the open group. -/
def addFlagged (page : Nat) (unsafeProt : Prot) (flags cid : Int) (mapFixed : Bool) (key : Nat)
    (prev : Prev) (size : Nat) : M Nat :=
  if prev = .flagged ∧ size ≠ 0 then do
    addGroup (page - 4096) 4096 unsafeProt flags cid mapFixed key
    pure (size - 4096)
  else pure size

/-- Close the open group before this page; the next one begins at this page. -/
def addOpenGroup (page startGroup : Nat) (prot : Prot) (flags cid : Int) (mapFixed : Bool)
    (key : Nat) (close : Bool) (size : Nat) : M (Nat × Nat) :=
  if close ∧ size ≠ 0 then do
    addGroup startGroup size prot flags cid mapFixed key
    pure (page, 0)
  else pure (startGroup, size)

/-- One turn of the loop of `scan_exec_mapping`. -/
def scanExecMappingPage (whitelist : List Nat) (prot unsafeProt : Prot) (flags cid : Int)
    (mapFixed : Bool) (key : Nat) (g : Group) (page : Nat) : M Group := do
  let startGroup ← g.openAt page
  let (found, prev) ← erimMemScanRegion page whitelist prot prot.noExec false g.prev
  let size ← addFlagged page unsafeProt flags cid mapFixed key prev g.size
  let (startGroup, size) ← addOpenGroup page startGroup prot flags cid mapFixed key
    (found || prev == .flagged) size
  if found then do
    addGroup page 4096 unsafeProt flags cid mapFixed key
    pure { start := 0, size := 0, prev := .page page }
  else pure { start := startGroup, size := size + 4096, prev := .page page }

/-- `scan_exec_mapping`. -/
def scanExecMapping (start size : Nat) (prot unsafeProt : Prot) (flags : Int) (mapFixed : Bool)
    (cid : Int) (allowList : List Nat) : M Unit :=
  match getPkey cid with
  | none => pure ()
  | some key => do
      let g ← Prog.fold (scanExecMappingPage allowList prot unsafeProt flags cid mapFixed key)
        (pageLoop start size) { start := 0, size := 0, prev := .null }
      Prog.whenever (g.size ≠ 0) (addGroup g.start g.size prot flags cid mapFixed key)

/-- Re-protect a range in the kernel and update it in the page manager. -/
def protectGroup (start size : Nat) (prot : Prot) (cid : Int) : M Unit := do
  expectZero (perform (.wrapper (.mprotect start size prot none) cid))
  expectZero (perform (.updateMprotect start size prot cid))

/-- The previous page has just been flagged: take it out of the open group. -/
def protectFlagged (page : Nat) (unsafeProt : Prot) (cid : Int) (prev : Prev) (size : Nat) :
    M Nat :=
  if prev = .flagged ∧ size ≠ 0 then do
    protectGroup (page - 4096) 4096 unsafeProt cid
    pure (size - 4096)
  else pure size

/-- One turn of the loop of `scan_exec_mapping_mprotect`. Unlike
`scan_exec_mapping` it does not begin a new group where it has just closed one. -/
def scanExecMappingMprotectPage (whitelist : List Nat) (prot unsafeProt : Prot) (cid : Int)
    (g : Group) (page : Nat) : M Group := do
  let startGroup ← g.openAt page
  let (found, prev) ← erimMemScanRegion page whitelist prot prot.noExec false g.prev
  let size ← protectFlagged page unsafeProt cid prev g.size
  Prog.whenever ((found ∨ prev = .flagged) ∧ size ≠ 0) (protectGroup startGroup size prot cid)
  if found then do
    protectGroup page 4096 unsafeProt cid
    pure { start := 0, size := 0, prev := .page page }
  else pure { start := startGroup, size := size + 4096, prev := .page page }

/-- `scan_exec_mapping_mprotect`. -/
def scanExecMappingMprotect (start size : Nat) (prot unsafeProt : Prot) (cid : Int)
    (allowList : List Nat) : M Unit :=
  match getPkey cid with
  | none => pure ()
  | some _ => do
      let g ← Prog.fold (scanExecMappingMprotectPage allowList prot unsafeProt cid)
        (pageLoop start size) { start := 0, size := 0, prev := .null }
      Prog.whenever (g.size ≠ 0) (protectGroup g.start g.size prot cid)

/-! ## mmap -/

/-- `map_file_baked`. Its `lseek` calls have no influence on the memory, and their
results are compared as unsigned numbers, so no error of theirs is seen. -/
def mapFileBaked (start size : Nat) (fixed : Bool) (cid : Int) : M Int := do
  let result ← perform (.wrapper (.mmap start size (PROT_WRITE ||| PROT_READ) fixed) cid)
  if result < 0 then pure result
  else do
    perform (.readFile (toWord result) size)
    pure result

/-- The checks that `secpoline_mmap` makes of a fixed mapping. -/
def checkFixed (start size : Nat) (cid : Int) : Bool → M Bool
  | false => pure true
  | true => do
      let multithreaded ← perform .isMultithreaded
      if multithreaded then perform (.lookupRange start size cid)
      else do
        let r ← perform (.lookupRangeAllowGaps start size cid)
        pure (r != -1)

/-- `add_unsafe_page(address, prot, prot|PROT_EXEC, ..., NULL)` for every page. -/
def markUnsafe (start size : Nat) (prot : Prot) (trustedPage : Bool) : M Unit :=
  Prog.fold (fun _ address =>
      perform (.addUnsafePage address prot (prot ||| PROT_EXEC) trustedPage none))
    (pageLoop start size) ()

/-- The protection a new mapping gets at first: executable pages are read-only
until they have been scanned, and pages that should be writable as well begin
as writable ones. -/
def firstProt (prot : Prot) : Prot :=
  if prot.isExec ∧ ¬ prot.isWrite then PROT_READ
  else if prot.isExec ∧ prot.isWrite then prot.noExec
  else prot

/-- The mapping itself. Files are not mapped but read into anonymous memory. -/
def mapPages (start size : Nat) (prot : Prot) (fixed : Bool) (fd cid : Int) : M Int :=
  if fd ≠ -1 ∧ fd ≠ 0 then mapFileBaked start size fixed cid
  else perform (.wrapper (.mmap start size prot fixed) cid)

/-- The rest of `secpoline_mmap` once the pages are mapped. -/
def tagMapping (result size : Nat) (prot : Prot) (flags : Nat) (fixed : Bool) (cid : Int)
    (key : Nat) : M Unit :=
  if prot.isExec ∧ ¬ prot.isWrite then
    scanExecMapping result size prot prot.noExec (toInt32 flags) fixed cid []
  else do
    expectZero (perform (.addPage result size (firstProt prot) (toInt32 flags) cid fixed))
    expectZero (perform (.wrapper (.mprotect result size (firstProt prot) (some key)) cid))
    Prog.whenever (prot.isExec ∧ prot.isWrite)
      (markUnsafe result size (firstProt prot) (cid = TS_MONITOR))

/-- `secpoline_mmap`. -/
def secpolineMmap (start size : Nat) (prot : Prot) (flags : Nat) (fd cid : Int) : M Int :=
  match getPkey cid with
  | none => pure (-EINVAL)
  | some key => do
      Prog.require (¬ hasFlag flags MAP_HUGETLB)
      if size = 0 ∨ start % 4096 ≠ 0 then pure (-EINVAL)
      else do
        let flags := flags ||| MAP_PRIVATE
        let fixed := hasFlag flags MAP_FIXED
        let allowed ← checkFixed start size cid fixed
        if ¬ allowed then pure (-EINVAL)
        else do
          let result ← mapPages start size (firstProt prot) fixed fd cid
          if result ≤ 0 then pure result
          else do
            tagMapping (toWord result) size prot flags fixed cid key
            pure result

/-! ## mremap -/

/-- Before a mapping moves: forget the old range, or check it if it stays. -/
def forgetOld (start oldSize : Nat) (cid : Int) : Bool → M Bool
  | false => do
      let r ← perform (.removePage start oldSize cid)
      pure (r == 0)
  | true => perform (.lookupRange start oldSize cid)

/-- The end of `handle_mremap` once the mapping has to move. The callers differ in
the arguments they give to `add_page`. -/
def moveMapping (start oldSize newSize flags : Nat) (newStart : Nat) (prot : Prot)
    (cid addFlags addCid : Int) : M Nat := do
  let gone ← forgetOld start oldSize cid (hasFlag flags MREMAP_DONTUNMAP)
  if ¬ gone then pure (toWord (-EFAULT))
  else do
    let r ← perform (.wrapper (.mremap start oldSize newSize true
      (hasFlag flags MREMAP_FIXED) (hasFlag flags MREMAP_DONTUNMAP) newStart) cid)
    Prog.require (toWord r > 0)
    expectZero (perform (.addPage (toWord r) newSize prot addFlags addCid false))
    pure (toWord r)

/-- `handle_mremap`. The call of `add_page` for a fixed target passes the
compartment in the place of the flags and the flags in the place of the
compartment. -/
def handleMremap (start oldSize newSize flags newStart : Nat) (cid : Int) : M Nat :=
  let mayMove := hasFlag flags MREMAP_MAYMOVE
  let fixed := hasFlag flags MREMAP_FIXED
  let dontUnmap := hasFlag flags MREMAP_DONTUNMAP
  if oldSize = 0 ∨ newSize = 0 then pure (toWord (-EINVAL))
  else if start % 4096 ≠ 0 then pure (toWord (-EINVAL))
  else if fixed ∧ newStart % 4096 ≠ 0 then pure (toWord (-EINVAL))
  else if oldSize % 4096 ≠ 0 ∨ newSize % 4096 ≠ 0 then pure (toWord (-EINVAL))
  else if ¬ mayMove then
    if fixed ∨ dontUnmap then pure (toWord (-EINVAL))
    else do
      let r ← perform (.updateSize start oldSize newSize cid)
      if r = 0 then do
        let r ← perform (.wrapper (.mremap start oldSize newSize false false false 0) cid)
        Prog.require (toWord r = start)
        pure start
      else pure (toWord (-EFAULT))
  else if ¬ fixed then do
    let r ← perform (.updateSize start oldSize newSize cid)
    if r = 0 then do
      let r ← perform (.wrapper (.mremap start oldSize newSize true false dontUnmap 0) cid)
      Prog.require (toWord r = start)
      pure start
    else if r = -2 then do
      let g ← perform (.lookupAddr start cid)
      match g with
      | none => pure (toWord (-EINVAL))
      | some g => moveMapping start oldSize newSize flags 0 g.prot cid (toInt32 flags) cid
    else pure (toWord (-EFAULT))
  else do
    let g ← perform (.lookupAddr start cid)
    match g with
    | none => pure (toWord (-EINVAL))
    | some g => do
        let taken ← perform (.lookupRange newStart newSize cid)
        if taken then pure (toWord (-EFAULT))
        else moveMapping start oldSize newSize flags newStart g.prot cid cid (toInt32 flags)

/-- `handle_mremap_exec`. Its assertion on the result of `handle_mremap` compares
pointers, so an error number passes it. -/
def handleMremapExec (start oldSize newSize flags newStart : Nat) (prot : Prot) (cid : Int) :
    M Nat := do
  let r ← perform (.wrapper (.mprotect start oldSize PROT_READ none) cid)
  if r ≠ 0 then pure (toWord (-EINVAL))
  else do
    let res ← handleMremap start oldSize newSize flags newStart cid
    Prog.require (res > 0)
    Prog.whenever (hasFlag flags MREMAP_DONTUNMAP)
      (scanExecMappingMprotect start oldSize prot prot.noExec cid [])
    scanExecMappingMprotect res newSize prot prot.noExec cid []
    pure res

/-! ## The system call handlers -/

/-- The handler of `mmap`. -/
def syscallHandlerMmap (start size prot flags : UInt64) (fd : Int) : M Unit := do
  let _ ← secpolineMmap start.toNat (roundUp size.toNat) (.ofNat 32 prot.toNat) flags.toNat fd
    TS_APPLICATION
  pure ()

/-- The handler of `munmap`. -/
def syscallHandlerMunmap (start size : UInt64) : M Unit := do
  let r ← perform (.removePage start.toNat size.toNat TS_APPLICATION)
  Prog.whenever (r ≠ -1) do
    let _ ← perform (.wrapper (.munmap start.toNat size.toNat) TS_APPLICATION)
    pure ()

/-- `PROT_GROWSDOWN`. -/
def PROT_GROWSDOWN : Nat := 0x01000000

/-- The handler of `mprotect`. The result of a call that asks for no execution is
not looked at before the page manager is updated. -/
def syscallHandlerMprotect (start size prot : UInt64) : M Unit := do
  let start := start.toNat
  let size := size.toNat
  let owned ← perform (.lookupRange start size TS_APPLICATION)
  if ¬ owned then pure ()
  else do
    Prog.require (¬ hasFlag prot.toNat PROT_GROWSDOWN)
    let prot : Prot := .ofNat 32 prot.toNat
    if prot.isExec ∧ prot.isWrite then do
      let res ← perform (.wrapper (.mprotect start size prot.noExec none) TS_APPLICATION)
      Prog.whenever (res = 0) do
        expectZero (perform (.updateMprotect start size prot.noExec TS_APPLICATION))
        markUnsafe start size prot.noExec false
    else if prot.isExec then do
      let res ← perform (.wrapper (.mprotect start size PROT_READ none) TS_APPLICATION)
      Prog.whenever (res ≥ 0)
        (scanExecMappingMprotect start size prot prot.noExec TS_APPLICATION [])
    else do
      let _ ← perform (.wrapper (.mprotect start size prot none) TS_APPLICATION)
      expectZero (perform (.updateMprotect start size prot TS_APPLICATION))

/-- The handler of `mremap`, with what it writes to the place of `%rax`: nothing, if the range is
not inside one group of the application. -/
def syscallHandlerMremap (start oldSize newSize flags newStart : UInt64) : M (Option Nat) := do
  let g ← perform (.lookupAddr start.toNat TS_APPLICATION)
  match g with
  | none => pure none
  | some g =>
      if wadd start.toNat oldSize.toNat > g.pageEnd then pure none
      else if g.prot.isExec then do
        let ret ← handleMremapExec start.toNat oldSize.toNat newSize.toNat flags.toNat
          newStart.toNat g.prot TS_APPLICATION
        pure (some ret)
      else do
        let ret ← handleMremap start.toNat oldSize.toNat newSize.toNat flags.toNat newStart.toNat
          TS_APPLICATION
        pure (some ret)

/-! ## The SIGSEGV handler -/

/-- `secpoline_mprotect`: a call that fails is reported as a success. -/
def secpolineMprotect (addr size : Nat) (prot : Prot) (cid : Int) : M Unit := do
  let ret ← perform (.inline (.mprotect addr size prot none))
  Prog.whenever (ret = 0) (expectZero (perform (.updateMprotect addr size prot cid)))

/-- `set_page_non_executable`. A page that should be writable is left with
`unsafe_page_mutex` held. -/
def setPageNonExecutable (address : Nat) : M Unit := do
  let pmPage ← perform (.lookupAddr address (-1))
  let page ← perform (.findUnsafePage address)
  match pmPage, page with
  | some pmPage, some page => do
      Prog.require (page.trustedPage → pmPage.cid = TS_MONITOR)
      if ¬ page.currentPerm.isExec then pure ()
      else do
        perform .lockUnsafePages
        if page.desiredPerm.isWrite then do
          perform (.setCurrentPerm page.address (PROT_READ ||| PROT_WRITE))
          secpolineMprotect page.address 4096 (PROT_READ ||| PROT_WRITE) pmPage.cid
        else do
          perform (.setCurrentPerm page.address PROT_READ)
          secpolineMprotect page.address 4096 PROT_READ pmPage.cid
          perform .unlockUnsafePages
  | _, _ => .abort

/-- `add_breakpoint_wrapper`, as the thread that leads the round does it: its own
`add_breakpoints` makes the pages it evicts non-executable before it takes their
registers. The other threads then reach the same controller, and find the
evicted pages non-executable. -/
def addBreakpointWrapper (address : Nat) (isStatic : Bool) : M Unit := do
  let page ← perform (.findUnsafePage address)
  match page with
  | none => .abort
  | some page =>
      if page.currentPerm.isExec then pure ()
      else do
        let c ← perform .hardwareBreakpoints
        match c.addBreakpoints page isStatic with
        | none => .abort
        | some (c', evicted) => do
            Prog.fold (fun _ a => setPageNonExecutable a) evicted ()
            perform (.setHardwareBreakpoints c')

/-- The `si_code` of a SIGSEGV that was not sent by a process. -/
inductive SegvCode where
  | mapErr
  | accErr
  | bndErr
  | pkuErr
deriving DecidableEq, Repr

/-- The end of the two transitions to an executable page. -/
def makeExecutable (address : Nat) (cid : Int) : M Int := do
  secpolineMprotect address 4096 (PROT_READ ||| PROT_EXEC) cid
  perform (.setCurrentPerm address (PROT_READ ||| PROT_EXEC))
  pure 0

/-- `secpoline_segfault_handler`. -/
def secpolineSegfaultHandler (code : SegvCode) (address : Nat) (cid : Int) : M Int := do
  Prog.require (code ≠ .pkuErr)
  if code = .bndErr ∨ code = .mapErr then pure 1
  else do
    let page ← perform (.findUnsafePage address)
    match page with
    | none => pure 2
    | some page => do
        let tracked ← perform (.lookupAddr page.address cid)
        if tracked = none then pure 3
        else if page.currentPerm.isExec then
          if ¬ page.desiredPerm.isWrite then pure 0
          else do
            secpolineMprotect page.address 4096 page.desiredPerm.noExec cid
            perform (.setCurrentPerm page.address page.desiredPerm.noExec)
            pure 0
        else if page.currentPerm.isWrite then
          if ¬ page.desiredPerm.isExec then pure 4
          else do
            let (found, _) ← erimMemScanRegion page.address [] page.desiredPerm
              page.desiredPerm.noWrite page.trustedPage .null
            Prog.whenever found (addBreakpointWrapper page.address false)
            makeExecutable page.address cid
        else if page.unsafeInstructions ≠ none then
          if ¬ page.desiredPerm.isExec then pure 5
          else do
            addBreakpointWrapper page.address false
            makeExecutable page.address cid
        else pure 6

/-! ## The monitor's own calls -/

/-- `mmap` in `meta_monitor`. -/
def metaMonitorMmap (start size prot flags : UInt64) (fd : Int) : M Unit := do
  let _ ← secpolineMmap start.toNat (roundUp size.toNat) (.ofNat 32 prot.toNat) flags.toNat fd
    TS_MONITOR
  pure ()

/-- `munmap` in `meta_monitor`. -/
def metaMonitorMunmap (start size : UInt64) : M Unit := do
  let r ← perform (.removePage start.toNat size.toNat TS_MONITOR)
  Prog.whenever (r ≠ -1) do
    let _ ← perform (.inline (.munmap start.toNat size.toNat))
    pure ()

/-! ## Start-up, threads and rewriting -/

/-- `init_page_group` for one mapping of the process at start-up. -/
def initPageGroup (start stop : Nat) (prot : Prot) (isSegfaultHandler : Bool) (cid : Int)
    (allowList : List Nat) : M Unit := do
  let size := wsub stop start
  if isSegfaultHandler then do
    Prog.require (¬ (prot.isExec ∧ prot.isWrite))
    Prog.require (cid = TS_MONITOR)
    Prog.whenever prot.isExec
      (Prog.fold (fun _ address => do
          let (found, _) ← erimMemScanRegion address allowList prot prot true .null
          Prog.whenever found (addBreakpointWrapper address true))
        (pageLoop start size) ())
    addGroup start size prot 0 TS_MONITOR false SECPOLINE_MPKEY
  else if prot.isExec ∧ prot.isWrite then do
    markUnsafe start size prot.noExec (cid = TS_MONITOR)
    addGroup start size prot.noExec 0 cid false ((getPkey cid).getD 0)
  else if prot.isExec then scanExecMapping start size prot prot.noExec 0 false cid allowList
  else addGroup start size prot 0 cid false ((getPkey cid).getD 0)

/-- The handler of `clone`, as far as the memory handlers notice it. -/
def syscallHandlerClone : M Unit := perform .setMultithreaded

/-- `rewrite_syscall_inst`. -/
def rewriteSyscallInst (syscallAddr : Nat) (cid : Int) : M Unit := do
  let page := syscallAddr / 4096 * 4096
  Prog.whenever (cid = TS_APPLICATION) (perform (.checkReadable syscallAddr))
  let pagePkey := if cid = TS_APPLICATION then UNTRUSTED_MPKEY else SECPOLINE_MPKEY
  expectZero (perform (.inline
    (.mprotect page 4096 (PROT_READ ||| PROT_WRITE ||| PROT_EXEC) (some SECPOLINE_MPKEY))))
  perform (.rewriteSyscall syscallAddr)
  expectZero (perform (.inline
    (.mprotect page 4096 (PROT_READ ||| PROT_EXEC) (some pagePkey))))

end Secpoline
