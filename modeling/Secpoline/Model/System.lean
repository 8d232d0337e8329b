import Secpoline.Model.Handlers

/-!
# The process

The state the handlers share with the kernel and the application, and what each
of their operations does to it. Where the outcome is not the monitor's to decide
it comes from an `Oracle`: the answer of the kernel to a memory call, the address
it gives to a pool of list nodes, the bytes of a file.

`scanned` is not in the source. It remembers, for every page, the contents that
`erim_memScanRegion` saw when it last scanned that page.
-/

namespace Secpoline

open Lib

structure Sys where
  pm : PageManager
  kern : Kern
  unsafePages : List UnsafePage
  hb : HbController
  multithreaded : Bool
  unsafePageMutex : Bool
  scanned : Nat → Option (Nat → UInt8)

/-- What the environment decides about one operation. -/
structure Oracle where
  answer : Int
  pool : Nat
  bytes : Nat → UInt8

namespace Sys

/-- A kernel call. -/
def kernelCall (s : Sys) (o : Oracle) (c : KCall) : Option (Int × Sys) :=
  (s.kern.apply o.answer c).map fun kern => (o.answer, { s with kern })

/-- A call to the page manager. If it had to refill its free list, the kernel has
mapped a new pool for it. -/
def pageCall (s : Sys) (o : Oracle) (result : Option (Int × PageManager)) : Option (Int × Sys) :=
  match result with
  | none => none
  | some (r, pm) =>
      if pm.pools = s.pm.pools then some (r, { s with pm })
      else
        (s.kern.apply o.pool (.mmap 0 8192 (PROT_READ ||| PROT_WRITE) false)).map
          fun kern => (r, { s with pm, kern })

/-- The contents of a page. -/
def contents (s : Sys) (page : Nat) : Nat → UInt8 :=
  fun i => if i < 4096 then s.kern.mem (4096 * page + i) else 0

/-- The application can read the page at this address. -/
def readable (s : Sys) (address : Nat) : Bool :=
  match s.kern.pages (address / 4096) with
  | none => false
  | some g => g.prot.isRead && (g.key == UNTRUSTED_MPKEY || g.key == 1)

/-- `if(*syscall_addr==0x050F) *syscall_addr = 0xD0FF`. -/
def rewrite (s : Sys) (address : Nat) : Sys :=
  if s.kern.mem address = 0x0F ∧ s.kern.mem (address + 1) = 0x05 then
    { s with kern := { s.kern with mem := fun x =>
        if x = address then 0xFF else if x = address + 1 then 0xD0 else s.kern.mem x } }
  else s

/-- One operation; `none` if the process ends in it, the thread waits in it for
ever, or the oracle's answer cannot be. -/
def perform (s : Sys) (o : Oracle) : (e : Op) → Option (Resp e × Sys)
  | .inline c => s.kernelCall o c
  | .wrapper c _ => s.kernelCall o c
  | .readFile start size =>
      some ((), { s with kern := { s.kern with mem := fun x =>
        if start ≤ x ∧ x < start + size then o.bytes x else s.kern.mem x } })
  | .isMultithreaded => some (s.multithreaded, s)
  | .setMultithreaded => some ((), { s with multithreaded := true })
  | .lookupAddr addr cid => some (Secpoline.lookupAddr s.pm addr cid, s)
  | .lookupRange start size cid =>
      (Secpoline.lookupRange s.pm start size cid).map fun g => (g.isSome, s)
  | .lookupRangeAllowGaps start size cid =>
      some (Secpoline.lookupRangeAllowGaps s.pm start size cid, s)
  | .addPage start size prot flags cid mapFixed =>
      s.pageCall o (Secpoline.addPage s.multithreaded o.pool s.pm start size prot flags cid
        mapFixed)
  | .removePage start size cid => s.pageCall o (Secpoline.removePage o.pool s.pm start size cid)
  | .updateMprotect start size prot cid =>
      s.pageCall o (Secpoline.updateMprotect o.pool s.pm start size prot cid)
  | .updateSize start oldSize newSize cid =>
      s.pageCall o (Secpoline.updateSize o.pool s.pm start oldSize newSize cid)
  | .findUnsafePage address => some (Secpoline.findUnsafePage s.unsafePages address, s)
  | .addUnsafePage address currentPerm desiredPerm trustedPage instructions =>
      (Secpoline.addUnsafePage s.unsafePages address currentPerm desiredPerm trustedPage
        instructions).map fun unsafePages => ((), { s with unsafePages })
  | .updateUnsafePage address currentPerm desiredPerm trustedPage instructions =>
      (Secpoline.updateUnsafePage s.unsafePages address currentPerm desiredPerm trustedPage
        (some instructions)).map fun r => ((), { s with unsafePages := r.2 })
  | .updateUnsafeInstruction address instruction currentPerm desiredPerm trustedPage =>
      if address ≤ instruction ∧ instruction < address + 4096 then
        (Secpoline.updateUnsafeInstruction s.unsafePages address instruction currentPerm
          desiredPerm trustedPage).map fun unsafePages => ((), { s with unsafePages })
      else none
  | .setCurrentPerm address perm =>
      some ((), { s with unsafePages := Secpoline.setCurrentPerm s.unsafePages address perm })
  | .lockUnsafePages =>
      if s.unsafePageMutex then none else some ((), { s with unsafePageMutex := true })
  | .unlockUnsafePages => some ((), { s with unsafePageMutex := false })
  | .readPrev .. => some (s.kern.mem, s)
  | .readNext .. => some (s.kern.mem, s)
  | .scan page _ _ =>
      if (s.kern.pages (page / 4096)).isSome then
        some (s.kern.mem, { s with scanned := fun p =>
          if p = page / 4096 then some (s.contents p) else s.scanned p })
      else none
  | .hardwareBreakpoints => some (s.hb, s)
  | .setHardwareBreakpoints c => some ((), { s with hb := c })
  | .checkReadable address => if s.readable address then some ((), s) else none
  | .rewriteSyscall address => some ((), s.rewrite address)

/-- The application can write to the page. -/
def appWritable (s : Sys) (page : Nat) : Bool :=
  match s.kern.pages page with
  | none => false
  | some g => g.prot.isWrite && g.key == UNTRUSTED_MPKEY

/-- The memory with one byte changed. -/
def store (s : Sys) (address : Nat) (byte : UInt8) : Sys :=
  { s with kern := { s.kern with mem := fun x => if x = address then byte else s.kern.mem x } }

/-- The application writes a byte to a page that it can write to. -/
def AppStore (s s' : Sys) : Prop :=
  ∃ address byte, s.appWritable (address / 4096) = true ∧ s' = s.store address byte

/-- The operation can take the process from `s` to `s'` with answer `r`. -/
def Step (s : Sys) (e : Op) (r : Resp e) (s' : Sys) : Prop :=
  ∃ o, s.perform o e = some (r, s')

end Sys

/-- What the monitor can be asked to do. -/
inductive Request where
  | mmap (start size prot flags : UInt64) (fd : Int)
  | munmap (start size : UInt64)
  | mprotect (start size prot : UInt64)
  | mremap (start oldSize newSize flags newStart : UInt64)
  | clone
  | segv (code : SegvCode) (address : Nat) (cid : Int)
  | rewriteSyscall (address : Nat) (cid : Int)
  | initPageGroup (start stop : Nat) (prot : Prot) (isSegfaultHandler : Bool) (cid : Int)
      (allowList : List Nat)
deriving DecidableEq, Repr

/-- The program that serves a request. -/
def Request.serve : Request → M Unit
  | .mmap start size prot flags fd => syscallHandlerMmap start size prot flags fd
  | .munmap start size => syscallHandlerMunmap start size
  | .mprotect start size prot => syscallHandlerMprotect start size prot
  | .mremap start oldSize newSize flags newStart => do
      let _ ← syscallHandlerMremap start oldSize newSize flags newStart
      pure ()
  | .clone => syscallHandlerClone
  | .segv code address cid => do
      let _ ← secpolineSegfaultHandler code address cid
      pure ()
  | .rewriteSyscall address cid => rewriteSyscallInst address cid
  | .initPageGroup start stop prot isSegfaultHandler cid allowList =>
      Secpoline.initPageGroup start stop prot isSegfaultHandler cid allowList

/-- A process in which nothing is mapped or tracked yet. -/
def Sys.start (mem : Mem) : Sys :=
  { pm := {}, kern := { pages := fun _ => none, mem }, unsafePages := [], hb := .init
    multithreaded := false, unsafePageMutex := false, scanned := fun _ => none }

/-- The application writes a byte, if it can. -/
def Sys.appStore (write : Nat × UInt8) (s : Sys) : Option Sys :=
  if s.appWritable (write.1 / 4096) then some (s.store write.1 write.2) else none

/-- An environment in which the kernel gives these answers to the operations of a
program, one after the other, and all pools and files are the same. -/
def answers (l : List Int) : List Oracle :=
  l.map fun answer => { answer, pool := 0x200000, bytes := fun _ => 0 }

end Secpoline
