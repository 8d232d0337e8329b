import Secpoline.Model.Kernel
import Secpoline.Model.Scan

/-!
# Probing a buffer of the application

Before the monitor copies from or to a buffer that the application names, it accesses the
buffer once with the permissions of the application: `is_buffer_untrusted` does that for
every page of the buffer, and a page that is not the application's ends the process.

An access is eight bytes wide. What is recorded is every access that is attempted, the
one that faults included.
-/

namespace Secpoline

/-- Whether `pkru` lets the pages of a key be read, or written. -/
def pkruGrants (pkru key : Nat) (write : Bool) : Bool :=
  !pkru.testBit (2 * key) && !(write && pkru.testBit (2 * key + 1))

/-- Whether the page can be read, or written, under `pkru`. -/
def Kern.grants (k : Kern) (pkru : Nat) (write : Bool) (page : Nat) : Bool :=
  match k.pages page with
  | none => false
  | some g => (if write then g.prot.isWrite else g.prot.isRead) && pkruGrants pkru g.key write

/-- `movq (%[address]), %%rax`, or the other way round. -/
inductive Access where
  | load (address : Nat)
  | store (address : Nat)
deriving DecidableEq, Repr

namespace Access

def address : Access → Nat
  | load a | store a => a

def isStore : Access → Bool
  | load _ => false
  | store _ => true

/-- The pages of the eight bytes. -/
def pages (a : Access) : List Nat := (List.range 8).map fun i => wadd a.address i / 4096

end Access

def Kern.permits (k : Kern) (pkru : Nat) (a : Access) : Bool :=
  a.pages.all (k.grants pkru a.isStore)

/-- Accesses up to the first one that faults, and whether there is none. -/
def Kern.attempt (k : Kern) (pkru : Nat) : List Access → List Access × Bool
  | [] => ([], true)
  | a :: rest =>
      if k.permits pkru a then
        let r := k.attempt pkru rest
        (a :: r.1, r.2)
      else ([a], false)

inductive Verdict where
  /-- `return 1`, with the permissions that are set then. -/
  | accepted (pkru : Nat)
  | fault
  /-- `ud2`. -/
  | trap
  /-- The loop has not ended yet. -/
  | running
deriving DecidableEq, Repr

/-- What `mpk_check` and `mpk_check_readonly` have in common: the accesses with the
permissions of the application, and that the monitor goes on with `pkru_after`. -/
def mpkProbe (k : Kern) (cid : Int) (accesses : List Access) (pkruAfter : Nat) :
    List Access × Verdict :=
  match k.attempt REVOKE_PERMISSIONS accesses with
  | (log, false) => (log, .fault)
  | (log, true) => (log, if cid = TS_MONITOR then .accepted pkruAfter else .trap)

def mpkCheck (k : Kern) (cid : Int) (address pkruAfter : Nat) : List Access × Verdict :=
  mpkProbe k cid [.load address, .store address] pkruAfter

def mpkCheckReadonly (k : Kern) (cid : Int) (address pkruAfter : Nat) : List Access × Verdict :=
  mpkProbe k cid [.load address] pkruAfter

/-- `for(size_t address = start_page; address <= end_page; address+=PAGE_SIZE)`. -/
def probeLoop (check : Nat → List Access × Verdict) (endPage : Nat) :
    Nat → Nat → Nat → List Access × Verdict
  | 0, _, _ => ([], .running)
  | fuel + 1, address, pkru =>
      if address ≤ endPage then
        match check address with
        | (log, .accepted pkru') =>
            let r := probeLoop check endPage fuel (wadd address 4096) pkru'
            (log ++ r.1, r.2)
        | r => r
      else ([], .accepted pkru)

/-- `__builtin_align_down(p, PAGE_SIZE)`. -/
def alignDown (a : Nat) : Nat := a / 4096 * 4096

/-- `(size_t)start + size` for an `int`. -/
def waddInt (a : Nat) (i : Int) : Nat := ((a + i) % 2 ^ 64).toNat

/-- `pkru` is what the permissions are when it is called. -/
def isBufferUntrusted (k : Kern) (cid : Int) (fuel pkru start : Nat) (size : Int)
    (pkruAfter : Nat) (readonly : Bool) : List Access × Verdict :=
  let startPage := alignDown start
  let endPage := alignDown (waddInt start size)
  let check := fun address =>
    if readonly then mpkCheckReadonly k cid address pkruAfter
    else mpkCheck k cid address pkruAfter
  if startPage ≠ endPage then probeLoop check endPage fuel startPage pkru
  else check start

end Secpoline
