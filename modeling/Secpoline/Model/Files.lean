import Secpoline.Lib.Bitmap
import Mathlib.Algebra.Group.Int.Defs

/-!
# File descriptors

The application may only use descriptors it opened itself. `untrusted_fd_bitmap`
has the bit of a descriptor set while the application owns it: handlers that run
after a creating call set the bit of the descriptor the kernel returned, the
handler of `close` clears it, and handlers that run before a call that takes a
descriptor replace the argument by -1 if its bit is clear.

The kernel's side is the descriptor table: which numbers are open, and who
opened them. It hands out the lowest free number.

`stale` is not in the code. It collects the numbers that were released while
their bit stayed set, until the number is given to the application again.
-/

namespace Secpoline

open Lib

/-! ## The bitmap -/

/-- `map`, of which `size` is the length. -/
structure FdBitmap where
  bytes : List (BitVec 8)
deriving DecidableEq, Repr

/-- `calloc`, `size = 1`. -/
def FdBitmap.empty : FdBitmap := ⟨[0#8]⟩

def FdBitmap.setBit (m : FdBitmap) (index : Nat) : FdBitmap :=
  let byteIndex := index / 8
  if byteIndex ≥ m.bytes.length then
    let newSize := (byteIndex / 8 + 1) * 8
    ⟨orBit (padTo m.bytes newSize) index⟩
  else ⟨orBit m.bytes index⟩

def FdBitmap.unsetBit (m : FdBitmap) (index : Nat) : FdBitmap :=
  if index / 8 ≥ m.bytes.length then m else ⟨clearBit m.bytes index⟩

def FdBitmap.readBit (m : FdBitmap) (index : Nat) : Bool := getBit m.bytes index

/-- An `int` passed where a `size_t` is expected: negative numbers wrap. -/
def toSizeT (fd : Int) : Nat := if fd < 0 then (fd + 2 ^ 64).toNat else fd.toNat

/-! ## The descriptor table -/

inductive FdOwner where
  | application
  | monitor
deriving DecidableEq, Repr

/-- Entry `n` says who opened descriptor `n`, or that it is free. -/
abbrev FdTable := List (Option FdOwner)

def FdTable.owner (t : FdTable) (n : Nat) : Option FdOwner := t[n]?.join

def FdTable.put (t : FdTable) (n : Nat) (o : Option FdOwner) : FdTable :=
  (t ++ List.replicate (n + 1 - t.length) none).set n o

def FdTable.lowestFree (t : FdTable) : Nat := t.findIdx (· = none)

structure Files where
  table : FdTable
  bitmap : FdBitmap
  stale : List Nat
deriving DecidableEq, Repr

/-- Bit set: the descriptor is the application's. -/
def Files.readBit (s : Files) (n : Nat) : Bool := s.bitmap.readBit n

/-- The kernel opens the lowest free descriptor. -/
def Files.kernelOpen (s : Files) (o : FdOwner) : Nat × Files :=
  let n := s.table.lowestFree
  (n, { s with table := s.table.put n (some o) })

def Files.kernelClose (s : Files) (n : Nat) : Files :=
  { s with table := s.table.put n none }

/-- The application is given the number: whatever its bit says is now right. -/
def Files.given (s : Files) (n : Nat) : Files := { s with stale := s.stale.filter (· ≠ n) }

/-! ## Start-up -/

/-- The constructor of `fd_bitmap`. The directory is open while its entries are
read, so its own descriptor is among them. -/
def Files.start (inherited : FdTable) : Files :=
  let s : Files := { table := inherited, bitmap := .empty, stale := [] }
  let (d, s) := s.kernelOpen .monitor
  let entries := (List.range s.table.length).filter fun n => s.table.owner n ≠ none
  let s := { s with bitmap := entries.foldl FdBitmap.setBit s.bitmap }
  { s.kernelClose d with stale := [d] }

/-! ## Handlers -/

/-- The handler after a creating call; `rax` is the call's result. -/
def Files.saveUntrustedFd (s : Files) (rax : Int) : Files :=
  if rax < 0 then s else { s with bitmap := s.bitmap.setBit (toSizeT rax) }

/-- The first argument after `fd_first_argument_prehandler`. -/
def Files.fdFirstArgument (s : Files) (fd : Int) : Int :=
  if fd < 0 then fd else if s.readBit (toSizeT fd) then fd else -1

/-- The first argument after `fd_first_second_argument_prehandler`. -/
def Files.fdFirstSecondArgument (s : Files) (fd₁ fd₂ : Int) : Int :=
  let rdi := if s.readBit (toSizeT fd₁) then fd₁ else -1
  if s.readBit (toSizeT fd₂) then rdi else -1

/-- A call of `FD_CREATORS` under the default handler: `dup`, `socket`, `accept`
and the like. -/
def Files.create (s : Files) (ok : Bool) : Files :=
  if ok then
    let (n, s) := s.kernelOpen .application
    (s.saveUntrustedFd n).given n
  else s.saveUntrustedFd (-1)

inductive OpenResult where
  | fails
  | denied
  | opened

/-- `open`, `openat`, `openat2` and `open_by_handle_at`. The first call opens and
closes `/proc/self/mem` for the monitor, which leaves the table as it was; a
descriptor of `/proc/self/mem` is closed again and the call answers `-EACCES`. -/
def Files.openFile (s : Files) (r : OpenResult) : Files :=
  match r with
  | .fails => s.saveUntrustedFd (-1)
  | .denied =>
      let (n, s) := s.kernelOpen .application
      (s.kernelClose n).saveUntrustedFd (-13)
  | .opened =>
      let (n, s) := s.kernelOpen .application
      (s.saveUntrustedFd n).given n

/-- A call that creates a descriptor and has no handler for it: `fcntl(F_DUPFD)`,
`signalfd4`, `recvmsg` with rights. -/
def Files.createUnsaved (s : Files) : Files :=
  let (n, s) := s.kernelOpen .application
  s.given n

/-- `dup2` and `dup3`. The kernel closes the target, opens it as a copy of the
source and returns it; it answers `-EBADF` if the source is not open, and does
nothing if the two are the same. -/
def Files.dup2 (s : Files) (fd₁ fd₂ : Int) (ok : Bool) : Files :=
  let rdi := s.fdFirstSecondArgument fd₁ fd₂
  if ok ∧ 0 ≤ rdi ∧ 0 ≤ fd₂ ∧ s.table.owner rdi.toNat ≠ none then
    if rdi = fd₂ then s.saveUntrustedFd fd₂
    else
      let s := { s with table := s.table.put fd₂.toNat (some .application) }
      (s.saveUntrustedFd fd₂).given fd₂.toNat
  else s.saveUntrustedFd (-9)

inductive CloseResult where
  | closed
  /-- An error that leaves the descriptor open. -/
  | refused
  /-- An error, `EINTR` or `EIO`, after the descriptor was released. -/
  | released

/-- `close` returns an error without touching the bit. -/
def Files.close (s : Files) (fd : Int) (r : CloseResult) : Files :=
  let fd := s.fdFirstArgument fd
  if fd < 0 ∨ s.table.owner fd.toNat = none then s
  else
    match r with
    | .closed => { s.kernelClose fd.toNat with bitmap := s.bitmap.unsetBit (toSizeT fd) }
    | .refused => s
    | .released => { s.kernelClose fd.toNat with stale := fd.toNat :: s.stale }

/-- `pipe`, `pipe2` and `socketpair`. -/
def Files.pipe (s : Files) (ok : Bool) : Files :=
  if ok then
    let (n₀, s) := s.kernelOpen .application
    let (n₁, s) := s.kernelOpen .application
    let s := { s with bitmap := (s.bitmap.setBit n₀).setBit n₁ }
    (s.given n₀).given n₁
  else s

inductive FdEvent where
  | create (ok : Bool)
  | openFile (r : OpenResult)
  | createUnsaved
  | dup2 (fd₁ fd₂ : Int) (ok : Bool)
  | close (fd : Int) (r : CloseResult)
  | pipe (ok : Bool)
  /-- The monitor opens a descriptor for itself. -/
  | monitorOpen
  /-- The monitor closes a descriptor it opened. -/
  | monitorClose (n : Nat)

def Files.step (s : Files) : FdEvent → Files
  | .create ok => s.create ok
  | .openFile r => s.openFile r
  | .createUnsaved => s.createUnsaved
  | .dup2 fd₁ fd₂ ok => s.dup2 fd₁ fd₂ ok
  | .close fd r => s.close fd r
  | .pipe ok => s.pipe ok
  | .monitorOpen => (s.kernelOpen .monitor).2
  | .monitorClose n => if s.table.owner n = some .monitor then s.kernelClose n else s

end Secpoline
