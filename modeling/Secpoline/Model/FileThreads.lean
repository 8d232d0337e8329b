import Secpoline.Model.Files
import Mathlib.Logic.Function.Basic

/-!
# File descriptors and threads

The handlers of `virtualize_files.cpp` as threads run them at the same time. What
they share is the kernel's descriptor table and the bitmap with its lock. `read_bit`
and `set_bit` take the lock and give it back at once, so each is one step that has
to wait while the lock is held; `close` holds it from before its kernel call until
after `unset_bit`. The kernel calls are steps of their own, and those that create a
descriptor are made without the lock.

Which of the calls fail is the kernel's choice, as is whether the file that was
opened is one the application must not have.
-/

namespace Secpoline

open Lib

/-- A system call of the application that creates or closes descriptors. -/
inductive FdCall where
  /-- A call of `FD_CREATORS` under the default handler, with the descriptor that its
  prehandler checks, if it has one: `socket`, `dup`, `accept`. -/
  | create (fd : Option Int)
  /-- `open`, and with a descriptor `openat`, `openat2` and `open_by_handle_at`. -/
  | openFile (fd : Option Int)
  /-- `pipe`, `pipe2` and `socketpair`. -/
  | pipe
  /-- `dup2` and `dup3`. -/
  | dup2 (fd₁ fd₂ : Int)
  | close (fd : Int)
deriving DecidableEq, Repr

/-- Where a thread is. -/
inductive FdPhase where
  | idle
  /-- In the prehandlers: the descriptors that are still to be looked up, and whether
  those before were the application's. -/
  | checking (call : FdCall) (fds : List Int) (ok : Bool)
  /-- In the handler of `open`, which has opened this descriptor. -/
  | opened (n : Nat)
  /-- It is about to close it again. -/
  | denying (n : Nat)
  /-- Descriptors have been created, and their bits are still to be set. -/
  | saving (ns : List Nat)
  /-- In the handler of `close`, with the lock. -/
  | closing (fd : Int)
  /-- The descriptor is closed, its bit not cleared yet. -/
  | clearing (n : Nat)
  | unlocking
deriving DecidableEq, Repr

/-- What the kernel answers. -/
inductive FdAnswer where
  | succeeds
  | fails
  /-- An error of `close`, `EINTR` or `EIO`, after the descriptor was released. -/
  | released
deriving DecidableEq, Repr

/-- What the threads share. -/
structure FdShared where
  table : FdTable
  bitmap : FdBitmap
  /-- `mtx` is held exclusively. -/
  mtx : Bool
deriving DecidableEq, Repr

def FdShared.put (s : FdShared) (n : Nat) (o : Option FdOwner) : FdShared :=
  { s with table := s.table.put n o }

/-- The descriptors that the prehandlers of a call look up. A negative one is not
looked up if it is the only one. -/
def FdCall.checks : FdCall → List Int
  | .create (some fd) | .openFile (some fd) | .close fd => if fd < 0 then [] else [fd]
  | .create none | .openFile none | .pipe => []
  | .dup2 fd₁ fd₂ => [fd₁, fd₂]

/-- The kernel opens the lowest free descriptor for the application. -/
def FdShared.kernelOpen (s : FdShared) : Nat × FdShared :=
  (s.table.lowestFree, s.put s.table.lowestFree (some .application))

/-- The kernel call of a creating call, and `close` up to it, after the prehandlers:
`ok` says whether they left the first argument. -/
def FdCall.enter (s : FdShared) (ok : Bool) (a : FdAnswer) : FdCall → Option (FdShared × FdPhase)
  | .create _ =>
      if a = .succeeds then
        let (n, s) := s.kernelOpen
        some (s, .saving [n])
      else some (s, .idle)
  | .openFile _ =>
      if a = .succeeds then
        let (n, s) := s.kernelOpen
        some (s, .opened n)
      else some (s, .idle)
  | .pipe =>
      if a = .succeeds then
        let (n₀, s) := s.kernelOpen
        let (n₁, s) := s.kernelOpen
        some (s, .saving [n₀, n₁])
      else some (s, .idle)
  | .dup2 fd₁ fd₂ =>
      let rdi := if ok then fd₁ else -1
      if a = .succeeds ∧ 0 ≤ rdi ∧ 0 ≤ fd₂ ∧ s.table.owner rdi.toNat ≠ none then
        if rdi = fd₂ then some (s, .saving [fd₂.toNat])
        else some (s.put fd₂.toNat (some .application), .saving [fd₂.toNat])
      else some (s, .idle)
  | .close fd =>
      if s.mtx then none else some ({ s with mtx := true }, .closing (if ok then fd else -1))

/-- One step of a thread; `none` if it waits for the lock or has no call. -/
def FdPhase.step (s : FdShared) (a : FdAnswer) : FdPhase → Option (FdShared × FdPhase)
  | .idle => none
  | .checking call (fd :: fds) ok =>
      if s.mtx then none
      else some (s, .checking call fds (ok && s.bitmap.readBit (toSizeT fd)))
  | .checking call [] ok => call.enter s ok a
  | .opened n => if a = .succeeds then some (s, .saving [n]) else some (s, .denying n)
  | .denying n => some (s.put n none, .idle)
  | .saving (n :: ns) =>
      if s.mtx then none else some ({ s with bitmap := s.bitmap.setBit n }, .saving ns)
  | .saving [] => some (s, .idle)
  | .closing fd =>
      if fd < 0 ∨ s.table.owner fd.toNat = none then some (s, .unlocking)
      else
        match a with
        | .succeeds => some (s.put fd.toNat none, .clearing fd.toNat)
        | .fails => some (s, .unlocking)
        | .released => some (s.put fd.toNat none, .unlocking)
  | .clearing n => some ({ s with bitmap := s.bitmap.unsetBit n }, .unlocking)
  | .unlocking => some ({ s with mtx := false }, .idle)

/-- Threads that run handlers. -/
structure FdThreads (ι : Type) where
  shared : FdShared
  phase : ι → FdPhase

/-- A thread makes a call, or takes a step. -/
inductive FdMove (ι : Type) where
  | call (i : ι) (c : FdCall)
  | step (i : ι) (a : FdAnswer)

variable {ι : Type} [DecidableEq ι]

def FdThreads.next (s : FdThreads ι) : FdMove ι → Option (FdThreads ι)
  | .call i c =>
      if s.phase i = .idle then
        some { s with phase := Function.update s.phase i (.checking c c.checks true) }
      else none
  | .step i a =>
      match (s.phase i).step s.shared a with
      | none => none
      | some (shared, p) => some { shared, phase := Function.update s.phase i p }

/-- No thread is in a handler. -/
def FdThreads.start (f : Files) : FdThreads ι :=
  { shared := { table := f.table, bitmap := f.bitmap, mtx := false }, phase := fun _ => .idle }

end Secpoline
