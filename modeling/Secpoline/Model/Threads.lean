import Secpoline.Lib.Pool
import Secpoline.Model.System

/-!
# Threads and `mmap_lock`

The memory handlers of several threads, interleaved at every operation: a check, a
kernel call, an update of the page manager. `mmap_lock` is taken for writing by the
handlers of `mmap` and `munmap` and by the monitor's own `mmap` and `munmap`; each
of them holds it around all of its operations, so it says which of them may be in
progress at the same time. A thread that waits for the lock has done nothing yet.
The handlers of `mprotect` and `mremap` do not take it.
-/

namespace Secpoline

open Lib

/-- What a thread can be at: a handler, or a call of the monitor. -/
inductive Job where
  | mmap (start size prot flags : UInt64) (fd : Int)
  | munmap (start size : UInt64)
  | mprotect (start size prot : UInt64)
  | mremap (start oldSize newSize flags newStart : UInt64)
  | monitorMmap (start size prot flags : UInt64) (fd : Int)
  | monitorMunmap (start size : UInt64)
deriving DecidableEq, Repr

namespace Job

def program : Job → M Unit
  | .mmap start size prot flags fd => syscallHandlerMmap start size prot flags fd
  | .munmap start size => syscallHandlerMunmap start size
  | .mprotect start size prot => syscallHandlerMprotect start size prot
  | .mremap start oldSize newSize flags newStart => do
      let _ ← syscallHandlerMremap start oldSize newSize flags newStart
      pure ()
  | .monitorMmap start size prot flags fd => metaMonitorMmap start size prot flags fd
  | .monitorMunmap start size => metaMonitorMunmap start size

/-- The job holds `mmap_lock`. -/
def locked : Job → Bool
  | .mmap .. | .munmap .. | .monitorMmap .. | .monitorMunmap .. => true
  | .mprotect .. | .mremap .. => false

def forApplication : Job → Bool
  | .mmap .. | .munmap .. | .mprotect .. | .mremap .. => true
  | .monitorMmap .. | .monitorMunmap .. => false

/-- `mremap` is without `MREMAP_FIXED`. -/
def NotFixed : Job → Prop
  | .mremap _ _ _ flags _ => hasFlag flags.toNat MREMAP_FIXED = false
  | _ => True

end Job

section
variable {ι : Type}

/-- The lock is free if the job needs it. -/
def Job.Permitted (jobs : ι → Option Job) (l : Job) : Prop :=
  l.locked = true → ∀ i l', jobs i = some l' → l'.locked = false

/-- A job that begins, when `C` is true of it and those that are in progress. -/
def Job.Starts (C : (ι → Option Job) → Job → Prop) (jobs : ι → Option Job) (l : Job) (p : M Unit) :
    Prop :=
  p = l.program ∧ l.NotFixed ∧ l.Permitted jobs ∧ C jobs l

/-- An operation that satisfies `P`. -/
def Job.Step (P : Sys → Oracle → (e : Op) → Resp e → Prop) (_ : Job) (s : Sys) (e : Op)
    (r : Resp e) (s' : Sys) : Prop :=
  ∃ o, s.perform o e = some (r, s') ∧ P s o e r

/-- The application writes to its memory, or starts a thread. -/
def Sys.AppActs (s s' : Sys) : Prop := s.AppStore s' ∨ s' = { s with multithreaded := true }

/-- The states that threads reach when their jobs satisfy `C` and their operations
satisfy `P`. -/
abbrev ThreadRun [DecidableEq ι] (C : (ι → Option Job) → Job → Prop)
    (P : Sys → Oracle → (e : Op) → Resp e → Prop) :
    Sys → Sys → (ι → Option Job) → (ι → M Unit) → Prop :=
  Prog.JobRun (Job.Step P) Sys.AppActs (Job.Starts C)

end

/-- The pages that a call other than `mmap` touches. -/
def KCall.changes (r : Int) (c : KCall) (p : Nat) : Bool :=
  match c with
  | .mmap .. => false
  | _ => c.touches r p

/-- The pages that an operation changes by a call to `mprotect`, `munmap` or `mremap`
that takes effect. -/
def Op.changes : (e : Op) → Resp e → Nat → Bool
  | .wrapper c _, r, p | .inline c, r, p => c.changes r p
  | _, _, _ => false

end Secpoline
