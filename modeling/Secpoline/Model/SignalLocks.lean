import Secpoline.Model.SyscallTable

/-!
# The locks of a thread that is interrupted by signals

Two locks are taken by the handlers of system calls and by the dispatch of signals:
`SignalHandlers::mut` and `fd_bitmap::mtx`. Signals stay enabled while they are held.
The dispatch of a signal calls the application's handler, whose system calls run
the monitor again, on top of whatever was interrupted.

The code of a handler is modelled as the list of what it still has to do with the
locks, with the kernel calls in between; a signal can be delivered before each of
them. One thread is modelled. Others may make it wait for a lock, which changes
nothing for it, and may change the table in which it looks up a handler, so the
outcome of that is left open. The signal mask only keeps signals away and is left
out.
-/

namespace Secpoline

inductive MonitorLock where
  /-- `SignalHandlers::mut`. -/
  | handlersMut
  /-- `fd_bitmap::mtx`, for reading or for writing. -/
  | bitmapMtx
deriving DecidableEq, Repr

inductive LockOp where
  | acquire (l : MonitorLock)
  | release (l : MonitorLock)
  /-- Kernel calls and other work that takes neither lock. -/
  | work
  /-- `invoke_app_specific_handler` looks up the handler of its signal. -/
  | lookup
deriving DecidableEq, Repr

/-- A lock guard around `body`. -/
def withLock (l : MonitorLock) (body : List LockOp) : List LockOp :=
  .acquire l :: body ++ [.release l]

/-! ## System calls -/

/-- `fd_bitmap::read_bit`, under a `shared_lock`. -/
def readBitLocks : List LockOp := withLock .bitmapMtx [.work]

/-- `fd_bitmap::set_bit`, under a `unique_lock`. -/
def setBitLocks : List LockOp := withLock .bitmapMtx [.work]

def prehandlerLocks (n : Nat) (gprs : GpFrame) : List LockOp :=
  (if n ∈ fdUsers ∧ 0 ≤ asInt (gprs .rdi) then readBitLocks else []) ++
  (if n ∈ fdUsersSecondArgument then readBitLocks else []) ++
  (if n ∈ fdUsersFirstSecondArgument then readBitLocks ++ readBitLocks else []) ++
  (if n ∈ fdUsersFirstThirdArgument then readBitLocks ++ readBitLocks else [])

def nrClose : Nat := 3
def nrRtSigaction : Nat := 13

/-- `pipe`, `pipe2`, `socketpair`. -/
def pairCalls : List Nat := [22, 293, 53]

/-- The main handler, when the kernel's result is `rax`. -/
def mainHandlerLocks (n : Nat) (rax : Quad) : List LockOp :=
  if n = nrClose then withLock .bitmapMtx [.work]
  else if n = nrRtSigaction then withLock .handlersMut [.work]
  else if n ∈ pairCalls then
    .work :: if rax.toInt < 0 then [] else setBitLocks ++ setBitLocks
  else [.work]

/-- `save_untrusted_fd`. -/
def posthandlerLocks (n : Nat) (rax : Quad) : List LockOp :=
  if n ∈ fdCreators ∧ 0 ≤ asInt rax then setBitLocks else []

/-- `handle_app_sigaction` asserts that the signal is one. -/
def sigactionAborts (n : Nat) (gprs : GpFrame) : Prop :=
  n = nrRtSigaction ∧ ¬ (0 < asInt (gprs .rdi) ∧ asInt (gprs .rdi) < 128)

instance (n : Nat) (gprs : GpFrame) : Decidable (sigactionAborts n gprs) :=
  inferInstanceAs (Decidable (_ ∧ _))

/-- All handlers of a system call; `none` if one of them ends the thread. -/
def syscallLocks (n : Nat) (gprs : GpFrame) (rax : Quad) : Option (List LockOp) :=
  if MAX_VALID_SYSCALL_NUM ≤ n ∨ n ∈ abortingCalls ∨ sigactionAborts n gprs then none
  else some (prehandlerLocks n gprs ++ mainHandlerLocks n rax ++ posthandlerLocks n rax)

/-! ## Threads -/

/-- `invoke_app_specific_handler` up to the call of the handler. -/
def dispatchLocks : List LockOp := withLock .handlersMut [.lookup]

inductive LockCode where
  /-- The handlers of a system call. -/
  | syscall (todo : List LockOp)
  /-- The dispatch of a signal to the application. -/
  | dispatch (todo : List LockOp)
  /-- The application's handler of a signal. -/
  | handler
  /-- A signal that the monitor handles itself: a fault on an unsafe page, a breakpoint. -/
  | served
  /-- The `ud2` for a signal without a handler, which raises another signal. -/
  | trapped
deriving DecidableEq, Repr

/-- Something a thread is in the middle of, with the locks it has taken. -/
structure LockCtx where
  code : LockCode
  holds : List MonitorLock
deriving DecidableEq, Repr

/-- What a thread is in the middle of, the innermost first; the bottom is the
application's own code. -/
structure LockThread where
  stack : List LockCtx
deriving DecidableEq, Repr

namespace LockThread

def start : LockThread := ⟨[]⟩

def held (s : LockThread) : List MonitorLock := s.stack.flatMap LockCtx.holds

/-- The next instruction is the application's. -/
def runsApp (s : LockThread) : Bool :=
  match s.stack with
  | [] => true
  | ctx :: _ => ctx.code = .handler

/-- The lock that the thread is about to acquire. -/
def acquires (s : LockThread) : Option MonitorLock :=
  match s.stack with
  | ⟨.syscall (.acquire l :: _), _⟩ :: _ => some l
  | ⟨.dispatch (.acquire l :: _), _⟩ :: _ => some l
  | _ => none

/-- It holds it already, and waits for itself. -/
def SelfDeadlock (s : LockThread) : Prop := ∃ l, s.acquires = some l ∧ l ∈ s.held

end LockThread

/-- The locks an activation holds after it has done the next thing, if it goes on from
there; `taken` are those the thread holds, and `found` says whether a signal has a handler. -/
def LockOp.perform (taken holds : List MonitorLock) (found : Bool) :
    LockOp → Option (List MonitorLock)
  | .acquire l => if l ∈ taken then none else some (l :: holds)
  | .release l => some (holds.erase l)
  | .work => some holds
  | .lookup => if found then some holds else none

/-- The innermost activation goes on. -/
def LockCtx.step (taken : List MonitorLock) (found : Bool) (ctx : LockCtx) :
    Option (Option LockCtx) :=
  match ctx.code with
  | .syscall [] => some none
  | .syscall (op :: todo) =>
      (op.perform taken ctx.holds found).map fun holds => some ⟨.syscall todo, holds⟩
  | .dispatch [] => some (some ⟨.handler, ctx.holds⟩)
  | .dispatch (op :: todo) =>
      if op = .lookup ∧ found = false then some (some ⟨.trapped, ctx.holds⟩)
      else (op.perform taken ctx.holds found).map fun holds => some ⟨.dispatch todo, holds⟩
  | .handler => some none
  | .served => some none
  | .trapped => none

inductive LockEvent where
  /-- The application makes a system call; the kernel's result will be `rax`. -/
  | syscall (n : Nat) (gprs : GpFrame) (rax : Quad)
  /-- A signal is delivered, which the monitor handles itself or which is for the
  application. -/
  | deliver (served : Bool)
  /-- The code on top of the stack goes on; a handler of the application returns. -/
  | step (found : Bool)

def LockThread.next (s : LockThread) : LockEvent → Option LockThread
  | .syscall n gprs rax =>
      if s.runsApp then (syscallLocks n gprs rax).map fun todo => ⟨⟨.syscall todo, []⟩ :: s.stack⟩
      else none
  | .deliver served =>
      some ⟨⟨if served then .served else .dispatch dispatchLocks, []⟩ :: s.stack⟩
  | .step found =>
      match s.stack with
      | [] => none
      | ctx :: rest => (ctx.step s.held found).map fun ctx => ⟨ctx.toList ++ rest⟩

end Secpoline
