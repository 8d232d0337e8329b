import Secpoline.Model.Sigaction

/-!
# The signal mask of a thread

The monitor needs three signals: SIGSYS intercepts system calls, SIGSEGV and
SIGTRAP guard unsafe pages. Three things change the mask of a thread.
`rt_sigprocmask` is filtered by `syscall_handler_rt_sigprocmask`. The delivery of
a signal adds the mask of its action, until `signal_handler_switch` empties the
mask altogether. And the return from a signal installs the mask of its frame,
which the monitor hands to the application's handler as a copy on the
application's stack, and copies back afterwards.

A thread is a stack of what it is in the middle of, the innermost first; the
bottom is application code. A signal can arrive at any point where it is not
masked, in the application or in the monitor. Which of the two the thread was in
is read from the compartment byte, and that byte and the code do not change
places at the same instruction, so a delivery may find either value.
-/

namespace Secpoline

/-- The three signals the monitor needs. -/
def guardMask : BitVec 64 := sigBit sigsys ||| sigBit sigsegv ||| sigBit sigtrap

/-- What no mask of the kernel contains. -/
def unblockable : BitVec 64 := sigBit sigkill ||| sigBit sigstop

/-- The `how` of `rt_sigprocmask`. -/
inductive How where
  | block
  | unblock
  | setmask
  | invalid
deriving DecidableEq, Repr

/-- The mask after the system call `rt_sigprocmask`, which fails for an invalid
`how` and leaves the mask alone if there is no set. -/
def kernelSigprocmask (mask : BitVec 64) (how : How) : Option (BitVec 64) → BitVec 64
  | none => mask
  | some set =>
      match how with
      | .block => (mask ||| set) &&& ~~~unblockable
      | .unblock => mask &&& ~~~set
      | .setmask => set &&& ~~~unblockable
      | .invalid => mask

/-- `SIGSETSIZE`. -/
def sigsetsizeExpected : Nat := 8

/-- `sizeof(sigset_t)`. -/
def sizeofSigset : Nat := 128

/-- The mask `syscall_handler_rt_sigprocmask` passes on. -/
def modifiableMask (set : BitVec 64) : BitVec 64 :=
  set &&& ~~~sigBit sigsys &&& ~~~sigBit sigsegv &&& ~~~sigBit sigtrap

/-- How far the handling of a signal has come. -/
inductive MaskPhase where
  /-- From the entry point up to the call that empties the mask. -/
  | entered
  /-- The mask has been emptied. -/
  | unblocked
  /-- The application's handler runs, with this `uc_sigmask` in its copy. -/
  | handler (ucSigmask : BitVec 64)
  /-- The copy has been copied back; next is the kernel's `rt_sigreturn`. -/
  | handled
deriving DecidableEq, Repr

/-- A signal being handled: the `uc_sigmask` of its frame, and whether the
compartment on entry was the application's. -/
structure MaskActivation where
  ucSigmask : BitVec 64
  fromApp : Bool
  phase : MaskPhase
deriving DecidableEq, Repr

/-- What a thread is in the middle of. -/
inductive MaskCtx where
  /-- `syscall_handler_rt_sigprocmask`, before its system call. -/
  | procmask (how : How) (set : Option (BitVec 64))
  | signal (a : MaskActivation)
deriving DecidableEq, Repr

structure MaskThread where
  mask : BitVec 64
  stack : List MaskCtx
deriving DecidableEq, Repr

/-- Whether the next instruction is the application's. -/
def MaskThread.runsApp (s : MaskThread) : Bool :=
  match s.stack with
  | [] => true
  | .signal ⟨_, _, .handler _⟩ :: _ => true
  | _ => false

inductive MaskEvent where
  /-- The application calls `rt_sigprocmask`. -/
  | call (how : How) (set : Option (BitVec 64)) (sigsetsize : Nat)
  /-- The monitor makes the system call for it. -/
  | procmask
  /-- A signal whose action has the mask `saMask` is delivered. -/
  | deliver (signo : Nat) (saMask : BitVec 64) (fromApp : Bool)
  /-- `signal_handler_switch` empties the mask. -/
  | unblock
  /-- `wrap_signal_handler` makes the copy and the handler is called. -/
  | invoke
  /-- The monitor has handled the signal itself. -/
  | skip
  /-- The application writes to the `uc_sigmask` of a copy on its stack, that of the
  context at this depth. -/
  | edit (depth : Nat) (ucSigmask : BitVec 64)
  /-- The handler returns and the copy is copied back. -/
  | finish
  | sigreturn
deriving DecidableEq, Repr

/-- Write to the copy a context has handed out. Only the frame of an interrupted
application is copied; that of an interrupted monitor stays in the monitor's memory. -/
def MaskCtx.edit (ucSigmask : BitVec 64) : MaskCtx → Option MaskCtx
  | .signal ⟨saved, true, .handler _⟩ => some (.signal ⟨saved, true, .handler ucSigmask⟩)
  | _ => none

/-- The `uc_sigmask` in the copy a context has handed out. -/
def MaskCtx.copy : MaskCtx → Option (BitVec 64)
  | .signal ⟨_, true, .handler copy⟩ => some copy
  | _ => none

/-- Write to the copy of the context at a depth. -/
def editAt (ucSigmask : BitVec 64) : Nat → List MaskCtx → Option (List MaskCtx)
  | _, [] => none
  | 0, ctx :: rest => (ctx.edit ucSigmask).map (· :: rest)
  | depth + 1, ctx :: rest => (editAt ucSigmask depth rest).map (ctx :: ·)

def MaskThread.next (s : MaskThread) : MaskEvent → Option MaskThread
  | .call how set sigsetsize =>
      if s.runsApp = false then none
      -- assert(sigsetsize <= sizeof(sigset_t))
      else if sizeofSigset < sigsetsize then none
      else if sigsetsize ≠ sigsetsizeExpected then some s
      else some { s with stack := .procmask how (set.map modifiableMask) :: s.stack }
  | .procmask =>
      match s.stack with
      | .procmask how set :: rest => some ⟨kernelSigprocmask s.mask how set, rest⟩
      | _ => none
  | .deliver signo saMask fromApp =>
      if s.mask &&& sigBit signo = 0 then
        -- Every action the monitor installs has SA_NODEFER.
        some ⟨(s.mask ||| saMask) &&& ~~~unblockable, .signal ⟨s.mask, fromApp, .entered⟩ ::
          s.stack⟩
      else none
  | .unblock =>
      match s.stack with
      | .signal ⟨saved, fromApp, .entered⟩ :: rest =>
          some ⟨0, .signal ⟨saved, fromApp, .unblocked⟩ :: rest⟩
      | _ => none
  | .invoke =>
      match s.stack with
      | .signal ⟨saved, fromApp, .unblocked⟩ :: rest =>
          some { s with stack := .signal ⟨saved, fromApp, .handler saved⟩ :: rest }
      | _ => none
  | .skip =>
      match s.stack with
      | .signal ⟨saved, fromApp, .unblocked⟩ :: rest =>
          some { s with stack := .signal ⟨saved, fromApp, .handled⟩ :: rest }
      | _ => none
  | .edit depth ucSigmask =>
      (editAt ucSigmask depth s.stack).map fun stack => { s with stack }
  | .finish =>
      match s.stack with
      | .signal ⟨saved, fromApp, .handler copy⟩ :: rest =>
          some { s with
            stack := .signal ⟨if fromApp then copy else saved, fromApp, .handled⟩ :: rest }
      | _ => none
  | .sigreturn =>
      match s.stack with
      | .signal ⟨saved, _, .handled⟩ :: rest => some ⟨saved &&& ~~~unblockable, rest⟩
      | _ => none

/-- The three signals are not masked. -/
def Deliverable (mask : BitVec 64) : Prop := mask &&& guardMask = 0

instance (mask : BitVec 64) : Decidable (Deliverable mask) :=
  inferInstanceAs (Decidable (_ = _))

end Secpoline
