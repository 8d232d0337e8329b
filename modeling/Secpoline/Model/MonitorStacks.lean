import Secpoline.Model.SigreturnStack

/-!
# The two per-thread stacks of the monitor

Besides the sigreturn stack, the GS-relative data of a thread holds a stack of
areas for the vector registers. `asm_syscall_hook` saves them there when a system
call of the application comes in (`xsave_vector_regs_to_gsrel`) and restores them
before it goes back (`xrstor_vector_regs_from_gsrel`). There is room for six
areas of XSAVE_SIZE bytes, which is less than what an `xsave` writes. Both pieces of
code work on a copy of `current` in a register and store it back at the end.

A signal can interrupt either of them, and any other code, and the application's
handler it leads to can make system calls itself. So a thread is in the middle of
a stack of system calls and signals, the innermost first, and only the innermost
runs. Positions in the area stack are counted in bytes, those in the sigreturn stack
in words.
-/

namespace Secpoline

/-- `XSAVE_SIZE`, the bytes of an area. -/
def xsaveSlot : Int := 768

/-- The bytes of `xsave_area_stack`. -/
def xsaveAreaBytes : Int := xsaveSlot * 6

/-- The bytes an `xsave` with the mask 0b111 writes: 512 for the x87 and SSE state, 64
for the header and 256 for the upper halves of the YMM registers. -/
def xsaveWritten : Int := 512 + 64 + 256

/-- The words of `sigreturn_stack`. -/
def sigreturnWords : Int := 0x1000

/-- Where a system call stands, with what it has in `%rsi`. -/
inductive XsavePhase where
  /-- Next is `movq %gs:XSAVE_AREA_STACK_SP_OFFSET, %rsi`. -/
  | load
  /-- Next is `xsave (%rsi)`. -/
  | save (rsi : Int)
  /-- Next is the store of the increased `current`. -/
  | bump (rsi : Int)
  /-- The handlers run. -/
  | inside
  /-- `current` was loaded and decreased; next is `xrstor (%rsi)`. -/
  | restore (rsi : Int)
  /-- Next is the store of the decreased `current`. -/
  | drop (rsi : Int)
deriving DecidableEq, Repr

/-- What a thread is in the middle of; a signal is the next of the activations of the
sigreturn stack. -/
inductive StackCtx where
  | syscall (phase : XsavePhase)
  | signal
deriving DecidableEq, Repr

structure StackState where
  sig : SigState
  /-- `xsave_area_stack.current`. -/
  xsave : Int
  contexts : List StackCtx

def StackState.init : StackState := ⟨.init, 0, []⟩

/-- Whether the handler of the application is what runs for a signal: the trusted
stack pointer has been pushed, if it has to be, and the other eight words have not. -/
def SigPhase.inHandler : SigPhase → Bool
  | .store rest => rest.length == 8
  | _ => false

/-- Whether the next instruction is the application's. -/
def StackState.runsApp (s : StackState) : Bool :=
  match s.contexts with
  | [] => true
  | .signal :: _ => s.sig.activations.head?.any fun a => a.phase.inHandler
  | .syscall _ :: _ => false

inductive StackEvent where
  /-- The application makes a system call. -/
  | enter
  /-- A signal interrupts whatever runs. -/
  | deliver (f : SigFrame)
  /-- The innermost makes its next step. -/
  | step
deriving DecidableEq, Repr

/-- The next step of a system call. -/
def XsavePhase.next (xsave : Int) : XsavePhase → Int × Option XsavePhase
  | .load => (xsave, some (.save xsave))
  | .save rsi => (xsave, some (.bump rsi))
  | .bump rsi => (rsi + xsaveSlot, some .inside)
  | .inside => (xsave, some (.restore (xsave - xsaveSlot)))
  | .restore rsi => (xsave, some (.drop rsi))
  | .drop rsi => (rsi, none)

def StackState.next (s : StackState) : StackEvent → Option StackState
  | .enter =>
      if s.runsApp then some { s with contexts := .syscall .load :: s.contexts } else none
  | .deliver f =>
      (s.sig.next (.deliver f)).map fun sig => { s with sig, contexts := .signal :: s.contexts }
  | .step =>
      match s.contexts with
      | [] => none
      | .syscall phase :: rest =>
          let (xsave, phase') := phase.next s.xsave
          some { s with xsave, contexts := phase'.toList.map .syscall ++ rest }
      | .signal :: rest =>
          (s.sig.next .step).map fun sig =>
            { s with
              sig
              -- The jump back to the interrupted code ends the activation.
              contexts :=
                if sig.activations.length < s.sig.activations.length then rest else s.contexts }

end Secpoline
