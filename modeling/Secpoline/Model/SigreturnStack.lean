import Mathlib.Logic.Function.Basic
import Secpoline.Model.Word

/-!
# The sigreturn stack

Every thread keeps in its GS-relative data a small stack of words that grows up.
When a signal is delivered, three pieces of code push what the return from it
will need: `asm_signal_entry` the trusted stack pointer, if the signal came out
of the application; `signal_handler_switch` the compartment and the selector, once
the handler is done; and `setup_restore_selector_trampoline` the interrupted
registers. After the kernel's `sigreturn`, `restore_selector_trampoline` pops
them in the opposite order, and pops the trusted stack pointer only if the
compartment it popped just before was not the monitor.

A push is two writes, the store through `current` and the increment of
`current`; a pop is the decrement and then the load. Signals are not masked
around them, so another signal can be delivered between any two of these
micro-steps. It then pushes and pops a frame of its own on the same stack before
the interrupted code goes on.

The state keeps one activation for each signal that was delivered and has not
returned yet, the innermost first. The words are indexed from the base of the
array, which has 0x1000 of them; what lies outside is other fields of the
GS-relative data (behind the array: `altstack` and the stacks after it), and
`call_app_handler` and others write those fields while frames are on the stack.
-/

namespace Secpoline

/-- What is saved for one signal. -/
structure SigFrame where
  trustedSp : UInt64
  cid : UInt64
  selector : UInt64
  rip : UInt64
  flags : UInt64
  rsp : UInt64
  rax : UInt64
  rdx : UInt64
  rcx : UInt64
deriving DecidableEq, Repr

/-- The words pushed for a frame, in this order. -/
def SigFrame.pushes (f : SigFrame) : List UInt64 :=
  (if f.cid ≠ 0 then [f.trustedSp] else []) ++
    [f.cid, f.selector, f.rip, f.flags, f.rsp, f.rax, f.rdx, f.rcx]

/-- Whether the trampoline pops nothing more after these words. The eighth word is
the compartment; `TS_MONITOR` is 0. -/
def allPopped (popped : List UInt64) : Bool :=
  popped.length == 9 || (popped.length == 8 && popped.getLast? == some 0)

/-- Where an activation stands. -/
inductive SigPhase where
  /-- `rest` is still to be pushed; next is the store of its first word. -/
  | store (rest : List UInt64)
  /-- A word was stored; next is the increment, and then `rest` is left. -/
  | increment (rest : List UInt64)
  /-- The trampoline has these words; next is a decrement, or the jump back. -/
  | decrement (popped : List UInt64)
  /-- `current` was decremented; next is the load. -/
  | load (popped : List UInt64)
deriving DecidableEq, Repr

/-- Between the two halves of a push or a pop. -/
def SigPhase.half : SigPhase → Bool
  | .increment _ | .load _ => true
  | .store _ | .decrement _ => false

/-- About to store through `current`. -/
def SigPhase.stores : SigPhase → Bool
  | .store _ => true
  | _ => false

structure SigActivation where
  frame : SigFrame
  phase : SigPhase
deriving DecidableEq, Repr

structure SigState where
  word : Int → UInt64
  current : Int
  activations : List SigActivation

/-- `current = base`, nothing delivered. -/
def SigState.init : SigState := ⟨fun _ => 0, 0, []⟩

inductive SigEvent where
  /-- A signal interrupts whatever runs. -/
  | deliver (f : SigFrame)
  /-- The innermost activation makes its next micro-step. -/
  | step
  /-- Another field of the GS-relative data is written. -/
  | writeField (i : Int) (v : UInt64)

/-- The next micro-step of the innermost activation. -/
def SigState.micro (s : SigState) : Option SigState :=
  match s.activations with
  | [] => none
  | ⟨f, .store (v :: rest)⟩ :: outer =>
      some { s with
        word := Function.update s.word s.current v
        activations := ⟨f, .increment rest⟩ :: outer }
  | ⟨_, .store []⟩ :: _ => none
  | ⟨f, .increment rest⟩ :: outer =>
      let phase := if rest = [] then SigPhase.decrement [] else .store rest
      some { s with current := s.current + 1, activations := ⟨f, phase⟩ :: outer }
  | ⟨f, .decrement popped⟩ :: outer =>
      if allPopped popped then some { s with activations := outer }
      else some { s with current := s.current - 1, activations := ⟨f, .load popped⟩ :: outer }
  | ⟨f, .load popped⟩ :: outer =>
      some { s with activations := ⟨f, .decrement (popped ++ [s.word s.current])⟩ :: outer }

def SigState.next (s : SigState) : SigEvent → Option SigState
  | .deliver f => some { s with activations := ⟨f, .store f.pushes⟩ :: s.activations }
  | .step => s.micro
  | .writeField i v =>
      if i < 0 ∨ 0x1000 ≤ i then some { s with word := Function.update s.word i v } else none

end Secpoline
