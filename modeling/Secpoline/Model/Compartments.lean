import Secpoline.Model.Asm

/-!
# Signals at the boundaries of the instructions

A signal can arrive between any two instructions of the code that switches between
the application and the monitor. `asm_signal_entry` decides by the compartment byte
alone whether it has to switch stack and TLS, and `restore_selector_trampoline`
switches back by the byte it saved.

`signalRoundTrip` is a signal from its delivery to the jump back: the kernel puts a
frame on the alternate stack, the assembly of the entry runs, then
`signal_handler_switch`, `setup_restore_selector_trampoline`, the system call
`sigreturn`, and the trampoline. The frame is the interrupted machine itself, so
only the word of it that the assembly reads is in memory. `sigreturn` loads the
registers and the flags; the FS base is not part of a frame.
-/

namespace Secpoline

namespace Machine

/-- The kernel delivers a signal on the alternate stack at `alt`. -/
def deliver (m : Machine) (alt signo info : Quad) : Machine :=
  { m with
    reg := fun r => match r with
      | .rsp => alt
      | .rdi => signo
      | .rsi => info
      | .rdx => alt + 8
      | .rax => 0
      | _ => m.reg r
    mem := Function.update m.mem (alt + 8 + rspOffsetUcontext) (m.reg .rsp) }

/-- `signal_handler_switch`, of which only what it does to the compartment byte, the
selector and the sigreturn stack is kept. -/
def signalHandlerSwitch (m : Machine) : Machine :=
  let compartmentIdOnEntry := m.gsByte .compartmentId
  let selectorOnEntry := m.gsByte .sudSelector
  { m with
    gsByte := Function.update (Function.update m.gsByte .compartmentId tsMonitorByte) .sudSelector 1
    sigreturn := selectorOnEntry.signExtend 64 :: compartmentIdOnEntry.signExtend 64 ::
      m.sigreturn }

/-- `setup_restore_selector_trampoline` on the frame of the interrupted machine `uctxt`,
followed by the system call `sigreturn`. -/
def setupRestoreSelectorTrampoline (m uctxt : Machine) (secureStackPointer : Quad) : Machine :=
  let rsp := if uctxt.reg .rsp = 0 then uctxt.reg .r9 else uctxt.reg .rsp
  { m with
    reg := Function.update uctxt.reg .rsp secureStackPointer
    flags := uctxt.flags
    sigreturn := uctxt.reg .rcx :: uctxt.reg .rdx :: uctxt.reg .rax :: rsp ::
      uctxt.flags.setWidth 64 :: uctxt.rip :: m.sigreturn }

/-- `asm_signal_entry` up to the call of `signal_handler_switch`. -/
def signalEntry (m : Machine) : Option Machine :=
  (run asmSignalEntry m).bind fun m =>
    if m.zf then some m else run leaveApplication m

/-- `restore_selector_trampoline`. -/
def signalReturn (m : Machine) : Option Machine :=
  (run restoreSelectorTrampoline m).bind fun m =>
    (if m.zf then run returnToTrustedCode m else run returnToApplication m).bind fun m =>
      run endOfSigreturn m

/-- A signal that interrupts `m`. -/
def signalRoundTrip (m : Machine) (alt signo info : Quad) : Option Machine :=
  (m.deliver alt signo info).signalEntry.bind fun e =>
    (e.signalHandlerSwitch.setupRestoreSelectorTrampoline m (alt + 8)).signalReturn

end Machine

/-! ## Whose stack and whose TLS -/

inductive Owner where
  | application
  | monitor
deriving DecidableEq, Repr

/-- The stacks of a thread and its two TLS blocks. `sp` is where the stack pointers are
when a routine starts; around it the stack has room for what the routine pushes. -/
structure Layout where
  stack : Owner → Quad → Prop
  sp : Owner → Quad
  tls : Owner → Quad
  room : ∀ o (d : Nat), d ≤ 128 → stack o (sp o + BitVec.ofNat 64 d) ∧
    stack o (sp o - BitVec.ofNat 64 d)
  disjoint : ∀ q, stack .application q → ¬ stack .monitor q
  null : ∀ o, ¬ stack o 0
  tls_ne : tls .application ≠ tls .monitor

/-- The application's stack is in use, the monitor's stack pointer is parked, and the TLS
is the application's. -/
def InApplication (l : Layout) (m : Machine) : Prop :=
  l.stack .application (m.reg .rsp) ∧ l.stack .monitor (m.gs .secureStackSp) ∧
    m.fs = l.tls .application

/-- The five values that a signal must give back. -/
structure SameState (m m' : Machine) : Prop where
  rsp : m'.reg .rsp = m.reg .rsp
  fs : m'.fs = m.fs
  secureStackSp : m'.gs .secureStackSp = m.gs .secureStackSp
  fsBase : m'.gs .fsBase = m.gs .fsBase
  compartmentId : m'.gsByte .compartmentId = m.gsByte .compartmentId

/-- A signal may arrive here: the compartment byte tells the stack and the TLS, and the
signal gives back what it interrupted. -/
def Interruptible (l : Layout) (m : Machine) : Prop :=
  (m.gsByte .compartmentId = tsApplicationByte ↔ InApplication l m) ∧
    ∀ alt signo info, ∃ m', m.signalRoundTrip alt signo info = some m' ∧ SameState m m'

/-! ## The routines -/

/-- The code that switches compartments. `next` is the address after the system call that
`call_app_handler` makes. -/
inductive Routine where
  | syscallHookEntry
  | doNothing
  | callAppHandler (next : Quad)
  | callAppHandlerReturn (next : Quad)

def Routine.code : Routine → List Instr
  | .syscallHookEntry => Secpoline.syscallHookEntry
  | .doNothing => Secpoline.doNothing
  | .callAppHandler next => Secpoline.callAppHandler next
  | .callAppHandlerReturn next => Secpoline.callAppHandlerReturn next

/-- Who is running when the routine starts. -/
def Routine.caller : Routine → Owner
  | .syscallHookEntry | .callAppHandlerReturn _ => .application
  | .doNothing | .callAppHandler _ => .monitor

def Owner.other : Owner → Owner
  | .application => .monitor
  | .monitor => .application

def Owner.byte : Owner → BitVec 8
  | .application => tsApplicationByte
  | .monitor => tsMonitorByte

/-- The machine where the routine starts. The application's handler returns to
`call_app_handler` with the aligned stack pointer, and with `%rbp` as it was. -/
structure Routine.Starts (rt : Routine) (l : Layout) (m : Machine) : Prop where
  compartmentId : m.gsByte .compartmentId = rt.caller.byte
  rsp : match rt with
    | .callAppHandlerReturn _ =>
        m.reg .rbp = l.sp .application ∧ m.reg .rsp = l.sp .application &&& -16
    | _ => m.reg .rsp = l.sp rt.caller
  secureStackSp : m.gs .secureStackSp = l.sp rt.caller.other
  fs : m.fs = l.tls rt.caller
  fsBase : m.gs .fsBase = l.tls rt.caller.other

end Secpoline
