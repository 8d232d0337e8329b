import Mathlib.Logic.Function.Basic

/-!
# The assembly of the system call and signal paths

The assembly that enters and leaves the monitor is straight-line code apart from
checks that end in `ud2`, so a piece of it is a list of instructions. What an
instruction does and whether it goes on to the next are two functions: `permits`
is false for a trap, a fault, and a jump out of the path.

The machine has what this code touches: the general purpose registers, the flags,
the FS base, the protection keys, the fields of the GS-relative data, and memory
by words. All accesses to memory are pushes, pops and loads of whole words at
addresses that differ by multiples of eight. Of the status flags, an instruction
sets the zero flag, and `bt` the carry flag; the application's flags are saved
before and restored after.
-/

namespace Secpoline

abbrev Quad := BitVec 64

inductive Reg where
  | rax | rcx | rdx | rbx | rsp | rbp | rsi | rdi
  | r8 | r9 | r10 | r11 | r12 | r13 | r14 | r15
deriving DecidableEq, Repr

/-- The words of the GS-relative data that the assembly uses. -/
inductive GsField where
  | fsBase
  | secureStackSp
  | xsaveAreaStackSp
  | sigAltstackBase
  | sigAltstackSize
  | signalHandlerLevel
  | ripAfterSigreturnHolder
deriving DecidableEq, Repr

/-- The bytes of the GS-relative data that the assembly uses. -/
inductive GsByte where
  | compartmentId
  | sudSelector
deriving DecidableEq, Repr

@[ext]
structure Machine where
  reg : Reg → Quad
  flags : BitVec 32
  rip : Quad
  fs : Quad
  gsBase : Quad
  pkru : BitVec 32
  gs : GsField → Quad
  gsByte : GsByte → BitVec 8
  /-- The words on the sigreturn stack, the last pushed first. -/
  sigreturn : List Quad
  mem : Quad → Quad

def tsMonitorByte : BitVec 8 := 0
def tsApplicationByte : BitVec 8 := 1

/-- `GRANT_TRUSTED_PERMISSIONS` under the exclusive policy. -/
def grantTrustedPermissions : BitVec 32 := 0b01111111111111111111111111110000
def grantFullPermissions : BitVec 32 := 0b01111111111111111111111111000000
def revokePermissions : BitVec 32 := 0b01111111111111111111111111001011

def xsaveSize : Quad := 768
def xsaveEax : Quad := 0b111
def sigAltstackBaseOffset : Quad := 36936
def nrSigaltstack : Quad := 131
def rspOffsetUcontext : Quad := 160

/-- Instructions, with the source before the destination as in the assembly. -/
inductive Instr where
  | pushfq
  | popfq
  | push (r : Reg)
  | pop (r : Reg)
  | mov (src dst : Reg)
  /-- `movl`: the upper half of the destination becomes zero. -/
  | movl (src dst : Reg)
  | movImm (imm : Quad) (dst : Reg)
  /-- `xorl` or `xorq` of a register with itself. -/
  | clear (dst : Reg)
  | shl (n : Nat) (dst : Reg)
  | shr (n : Nat) (dst : Reg)
  | or (src dst : Reg)
  | orImm (imm : Quad) (dst : Reg)
  | andImm (imm : Quad) (dst : Reg)
  | addImm (imm : Quad) (dst : Reg)
  | subImm (imm : Quad) (dst : Reg)
  | sub (src dst : Reg)
  /-- `movq (base), dst`. -/
  | load (base dst : Reg)
  | loadGs (f : GsField) (dst : Reg)
  | storeGs (src : Reg) (f : GsField)
  | xchgGs (r : Reg) (f : GsField)
  | incGs (f : GsField)
  | decGs (f : GsField)
  | loadByte (b : GsByte) (dst : Reg)
  | storeByte (v : BitVec 8) (b : GsByte)
  /-- The low byte of a register; the bytes behind it are padding. -/
  | storeLow (src : Reg) (b : GsByte)
  | rdfsbase (dst : Reg)
  | wrfsbase (src : Reg)
  | rdgsbase (dst : Reg)
  | wrpkru
  | cmpb (imm : BitVec 8) (r : Reg)
  | cmpl (imm : BitVec 32) (r : Reg)
  | cmpq (imm : Quad) (r : Reg)
  | test (r : Reg)
  | bt (n : Nat) (r : Reg)
  /-- Go on only if the zero flag is set: a `jne` out of the path, or a `je` over a
  `ud2`. -/
  | ifZero
  /-- Go on only if the zero flag is clear. -/
  | ifNotZero
  /-- Go on only if the carry flag is clear. -/
  | ifNotCarry
  /-- The vector registers are saved; none of them is modelled. -/
  | xsave
  | xrstor
  /-- The four instructions that push a register onto the sigreturn stack. The
  register that holds the stack's pointer meanwhile is not read afterwards. -/
  | pushSigreturn (r : Reg)
  /-- The three instructions that pop a word of the sigreturn stack into a register.
  The flags they set are not read. -/
  | popSigreturn (r : Reg)
  /-- The system call `sigaltstack`, which succeeds while `%rsp` is outside of the
  alternate stack; `next` is the address of the instruction after it. -/
  | sigaltstack (next : Quad)
  | ret
  /-- `jmp *%gs:f`. -/
  | jmpGs (f : GsField)
deriving DecidableEq, Repr

namespace Machine

def set (m : Machine) (r : Reg) (v : Quad) : Machine := { m with reg := Function.update m.reg r v }

def zf (m : Machine) : Bool := m.flags.getLsbD 6

def cf (m : Machine) : Bool := m.flags.getLsbD 0

def setZf (m : Machine) (b : Bool) : Machine :=
  { m with flags := if b then m.flags ||| 0x40 else m.flags &&& ~~~0x40 }

def setCf (m : Machine) (b : Bool) : Machine :=
  { m with flags := if b then m.flags ||| 0x1 else m.flags &&& ~~~0x1 }

/-- The result of an arithmetic instruction. -/
def arith (m : Machine) (r : Reg) (v : Quad) : Machine := (m.set r v).setZf (v == 0)

def pushWord (m : Machine) (v : Quad) : Machine :=
  { m.set .rsp (m.reg .rsp - 8) with mem := Function.update m.mem (m.reg .rsp - 8) v }

def setGs (m : Machine) (f : GsField) (v : Quad) : Machine :=
  { m with gs := Function.update m.gs f v }

def setGsByte (m : Machine) (b : GsByte) (v : BitVec 8) : Machine :=
  { m with gsByte := Function.update m.gsByte b v }

/-- Whether execution goes on to the next instruction. -/
def permits (m : Machine) : Instr → Bool
  -- A fault unless `%ecx` and `%edx` are zero.
  | .wrpkru => (m.reg .rcx).setWidth 32 == 0#32 && (m.reg .rdx).setWidth 32 == 0#32
  | .ifZero => m.zf
  | .ifNotZero => !m.zf
  | .ifNotCarry => !m.cf
  | .popSigreturn _ => !m.sigreturn.isEmpty
  | _ => true

/-- What an instruction does. -/
def apply (m : Machine) : Instr → Machine
  | .pushfq => m.pushWord (m.flags.setWidth 64)
  | .popfq => { m.set .rsp (m.reg .rsp + 8) with flags := (m.mem (m.reg .rsp)).setWidth 32 }
  | .push r => m.pushWord (m.reg r)
  -- The stack pointer is moved first, so that `popq %rsp` loads it.
  | .pop r => (m.set .rsp (m.reg .rsp + 8)).set r (m.mem (m.reg .rsp))
  | .mov src dst => m.set dst (m.reg src)
  | .movl src dst => m.set dst (((m.reg src).setWidth 32).setWidth 64)
  | .movImm imm dst => m.set dst imm
  | .clear dst => m.arith dst 0
  | .shl n dst => m.arith dst (m.reg dst <<< n)
  | .shr n dst => m.arith dst (m.reg dst >>> n)
  | .or src dst => m.arith dst (m.reg dst ||| m.reg src)
  | .orImm imm dst => m.arith dst (m.reg dst ||| imm)
  | .andImm imm dst => m.arith dst (m.reg dst &&& imm)
  | .addImm imm dst => m.arith dst (m.reg dst + imm)
  | .subImm imm dst => m.arith dst (m.reg dst - imm)
  | .sub src dst => m.arith dst (m.reg dst - m.reg src)
  | .load base dst => m.set dst (m.mem (m.reg base))
  | .loadGs f dst => m.set dst (m.gs f)
  | .storeGs src f => m.setGs f (m.reg src)
  | .xchgGs r f => (m.setGs f (m.reg r)).set r (m.gs f)
  | .incGs f => (m.setGs f (m.gs f + 1)).setZf (m.gs f + 1 == 0)
  | .decGs f => (m.setGs f (m.gs f - 1)).setZf (m.gs f - 1 == 0)
  | .loadByte b dst => m.set dst (m.reg dst >>> 8 <<< 8 ||| (m.gsByte b).setWidth 64)
  | .storeByte v b => m.setGsByte b v
  | .storeLow src b => m.setGsByte b ((m.reg src).setWidth 8)
  | .rdfsbase dst => m.set dst m.fs
  | .wrfsbase src => { m with fs := m.reg src }
  | .rdgsbase dst => m.set dst m.gsBase
  | .wrpkru => { m with pkru := (m.reg .rax).setWidth 32 }
  | .cmpb imm r => m.setZf ((m.reg r).setWidth 8 == imm)
  | .cmpl imm r => m.setZf ((m.reg r).setWidth 32 == imm)
  | .cmpq imm r => m.setZf (m.reg r == imm)
  | .test r => m.setZf (m.reg r == 0)
  | .bt n r => m.setCf ((m.reg r).getLsbD n)
  | .ifZero | .ifNotZero | .ifNotCarry | .xsave | .xrstor => m
  | .pushSigreturn r => { m with sigreturn := m.reg r :: m.sigreturn }
  | .popSigreturn r => { m with sigreturn := m.sigreturn.tail }.set r (m.sigreturn.headD 0)
  | .sigaltstack next => ((m.set .rax 0).set .rcx next).set .r11 (m.flags.setWidth 64)
  | .ret => { m.set .rsp (m.reg .rsp + 8) with rip := m.mem (m.reg .rsp) }
  | .jmpGs f => { m with rip := m.gs f }

/-- Execute a piece of code. -/
def run : List Instr → Machine → Option Machine
  | [], m => some m
  | i :: rest, m => if m.permits i then run rest (m.apply i) else none

end Machine

/-! ## asm_entry_points.asm -/

/-- `syscall_hook_entry`, up to the jump to `asm_syscall_hook`. -/
def syscallHookEntry : List Instr :=
  [ .pushfq
  , .pop .rcx
  , .loadByte .compartmentId .rax
  , .cmpb tsApplicationByte .rax
  , .pop .rax
  , .ifZero -- jne meta_syscall_hook
  , .mov .rdx .r11
  , .shl 32 .rcx
  , .clear .rdx
  , .shl 32 .rax
  , .orImm (grantTrustedPermissions.setWidth 64) .rax
  , .wrpkru
  , .cmpl grantTrustedPermissions .rax
  , .ifZero -- jne .unsafe_state
  , .mov .r11 .rdx
  , .shr 32 .rcx
  , .mov .rcx .r11
  , .shr 32 .rax
  , .storeByte 1 .sudSelector
  , .xchgGs .rsp .secureStackSp -- switch stacks
  , .rdfsbase .rcx
  , .xchgGs .rcx .fsBase
  , .wrfsbase .rcx -- switch to secure TLS
  , .storeByte tsMonitorByte .compartmentId ]

/-- The system call by which `call_app_handler` moves the alternate stack. While it is
made, `%rsp` is zero and `%r9` keeps the stack pointer. -/
def updateSigaltstack (next : Quad) : List Instr :=
  [ .movImm 0 .rsi
  , .rdgsbase .rdi
  , .addImm sigAltstackBaseOffset .rdi
  , .movImm nrSigaltstack .rax
  , .mov .rsp .r9
  , .movImm 0 .rsp
  , .storeByte 0 .sudSelector
  , .sigaltstack next
  , .storeByte 1 .sudSelector
  , .mov .r9 .rsp
  , .cmpq 0 .rax
  , .ifZero ]

/-- `call_app_handler`, up to the call of the application's handler. -/
def callAppHandler (next : Quad) : List Instr :=
  [ .loadGs .sigAltstackSize .r9
  , .push .r9
  , .loadGs .sigAltstackBase .r9
  , .mov .rsp .r10
  , .sub .r9 .r10
  , .storeGs .r10 .sigAltstackSize
  , .push .rax
  , .push .rdi
  , .push .rsi
  , .push .rcx ] ++
  updateSigaltstack next ++
  [ .pop .rcx
  , .pop .rsi
  , .pop .rdi
  , .pop .rax
  , .xchgGs .rsp .secureStackSp -- switch stacks
  , .rdfsbase .r9
  , .xchgGs .r9 .fsBase
  , .wrfsbase .r9 -- switch to untrusted TLS
  , .incGs .signalHandlerLevel
  , .storeByte tsApplicationByte .compartmentId
  , .mov .rdx .r10
  , .mov .rcx .r11
  , .clear .rcx
  , .clear .rdx
  , .movImm (revokePermissions.setWidth 64) .rax
  , .wrpkru
  , .cmpl revokePermissions .rax
  , .ifZero
  , .mov .r10 .rdx
  , .mov .r11 .rcx
  , .push .rbp
  , .mov .rsp .rbp
  , .andImm (-16) .rsp ]

/-- The rest of `call_app_handler`, after the application's handler has returned. -/
def callAppHandlerReturn (next : Quad) : List Instr :=
  [ .mov .rbp .rsp
  , .pop .rbp
  , .clear .rcx
  , .clear .rdx
  , .movImm (grantTrustedPermissions.setWidth 64) .rax
  , .wrpkru
  , .cmpl grantTrustedPermissions .rax
  , .ifZero
  , .storeByte tsMonitorByte .compartmentId
  , .loadGs .signalHandlerLevel .r9
  , .cmpq 0 .r9
  , .ifNotZero
  , .decGs .signalHandlerLevel
  , .rdfsbase .r9
  , .xchgGs .r9 .fsBase
  , .wrfsbase .r9 -- switch to trusted TLS
  , .xchgGs .rsp .secureStackSp -- switch stacks
  , .pop .r9
  , .storeGs .r9 .sigAltstackSize
  , .push .rax
  , .push .rdi
  , .push .rsi ] ++
  updateSigaltstack next ++
  [ .pop .rsi
  , .pop .rdi
  , .pop .rax
  , .ret ]

/-! ## asm_syscall_hook.asm -/

/-- The registers in the order `push_gp_regs` pushes them. -/
def gpRegs : List Reg :=
  [.rsp, .rcx, .rax, .rdx, .rbx, .rbp, .rsi, .rdi, .r15, .r14, .r13, .r12, .r11, .r10, .r9, .r8]

def pushGpRegs : List Instr := gpRegs.map .push

def popGpRegs : List Instr := gpRegs.reverse.map .pop

def xsaveVectorRegsToGsrel : List Instr :=
  [ .push .rdx
  , .push .rax
  , .push .rsi
  , .clear .rdx
  , .movImm xsaveEax .rax
  , .loadGs .xsaveAreaStackSp .rsi
  , .xsave
  , .addImm xsaveSize .rsi
  , .storeGs .rsi .xsaveAreaStackSp
  , .pop .rsi
  , .pop .rax
  , .pop .rdx ]

def xrstorVectorRegsFromGsrel : List Instr :=
  [ .push .rdx
  , .push .rax
  , .push .rsi
  , .clear .rdx
  , .movImm xsaveEax .rax
  , .loadGs .xsaveAreaStackSp .rsi
  , .subImm xsaveSize .rsi
  , .xrstor
  , .movl .rax .rdx
  , .bt 9 .rdx
  , .ifNotCarry
  , .storeGs .rsi .xsaveAreaStackSp
  , .pop .rsi
  , .pop .rax
  , .pop .rdx ]

def alignRsp : List Instr := [.push .rbp, .mov .rsp .rbp, .andImm (-16) .rsp]

def restoreRsp : List Instr := [.mov .rbp .rsp, .pop .rbp]

def lowerPrivileges : List Instr :=
  [ .storeByte tsApplicationByte .compartmentId
  , .storeByte 1 .sudSelector
  , .mov .r11 .rcx
  , .shl 32 .rcx
  , .mov .rdx .r11
  , .mov .rax .rdx
  , .shl 32 .rax
  , .shr 32 .rdx
  , .shl 32 .rdx
  , .orImm (revokePermissions.setWidth 64) .rax
  , .wrpkru
  , .cmpl revokePermissions .rax
  , .ifZero
  , .shr 32 .rax
  , .or .rdx .rax
  , .mov .r11 .rdx
  , .mov .rcx .r11
  , .shr 32 .r11 ]

def switchToOriginalStack : List Instr := [.xchgGs .rsp .secureStackSp]

def switchToOriginalTls : List Instr :=
  [.push .rdx, .rdfsbase .rdx, .xchgGs .rdx .fsBase, .wrfsbase .rdx, .pop .rdx]

def restoreRflags : List Instr := [.push .r11, .popfq]

/-- `asm_syscall_hook`, up to the call of `secpoline_syscall_handler`. -/
def asmSyscallHook : List Instr :=
  pushGpRegs ++ [.mov .rsp .rdi] ++ xsaveVectorRegsToGsrel ++ alignRsp

/-- From the return of `secpoline_syscall_handler` to the jump to `.do_nothing`. -/
def afterSyscallHandler : List Instr :=
  restoreRsp ++ xrstorVectorRegsFromGsrel ++ [.test .rax] ++ popGpRegs ++ [.ifZero]

/-- From the return of `secpoline_syscall_handler` to the `ud2`: the call is to be
emulated, but is neither `clone` nor `vfork`. -/
def fallThrough : List Instr :=
  restoreRsp ++ xrstorVectorRegsFromGsrel ++ [.test .rax] ++ popGpRegs ++
    [.ifNotZero, .cmpq 56 .rax, .ifNotZero, .cmpq 58 .rax, .ifNotZero]

/-- `.do_nothing`. -/
def doNothing : List Instr :=
  switchToOriginalTls ++ switchToOriginalStack ++ lowerPrivileges ++ restoreRflags ++
    [.load .rsp .rcx, .ret]

/-! ## signal_handler_entry.asm -/

/-- `asm_signal_entry`, up to the jump to `.enter_wrapper` that is taken if the
compartment byte is the monitor's. -/
def asmSignalEntry : List Instr :=
  [ .mov .rdx .r8
  , .clear .rdx
  , .clear .rcx
  , .movImm (grantTrustedPermissions.setWidth 64) .rax
  , .wrpkru
  , .cmpl grantTrustedPermissions .rax
  , .ifZero
  , .mov .r8 .rdx
  , .clear .r8
  , .loadByte .compartmentId .r8
  , .cmpb tsMonitorByte .r8 ]

/-- What `asm_signal_entry` does if it interrupted the application. -/
def leaveApplication : List Instr :=
  [ .mov .rsp .r10
  , .addImm 8 .r10
  , .addImm rspOffsetUcontext .r10
  , .load .r10 .r10
  , .xchgGs .r10 .secureStackSp
  , .pushSigreturn .r10
  , .rdfsbase .r9
  , .xchgGs .r9 .fsBase
  , .wrfsbase .r9 ]

/-! ## restore_selector_trampoline.asm -/

/-- `restore_selector_trampoline`, up to the jump to `.return_to_trusted_code`. -/
def restoreSelectorTrampoline : List Instr :=
  [ .clear .rdx
  , .clear .rcx
  , .movImm (grantFullPermissions.setWidth 64) .rax
  , .wrpkru
  , .loadByte .compartmentId .rdx
  , .cmpb tsMonitorByte .rdx
  , .ifZero
  , .popSigreturn .rcx
  , .popSigreturn .rdx
  , .popSigreturn .rax
  , .popSigreturn .rsp
  , .subImm 128 .rsp
  , .push .rax
  , .push .rdx
  , .push .rcx
  , .popSigreturn .rax
  , .push .rax
  , .popSigreturn .rax
  , .storeGs .rax .ripAfterSigreturnHolder
  , .popSigreturn .rax
  , .storeLow .rax .sudSelector
  , .popSigreturn .rax
  , .cmpq 0 .rax ]

/-- The return to the application. -/
def returnToApplication : List Instr :=
  [ .storeByte tsApplicationByte .compartmentId
  , .rdfsbase .r9
  , .xchgGs .r9 .fsBase
  , .wrfsbase .r9
  , .popSigreturn .rax
  , .storeGs .rax .secureStackSp
  , .clear .rcx
  , .clear .rdx
  , .movImm (revokePermissions.setWidth 64) .rax
  , .wrpkru
  , .cmpl revokePermissions .rax
  , .ifZero ]

def returnToTrustedCode : List Instr :=
  [ .storeByte tsMonitorByte .compartmentId
  , .clear .rcx
  , .clear .rdx
  , .movImm (grantTrustedPermissions.setWidth 64) .rax
  , .wrpkru
  , .loadByte .compartmentId .rdx
  , .cmpb tsMonitorByte .rdx
  , .ifZero ]

def endOfSigreturn : List Instr :=
  [ .popfq
  , .pop .rcx
  , .pop .rdx
  , .pop .rax
  , .addImm 128 .rsp
  , .jmpGs .ripAfterSigreturnHolder ]

end Secpoline
