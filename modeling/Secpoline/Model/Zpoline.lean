import Secpoline.Model.Asm
import Mathlib.Logic.Function.Iterate

/-!
# The two ways into the system call hook

A `syscall` that has not been met before is refused by the kernel, which raises
`SIGSYS`; `handle_sigsys` then changes the context it was raised in, so that the
return from the signal goes to `syscall_hook_entry`. It has rewritten the instruction
by then to `call *%rax`, which calls the number of the system call as an address, and
the page that `init_zpoline` has put there leads to the hook.

The page is only executed, so its bytes are a function of their own.
-/

namespace Secpoline

/-! ## zpoline.cpp -/

def numSyscalls : Nat := 512

/-- Byte `i` of the page at address zero. -/
def zeropage (hook : Quad) (i : Nat) : BitVec 8 :=
  if i < numSyscalls then
    if 0x19b ≤ i then
      if i % 2 = 0 then 0x66 else 0x90
    else
      match i % 3 with
      | 0 => 0xeb
      | 1 => 0x66
      | _ => 0x90
  else
    match i - numSyscalls with
    | 0x0 => 0x50
    | 0x1 => 0x48
    | 0x2 => 0xb8
    | 0xb => 0xff
    | 0xc => 0xe0
    -- the address in between
    | k => if k < 0xb then (hook >>> (8 * (k - 0x3))).setWidth 8 else 0

/-- The eight bytes of an immediate operand, the lowest first. -/
def quadAt (code : Nat → BitVec 8) (i : Nat) : Quad :=
  code (i + 7) ++ code (i + 6) ++ code (i + 5) ++ code (i + 4) ++ code (i + 3) ++ code (i + 2) ++
    code (i + 1) ++ code i

namespace Machine

/-- One instruction of those in the page. -/
def stepBytes (code : Nat → BitVec 8) (m : Machine) : Option Machine :=
  let ip := m.rip.toNat
  match (code ip).toNat with
  -- nop
  | 0x90 => some { m with rip := m.rip + 1 }
  -- xchg %ax, %ax
  | 0x66 => if code (ip + 1) = 0x90 then some { m with rip := m.rip + 2 } else none
  -- a short jump, relative to the instruction behind it
  | 0xeb => some { m with rip := m.rip + 2 + (code (ip + 1)).signExtend 64 }
  -- push %rax
  | 0x50 => some { m.apply (.push .rax) with rip := m.rip + 1 }
  -- movabs $imm, %rax
  | 0x48 =>
      if code (ip + 1) = 0xb8 then
        some { m.apply (.movImm (quadAt code (ip + 2)) .rax) with rip := m.rip + 10 }
      else none
  -- jmp *%rax
  | 0xff => if code (ip + 1) = 0xe0 then some { m with rip := m.reg .rax } else none
  | _ => none

def runBytes (code : Nat → BitVec 8) (k : Nat) (m : Machine) : Option Machine :=
  (Option.bind · (stepBytes code))^[k] (some m)

/-! ## sud.cpp -/

/-- `ff d0`, which `rewrite_syscall_inst` puts in the place of the `0f 05` at `%rip`. -/
def callRax (m : Machine) : Machine := { m.pushWord (m.rip + 2) with rip := m.reg .rax }

/-- The context in which `SIGSYS` is raised by a `syscall` at `%rip`: the instruction leaves
the flags in `%r11` and the address behind it in `%rcx`. -/
def refusedSyscall (m : Machine) : Machine :=
  { (m.set .rcx (m.rip + 2)).set .r11 (m.flags.setWidth 64) with rip := m.rip + 2 }

/-- What `handle_sigsys` makes of the context. -/
def handleSigsys (hook : Quad) (m : Machine) : Machine :=
  let stackBottom := m.reg .rsp - 2 * 8
  { m.set .rsp stackBottom with
    mem := Function.update (Function.update m.mem (stackBottom + 8) m.rip) stackBottom (m.reg .rax)
    rip := hook }

end Machine

end Secpoline
