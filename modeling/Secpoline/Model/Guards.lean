import Secpoline.Model.Asm
import Secpoline.Model.Scan

/-!
# Executing the sequences that a scan takes for harmless

`isBenignWRPKRU` and `isBenignXRSTOR` accept an instruction because of the bytes
behind it. To say what these bytes do they have to be decoded, so this is a
machine at the level of bytes: a decoder for the instructions that occur in the
accepted sequences, at whatever offset they are read, and what each of them does.

The length of an XRSTOR depends on its operand. The bytes of the operand are the
ModR/M byte, and behind it perhaps a SIB byte and a displacement.
-/

namespace Secpoline

/-- What the accepted sequences use of the processor. -/
structure Cpu where
  reg : Reg → Quad
  zf : Bool
  cf : Bool
  pkru : BitVec 32
  /-- The byte at an offset from the GS base. -/
  gs : Nat → UInt8
  rip : Nat

/-- What an instruction finds outside of the processor: whether an access to memory
faults, the protection keys in the area that is restored, the word on the top of
the stack, and whether the result of an operation on memory is zero. -/
structure Outside where
  faults : Bool
  pkru : BitVec 32
  stackTop : Nat
  zero : Bool

def COMPARTMENT_ID_OFFSET : Nat := 16

inductive GuardInstr where
  | wrpkru
  | xrstor
  /-- `cmp $imm, %eax`. -/
  | cmpEax (imm : BitVec 32)
  /-- `mov %gs:offset, %dl`. -/
  | movGsDl (offset : Nat)
  /-- `cmp $imm, %dl`. -/
  | cmpDl (imm : UInt8)
  /-- `mov %eax, %edx`. -/
  | movEaxEdx
  /-- `bt $n, %edx`. -/
  | btEdx (n : UInt8)
  | je (rel : UInt8)
  | jnc (rel : UInt8)
  | loop (rel : UInt8)
  | ud2
  | int3
  /-- `ret $imm`. -/
  | ret
  /-- `or` of a register to memory. -/
  | orMem
deriving DecidableEq, Repr

/-- The number of bytes of a memory operand, from the ModR/M byte on. -/
def operandLength (modrm sib : UInt8) : Nat :=
  let rm := modrm.toNat % 8
  match modrm.toNat / 64 with
  | 0 =>
      if rm = 4 then if sib.toNat % 8 = 5 then 6 else 2
      else if rm = 5 then 5
      else 1
  | 1 => if rm = 4 then 3 else 2
  | _ => if rm = 4 then 6 else 5

/-- The instruction at an address and its length. -/
def decode (m : Mem) (a : Nat) : Option (GuardInstr × Nat) :=
  if m a = 0x0f then
    if m (a + 1) = 0x01 ∧ m (a + 2) = 0xef then some (.wrpkru, 3)
    else if m (a + 1) = 0xae ∧ m (a + 2) &&& 0xC0 ≠ 0xC0 ∧ m (a + 2) &&& 0x38 = 0x28 then
      some (.xrstor, 2 + operandLength (m (a + 2)) (m (a + 3)))
    else if m (a + 1) = 0xba ∧ m (a + 2) = 0xe2 then some (.btEdx (m (a + 3)), 4)
    else if m (a + 1) = 0x0b then some (.ud2, 2)
    else none
  else if m a = 0x3d then some (.cmpEax (.ofNat 32 (word32 m (a + 1))), 5)
  else if m a = 0x65 ∧ m (a + 1) = 0x8a ∧ m (a + 2) = 0x14 ∧ m (a + 3) = 0x25 then
    some (.movGsDl (word32 m (a + 4)), 8)
  else if m a = 0x80 ∧ m (a + 1) = 0xfa then some (.cmpDl (m (a + 2)), 3)
  else if m a = 0x89 ∧ m (a + 1) = 0xc2 then some (.movEaxEdx, 2)
  else if m a = 0x74 then some (.je (m (a + 1)), 2)
  else if m a = 0x73 then some (.jnc (m (a + 1)), 2)
  else if m a = 0xe2 then some (.loop (m (a + 1)), 2)
  else if m a = 0xcc then some (.int3, 1)
  else if m a = 0xc2 then some (.ret, 3)
  else if m a = 0x09 ∧ m (a + 1) &&& 0xC0 ≠ 0xC0 then
    some (.orMem, 1 + operandLength (m (a + 1)) (m (a + 2)))
  else none

namespace Cpu

def eax (c : Cpu) : BitVec 32 := (c.reg .rax).setWidth 32
def ecx (c : Cpu) : BitVec 32 := (c.reg .rcx).setWidth 32
def edx (c : Cpu) : BitVec 32 := (c.reg .rdx).setWidth 32
def dl (c : Cpu) : UInt8 := ⟨(c.reg .rdx).setWidth 8⟩

def set (c : Cpu) (r : Reg) (v : Quad) : Cpu := { c with reg := Function.update c.reg r v }

/-- A jump by a signed byte, if the condition holds. -/
def jump (c : Cpu) (rel : UInt8) (condition : Bool) : Cpu :=
  if condition then
    { c with rip := if rel < 0x80 then c.rip + rel.toNat else c.rip + rel.toNat - 256 }
  else c

end Cpu

/-- What an instruction does, once the instruction pointer is behind it. `none` is
a trap or a fault. -/
def GuardInstr.exec (o : Outside) (c : Cpu) : GuardInstr → Option Cpu
  | .wrpkru => if c.ecx = 0 ∧ c.edx = 0 then some { c with pkru := c.eax } else none
  | .xrstor =>
      if o.faults then none
      else some { c with pkru := if c.eax.getLsbD 9 then o.pkru else c.pkru }
  | .cmpEax imm => some { c with zf := c.eax == imm, cf := c.eax.ult imm }
  | .movGsDl offset =>
      if o.faults then none
      else some (c.set .rdx ((c.reg .rdx &&& ~~~0xff) ||| (c.gs offset).toBitVec.setWidth 64))
  | .cmpDl imm => some { c with zf := c.dl == imm, cf := decide (c.dl < imm) }
  | .movEaxEdx => some (c.set .rdx (c.eax.setWidth 64))
  | .btEdx n => some { c with cf := c.edx.getLsbD (n.toNat % 32) }
  | .je rel => some (c.jump rel c.zf)
  | .jnc rel => some (c.jump rel !c.cf)
  | .loop rel => some ((c.set .rcx (c.reg .rcx - 1)).jump rel (c.reg .rcx - 1 != 0))
  | .ud2 => none
  | .int3 => none
  | .ret => if o.faults then none else some { c with rip := o.stackTop }
  | .orMem => if o.faults then none else some { c with zf := o.zero, cf := false }

/-- One instruction at the instruction pointer. -/
def Cpu.Step (m : Mem) (c c' : Cpu) : Prop :=
  ∃ i n o, decode m c.rip = some (i, n) ∧ i.exec o { c with rip := c.rip + n } = some c'

/-- One instruction out of the `size` bytes at `a`. -/
def Cpu.StepIn (m : Mem) (a size : Nat) (c c' : Cpu) : Prop :=
  (a ≤ c.rip ∧ c.rip < a + size) ∧ Cpu.Step m c c'

end Secpoline
