import Mathlib.Algebra.Group.Int.Defs
import Mathlib.Algebra.Group.Nat.Defs

/-!
# Machine words, protections and constants

Addresses and sizes are `char*` and `size_t`, 64 bits wide; they are modelled as
natural numbers and every addition or subtraction the code performs on them is
written with its reduction modulo `2 ^ 64`. `PAGE_SIZE` is 4096 and is written
out as that number wherever the code uses it.

Protections are C `int`s used as bit sets, so they are 32-bit vectors and the
code's masks are the code's masks.
-/

namespace Secpoline

/-- Pointer or `size_t` addition. -/
def wadd (a b : Nat) : Nat := (a + b) % 2 ^ 64

/-- Pointer or `size_t` subtraction. -/
def wsub (a b : Nat) : Nat := (a + 2 ^ 64 - b) % 2 ^ 64

/-- `(size + PAGE_SIZE - 1) & ~(PAGE_SIZE - 1)`: the sum wraps, the mask clears
the low twelve bits. -/
def roundUp (size : Nat) : Nat := (size + 4095) % 2 ^ 64 / 4096 * 4096

/-- An `int` of protection bits. -/
abbrev Prot := BitVec 32

def PROT_NONE : Prot := 0
def PROT_READ : Prot := 1
def PROT_WRITE : Prot := 2
def PROT_EXEC : Prot := 4

/-- `prot & PROT_WRITE`, as a condition. -/
def Prot.isWrite (p : Prot) : Bool := p &&& PROT_WRITE != 0

/-- `prot & PROT_EXEC`, as a condition. -/
def Prot.isExec (p : Prot) : Bool := p &&& PROT_EXEC != 0

/-- `prot & PROT_READ`, as a condition. -/
def Prot.isRead (p : Prot) : Bool := p &&& PROT_READ != 0

/-- `prot & ~PROT_EXEC`. -/
def Prot.noExec (p : Prot) : Prot := p &&& ~~~PROT_EXEC

/-- `prot & ~PROT_WRITE`. -/
def Prot.noWrite (p : Prot) : Prot := p &&& ~~~PROT_WRITE

/-- A `char*` as a string: its characters up to the terminating zero. -/
abbrev CString := List Char

/-- The two compartments. -/
def TS_MONITOR : Int := 0
def TS_APPLICATION : Int := 1

end Secpoline
