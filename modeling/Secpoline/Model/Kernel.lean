import Secpoline.Model.Word

/-!
# The kernel's side of the memory calls

What the kernel keeps for a process: the protection and the protection key of
every mapped page, and the contents of memory. A call is answered by a number;
an error is a negative one above -4096 and leaves everything as it was. Which answer comes
is the kernel's choice, so `Kern.apply` takes it as an argument and says what
the state is afterwards, or that this answer is not possible.

Assumed of the kernel: sizes are rounded up to pages; a range must lie below the
end of user space; `mprotect` and `mremap` fail on ranges that are not mapped;
a mapping that is not fixed goes to an unmapped range, a fixed one replaces what
is there; a fresh mapping is zeroed and has key 0.
-/

namespace Secpoline

structure KPage where
  prot : Prot
  key : Nat
deriving DecidableEq, Repr

/-- Pages are numbered by their address divided by the page size. -/
structure Kern where
  pages : Nat → Option KPage
  mem : Nat → UInt8

/-- The end of user space. -/
def taskSize : Nat := 2 ^ 47 - 4096

inductive KCall where
  | mmap (start size : Nat) (prot : Prot) (fixed : Bool)
  /-- `mprotect`, or `pkey_mprotect` if a key is given. -/
  | mprotect (start size : Nat) (prot : Prot) (key : Option Nat)
  | munmap (start size : Nat)
  | mremap (start oldSize newSize : Nat) (mayMove fixed dontUnmap : Bool) (newStart : Nat)
deriving DecidableEq, Repr

def pageCount (size : Nat) : Nat := (size + 4095) / 4096

/-- Page `p` is one of the pages of the range. -/
def inPages (start size p : Nat) : Bool :=
  decide (start / 4096 ≤ p) && decide (p < start / 4096 + pageCount size)

def pagesOf (start size : Nat) : List Nat :=
  (List.range (pageCount size)).map (start / 4096 + ·)

/-- The range is page aligned and lies in user space. -/
def InUserSpace (start size : Nat) : Prop :=
  start % 4096 = 0 ∧ start + 4096 * pageCount size ≤ taskSize

instance (start size : Nat) : Decidable (InUserSpace start size) :=
  inferInstanceAs (Decidable (_ ∧ _))

/-- The numbers that report an error. -/
def IsError (r : Int) : Prop := -4096 < r ∧ r < 0

instance (r : Int) : Decidable (IsError r) := inferInstanceAs (Decidable (_ ∧ _))

namespace Kern

/-- No page of the range is mapped. -/
def Unmapped (k : Kern) (start size : Nat) : Prop :=
  ∀ p ∈ pagesOf start size, k.pages p = none

instance (k : Kern) (start size : Nat) : Decidable (k.Unmapped start size) :=
  inferInstanceAs (Decidable (∀ p ∈ pagesOf start size, _))

/-- Every page of the range is mapped. -/
def Mapped (k : Kern) (start size : Nat) : Prop :=
  ∀ p ∈ pagesOf start size, (k.pages p).isSome

instance (k : Kern) (start size : Nat) : Decidable (k.Mapped start size) :=
  inferInstanceAs (Decidable (∀ p ∈ pagesOf start size, _))

/-- Every page of the range is mapped in the same way. -/
def Uniform (k : Kern) (start size : Nat) : Prop :=
  ∀ p ∈ pagesOf start size, k.pages p = k.pages (start / 4096)

instance (k : Kern) (start size : Nat) : Decidable (k.Uniform start size) :=
  inferInstanceAs (Decidable (∀ p ∈ pagesOf start size, _))

/-- Give the pages of a range a new entry, and zero their contents. -/
def map (k : Kern) (start size : Nat) (g : Option KPage) : Kern :=
  { pages := fun p => if inPages start size p then g else k.pages p
    mem := fun x => if inPages start size (x / 4096) then 0 else k.mem x }

/-- Take the pages of a range away. -/
def unmap (k : Kern) (start size : Nat) : Kern :=
  { k with pages := fun p => if inPages start size p then none else k.pages p }

/-- Re-protect the mapped pages of a range. -/
def protect (k : Kern) (start size : Nat) (prot : Prot) (key : Option Nat) : Kern :=
  { k with pages := fun p =>
      if inPages start size p then
        (k.pages p).map fun g => { prot, key := key.getD g.key }
      else k.pages p }

/-- Copy the contents of the old range to the new one. -/
def move (k : Kern) (start oldSize target newSize : Nat) (dontUnmap : Bool) : Kern :=
  let old := k.pages (start / 4096)
  { pages := fun p =>
      if inPages target newSize p then old
      else if inPages start oldSize p ∧ ¬ dontUnmap then none
      else k.pages p
    mem := fun x =>
      if inPages target newSize (x / 4096) then
        if x - target < 4096 * pageCount oldSize then k.mem (x - target + start) else 0
      else if inPages start oldSize (x / 4096) ∧ dontUnmap then 0
      else k.mem x }

/-- The state after a call that was answered by `r`, if `r` can be the answer. -/
def apply (k : Kern) (r : Int) : KCall → Option Kern
  | .mmap start size prot fixed =>
      if IsError r then some k
      else if 0 ≤ r ∧ InUserSpace r.toNat size ∧ 0 < size ∧
          (fixed → r.toNat = start) ∧ (¬ fixed → k.Unmapped r.toNat size) then
        some (k.map r.toNat size (some { prot, key := 0 }))
      else none
  | .mprotect start size prot key =>
      if IsError r then some k
      else if r = 0 ∧ InUserSpace start size ∧ k.Mapped start size then
        some (k.protect start size prot key)
      else none
  | .munmap start size =>
      if IsError r then some k
      else if r = 0 ∧ InUserSpace start size ∧ 0 < size then some (k.unmap start size)
      else none
  | .mremap start oldSize newSize mayMove fixed dontUnmap newStart =>
      if IsError r then some k
      else if ¬ (0 ≤ r ∧ InUserSpace start oldSize ∧ 0 < oldSize ∧ 0 < newSize ∧
          k.Mapped start oldSize ∧ k.Uniform start oldSize) then none
      else if r.toNat = start ∧ ¬ fixed ∧ ¬ dontUnmap then
        if InUserSpace start newSize ∧
            k.Unmapped (start + 4096 * pageCount oldSize) (newSize - 4096 * pageCount oldSize) then
          if pageCount newSize ≤ pageCount oldSize then
            some (k.unmap (start + 4096 * pageCount newSize)
              (4096 * (pageCount oldSize - pageCount newSize)))
          else
            some (k.map (start + 4096 * pageCount oldSize)
              (newSize - 4096 * pageCount oldSize) (k.pages (start / 4096)))
        else none
      else if mayMove ∧ InUserSpace r.toNat newSize ∧
          (fixed → r.toNat = newStart) ∧ (¬ fixed → k.Unmapped r.toNat newSize) ∧
          (dontUnmap → pageCount oldSize = pageCount newSize) ∧
          (r.toNat + 4096 * pageCount newSize ≤ start ∨
            start + 4096 * pageCount oldSize ≤ r.toNat) then
        some (k.move start oldSize r.toNat newSize dontUnmap)
      else none

end Kern

/-- The pages a call that was answered by `r` unmaps, replaces or re-protects. -/
def KCall.touches (r : Int) : KCall → Nat → Bool
  | .mmap _ size _ _, p => decide (0 ≤ r) && inPages r.toNat size p
  | .mprotect start size _ _, p => decide (0 ≤ r) && inPages start size p
  | .munmap start size, p => decide (0 ≤ r) && inPages start size p
  | .mremap start oldSize newSize _ _ _ _, p =>
      decide (0 ≤ r) && (inPages start oldSize p || inPages r.toNat newSize p)

end Secpoline
