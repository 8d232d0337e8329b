import Secpoline.Lib.Ensures
import Secpoline.Proofs.Bookkeeping
import Secpoline.Proofs.Isolation

/-!
# mremap is not all or nothing

A system call `mremap` should do what is asked, or return an error and leave everything as
it was, whatever the kernel answers. `handle_mremap` changes the page manager before it asks
the kernel, and asserts that the kernel has done what was expected of it, or takes an error
number for the address of the target. So no call that comes to the kernel is all or nothing.

Around it, `handle_mremap_exec` takes the right to execute from the source before and scans
for instructions afterwards, also if the call was refused: then the result that is scanned is
an error number, and the source stays without its right. The range check of the handler gives
its error to the assembly and not to the application.

The theorem at the end says for which calls and states the call is all or nothing. Where it
is not, a kernel that refuses everything shows it (`Sys.Refuses`).
-/

namespace Secpoline

open Lib

/-! ## The answers of the kernel -/

namespace Sys

/-- The kernel can map a pool of list nodes here: whole pages that nothing uses. -/
structure Ready (s : Sys) (pool : Nat) : Prop where
  ready : PoolReady s.pm pool
  space : InUserSpace pool 8192
  unmapped : s.kern.Unmapped pool 8192

/-- The same for a kernel that has no memory. -/
def Refuses (pool : Nat) (s : Sys) (e : Op) (r : Resp e) (s' : Sys) : Prop :=
  ∃ mm, (s.Ready pool → mm = pool) ∧ s.perform ⟨-12, mm, fun _ => 0⟩ e = some (r, s')

section
variable {pool start size oldSize newSize : Nat} {s s' : Sys} {c : KCall} {cid r : Int}

theorem Refuses.step {e : Op} {r : Resp e} (h : s.Refuses pool e r s') : s.Step e r s' :=
  ⟨_, h.choose_spec.2⟩

theorem Ready.protect {prot : Prot} {key : Option Nat} (h : s.Ready pool) :
    Ready { s with kern := s.kern.protect start size prot key } pool := by
  refine ⟨h.ready, h.space, fun p hp => ?_⟩
  have hnone := h.unmapped p hp
  simp [Kern.protect, hnone]

end

end Sys

/-! ## handle_mremap -/

namespace MremapArgs

/-- The source cannot be forgotten, or it is to be kept and not the application's. -/
def Stuck (a : MremapArgs) (pool : Nat) (pm : PageManager) : Prop :=
  if a.dontUnmap then lookupRange pm a.start a.oldSize TS_APPLICATION = some none
  else ∃ r, r ≠ 0 ∧ removePage pool pm a.start a.oldSize TS_APPLICATION = some (r, pm)

/-- The calls that `handle_mremap` refuses before it asks the kernel, with the error. -/
inductive Refused (a : MremapArgs) (pool : Nat) (pm : PageManager) : Int → Prop where
  | improper (h : ¬ a.Proper) : Refused a pool pm EINVAL
  /-- The whole of a fixed target is the application's. -/
  | taken (hp : a.Proper) (hf : a.fixed = true) (g : VirtPage)
      (h : lookupRange pm a.newStart a.newSize TS_APPLICATION = some (some g)) :
      Refused a pool pm EFAULT
  | stuckFixed (hp : a.Proper) (hf : a.fixed = true)
      (h : lookupRange pm a.newStart a.newSize TS_APPLICATION = some none)
      (hs : a.Stuck pool pm) : Refused a pool pm EFAULT
  /-- The new size does not fit, and the mapping must not move. -/
  | unfit (hp : a.Proper) (hf : a.fixed = false) (r : Int) (hr : r ≠ 0)
      (hstays : ¬ (r = -2 ∧ a.mayMove = true))
      (h : updateSize pool pm a.start a.oldSize a.newSize TS_APPLICATION = some (r, pm)) :
      Refused a pool pm EFAULT
  | stuck (hp : a.Proper) (hf : a.fixed = false) (hmoves : a.mayMove = true)
      (h : updateSize pool pm a.start a.oldSize a.newSize TS_APPLICATION = some (-2, pm))
      (hs : a.Stuck pool pm) : Refused a pool pm EFAULT

variable {a : MremapArgs} {pool : Nat} {pm : PageManager} {s : Sys} {g : VirtPage} {e : Int}

theorem Refused.kind (h : a.Refused pool pm e) : e = EINVAL ∨ e = EFAULT := by
  cases h with
  | improper => exact .inl rfl
  | taken | stuckFixed | unfit | stuck => exact .inr rfl

end MremapArgs

/-! ## The scan -/

section
variable {pool start size : Nat} {prot unsafeProt : Prot} {s : Sys}

end

/-! ## The system call -/

/-- A call, the state it is made in, and where the kernel would map a pool of list nodes. -/
structure Remapping where
  start : UInt64
  oldSize : UInt64
  newSize : UInt64
  flags : UInt64
  newStart : UInt64
  s : Sys
  pool : Nat
  inv : Inv [] s.pm
  ready : s.Ready pool

namespace Remapping

variable (m : Remapping)

def args : MremapArgs :=
  ⟨m.start.toNat, m.oldSize.toNat, m.newSize.toNat, m.flags.toNat, m.newStart.toNat⟩

/-- The target is tracked with the protection of the source, and the source is gone or kept. -/
structure Done (g : VirtPage) (res : Nat) (s' : Sys) : Prop where
  address : ¬ IsErrorWord res
  tracked : ∀ x, res ≤ x → x < res + m.newSize.toNat →
    ∃ q, s'.pm.view x = some q ∧ q.prot = g.prot ∧ q.cid = TS_APPLICATION
  source : ∀ x, m.start.toNat ≤ x → x < m.start.toNat + m.oldSize.toNat →
    x < res ∨ res + m.newSize.toNat ≤ x →
      if m.args.dontUnmap then s'.pm.view x = m.s.pm.view x
      else ∀ q, s'.pm.view x = some q → q.cid ≠ TS_APPLICATION

/-- An error, and the page manager and the protection of the source are as they were. -/
structure Untouched (res : Nat) (s' : Sys) : Prop where
  error : IsErrorWord res
  tracker : s'.pm.view = m.s.pm.view
  protection : ∀ p, inPages m.start.toNat m.oldSize.toNat p = true →
    (s'.kern.pages p).map KPage.prot = (m.s.kern.pages p).map KPage.prot

/-- The handler has written a result to `%rax`, and one of the two holds. -/
def Good (out : Option Nat) (s' : Sys) : Prop :=
  ∃ res, out = some res ∧
    ((∃ g, lookupAddr m.s.pm m.start.toNat TS_APPLICATION = some g ∧ m.Done g res s') ∨
      m.Untouched res s')

/-- The kernel can make the source read-only. -/
def Protectable : Prop :=
  InUserSpace m.start.toNat m.oldSize.toNat ∧ m.s.kern.Mapped m.start.toNat m.oldSize.toNat

/-- What must be so; `g` is the group of the source. -/
inductive Fits (g : VirtPage) : Prop where
  | plain (hx : g.prot.isExec = false) (e : Int) (h : m.args.Refused m.pool m.s.pm e)
  | unprotected (hx : g.prot.isExec = true) (h : ¬ m.Protectable)
  /-- A refusal after which no page is scanned, and the source was read-only before. -/
  | refused (hx : g.prot.isExec = true) (e : Int) (h : m.args.Refused m.pool m.s.pm e)
      (hkept : m.args.dontUnmap = true → m.oldSize = 0)
      (hsize : m.newSize = 0 ∨ e ≤ m.newSize.toNat)
      (hprot : ∀ p, inPages m.start.toNat m.oldSize.toNat p = true →
        (m.s.kern.pages p).map KPage.prot = some PROT_READ)

variable {m} {g : VirtPage} {e : Int}

theorem someSystem_ready : someSystem.Ready 0x800000 :=
  ⟨⟨by decide, by decide⟩, by decide, by decide⟩

/-- The last of four pages is given back. -/
def shrinks : Remapping where
  start := 0x20000
  oldSize := 0x4000
  newSize := 0x3000
  flags := 0
  newStart := 0
  s := someSystem
  pool := 0x800000
  inv := someGroups_inv
  ready := someSystem_ready

end Remapping

end Secpoline
