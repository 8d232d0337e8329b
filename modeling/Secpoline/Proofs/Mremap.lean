import Mathlib.Tactic.MkIffOfInductiveProp
import Secpoline.Model.Handlers

/-!
# handle_mremap in three parts

Arguments that are not those of whole pages are refused at once. A call with a fixed
target moves the mapping if the page manager knows nothing there. Every other call asks
the page manager to resize the mapping in its place, and moves it only if there is no
room and the caller allows that.
-/

namespace Secpoline

open Lib

structure MremapArgs where
  start : Nat
  oldSize : Nat
  newSize : Nat
  flags : Nat
  newStart : Nat
deriving DecidableEq, Repr

namespace MremapArgs

variable (a : MremapArgs) (cid : Int)

abbrev mayMove : Bool := hasFlag a.flags MREMAP_MAYMOVE
abbrev fixed : Bool := hasFlag a.flags MREMAP_FIXED
abbrev dontUnmap : Bool := hasFlag a.flags MREMAP_DONTUNMAP

/-- The arguments that are not refused at once. -/
@[mk_iff]
structure Proper : Prop where
  oldPos : 0 < a.oldSize
  newPos : 0 < a.newSize
  aligned : a.start % 4096 = 0
  target : a.fixed = true → a.newStart % 4096 = 0
  oldPages : a.oldSize % 4096 = 0
  newPages : a.newSize % 4096 = 0
  stays : a.mayMove = false → a.fixed = false ∧ a.dontUnmap = false

instance : Decidable a.Proper := decidable_of_iff _ (proper_iff a).symm

theorem Proper.mayMove {a : MremapArgs} (h : a.Proper) (hfixed : a.fixed = true) :
    a.mayMove = true :=
  (Bool.eq_false_or_eq_true _).resolve_right fun hmay => by simp [(h.stays hmay).1] at hfixed

/-- `update_size` first; then the kernel, or the move. -/
def resizeOrMove : M Nat := do
  let r ← perform (.updateSize a.start a.oldSize a.newSize cid)
  if r = 0 then do
    let r ← perform
      (.wrapper (.mremap a.start a.oldSize a.newSize a.mayMove false a.dontUnmap 0) cid)
    Prog.require (toWord r = a.start)
    pure a.start
  else if r = -2 ∧ a.mayMove then do
    let g ← perform (.lookupAddr a.start cid)
    match g with
    | none => pure (toWord (-EINVAL))
    | some g =>
        moveMapping a.start a.oldSize a.newSize a.flags 0 g.prot cid (toInt32 a.flags) cid
  else pure (toWord (-EFAULT))

def moveFixed : M Nat := do
  let g ← perform (.lookupAddr a.start cid)
  match g with
  | none => pure (toWord (-EINVAL))
  | some g => do
      let taken ← perform (.lookupRange a.newStart a.newSize cid)
      if taken then pure (toWord (-EFAULT))
      else
        moveMapping a.start a.oldSize a.newSize a.flags a.newStart g.prot cid cid (toInt32 a.flags)

variable {a}

/-- Without `MREMAP_MAYMOVE` there is no fixed target and the move is left out, so the two
branches that ask for a new size are one. -/
theorem handleMremap_proper (h : a.Proper) :
    handleMremap a.start a.oldSize a.newSize a.flags a.newStart cid =
      if a.fixed then a.moveFixed cid else a.resizeOrMove cid := by
  have hold := h.oldPos
  have hnew := h.newPos
  unfold handleMremap
  dsimp only
  rw [if_neg (by omega), if_neg (Decidable.not_not.mpr h.aligned),
    if_neg fun hf => hf.2 (h.target hf.1), if_neg fun hs => hs.elim (· h.oldPages) (· h.newPages)]
  by_cases hmay : a.mayMove = true
  · rw [if_neg (Decidable.not_not.mpr hmay)]
    by_cases hfixed : a.fixed = true
    · rw [if_neg (Decidable.not_not.mpr hfixed), if_pos hfixed, moveFixed]
      congr 1
      funext g
      cases g <;> rfl
    · rw [if_pos hfixed, if_neg hfixed, resizeOrMove, hmay]
      congr 1
      funext r
      simp only [and_true]
      congr 2
      congr 1
      funext g
      cases g <;> rfl
  · obtain ⟨hfixed, hkept⟩ := h.stays (by simpa using hmay)
    rw [if_pos hmay, if_neg (by simp [hfixed, hkept]), if_neg (by simp [hfixed]),
      resizeOrMove, hkept, Bool.eq_false_iff.mpr hmay]
    congr 1
    funext r
    simp only [Bool.false_eq_true, and_false, if_false]

theorem handleMremap_improper (h : ¬ a.Proper) :
    handleMremap a.start a.oldSize a.newSize a.flags a.newStart cid = pure (toWord (-EINVAL)) := by
  rw [proper_iff] at h
  unfold handleMremap
  dsimp only
  refine ite_eq_left_iff.mpr fun h₁ => ite_eq_left_iff.mpr fun h₂ => ite_eq_left_iff.mpr fun h₃ =>
    ite_eq_left_iff.mpr fun h₄ => ?_
  -- What is left to refuse is a target or `MREMAP_DONTUNMAP` without `MREMAP_MAYMOVE`.
  have hstays : ¬ (a.mayMove = false → a.fixed = false ∧ a.dontUnmap = false) := fun hstays =>
    h ⟨by omega, by omega, by omega, by simpa using h₃, by omega, by omega, hstays⟩
  obtain ⟨hmay, hflags⟩ := Classical.not_imp.mp hstays
  rw [if_pos (by simp [hmay]), if_pos]
  rw [Classical.not_and_iff_not_or_not] at hflags
  simpa using hflags

end MremapArgs

theorem handleMremap_eq (a : MremapArgs) {cid : Int} :
    handleMremap a.start a.oldSize a.newSize a.flags a.newStart cid =
      if ¬ a.Proper then pure (toWord (-EINVAL))
      else if a.fixed then a.moveFixed cid else a.resizeOrMove cid := by
  by_cases hp : a.Proper
  · exact (MremapArgs.handleMremap_proper cid hp).trans (if_neg (Decidable.not_not.mpr hp)).symm
  · exact (MremapArgs.handleMremap_improper cid hp).trans (if_pos hp).symm

end Secpoline
