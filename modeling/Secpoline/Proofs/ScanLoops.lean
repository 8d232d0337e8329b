import Secpoline.Model.Handlers

/-!
# The loops of the two scans

`scan_exec_mapping` and `scan_exec_mapping_mprotect` put the pages of a range into groups in
the same way. They differ in what they do to a group, and in that only the first begins a new
one where it has closed one. What does not depend on this is proved of the loop that has both
as parameters.
-/

namespace Secpoline

open Lib

section
variable (close : Nat → Nat → Prot → M Unit) (restart : Bool) (allowList : List Nat)
  (prot unsafeProt : Prot)

/-- `addFlagged` and `protectFlagged`. -/
def closeFlagged (page : Nat) (prev : Prev) (size : Nat) : M Nat :=
  if prev = .flagged ∧ size ≠ 0 then do
    close (page - 4096) 4096 unsafeProt
    pure (size - 4096)
  else pure size

def closeOpenGroup (page startGroup : Nat) (ends : Bool) (size : Nat) : M (Nat × Nat) :=
  if ends ∧ size ≠ 0 then do
    close startGroup size prot
    pure (if restart then (page, 0) else (startGroup, size))
  else pure (startGroup, size)

/-- One turn. -/
def scanGroupsPage (g : Group) (page : Nat) : M Group := do
  let startGroup ← g.openAt page
  let (found, prev) ← erimMemScanRegion page allowList prot prot.noExec false g.prev
  let size ← closeFlagged close unsafeProt page prev g.size
  let (startGroup, size) ← closeOpenGroup close restart prot page startGroup
    (found || prev == .flagged) size
  if found then do
    close page 4096 unsafeProt
    pure { start := 0, size := 0, prev := .page page }
  else pure { start := startGroup, size := size + 4096, prev := .page page }

def scanGroups (start size : Nat) : M Unit := do
  let g ← Prog.fold (scanGroupsPage close restart allowList prot unsafeProt) (pageLoop start size)
    { start := 0, size := 0, prev := .null }
  Prog.whenever (g.size ≠ 0) (close g.start g.size prot)

end

variable {start size : Nat} {prot unsafeProt : Prot} {flags cid : Int} {mapFixed : Bool} {key : Nat}
  {allowList : List Nat}

theorem scanExecMappingPage_eq :
    scanExecMappingPage allowList prot unsafeProt flags cid mapFixed key =
      scanGroupsPage (fun start size prot => addGroup start size prot flags cid mapFixed key) true
        allowList prot unsafeProt :=
  rfl

theorem scanExecMapping_eq :
    scanExecMapping start size prot unsafeProt flags mapFixed cid allowList =
      match getPkey cid with
      | none => pure ()
      | some key => scanGroups (fun start size prot =>
          addGroup start size prot flags cid mapFixed key) true allowList prot unsafeProt start
          size :=
  rfl

theorem scanExecMappingMprotectPage_eq :
    scanExecMappingMprotectPage allowList prot unsafeProt cid =
      scanGroupsPage (fun start size prot => protectGroup start size prot cid) false allowList prot
        unsafeProt := by
  funext g page
  unfold scanExecMappingMprotectPage scanGroupsPage
  refine congrArg _ (funext fun startGroup => congrArg _ (funext fun ⟨found, prev⟩ => ?_))
  refine congrArg (protectFlagged page unsafeProt cid prev g.size >>= ·) (funext fun size => ?_)
  rw [closeOpenGroup, Prog.whenever]
  have hends : (found || prev == .flagged) = true ↔ found ∨ prev = .flagged := by simp
  by_cases hclose : (found ∨ prev = .flagged) ∧ size ≠ 0
  · rw [if_pos (c := _ ∧ _) hclose,
      if_pos (c := (_ || _) = true ∧ _) ⟨hends.mpr hclose.1, hclose.2⟩]
    rw [Prog.seq_assoc]
    rfl
  · rw [if_neg (c := _ ∧ _) hclose,
      if_neg (c := (_ || _) = true ∧ _) fun h => hclose ⟨hends.mp h.1, h.2⟩]
    rfl

theorem scanExecMappingMprotect_eq :
    scanExecMappingMprotect start size prot unsafeProt cid allowList =
      match getPkey cid with
      | none => pure ()
      | some _ => scanGroups (fun start size prot => protectGroup start size prot cid) false
          allowList prot unsafeProt start size := by
  rw [scanExecMappingMprotect, scanExecMappingMprotectPage_eq]
  rfl

end Secpoline
