import Secpoline.Model.Zpoline
import Secpoline.Proofs.Compartments

/-!
# A rewritten system call enters the hook as a refused one does

Every step in the sled goes to a later place in it, and none passes the code behind
it, so from every number the sled ends there (`sled_step`, `sled_run`). At the hook the
stack is as `handle_sigsys` leaves it; what differs are three registers, which the hook
sets before it reads them.
-/

namespace Secpoline

namespace Machine

/-! ## The sled -/

section
variable (hook : Quad) (m : Machine)

/-- At every place of the sled there is a `nop` or a jump. -/
theorem zeropage_sled {i : Nat} (hi : i < numSyscalls) :
    zeropage hook i = 0x90 ∨
      zeropage hook i = 0x66 ∧ zeropage hook (i + 1) = 0x90 ∧ i + 2 ≤ numSyscalls ∨
      zeropage hook i = 0xeb ∧ zeropage hook (i + 1) = 0x66 ∧ i + 104 ≤ numSyscalls := by
  rw [numSyscalls] at hi
  unfold zeropage numSyscalls
  grind

/-- Every instruction of the sled goes on to a later one, and none beyond the end. -/
theorem sled_step {i : Nat} (hi : i < numSyscalls) :
    ∃ j, i < j ∧ j ≤ numSyscalls ∧
      { m with rip := BitVec.ofNat 64 i }.stepBytes (zeropage hook) =
        some { m with rip := BitVec.ofNat 64 j } := by
  have hip : (BitVec.ofNat 64 i).toNat = i := Nat.mod_eq_of_lt (Nat.lt_trans hi (by decide))
  rcases zeropage_sled hook hi with here | ⟨here, next, hj⟩ | ⟨here, next, hj⟩
  · refine ⟨i + 1, Nat.lt_succ_self i, hi, ?_⟩
    simp [stepBytes, hip, here, BitVec.ofNat_add]
  · refine ⟨i + 2, by omega, hj, ?_⟩
    simp [stepBytes, hip, here, next, BitVec.ofNat_add]
  · refine ⟨i + 104, by omega, hj, ?_⟩
    simp [stepBytes, hip, here, next, BitVec.ofNat_add, BitVec.add_assoc]

/-- From every place in the sled its end is reached, and nothing else changes. -/
theorem sled_run {i : Nat} (hi : i ≤ numSyscalls) :
    ∃ k, { m with rip := BitVec.ofNat 64 i }.runBytes (zeropage hook) k =
      some { m with rip := BitVec.ofNat 64 numSyscalls } := by
  induction hleft : numSyscalls - i using Nat.strongRecOn generalizing i with
  | ind left ih =>
      rcases Nat.eq_or_lt_of_le hi with rfl | hlt
      · exact ⟨0, rfl⟩
      · obtain ⟨j, hij, hj, hstep⟩ := sled_step hook m hlt
        obtain ⟨k, hrun⟩ := ih (numSyscalls - j) (by omega) hj rfl
        refine ⟨k + 1, ?_⟩
        rw [runBytes, Function.iterate_succ_apply, Option.bind_some, hstep]
        exact hrun

/-! ## The code behind it -/

theorem quadAt_zeropage : quadAt (zeropage hook) 515 = hook := by
  ext i hi
  simp only [quadAt, zeropage, numSyscalls]
  grind

/-- `push %rax; movabs $hook, %rax; jmp *%rax`. -/
theorem code_run : { m with rip := BitVec.ofNat 64 numSyscalls }.runBytes (zeropage hook) 3 =
    some { (m.pushWord (m.reg .rax)).set .rax hook with rip := hook } := by
  have hpush : { m with rip := 512#64 }.stepBytes (zeropage hook) =
      some { m.pushWord (m.reg .rax) with rip := 513#64 } := by
    simp [stepBytes, zeropage, numSyscalls, apply, pushWord, set]
  have hmov (m : Machine) : { m with rip := 513#64 }.stepBytes (zeropage hook) =
      some { m.set .rax hook with rip := 523#64 } := by
    simp [stepBytes, zeropage, numSyscalls, apply, set, quadAt_zeropage]
  have hjmp (m : Machine) : { m with rip := 523#64 }.stepBytes (zeropage hook) =
      some { m with rip := m.reg .rax } := by
    simp [stepBytes, zeropage, numSyscalls]
  rw [numSyscalls]
  simp only [runBytes, Function.iterate_succ_apply, Option.bind_some, hpush, hmov, hjmp]
  simp [set, pushWord]

/-! ## The hook -/

/-- The hook goes on only for the application. -/
theorem run_syscallHookEntry_monitor (h : m.gsByte .compartmentId ≠ tsApplicationByte) :
    run syscallHookEntry m = none := by
  have hzf : (m.applyAll (syscallHookEntry.take 5)).zf = false :=
    (getLsbD_setFlag _ _).trans (beq_eq_false_iff_ne.mpr ((setWidth_loadByte _ _).trans_ne h))
  show (if (m.applyAll (syscallHookEntry.take 5)).zf = true then _ else none) = none
  rw [hzf]
  rfl

/-- The hook sets `%rax`, `%rcx` and `%r11` before it reads them. -/
theorem applyAll_hookStart : m.applyAll (syscallHookEntry.take 7) =
    { m with
      reg := fun
        | .rax => Function.update m.mem (m.reg .rsp - 8) (m.flags.setWidth 64) (m.reg .rsp)
        | .rcx => m.flags.setWidth 64
        | .r11 => m.reg .rdx
        | .rsp => m.reg .rsp + 8
        | r => m.reg r
      flags := (m.setZf (m.gsByte .compartmentId == tsApplicationByte)).flags
      mem := Function.update m.mem (m.reg .rsp - 8) (m.flags.setWidth 64) } := by
  have hback : m.reg .rsp - 8 + 8 = m.reg .rsp := BitVec.sub_add_cancel _ _
  refine Machine.ext ?_ ?_ rfl rfl rfl rfl rfl rfl rfl rfl
  · funext r
    cases r with
    | rax => exact congrArg (Function.update m.mem (m.reg .rsp - 8) (m.flags.setWidth 64)) hback
    | rcx => exact Function.update_self _ _ m.mem
    | rsp => exact congrArg (· + 8) hback
    | _ => rfl
  · exact congrArg (fun b => (m.setZf (b == tsApplicationByte)).flags) (setWidth_loadByte _ _)

theorem applyAll_syscallHookEntry_set (rax rcx r11 : Quad) :
    (((m.set .rax rax).set .rcx rcx).set .r11 r11).applyAll syscallHookEntry =
      m.applyAll syscallHookEntry := by
  rw [← List.take_append_drop 7 syscallHookEntry, applyAll_append, applyAll_append,
    applyAll_hookStart, applyAll_hookStart]
  congr 2
  funext r
  cases r <;> rfl

theorem run_syscallHookEntry_set {m' : Machine} (rax rcx r11 : Quad)
    (hset : m' = ((m.set .rax rax).set .rcx rcx).set .r11 r11) :
    run syscallHookEntry m' = run syscallHookEntry m := by
  have hall : m'.applyAll syscallHookEntry = m.applyAll syscallHookEntry := by
    rw [hset, applyAll_syscallHookEntry_set]
  have hgs : m'.gsByte = m.gsByte := hset ▸ rfl
  by_cases h : m.gsByte .compartmentId = tsApplicationByte
  · rw [(passes_syscallHookEntry h).run, (passes_syscallHookEntry (hgs ▸ h)).run, hall]
  · rw [run_syscallHookEntry_monitor m h, run_syscallHookEntry_monitor m' (hgs ▸ h)]

/-- A system call whose instruction has been rewritten comes to the hook, and the monitor
goes on from there as it does when the kernel refuses the call. -/
theorem rewritten_enters_hook (hnumber : (m.reg .rax).toNat ≤ numSyscalls) :
    ∃ k m', m.callRax.runBytes (zeropage hook) k = some m' ∧ m'.rip = hook ∧
      run syscallHookEntry m' = run syscallHookEntry (m.refusedSyscall.handleSigsys hook) := by
  obtain ⟨k, hsled⟩ := sled_run hook (m.pushWord (m.rip + 2)) hnumber
  rw [BitVec.ofNat_toNat, BitVec.setWidth_eq] at hsled
  have hrun := congrArg (Option.bind · (stepBytes (zeropage hook)))^[3] hsled
  rw [runBytes, ← Function.iterate_add_apply] at hrun
  refine ⟨3 + k, _, hrun.trans (code_run hook _), rfl, ?_⟩
  refine (run_syscallHookEntry_set _ (m.reg .rax) (m.rip + 2) (m.flags.setWidth 64) ?_).symm
  have hbottom : m.reg .rsp - 2 * 8 = m.reg .rsp - 8 - 8 := by bv_omega
  refine Machine.ext ?_ rfl rfl rfl rfl rfl rfl rfl rfl ?_
  · funext r
    cases r with
    | rsp => exact hbottom
    | _ => rfl
  · show Function.update (Function.update m.mem (m.reg .rsp - 2 * 8 + 8) (m.rip + 2))
      (m.reg .rsp - 2 * 8) (m.reg .rax) = _
    rw [hbottom, BitVec.sub_add_cancel]
    rfl

end

theorem rewritten_enters_hook_read :
    ∃ k m', sampleMachine.callRax.runBytes (zeropage 0x7000) k = some m' ∧ m'.rip = 0x7000 ∧
      run syscallHookEntry m' =
        run syscallHookEntry (sampleMachine.refusedSyscall.handleSigsys 0x7000) :=
  rewritten_enters_hook 0x7000 sampleMachine (by decide)

end Machine

end Secpoline
