import Secpoline.Model.SyscallTable
import Secpoline.Proofs.Asm

/-!
# A system call leaves the registers alone

The way of a system call through the assembly is cut at the call of
`secpoline_syscall_handler`. Each piece has a lemma that says what it leaves: the
entry keeps all registers but `%rax`, `%rcx`, `%rsp` and `%r11`; the hook saves
them in the array; on the way back they are loaded from it.
-/

namespace Secpoline

open Machine

/-! ## The saved registers -/

theorem idxOf_gregs (r : Reg) : gregs.idxOf r + gpRegs.idxOf r = 15 := by cases r <;> rfl

theorem getElem_gpRegs (r : Reg) : gpRegs[gpRegs.idxOf r]? = some r := by cases r <;> rfl

theorem gpFrame_slot (sp : Quad) (r : Reg) :
    sp - 128 + 8 * BitVec.ofNat 64 (gregs.idxOf r) =
      sp - BitVec.ofNat 64 (8 * (gpRegs.idxOf r + 1)) := by
  have h := idxOf_gregs r
  bv_omega

/-- `push_gp_regs` makes the array of the registers. -/
theorem applyAll_pushGpRegs (m : Machine) :
    m.applyAll pushGpRegs =
      { m with
        reg := Function.update m.reg .rsp (m.reg .rsp - 128)
        mem := pushed (m.reg .rsp) (gpRegs.map m.reg) m.mem } :=
  applyAll_push (by decide) m

theorem pushed_gpRegs (m : Machine) (r : Reg) :
    pushed (m.reg .rsp) (gpRegs.map m.reg) m.mem
      (m.reg .rsp - 128 + 8 * BitVec.ofNat 64 (gregs.idxOf r)) = m.reg r := by
  rw [gpFrame_slot]
  refine pushed_at (by simp [gpRegs]) _ _ ?_
  rw [List.getElem?_map, getElem_gpRegs]
  rfl

/-- `pop_gp_regs` loads the array into the registers. -/
theorem applyAll_popGpRegs (m : Machine) :
    m.applyAll popGpRegs = { m with reg := m.gpFrame (m.reg .rsp) } := by
  have hsplit : popGpRegs = gregs.dropLast.map .pop ++ [.pop .rsp] := rfl
  rw [hsplit, applyAll_append, applyAll_pop (by decide) (by decide)]
  show { m with reg := Function.update (Function.update (popped m _) .rsp _) .rsp _ : Machine } = _
  congr 1
  funext r
  rw [Function.update_idem]
  by_cases hr : r = .rsp
  · subst hr
    rw [Function.update_self]
    rfl
  · rw [Function.update_of_ne hr]
    cases r with
    | rsp => exact absurd rfl hr
    | _ => rfl

/-! ## The vector registers and the TLS -/

theorem applyAll_xsave (m : Machine) :
    ∃ fl, m.applyAll xsaveVectorRegsToGsrel =
      { m with
        mem := pushed (m.reg .rsp) [m.reg .rdx, m.reg .rax, m.reg .rsi] m.mem
        gs := Function.update m.gs .xsaveAreaStackSp (m.gs .xsaveAreaStackSp + xsaveSize)
        flags := fl } := by
  refine ⟨_, (applyAll_saving [.rdx, .rax, .rsi] (by decide) (by decide) (by decide)
    [.clear .rdx, .movImm xsaveEax .rax, .loadGs .xsaveAreaStackSp .rsi, .xsave,
      .addImm xsaveSize .rsi, .storeGs .rsi .xsaveAreaStackSp] m rfl ?_ rfl).trans rfl⟩
  intro r hr
  cases r <;> first | exact absurd (by decide) hr | rfl

theorem applyAll_xrstor (m : Machine) :
    ∃ fl, m.applyAll xrstorVectorRegsFromGsrel =
      { m with
        mem := pushed (m.reg .rsp) [m.reg .rdx, m.reg .rax, m.reg .rsi] m.mem
        gs := Function.update m.gs .xsaveAreaStackSp (m.gs .xsaveAreaStackSp - xsaveSize)
        flags := fl } := by
  refine ⟨_, (applyAll_saving [.rdx, .rax, .rsi] (by decide) (by decide) (by decide)
    [.clear .rdx, .movImm xsaveEax .rax, .loadGs .xsaveAreaStackSp .rsi, .subImm xsaveSize .rsi,
      .xrstor, .movl .rax .rdx, .bt 9 .rdx, .ifNotCarry, .storeGs .rsi .xsaveAreaStackSp]
    m rfl ?_ rfl).trans rfl⟩
  intro r hr
  cases r <;> first | exact absurd (by decide) hr | rfl

theorem applyAll_switchToOriginalTls (m : Machine) :
    m.applyAll switchToOriginalTls =
      { m with
        mem := pushed (m.reg .rsp) [m.reg .rdx] m.mem
        fs := m.gs .fsBase
        gs := Function.update m.gs .fsBase m.fs } := by
  refine (applyAll_saving [.rdx] (by decide) (by decide) (by decide)
    [.rdfsbase .rdx, .xchgGs .rdx .fsBase, .wrfsbase .rdx] m rfl ?_ rfl).trans ?_
  · intro r hr
    cases r <;> first | exact absurd (by decide) hr | rfl
  · rfl

theorem passes_xrstor (m : Machine) : Passes xrstorVectorRegsFromGsrel m := by
  refine ⟨rfl, rfl, rfl, rfl, rfl, rfl, rfl, rfl, rfl, rfl, ?_, rfl, rfl, rfl, rfl, trivial⟩
  have hbit : ((xsaveEax.setWidth 32).setWidth 64 : Quad).getLsbD 9 = false := by decide
  show (!(_ : BitVec 32).getLsbD 0) = true
  rw [Bool.not_eq_true']
  exact (getLsbD_setCarry _ _).trans hbit

/-! ## syscall_hook_entry -/

theorem passes_syscallHookEntry {m : Machine}
    (h : m.gsByte .compartmentId = tsApplicationByte) : Passes syscallHookEntry m := by
  refine ⟨rfl, rfl, rfl, rfl, rfl, ?_, rfl, rfl, rfl, rfl, rfl, ?_, rfl, ?_, rfl, rfl, rfl, rfl,
    rfl, rfl, rfl, rfl, rfl, rfl, trivial⟩
  · refine (getLsbD_setFlag _ _).trans ?_
    rw [beq_iff_eq]
    exact (setWidth_loadByte _ _).trans h
  · exact permits_wrpkru (setWidth_shl _) rfl
  · refine (getLsbD_setFlag _ _).trans ?_
    rw [beq_iff_eq]
    exact setWidth_shl_or _ _

/-- The entry keeps the registers; `%rdx` is moved away and back. -/
theorem syscallHookEntry_reg (m : Machine) {r : Reg} (hr : r ∉ [Reg.rax, .rcx, .rsp, .r11]) :
    (m.applyAll syscallHookEntry).reg r = m.reg r := by
  cases r <;> first | exact absurd (by decide) hr | rfl

theorem syscallHookEntry_r11 (m : Machine) :
    (m.applyAll syscallHookEntry).reg .r11 = m.flags.setWidth 64 := by
  show Function.update m.mem (m.reg .rsp - 8) (m.flags.setWidth 64) (m.reg .rsp - 8) <<< 32 >>> 32
    = _
  rw [Function.update_self, shl_shr]
  simp

/-- The number of the call was on the stack. -/
theorem syscallHookEntry_rax (m : Machine) :
    (m.applyAll syscallHookEntry).reg .rax = ((m.mem (m.reg .rsp)).setWidth 32).setWidth 64 := by
  show (Function.update m.mem (m.reg .rsp - 8) (m.flags.setWidth 64) (m.reg .rsp - 8 + 8) <<< 32
    ||| grantTrustedPermissions.setWidth 64) >>> 32 = _
  rw [shl_or_shr, BitVec.sub_add_cancel, Function.update_of_ne (by bv_omega)]

/-- The application's stack pointer is parked; the return address is on top. -/
theorem syscallHookEntry_secureStackSp (m : Machine) :
    (m.applyAll syscallHookEntry).gs .secureStackSp = m.reg .rsp + 8 := by
  show m.reg .rsp - 8 + 8 + 8 = _
  rw [BitVec.sub_add_cancel]

theorem syscallHookEntry_mem (m : Machine) :
    (m.applyAll syscallHookEntry).mem =
      Function.update m.mem (m.reg .rsp - 8) (m.flags.setWidth 64) := rfl

/-! ## asm_syscall_hook -/

/-- `asm_syscall_hook` has called the handler with the array of the registers. -/
structure Hooked (m m' : Machine) : Prop where
  rdi : m'.reg .rdi = m.reg .rsp - 128
  rbp : m'.reg .rbp = m.reg .rsp - 136
  gprs : m'.gpFrame (m.reg .rsp - 128) = m.reg
  secureStackSp : m'.gs .secureStackSp = m.gs .secureStackSp
  mem : ∀ a, (∀ k < 19, a ≠ m.reg .rsp - BitVec.ofNat 64 (8 * (k + 1))) → m'.mem a = m.mem a

theorem asmSyscallHook_hooked (m : Machine) :
    ∃ m', run asmSyscallHook m = some m' ∧ Hooked m m' := by
  have hp : Passes asmSyscallHook m := by
    refine (((passes_push _ _).append ?_).append ?_).append ?_
    · exact ⟨rfl, trivial⟩
    · exact ⟨rfl, rfl, rfl, rfl, rfl, rfl, rfl, rfl, rfl, rfl, rfl, rfl, trivial⟩
    · exact ⟨rfl, rfl, rfl, trivial⟩
  refine ⟨_, hp.run, ?_⟩
  rw [asmSyscallHook, applyAll_append, applyAll_append, applyAll_append, applyAll_pushGpRegs]
  obtain ⟨fl, hx⟩ := applyAll_xsave (applyAll [.mov .rsp .rdi]
    { m with
      reg := Function.update m.reg .rsp (m.reg .rsp - 128)
      mem := pushed (m.reg .rsp) (gpRegs.map m.reg) m.mem })
  rw [hx]
  have hsp : m.reg .rsp - 128 - 8 = m.reg .rsp - 136 := by bv_omega
  have hmem : ∀ a v,
      (∀ k < 3, a ≠ m.reg .rsp - 128 - BitVec.ofNat 64 (8 * (k + 1))) →
      Function.update (pushed (m.reg .rsp - 128) [m.reg .rdx, m.reg .rax, m.reg .rsi]
        (pushed (m.reg .rsp) (gpRegs.map m.reg) m.mem)) (m.reg .rsp - 128 - 8) v a =
        pushed (m.reg .rsp) (gpRegs.map m.reg) m.mem a := by
    intro a v ha
    exact (Function.update_of_ne (ha 0 (by decide)) _ _).trans (pushed_of_ne ha)
  refine ⟨rfl, hsp, ?_, rfl, ?_⟩
  · funext r
    refine (hmem _ _ fun k hk => ?_).trans (pushed_gpRegs m r)
    have := idxOf_gregs r
    bv_omega
  · intro a ha
    refine (hmem _ _ fun k hk => ?_).trans (pushed_of_ne fun k hk => ha k ?_)
    · have := ha (k + 16) (by omega)
      bv_omega
    · exact Nat.lt_of_lt_of_le hk (by simp [gpRegs])

/-! ## The way back -/

/-- The handler has returned: the array is loaded. -/
structure Unhooked (m m' : Machine) : Prop where
  reg : m'.reg = m.gpFrame (m.reg .rbp + 8)
  secureStackSp : m'.gs .secureStackSp = m.gs .secureStackSp
  mem : ∀ a, (∀ k < 3, a ≠ m.reg .rbp + 8 - BitVec.ofNat 64 (8 * (k + 1))) → m'.mem a = m.mem a

/-- The array is above the words pushed around `xrstor`. -/
theorem gpFrame_pushed (m : Machine) (base : Quad) {vs : List Quad} (h : vs.length ≤ 3) :
    { m with mem := pushed base vs m.mem }.gpFrame base = m.gpFrame base := by
  funext r
  refine pushed_of_ne fun k hk => ?_
  have := idxOf_gregs r
  bv_omega

theorem applyAll_afterSyscallHandler (m : Machine) :
    ∃ fl, m.applyAll (restoreRsp ++ xrstorVectorRegsFromGsrel ++ [.test .rax] ++ popGpRegs) =
      ({ m with
        reg := m.gpFrame (m.reg .rbp + 8)
        mem := pushed (m.reg .rbp + 8) [m.reg .rdx, m.reg .rax, m.reg .rsi] m.mem
        gs := Function.update m.gs .xsaveAreaStackSp (m.gs .xsaveAreaStackSp - xsaveSize)
        flags := fl } : Machine).setZf (m.reg .rax == 0) := by
  obtain ⟨fl, hx⟩ := applyAll_xrstor (m.applyAll restoreRsp)
  refine ⟨fl, ?_⟩
  rw [applyAll_append, applyAll_append, applyAll_append, hx, applyAll_popGpRegs]
  rw [← gpFrame_pushed m (m.reg .rbp + 8)
    (Nat.le_refl [m.reg .rdx, m.reg .rax, m.reg .rsi].length)]
  rfl

theorem passes_popGpRegs (m : Machine) : Passes popGpRegs m := passes_pop _ m

theorem afterSyscallHandler_unhooked {m : Machine} (h : m.reg .rax = 0) :
    ∃ m', run afterSyscallHandler m = some m' ∧ Unhooked m m' := by
  obtain ⟨fl, hx⟩ := applyAll_afterSyscallHandler m
  have hp : Passes afterSyscallHandler m := by
    refine ((((?_ : Passes restoreRsp m).append (passes_xrstor _)).append ?_).append
      (passes_popGpRegs _)).append ?_
    · exact ⟨rfl, rfl, trivial⟩
    · exact ⟨rfl, trivial⟩
    · refine ⟨?_, trivial⟩
      rw [hx]
      refine (getLsbD_setFlag _ _).trans ?_
      rw [h]
      rfl
  refine ⟨_, hp.run, ?_⟩
  rw [afterSyscallHandler, applyAll_append, hx]
  exact ⟨rfl, rfl, fun a ha => pushed_of_ne ha⟩

/-- `lower_privileges` keeps all registers but `%rcx` and the upper half of `%r11`: `%rdx`
is kept in `%r11` meanwhile, and the halves of `%rax` in `%rax` and `%rdx`. -/
theorem applyAll_lowerPrivileges (m : Machine) :
    ∃ fl, m.applyAll lowerPrivileges =
      { m with
        reg := Function.update (Function.update m.reg .rcx (m.reg .r11 <<< 32)) .r11
          (((m.reg .r11).setWidth 32).setWidth 64)
        gsByte := Function.update (Function.update m.gsByte .compartmentId tsApplicationByte)
          .sudSelector 1
        pkru := revokePermissions
        flags := fl } := by
  refine ⟨(m.applyAll lowerPrivileges).flags, ?_⟩
  have hreg : (m.applyAll lowerPrivileges).reg = Function.update
      (Function.update m.reg .rcx (m.reg .r11 <<< 32)) .r11
        (((m.reg .r11).setWidth 32).setWidth 64) := by
    funext r
    cases r with
    | rax => exact halves_or (m.reg .rax) revokePermissions
    | r11 => exact shl_shr (m.reg .r11)
    | _ => rfl
  have hpkru : (m.applyAll lowerPrivileges).pkru = revokePermissions :=
    setWidth_shl_or (m.reg .rax) revokePermissions
  exact Machine.ext hreg rfl rfl rfl rfl hpkru rfl rfl rfl rfl

theorem passes_lowerPrivileges (m : Machine) : Passes lowerPrivileges m := by
  refine ⟨rfl, rfl, rfl, rfl, rfl, rfl, rfl, rfl, rfl, rfl, ?_, rfl, ?_, rfl, rfl, rfl, rfl, rfl,
    trivial⟩
  · exact permits_wrpkru (setWidth_shl _) (setWidth_shl _)
  · refine (getLsbD_setFlag _ _).trans ?_
    rw [beq_iff_eq]
    exact setWidth_shl_or _ _

/-- `.do_nothing` has returned to the application. -/
structure Returned (m m' : Machine) : Prop where
  reg : ∀ r, r ∉ [Reg.rsp, .rcx, .r11] → m'.reg r = m.reg r
  rsp : m'.reg .rsp = m.gs .secureStackSp + 8
  r11 : m'.reg .r11 = ((m.reg .r11).setWidth 32).setWidth 64
  flags : m'.flags = (m.reg .r11).setWidth 32
  rcx : m.gs .secureStackSp ≠ m.reg .rsp - 8 → m'.reg .rcx = m.mem (m.gs .secureStackSp)
  rip : m.gs .secureStackSp ≠ m.reg .rsp - 8 → m'.rip = m.mem (m.gs .secureStackSp)

theorem doNothing_returned (m : Machine) : ∃ m', run doNothing m = some m' ∧ Returned m m' := by
  have hp : Passes doNothing m := by
    refine ((((?_ : Passes switchToOriginalTls m).append ?_).append
      (passes_lowerPrivileges _)).append ?_).append ?_
    · exact ⟨rfl, rfl, rfl, rfl, rfl, trivial⟩
    · exact ⟨rfl, trivial⟩
    · exact ⟨rfl, rfl, trivial⟩
    · exact ⟨rfl, rfl, trivial⟩
  refine ⟨_, hp.run, ?_⟩
  rw [doNothing, applyAll_append, applyAll_append, applyAll_append, applyAll_append,
    applyAll_switchToOriginalTls]
  obtain ⟨fl, hl⟩ := applyAll_lowerPrivileges (applyAll switchToOriginalStack
    { m with
      mem := pushed (m.reg .rsp) [m.reg .rdx] m.mem
      fs := m.gs .fsBase
      gs := Function.update m.gs .fsBase m.fs })
  rw [hl]
  have htop (h : m.gs .secureStackSp ≠ m.reg .rsp - 8) :
      Function.update (pushed (m.reg .rsp) [m.reg .rdx] m.mem) (m.gs .secureStackSp - 8)
        (((m.reg .r11).setWidth 32).setWidth 64) (m.gs .secureStackSp - 8 + 8) =
        m.mem (m.gs .secureStackSp) := by
    rw [BitVec.sub_add_cancel, Function.update_of_ne (by bv_omega)]
    exact Function.update_of_ne h _ _
  refine ⟨?_, ?_, rfl, ?_, htop, htop⟩
  · intro r hr
    cases r <;> first | exact absurd (by decide) hr | rfl
  · show m.gs .secureStackSp - 8 + 8 + 8 = _
    rw [BitVec.sub_add_cancel]
  · show (Function.update (pushed (m.reg .rsp) [m.reg .rdx] m.mem) (m.gs .secureStackSp - 8)
      (((m.reg .r11).setWidth 32).setWidth 64) (m.gs .secureStackSp - 8)).setWidth 32 = _
    rw [Function.update_self]
    simp

/-! ## What the handlers write into the array -/

section Handlers

variable {env : SyscallEnv} {gprs : GpFrame} {n : Nat}

/-- The application owns the descriptor in a place of the array. -/
def SyscallEnv.Owns (env : SyscallEnv) (q : Quad) : Prop :=
  env.bitmap.readBit (toSizeT (asInt q)) = true

/-- A prehandler of call `n` finds a descriptor that is not the application's. -/
def DeniesFd (env : SyscallEnv) (n : Nat) (gprs : GpFrame) : Prop :=
  n ∈ fdUsers ∧ 0 ≤ asInt (gprs .rdi) ∧ ¬ env.Owns (gprs .rdi) ∨
  n ∈ fdUsersSecondArgument ∧ ¬ env.Owns (gprs .rsi) ∨
  n ∈ fdUsersFirstSecondArgument ∧ ¬ (env.Owns (gprs .rdi) ∧ env.Owns (gprs .rsi)) ∨
  n ∈ fdUsersFirstThirdArgument ∧ ¬ (env.Owns (gprs .rdi) ∧ env.Owns (gprs .rdx))

/-- The handler of `mprotect` takes the right to execute out of the arguments. -/
def DropsExec (env : SyscallEnv) (n : Nat) (gprs : GpFrame) : Prop :=
  n = nrMprotect ∧
  (∃ page, lookupRange env.pages (gprs .rdi).toNat (gprs .rsi).toNat TS_APPLICATION =
    some (some page)) ∧
  gprs .rdx &&& protExec ≠ 0 ∧ gprs .rdx &&& protWrite ≠ 0

open Classical in
/-- The array after the prehandlers. -/
noncomputable def denied (env : SyscallEnv) (n : Nat) (gprs : GpFrame) : GpFrame :=
  if DeniesFd env n gprs then Function.update gprs .rdi (-1) else gprs

theorem denied_pos (h : DeniesFd env n gprs) : denied env n gprs .rdi = -1 := by
  rw [denied, if_pos h]
  rfl

theorem denied_neg (h : ¬ DeniesFd env n gprs) : denied env n gprs = gprs := if_neg h

theorem denied_of_ne {r : Reg} (hr : r ≠ .rdi) : denied env n gprs r = gprs r := by
  rw [denied]
  split
  · exact Function.update_of_ne hr _ _
  · rfl

theorem fdUsers_disjoint : ∀ n ∈ fdUsers, n ∉ fdUsersSecondArgument ∧
    n ∉ fdUsersFirstSecondArgument ∧ n ∉ fdUsersFirstThirdArgument := by decide

theorem fdUsersSecond_disjoint : ∀ n ∈ fdUsersSecondArgument,
    n ∉ fdUsersFirstSecondArgument ∧ n ∉ fdUsersFirstThirdArgument := by decide

theorem fdUsersFirstSecond_disjoint : ∀ n ∈ fdUsersFirstSecondArgument,
    n ∉ fdUsersFirstThirdArgument := by decide

theorem denyFd_eq (env : SyscallEnv) (q : Quad) (gprs : GpFrame) [Decidable (env.Owns q)] :
    denyFd env (asInt q) gprs =
      if env.Owns q then gprs else Function.update gprs .rdi (-1) := by
  rw [denyFd]
  by_cases h : env.Owns q
  · rw [if_pos h, if_neg (by rw [SyscallEnv.Owns] at h; simp [h])]
  · rw [if_neg h, if_pos (by rw [SyscallEnv.Owns] at h; simp [h])]

/-- Two descriptors checked one after the other: the first argument is replaced at most
once more by the same value. -/
theorem denyFd_denyFd (env : SyscallEnv) (p q : Quad) (gprs : GpFrame)
    [Decidable (env.Owns p ∧ env.Owns q)] :
    denyFd env (asInt q) (denyFd env (asInt p) gprs) =
      if env.Owns p ∧ env.Owns q then gprs else Function.update gprs .rdi (-1) := by
  classical
  rw [denyFd_eq, denyFd_eq]
  by_cases hp : env.Owns p <;> by_cases hq : env.Owns q <;> simp [hp, hq]

open Classical in
/-- The prehandlers of a call together. -/
theorem runHandlers_prehandlers (env : SyscallEnv) (n : Nat) (gprs : GpFrame)
    (rest : List SyscallHandler) :
    runHandlers env (prehandlers n ++ rest) gprs 0 =
      runHandlers env rest (denied env n gprs) 0 := by
  by_cases h1 : n ∈ fdUsers
  · obtain ⟨h2, h3, h4⟩ := fdUsers_disjoint n h1
    simp only [prehandlers, denied, DeniesFd, h1, h2, h3, h4, if_true, if_false, true_and,
      false_and, or_false, List.append_nil, List.cons_append, List.nil_append, runHandlers,
      fdFirstArgumentPrehandler, denyFd_eq]
    by_cases hfd : asInt (gprs .rdi) < 0
    · simp [hfd, Int.not_le.mpr hfd]
    · by_cases ho : env.Owns (gprs .rdi) <;> simp [hfd, Int.not_lt.mp hfd, ho]
  by_cases h2 : n ∈ fdUsersSecondArgument
  · obtain ⟨h3, h4⟩ := fdUsersSecond_disjoint n h2
    simp only [prehandlers, denied, DeniesFd, h1, h2, h3, h4, if_true, if_false, true_and,
      false_and, or_false, false_or, List.append_nil, List.cons_append, List.nil_append,
      runHandlers,
      fdSecondArgumentPrehandler, denyFd_eq, ite_not]
  by_cases h3 : n ∈ fdUsersFirstSecondArgument
  · have h4 := fdUsersFirstSecond_disjoint n h3
    simp only [prehandlers, denied, DeniesFd, h1, h2, h3, h4, if_true, if_false, true_and,
      false_and, or_false, false_or, List.append_nil, List.cons_append, List.nil_append,
      runHandlers,
      fdFirstSecondArgumentPrehandler, denyFd_denyFd, ite_not]
  by_cases h4 : n ∈ fdUsersFirstThirdArgument
  · simp only [prehandlers, denied, DeniesFd, h1, h2, h3, h4, if_true, if_false, true_and,
      false_and, false_or, List.append_nil, List.cons_append, List.nil_append, runHandlers,
      fdFirstThirdArgumentPrehandler, denyFd_denyFd, ite_not]
  · simp only [prehandlers, denied, DeniesFd, h1, h2, h3, h4, if_false, false_and, or_false,
      List.append_nil, List.nil_append]

theorem earlyHandler_some {early : SyscallEnv → GpFrame → Option (Option Quad)}
    {gprs' : GpFrame} {ret : Quad} (h : earlyHandler early env gprs = some (gprs', ret)) :
    ∃ e, early env gprs = some e ∧ gprs' = Function.update gprs .rax (e.getD env.result) ∧
      ret = 0 := by
  obtain ⟨e, he, heq⟩ := Option.map_eq_some_iff.mp h
  cases heq
  exact ⟨e, he, rfl, rfl⟩

/-- The flags of a `clone` that is emulated in the assembly. -/
def ClonesThread (gprs : GpFrame) : Prop :=
  gprs .rdi &&& cloneThread ≠ 0 ∨ gprs .rdi &&& cloneVfork ≠ 0

/-- The range of an `mremap` is not inside one group of the application. -/
def RemapsOutside (env : SyscallEnv) (gprs : GpFrame) : Prop :=
  ∀ rpage, lookupAddr env.pages (gprs .rdi).toNat TS_APPLICATION = some rpage →
    wadd (gprs .rdi).toNat (gprs .rsi).toNat > rpage.pageEnd

/-- What a main handler other than that of `mprotect` leaves in the array, and what it
returns. -/
inductive MainLeaves (env : SyscallEnv) (n : Nat) (gprs : GpFrame) : GpFrame → Quad → Prop where
  | result (v : Quad) (hclone : n = nrClone → ¬ ClonesThread gprs)
      (hremap : n = nrMremap → ¬ RemapsOutside env gprs) :
      MainLeaves env n gprs (Function.update gprs .rax v) 0
  | emulated (hn : n = nrClone) (hclone : ClonesThread gprs) : MainLeaves env n gprs gprs 1
  | unwritten (hn : n = nrMremap) (hremap : RemapsOutside env gprs) :
      MainLeaves env n gprs gprs (-14)

theorem mremap_leaves {gprs' : GpFrame} {ret : Quad}
    (h : SyscallHandler.mremap env gprs = some (gprs', ret)) :
    MainLeaves env nrMremap gprs gprs' ret := by
  rw [SyscallHandler.mremap] at h
  split at h
  · rename_i hpage
    cases h
    exact .unwritten rfl fun rpage hr => nomatch hpage.symm.trans hr
  · rename_i page hpage
    split at h
    · rename_i hend
      cases h
      refine .unwritten rfl fun rpage hr => ?_
      cases hpage.symm.trans hr
      exact hend
    · rename_i hend
      obtain ⟨e, -, rfl, rfl⟩ := earlyHandler_some h
      exact .result _ nofun fun _ hout => hend (hout page hpage)

theorem clone_leaves {gprs' : GpFrame} {ret : Quad}
    (h : SyscallHandler.clone env gprs = some (gprs', ret)) :
    MainLeaves env nrClone gprs gprs' ret := by
  rw [SyscallHandler.clone] at h
  split at h
  · rename_i hthread
    split at h <;> cases h
    exact .emulated rfl (.inl hthread)
  · rename_i hthread
    split at h
    · rename_i hvfork
      split at h <;> cases h
      exact .emulated rfl (.inr hvfork)
    · rename_i hvfork
      split at h
      · cases h
        exact .result _ (fun _ hc => hc.elim hthread hvfork) nofun
      · cases h

theorem mainHandler_leaves {gprs' : GpFrame} {ret : Quad} (hn : n ≠ nrMprotect)
    (h : mainHandler n env gprs = some (gprs', ret)) : MainLeaves env n gprs gprs' ret := by
  -- the chain of cases is about the handler alone, before it is applied
  have hchain {c : Prop} [Decidable c] {f f' : SyscallHandler}
      (ht : c → f env gprs = some (gprs', ret) → MainLeaves env n gprs gprs' ret)
      (hf : ¬ c → f' env gprs = some (gprs', ret) → MainLeaves env n gprs gprs' ret) :
      (if c then f else f') env gprs = some (gprs', ret) → MainLeaves env n gprs gprs' ret :=
    iteInduction (motive := fun f : SyscallHandler => f env gprs = some (gprs', ret) → _) ht hf
  revert h
  rw [mainHandler, if_neg hn]
  refine hchain (fun hremap => hremap ▸ mremap_leaves) fun hremap => ?_
  refine hchain (fun hclone => hclone ▸ clone_leaves) fun hclone => ?_
  have hresult : ∀ v, MainLeaves env n gprs (Function.update gprs .rax v) 0 := fun v =>
    .result v (fun h => absurd h hclone) (fun h => absurd h hremap)
  have hearly : ∀ {early}, earlyHandler early env gprs = some (gprs', ret) →
      MainLeaves env n gprs gprs' ret := by
    intro early h
    obtain ⟨e, -, rfl, rfl⟩ := earlyHandler_some h
    exact hresult _
  iterate 6 refine hchain (fun _ => hearly) fun _ => ?_
  refine hchain (fun _ h => nomatch h) fun _ => hchain (fun _ h => ?_) fun _ h => ?_
  · cases h
    exact hresult _
  · cases h
    exact hresult _

/-- Every other main handler only writes its result. -/
theorem mainHandler_result {gprs' : GpFrame} {ret : Quad} (hn : n ≠ nrMprotect)
    (h : mainHandler n env gprs = some (gprs', ret)) {r : Reg} (hr : r ≠ .rax) :
    gprs' r = gprs r := by
  cases mainHandler_leaves hn h with
  | result v => exact Function.update_of_ne hr v gprs
  | emulated => rfl
  | unwritten => rfl

/-- The ways in which the handler of `mprotect` returns: the range is not the
application's, the right to execute is dropped, or it is not. -/
theorem mprotect_cases {gprs' : GpFrame} {ret : Quad}
    (h : SyscallHandler.mprotect env gprs = some (gprs', ret)) :
    ret = 0 ∧
      ((lookupRange env.pages (gprs .rdi).toNat (gprs .rsi).toNat TS_APPLICATION = some none ∧
          gprs' = Function.update gprs .rax (-22)) ∨
        (DropsExec env nrMprotect gprs ∧ gprs' = Function.update
          (Function.update gprs .rdx (gprs .rdx &&& ~~~protExec)) .rax env.result) ∨
        (¬ DropsExec env nrMprotect gprs ∧ gprs' = Function.update gprs .rax env.result)) := by
  rw [SyscallHandler.mprotect] at h
  split at h
  · cases h
  · next hl =>
    cases h
    exact ⟨rfl, .inl ⟨hl, rfl⟩⟩
  · next page hl =>
    split at h
    · cases h
    split at h
    · next hwx =>
      dsimp only at h
      split at h <;> cases h
      exact ⟨rfl, .inr (.inl ⟨⟨rfl, ⟨page, hl⟩, hwx⟩, rfl⟩)⟩
    · next hwx =>
      have hkeeps : ¬ DropsExec env nrMprotect gprs := fun hd => hwx hd.2.2
      split at h
      · cases h
        exact ⟨rfl, .inr (.inr ⟨hkeeps, rfl⟩)⟩
      · split at h <;> cases h
        exact ⟨rfl, .inr (.inr ⟨hkeeps, rfl⟩)⟩

theorem mprotect_writes {gprs' : GpFrame} {ret : Quad}
    (h : SyscallHandler.mprotect env gprs = some (gprs', ret)) :
    (∀ r, r ≠ .rax → r ≠ .rdx → gprs' r = gprs r) ∧
      (DropsExec env nrMprotect gprs → gprs' .rdx = gprs .rdx &&& ~~~protExec) ∧
      (¬ DropsExec env nrMprotect gprs → gprs' .rdx = gprs .rdx) := by
  obtain ⟨-, ⟨hl, rfl⟩ | ⟨hdrops, rfl⟩ | ⟨hkeeps, rfl⟩⟩ := mprotect_cases h
  · refine ⟨fun r hr _ => Function.update_of_ne hr _ _, ?_, fun _ => rfl⟩
    rintro ⟨-, ⟨page, hpage⟩, -⟩
    rw [hl] at hpage
    cases hpage
  · refine ⟨fun r hr hr' => ?_, fun _ => rfl, fun hd => absurd hdrops hd⟩
    rw [Function.update_of_ne hr, Function.update_of_ne hr']
  · exact ⟨fun r hr _ => Function.update_of_ne hr _ _, fun hd => absurd hd hkeeps, fun _ => rfl⟩

theorem runHandlers_posthandlers (env : SyscallEnv) (n : Nat) (gprs : GpFrame) (ret : Quad) :
    runHandlers env (posthandlers n) gprs ret = some (gprs, if n ∈ fdCreators then 0 else ret) := by
  rw [posthandlers]
  split <;> rfl

/-- The main handler has the last word about the array. -/
theorem secpolineSyscallHandler_main {gprs' : GpFrame} {ret : Quad}
    (h : secpolineSyscallHandler env gprs = some (gprs', ret)) :
    ∃ c, mainHandler (gprs .rax).toNat env (denied env (gprs .rax).toNat gprs) = some (gprs', c) ∧
      ret = if (gprs .rax).toNat ∈ fdCreators then 0 else c := by
  rw [secpolineSyscallHandler] at h
  split at h
  · rw [syscallHandlerList, runHandlers_prehandlers, runHandlers] at h
    split at h
    · cases h
    · rename_i g c hmain
      rw [runHandlers_posthandlers] at h
      cases h
      exact ⟨c, hmain, rfl⟩
  · cases h

/-- A call without prehandlers. -/
theorem denied_eq_self (h₁ : n ∉ fdUsers) (h₂ : n ∉ fdUsersSecondArgument)
    (h₃ : n ∉ fdUsersFirstSecondArgument) (h₄ : n ∉ fdUsersFirstThirdArgument) :
    denied env n gprs = gprs := by
  refine denied_neg ?_
  rintro (h | h | h | h)
  · exact h₁ h.1
  · exact h₂ h.1
  · exact h₃ h.1
  · exact h₄ h.1

/-- The array when `secpoline_syscall_handler` returns. -/
theorem secpolineSyscallHandler_writes {gprs' : GpFrame} {ret : Quad}
    (h : secpolineSyscallHandler env gprs = some (gprs', ret)) :
    (∀ r, r ∉ [Reg.rax, .rdi, .rdx] → gprs' r = gprs r) ∧
      (DeniesFd env (gprs .rax).toNat gprs → gprs' .rdi = -1) ∧
      (¬ DeniesFd env (gprs .rax).toNat gprs → gprs' .rdi = gprs .rdi) ∧
      (DropsExec env (gprs .rax).toNat gprs → gprs' .rdx = gprs .rdx &&& ~~~protExec) ∧
      (¬ DropsExec env (gprs .rax).toNat gprs → gprs' .rdx = gprs .rdx) := by
  obtain ⟨c, hmain, -⟩ := secpolineSyscallHandler_main h
  by_cases hn : (gprs .rax).toNat = nrMprotect
  · -- `mprotect` has no prehandler.
    have hden : ¬ DeniesFd env (gprs .rax).toNat gprs := by
      rw [hn]
      simp [DeniesFd, nrMprotect, fdUsers, fdUsersSecondArgument,
        fdUsersFirstSecondArgument, fdUsersFirstThirdArgument]
    rw [denied_neg hden, hn] at hmain
    obtain ⟨h1, h2, h3⟩ := mprotect_writes hmain
    rw [hn] at hden ⊢
    refine ⟨fun r hr => h1 r ?_ ?_, fun hd => absurd hd hden, fun _ => ?_, h2, h3⟩
    · exact fun e => hr (by simp [e])
    · exact fun e => hr (by simp [e])
    · exact h1 .rdi (by decide) (by decide)
  · have hkeep : ∀ r : Reg, r ≠ .rax → gprs' r = denied env (gprs .rax).toNat gprs r :=
      fun r hr => mainHandler_result hn hmain hr
    have hdrop : ¬ DropsExec env (gprs .rax).toNat gprs := fun hd => hn hd.1
    refine ⟨fun r hr => ?_, fun hd => ?_, fun hd => ?_, fun hd => absurd hd hdrop, fun _ => ?_⟩
    · rw [hkeep r fun e => hr (by simp [e])]
      exact denied_of_ne fun e => hr (by simp [e])
    · exact (hkeep .rdi (by decide)).trans (denied_pos hd)
    · rw [hkeep .rdi (by decide), denied_neg hd]
    · exact (hkeep .rdx (by decide)).trans (denied_of_ne (by decide))

end Handlers

/-! ## The whole way -/

/-- The application has called `syscall_hook_entry`: on its stack are the saved `%rax`,
which is the number of the call, and the return address. The monitor's stack is
elsewhere. -/
structure AtSyscallEntry (m : Machine) : Prop where
  compartment : m.gsByte .compartmentId = tsApplicationByte
  separate : ∀ k < 19, m.reg .rsp + 8 ≠ m.gs .secureStackSp - BitVec.ofNat 64 (8 * (k + 1))

/-- The number of the call. -/
def Machine.syscallNo (m : Machine) : Nat := ((m.mem (m.reg .rsp)).setWidth 32).toNat

/-- The registers are as after a system call that the kernel answered. -/
structure Transparent (m m' : Machine) : Prop where
  reg : ∀ r, r ∉ [Reg.rax, .rcx, .rsp, .r11] → m'.reg r = m.reg r
  rsp : m'.reg .rsp = m.reg .rsp + 16
  r11 : m'.reg .r11 = m.flags.setWidth 64
  flags : m'.flags = m.flags
  rcx : m'.reg .rcx = m.mem (m.reg .rsp + 8)
  rip : m'.rip = m.mem (m.reg .rsp + 8)

/-- The handler has been called with the array `gprs`. -/
structure Entered (m m₁ : Machine) (gprs : GpFrame) : Prop where
  reg : ∀ r, r ∉ [Reg.rax, .rcx, .rsp, .r11] → gprs r = m.reg r
  rax : (gprs .rax).toNat = m.syscallNo
  rsp : gprs .rsp = m.gs .secureStackSp
  r11 : gprs .r11 = m.flags.setWidth 64
  rdi : m₁.reg .rdi = m.gs .secureStackSp - 128
  rbp : m₁.reg .rbp = m.gs .secureStackSp - 136
  frame : m₁.gpFrame (m.gs .secureStackSp - 128) = gprs
  secureStackSp : m₁.gs .secureStackSp = m.reg .rsp + 8
  top : m₁.mem (m.reg .rsp + 8) = m.mem (m.reg .rsp + 8)

theorem syscall_enters {m : Machine} (h : AtSyscallEntry m) :
    ∃ m₁ gprs, run (syscallHookEntry ++ asmSyscallHook) m = some m₁ ∧ Entered m m₁ gprs := by
  obtain ⟨m₁, hrun, hk⟩ := asmSyscallHook_hooked (m.applyAll syscallHookEntry)
  refine ⟨m₁, (m.applyAll syscallHookEntry).reg, ?_, ?_⟩
  · rw [run_append, (passes_syscallHookEntry h.compartment).run, Option.bind_some, hrun]
  · refine ⟨fun r => syscallHookEntry_reg m, ?_, rfl, syscallHookEntry_r11 m, hk.rdi, hk.rbp,
      hk.gprs, hk.secureStackSp.trans (syscallHookEntry_secureStackSp m), ?_⟩
    · rw [syscallHookEntry_rax, Machine.syscallNo, BitVec.toNat_setWidth]
      exact Nat.mod_eq_of_lt (Nat.lt_trans (BitVec.isLt _) (by decide))
    · rw [hk.mem _ h.separate, syscallHookEntry_mem]
      exact Function.update_of_ne (by bv_omega) _ _

/-- What the application finds when the call has returned, in terms of the array. -/
structure Left (m m₂ m₃ : Machine) (gprs' : GpFrame) : Prop where
  reg : ∀ r, r ∉ [Reg.rsp, .rcx, .r11] → m₃.reg r = gprs' r
  rsp : m₃.reg .rsp = m.reg .rsp + 16
  r11 : m₃.reg .r11 = m.flags.setWidth 64
  flags : m₃.flags = m.flags
  rcx : m₃.reg .rcx = m₂.mem (m.reg .rsp + 8)
  rip : m₃.rip = m₂.mem (m.reg .rsp + 8)

theorem syscall_leaves {env : SyscallEnv} {m m₁ m₂ : Machine} {gprs : GpFrame}
    (h : AtSyscallEntry m) (he : Entered m m₁ gprs) (hh : SyscallHandled env m₁ m₂)
    (hret : m₂.reg .rax = 0) :
    ∃ m₃, run (afterSyscallHandler ++ doNothing) m₂ = some m₃ ∧
      Left m m₂ m₃ (m₂.gpFrame (m.gs .secureStackSp - 128)) := by
  obtain ⟨t, hrun, hu⟩ := afterSyscallHandler_unhooked hret
  obtain ⟨m₃, hrun', hr⟩ := doNothing_returned t
  have hbase : m₂.reg .rbp + 8 = m.gs .secureStackSp - 128 := by
    rw [hh.saved .rbp (by decide), he.rbp]
    bv_omega
  have hgprs := hh.gprs
  rw [he.rdi, he.frame] at hgprs
  obtain ⟨hkeep, -⟩ := secpolineSyscallHandler_writes hgprs
  have hreg : t.reg = m₂.gpFrame (m.gs .secureStackSp - 128) := by rw [hu.reg, hbase]
  have happ : t.gs .secureStackSp = m.reg .rsp + 8 := by
    rw [hu.secureStackSp, hh.secureStackSp, he.secureStackSp]
  have hsp : t.reg .rsp = m.gs .secureStackSp := by
    rw [hreg, hkeep .rsp (by decide), he.rsp]
  have hr11 : t.reg .r11 = m.flags.setWidth 64 := by
    rw [hreg, hkeep .r11 (by decide), he.r11]
  have hne : t.gs .secureStackSp ≠ t.reg .rsp - 8 := by
    rw [happ, hsp]
    exact h.separate 0 (by decide)
  have htop : t.mem (m.reg .rsp + 8) = m₂.mem (m.reg .rsp + 8) := by
    refine hu.mem _ fun k hk => ?_
    rw [hbase]
    have := h.separate (k + 16) (by omega)
    bv_omega
  refine ⟨m₃, ?_, ?_⟩
  · rw [run_append, hrun, Option.bind_some, hrun']
  · refine ⟨fun r hm => ?_, ?_, ?_, ?_, ?_, ?_⟩
    · rw [hr.reg r hm, hreg]
    · rw [hr.rsp, happ]
      bv_omega
    · rw [hr.r11, hr11]
      simp
    · rw [hr.flags, hr11]
      simp
    · rw [hr.rcx hne, happ, htop]
    · rw [hr.rip hne, happ, htop]

/-- The handler can leave any array in memory. -/
def Machine.handled (m : Machine) (env : SyscallEnv) (gprs' : GpFrame) (ret : Quad) : Machine :=
  { m with
    reg := Function.update m.reg .rax ret
    mem := fun a =>
      if a = m.gs .secureStackSp then (env.writes a).getD (m.mem a)
      else
        match gregs[(a - m.reg .rdi).toNat / 8]? with
        | some r => gprs' r
        | none => m.mem a }

theorem handled_gpFrame (m : Machine) (env : SyscallEnv) (gprs' : GpFrame) (ret : Quad)
    (h : ∀ r, m.gs .secureStackSp ≠ m.reg .rdi + 8 * BitVec.ofNat 64 (gregs.idxOf r)) :
    (m.handled env gprs' ret).gpFrame (m.reg .rdi) = gprs' := by
  funext r
  have hidx := idxOf_gregs r
  have hoff : (m.reg .rdi + 8 * BitVec.ofNat 64 (gregs.idxOf r) - m.reg .rdi).toNat / 8 =
      gregs.idxOf r := by
    have : m.reg .rdi + 8 * BitVec.ofNat 64 (gregs.idxOf r) - m.reg .rdi =
        BitVec.ofNat 64 (8 * gregs.idxOf r) := by bv_omega
    rw [this, BitVec.toNat_ofNat]
    omega
  have hget : gregs[gregs.idxOf r]? = some r := by cases r <;> rfl
  show (if _ = _ then _ else match gregs[_]? with | some r => gprs' r | none => _) = _
  rw [if_neg (h r).symm, hoff, hget]

theorem exists_handled {env : SyscallEnv} {m m₁ : Machine} {gprs gprs' : GpFrame} {ret : Quad}
    (h : AtSyscallEntry m) (he : Entered m m₁ gprs)
    (hg : secpolineSyscallHandler env gprs = some (gprs', ret)) :
    SyscallHandled env m₁ (m₁.handled env gprs' ret) := by
  have hsep : ∀ r, m₁.gs .secureStackSp ≠ m₁.reg .rdi + 8 * BitVec.ofNat 64 (gregs.idxOf r) := by
    intro r
    rw [he.secureStackSp, he.rdi, gpFrame_slot]
    have := idxOf_gregs r
    exact h.separate _ (by omega)
  refine ⟨?_, rfl, ?_, ?_⟩
  · intro r hr
    exact Function.update_of_ne (fun e => by subst e; exact absurd hr (by decide)) _ _
  · rw [handled_gpFrame _ _ _ _ hsep, he.rdi, he.frame, hg]
    show _ = some (gprs', Function.update m₁.reg .rax ret .rax)
    rw [Function.update_self]
  · exact if_pos rfl

theorem and_protExec {x : Quad} (h : x &&& ~~~protExec = x) : x &&& protExec = 0 := by
  rw [← h, BitVec.and_assoc]
  have : ~~~protExec &&& protExec = 0 := by decide
  rw [this]
  exact BitVec.and_zero

/-- The conditions on the arguments, read in the array or in the registers. -/
theorem Entered.deniesFd_iff {env : SyscallEnv} {m m₁ : Machine} {gprs : GpFrame}
    (he : Entered m m₁ gprs) :
    DeniesFd env (gprs .rax).toNat gprs ↔ DeniesFd env m.syscallNo m.reg := by
  rw [DeniesFd, DeniesFd, he.rax, he.reg .rdi (by decide), he.reg .rsi (by decide),
    he.reg .rdx (by decide)]

theorem Entered.dropsExec_iff {env : SyscallEnv} {m m₁ : Machine} {gprs : GpFrame}
    (he : Entered m m₁ gprs) :
    DropsExec env (gprs .rax).toNat gprs ↔ DropsExec env m.syscallNo m.reg := by
  rw [DropsExec, DropsExec, he.rax, he.reg .rdi (by decide), he.reg .rsi (by decide),
    he.reg .rdx (by decide)]

/-- A system call that goes the way of `.do_nothing` comes back, and it leaves the registers
as a real one would exactly if no prehandler replaced the first argument, `mprotect` did
not take `PROT_EXEC` out of the third, and the return address on the application's stack
was not overwritten meanwhile. -/
theorem syscall_transparent_iff (env : SyscallEnv) {m : Machine} (h : AtSyscallEntry m) :
    ∃ m₁, run (syscallHookEntry ++ asmSyscallHook) m = some m₁ ∧
      ∀ m₂, SyscallHandled env m₁ m₂ → m₂.reg .rax = 0 →
        ∃ m₃, run (afterSyscallHandler ++ doNothing) m₂ = some m₃ ∧
          (Transparent m m₃ ↔
            (DeniesFd env m.syscallNo m.reg → m.reg .rdi = -1) ∧
            ¬ DropsExec env m.syscallNo m.reg ∧
            ∀ w, env.writes (m.reg .rsp + 8) = some w → w = m.mem (m.reg .rsp + 8)) := by
  obtain ⟨m₁, gprs, hrun, he⟩ := syscall_enters h
  refine ⟨m₁, hrun, fun m₂ hh hret => ?_⟩
  obtain ⟨m₃, hrun', hl⟩ := syscall_leaves h he hh hret
  have hgprs := hh.gprs
  rw [he.rdi, he.frame] at hgprs
  obtain ⟨hkeep, hden, hden', hdrop, hdrop'⟩ := secpolineSyscallHandler_writes hgprs
  rw [he.deniesFd_iff] at hden hden'
  rw [he.dropsExec_iff] at hdrop hdrop'
  have hrdi := hl.reg .rdi (by decide)
  have hrdx := hl.reg .rdx (by decide)
  have hedi := he.reg .rdi (by decide)
  have hedx := he.reg .rdx (by decide)
  have happ := hh.appStack
  rw [he.secureStackSp, he.top] at happ
  refine ⟨m₃, hrun', ⟨fun ht => ⟨fun hd => ?_, fun hd => ?_, fun w hw => ?_⟩, ?_⟩⟩
  · rw [← ht.reg .rdi (by decide), hrdi, hden hd]
  · have hsame := ht.reg .rdx (by decide)
    rw [hrdx, hdrop hd, hedx] at hsame
    exact hd.2.2.1 (and_protExec hsame)
  · rw [← ht.rcx, hl.rcx, happ, hw]
    rfl
  · rintro ⟨hd, hx, hw⟩
    have hret : m₂.mem (m.reg .rsp + 8) = m.mem (m.reg .rsp + 8) := by
      rw [happ]
      cases hws : env.writes (m.reg .rsp + 8) with
      | none => rfl
      | some w => exact hw w hws
    refine ⟨fun r hr => ?_, hl.rsp, hl.r11, hl.flags, hl.rcx.trans hret, hl.rip.trans hret⟩
    by_cases hr1 : r = .rdi
    · subst hr1
      rw [hrdi]
      by_cases hdf : DeniesFd env m.syscallNo m.reg
      · rw [hden hdf, hd hdf]
      · rw [hden' hdf, hedi]
    by_cases hr2 : r = .rdx
    · subst hr2
      rw [hrdx, hdrop' hx, hedx]
    have hne : r ≠ .rax ∧ r ≠ .rcx ∧ r ≠ .rsp ∧ r ≠ .r11 := by simpa using hr
    rw [hl.reg r (by simp [hne]), hkeep r (by simp [hne, hr1, hr2]), he.reg r hr]

/-- The application calls `read` on descriptor 5. -/
def readMachine : Machine where
  reg := fun r => match r with
    | .rdi => 5
    | .rsp => 0x2000
    | _ => 0
  flags := 0x202
  rip := 0
  fs := 0x3000
  gsBase := 0
  pkru := revokePermissions
  gs := fun f => match f with
    | .secureStackSp => 0x8000
    | _ => 0
  gsByte := fun _ => 1
  sigreturn := []
  mem := fun a => if a = 0x2008 then 0x401000 else 0

/-- The descriptor is closed. -/
def readEnv (bitmap : FdBitmap) : SyscallEnv where
  bitmap := bitmap
  pages := {}
  multithreaded := false
  pool := 0
  refused := false
  result := -9
  writes := fun _ => none

/-- `read` has no handlers but the first argument's and the default one. -/
theorem secpolineSyscallHandler_read (env : SyscallEnv) {gprs : GpFrame}
    (h : (gprs .rax).toNat = 0) :
    secpolineSyscallHandler env gprs =
      some (Function.update (denied env 0 gprs) .rax env.result, 0) := by
  rw [secpolineSyscallHandler, h, if_pos (by decide), syscallHandlerList, runHandlers_prehandlers]
  rfl

theorem readMachine_entry : AtSyscallEntry readMachine := ⟨rfl, by decide⟩

/-- `read` on a descriptor that the application owns. -/
theorem syscall_transparent_iff_read :
    AtSyscallEntry readMachine ∧
    (∃ m₁, run (syscallHookEntry ++ asmSyscallHook) readMachine = some m₁ ∧
      ∀ m₂, SyscallHandled (readEnv ⟨[0xff]⟩) m₁ m₂ → m₂.reg .rax = 0 →
        ∃ m₃, run (afterSyscallHandler ++ doNothing) m₂ = some m₃ ∧
          (Transparent readMachine m₃ ↔
            (DeniesFd (readEnv ⟨[0xff]⟩) readMachine.syscallNo readMachine.reg →
              readMachine.reg .rdi = -1) ∧
            ¬ DropsExec (readEnv ⟨[0xff]⟩) readMachine.syscallNo readMachine.reg ∧
            ∀ w, (readEnv ⟨[0xff]⟩).writes (readMachine.reg .rsp + 8) = some w →
              w = readMachine.mem (readMachine.reg .rsp + 8))) :=
  ⟨readMachine_entry, syscall_transparent_iff (readEnv ⟨[0xff]⟩) readMachine_entry⟩

theorem syscall_fd_overwritten :
    AtSyscallEntry readMachine ∧ readMachine.reg .rdi = 5 ∧
    ∃ m₁ m₂ m₃, run (syscallHookEntry ++ asmSyscallHook) readMachine = some m₁ ∧
      SyscallHandled (readEnv .empty) m₁ m₂ ∧ m₂.reg .rax = 0 ∧
      run (afterSyscallHandler ++ doNothing) m₂ = some m₃ ∧ m₃.reg .rdi = -1 := by
  obtain ⟨m₁, gprs, hrun, he⟩ := syscall_enters readMachine_entry
  have hno : (gprs .rax).toNat = 0 := he.rax
  have hhandled := exists_handled readMachine_entry he
    (secpolineSyscallHandler_read (readEnv .empty) hno)
  obtain ⟨m₃, hrun', hl⟩ := syscall_leaves readMachine_entry he hhandled rfl
  refine ⟨readMachine_entry, rfl, m₁, _, m₃, hrun, hhandled, rfl, hrun', ?_⟩
  have hgprs := hhandled.gprs
  rw [he.rdi, he.frame] at hgprs
  obtain ⟨-, hden, -⟩ := secpolineSyscallHandler_writes hgprs
  rw [hl.reg .rdi (by decide)]
  refine hden (he.deniesFd_iff.mpr (.inl ⟨by decide, by decide, ?_⟩))
  rw [SyscallEnv.Owns]
  decide

end Secpoline
