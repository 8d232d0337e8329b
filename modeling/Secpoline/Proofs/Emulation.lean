import Secpoline.Proofs.Mremap
import Secpoline.Proofs.SyscallHook

/-!
# Which system calls are emulated

What `secpoline_syscall_handler` returns is what the last handler of the row
returned, and the assembly takes everything but zero as the wish to emulate the
call: it knows how to do that for `clone` and `vfork`, and traps otherwise. The
handlers return `false`, `true` for a `clone` that makes a thread, and in one
place an error number.

A call that the monitor refuses is told so by the number its handler leaves in
the place of `%rax`. For the memory calls this is what their programs return
without having come to a kernel call.
-/

namespace Secpoline

open Lib Lib.Prog Machine

/-! ## The fall-through -/

theorem run_fallThrough (m : Machine) :
    run fallThrough m =
      run [.ifNotZero, .cmpq 56 .rax, .ifNotZero, .cmpq 58 .rax, .ifNotZero]
        (m.applyAll (restoreRsp ++ xrstorVectorRegsFromGsrel ++ [.test .rax] ++ popGpRegs)) := by
  have hp : Passes (restoreRsp ++ xrstorVectorRegsFromGsrel ++ [.test .rax] ++ popGpRegs) m := by
    refine (((?_ : Passes restoreRsp m).append (passes_xrstor _)).append ?_).append
      (passes_popGpRegs _)
    · exact ⟨rfl, rfl, trivial⟩
    · exact ⟨rfl, trivial⟩
  rw [fallThrough, run_append, hp.run, Option.bind_some]

theorem run_ifNotZero {rest : List Instr} {m : Machine} (h : m.zf = true) :
    run (.ifNotZero :: rest) m = none := by
  show (if !m.zf then _ else none) = none
  rw [h]
  rfl

/-- The `ud2` is not reached if the call is not to be emulated, or is `clone`. -/
theorem fallThrough_none {m : Machine}
    (h : m.reg .rax = 0 ∨ m.gpFrame (m.reg .rbp + 8) .rax = 56) : run fallThrough m = none := by
  obtain ⟨fl, hx⟩ := applyAll_afterSyscallHandler m
  rw [run_fallThrough, hx]
  by_cases hzero : m.reg .rax = 0
  · refine run_ifNotZero ((getLsbD_setFlag _ _).trans ?_)
    rw [hzero]
    rfl
  · have hclone := h.resolve_left hzero
    have hskip : ∀ {rest : List Instr} {m : Machine}, run rest m = none →
        run (.ifNotZero :: rest) m = none := by
      intro rest m hrest
      show (if !m.zf then run rest m else none) = none
      rw [hrest]
      exact ite_self none
    refine hskip ?_
    refine run_ifNotZero ((getLsbD_setFlag _ _).trans ?_)
    exact beq_iff_eq.mpr hclone

/-! ## Calls that are refused -/

section
variable {env : SyscallEnv} {gprs : GpFrame} {e : Quad}

/-- A step of a memory handler that does not call the kernel. -/
abbrev QuietStep (env : SyscallEnv) (s : Sys) (e : Op) (r : Resp e) (s' : Sys) : Prop :=
  e.isKernelCall = false ∧
    s.perform { answer := 0, pool := env.pool, bytes := fun _ => 0 } e = some (r, s')

theorem withoutKernel_post {α : Type} {p : M α} {P : α → Prop} {a : α}
    (h : ∀ s, Post (QuietStep env) p (fun a _ => P a) s)
    (ha : env.withoutKernel p = some (some a)) : P a :=
  (h _).before ha

theorem post_kernelCall {c : KCall} {cid : Int} {Q : Resp (.wrapper c cid) → Sys → Prop} {s : Sys} :
    Post (QuietStep env) (perform (.wrapper c cid)) Q s :=
  post_call fun _ _ h => nomatch h.1

theorem post_withoutKernel {e : Op} {Q : Resp e → Sys → Prop} {s : Sys} (h : ∀ r s', Q r s') :
    Post (QuietStep env) (perform e) Q s :=
  post_call fun r s' _ => h r s'

theorem mapPages_post {start size : Nat} {prot : Prot} {fixed : Bool} {fd cid : Int}
    {Q : Int → Sys → Prop} {s : Sys} :
    Post (QuietStep env) (mapPages start size prot fixed fd cid) Q s :=
  post_ite (fun _ => post_seq.mpr post_kernelCall) (fun _ => post_kernelCall)

/-- Before it maps anything, `secpoline_mmap` has only one error. -/
theorem secpolineMmap_post {start size : Nat} {prot : Prot} {flags : Nat} {fd cid : Int} {s : Sys} :
    Post (QuietStep env) (secpolineMmap start size prot flags fd cid)
      (fun r _ => r = -EINVAL) s := by
  unfold secpolineMmap
  split
  · exact post_pure.mpr rfl
  · refine post_seq.mpr (post_require.mpr fun _ => ?_)
    refine post_ite (fun _ => post_pure.mpr rfl) (fun _ => ?_)
    have hfixed : ∀ b s, Post (QuietStep env) (checkFixed start size cid b)
        (fun _ _ => True) s := by
      intro b s
      exact post_invariant (fun _ _ _ _ _ _ => trivial) trivial
    refine post_seq.mpr ((hfixed _ s).mono fun allowed s' _ => ?_)
    refine post_ite (fun _ => post_pure.mpr rfl) (fun _ => ?_)
    exact post_seq.mpr mapPages_post

theorem moveMapping_post {start oldSize newSize flags newStart : Nat} {prot : Prot}
    {cid addFlags addCid : Int} {s : Sys} :
    Post (QuietStep env) (moveMapping start oldSize newSize flags newStart prot cid addFlags addCid)
      (fun r _ => r = toWord (-EINVAL) ∨ r = toWord (-EFAULT)) s := by
  have hforget : ∀ b s, Post (QuietStep env) (forgetOld start oldSize cid b) (fun _ _ => True) s :=
    fun b s => post_invariant (fun _ _ _ _ _ _ => trivial) trivial
  refine post_seq.mpr ((hforget _ s).mono fun gone s' _ => ?_)
  refine post_ite (fun _ => post_pure.mpr (.inr rfl)) (fun _ => ?_)
  exact post_seq.mpr post_kernelCall

/-- Before it moves anything, `handle_mremap` has two errors. -/
theorem handleMremap_post {start oldSize newSize flags newStart : Nat} {cid : Int} {s : Sys} :
    Post (QuietStep env) (handleMremap start oldSize newSize flags newStart cid)
      (fun r _ => r = toWord (-EINVAL) ∨ r = toWord (-EFAULT)) s := by
  have hinval : ∀ s, Post (QuietStep env) (pure (toWord (-EINVAL)))
      (fun r _ => r = toWord (-EINVAL) ∨ r = toWord (-EFAULT)) s := fun s => .inl rfl
  have hfault : ∀ s, Post (QuietStep env) (pure (toWord (-EFAULT)))
      (fun r _ => r = toWord (-EINVAL) ∨ r = toWord (-EFAULT)) s := fun s => .inr rfl
  rw [handleMremap_eq ⟨start, oldSize, newSize, flags, newStart⟩]
  refine post_ite (fun _ => hinval s) fun _ => post_ite (fun _ => ?_) (fun _ => ?_)
  · refine post_seq.mpr (post_withoutKernel fun g s' => ?_)
    split
    · exact hinval s'
    · refine post_seq.mpr (post_withoutKernel fun taken s' => post_ite (fun _ => hfault s')
        (fun _ => ?_))
      exact moveMapping_post
  · refine post_seq.mpr (post_withoutKernel fun r s' => post_ite (fun _ => ?_) (fun _ => ?_))
    · exact post_seq.mpr post_kernelCall
    · refine post_ite (fun _ => ?_) (fun _ => hfault s')
      refine post_seq.mpr (post_withoutKernel fun g s' => ?_)
      split
      · exact hinval s'
      · exact moveMapping_post

theorem mmapEarly_some (h : mmapEarly env gprs = some (some e)) : e = -22 := by
  obtain ⟨r, hr, he⟩ := Option.map_eq_some_iff.mp h
  obtain ⟨a, rfl, rfl⟩ := Option.map_eq_some_iff.mp he
  rw [withoutKernel_post (fun _ => secpolineMmap_post) hr]
  rfl

theorem munmapEarly_some (h : munmapEarly env gprs = some (some e)) : e = -22 := by
  obtain ⟨r, -, he⟩ := Option.map_eq_some_iff.mp h
  obtain ⟨a, -, rfl⟩ := Option.map_eq_some_iff.mp he
  rfl

theorem mremapEarly_some {prot : Prot} (h : mremapEarly env prot gprs = some (some e)) :
    e = -22 ∨ e = -14 := by
  unfold mremapEarly at h
  split at h
  · cases h
    exact .inl rfl
  · obtain ⟨r, hr, he⟩ := Option.map_eq_some_iff.mp h
    obtain ⟨a, rfl, rfl⟩ := Option.map_eq_some_iff.mp he
    rcases withoutKernel_post (fun _ => handleMremap_post) hr with rfl | rfl
    · exact .inl rfl
    · exact .inr rfl

/-- The monitor refuses the call with this number. -/
inductive Refuses (env : SyscallEnv) (gprs : GpFrame) : Nat → Prop where
  | notImplemented {n : Nat} (hn : n ∈ notImplementedCalls) : Refuses env gprs n
  | mprotect (h : lookupRange env.pages (gprs .rdi).toNat (gprs .rsi).toNat TS_APPLICATION =
      some none) : Refuses env gprs nrMprotect
  | mremapOutside (h : RemapsOutside env gprs) : Refuses env gprs nrMremap
  | mremap {rpage : VirtPage} {e : Quad}
      (hpage : lookupAddr env.pages (gprs .rdi).toNat TS_APPLICATION = some rpage)
      (h : mremapEarly env rpage.prot gprs = some (some e)) : Refuses env gprs nrMremap
  | mmap {e : Quad} (h : mmapEarly env gprs = some (some e)) : Refuses env gprs nrMmap
  | munmap {e : Quad} (h : munmapEarly env gprs = some (some e)) : Refuses env gprs nrMunmap
  | execve (h : env.refused = true) : Refuses env gprs nrExecve
  | open {n : Nat} (hn : n ∈ openCalls) (hfd : 0 ≤ env.result.toInt) (h : env.refused = true) :
      Refuses env gprs n
  | prctl {n : Nat} (hn : n ∈ prctlCalls) (h : gprs .rdi ∈ refusedPrctls) : Refuses env gprs n
  | rtSigprocmask (h : gprs .r10 ≠ 8) : Refuses env gprs nrRtSigprocmask

/-! ## What the handler returns -/

/-- A `clone` that makes a thread, or one that the parent waits for. -/
def IsEmulated (gprs : GpFrame) : Prop := (gprs .rax).toNat = nrClone ∧ ClonesThread gprs

/-- The handler has left the array `gprs'` and returned `ret`. -/
structure Answered (env : SyscallEnv) (gprs gprs' : GpFrame) (ret : Quad) : Prop where
  emulated : IsEmulated gprs → ret ≠ 0 ∧ (gprs' .rax).toNat = nrClone
  plain : ¬ IsEmulated gprs → ret = 0
  noTrap : ∀ m : Machine, m.reg .rax = ret → m.gpFrame (m.reg .rbp + 8) = gprs' →
    run fallThrough m = none
  refused : Refuses env gprs (gprs .rax).toNat → IsError (gprs' .rax).toInt

variable {gprs' : GpFrame} {ret : Quad}

theorem mprotect_refused (h : SyscallHandler.mprotect env gprs = some (gprs', ret))
    (hrange : lookupRange env.pages (gprs .rdi).toNat (gprs .rsi).toNat TS_APPLICATION =
      some none) : gprs' .rax = -22 := by
  rw [SyscallHandler.mprotect, hrange] at h
  cases h
  exact Function.update_self ..

theorem earlyHandler_rax {early : SyscallEnv → GpFrame → Option (Option Quad)}
    (h : earlyHandler early env gprs = some (gprs', ret)) (he : early env gprs = some (some e)) :
    gprs' .rax = e := by
  obtain ⟨e', he', rfl, -⟩ := earlyHandler_some h
  rw [he] at he'
  cases he'
  exact Function.update_self ..

theorem mremap_refused {rpage : VirtPage} (h : SyscallHandler.mremap env gprs = some (gprs', ret))
    (hpage : lookupAddr env.pages (gprs .rdi).toNat TS_APPLICATION = some rpage)
    (hin : ¬ RemapsOutside env gprs) (he : mremapEarly env rpage.prot gprs = some (some e)) :
    gprs' .rax = e := by
  rw [SyscallHandler.mremap, hpage] at h
  dsimp only at h
  split at h
  · rename_i hend
    refine absurd (fun rpage' hr => ?_) hin
    cases hpage.symm.trans hr
    exact hend
  · exact earlyHandler_rax h he

theorem mainHandler_notImplemented :
    ∀ n ∈ notImplementedCalls, mainHandler n = notImplemented := by
  repeat refine List.forall_mem_cons.mpr ⟨rfl, ?_⟩
  exact nofun

theorem mainHandler_open : ∀ n ∈ openCalls, mainHandler n = earlyHandler openEarly := by
  repeat refine List.forall_mem_cons.mpr ⟨rfl, ?_⟩
  exact nofun

theorem mainHandler_prctl : ∀ n ∈ prctlCalls, mainHandler n = earlyHandler archPrctlEarly := by
  repeat refine List.forall_mem_cons.mpr ⟨rfl, ?_⟩
  exact nofun

theorem prctlCalls_free : ∀ n ∈ prctlCalls, n ∉ fdUsers ∧ n ∉ fdUsersSecondArgument ∧
    n ∉ fdUsersFirstSecondArgument ∧ n ∉ fdUsersFirstThirdArgument := by decide

/-- The main handler of a refused call leaves an error number. -/
theorem refuses_error {n : Nat} {c : Quad}
    (h : mainHandler n env (denied env n gprs) = some (gprs', c)) (hr : Refuses env gprs n)
    (hin : n = nrMremap → ¬ RemapsOutside env gprs) : IsError (gprs' .rax).toInt := by
  cases hr with
  | notImplemented hn =>
      rw [mainHandler_notImplemented n hn] at h
      cases h
      rw [Function.update_self]
      decide
  | mprotect hrange =>
      rw [denied_eq_self (by decide) (by decide) (by decide) (by decide)] at h
      rw [mprotect_refused h hrange]
      decide
  | mremapOutside hout => exact absurd hout (hin rfl)
  | mremap hpage he =>
      rw [denied_eq_self (by decide) (by decide) (by decide) (by decide)] at h
      rw [mremap_refused h hpage (hin rfl) he]
      rcases mremapEarly_some he with rfl | rfl <;> decide
  | mmap he =>
      rw [denied_eq_self (by decide) (by decide) (by decide) (by decide)] at h
      rw [earlyHandler_rax h he, mmapEarly_some he]
      decide
  | munmap he =>
      rw [denied_eq_self (by decide) (by decide) (by decide) (by decide)] at h
      rw [earlyHandler_rax h he, munmapEarly_some he]
      decide
  | execve he =>
      have hexecve : earlyHandler execveEarly env _ = some (gprs', c) := h
      rw [earlyHandler_rax hexecve (congrArg some (if_pos he))]
      decide
  | «open» hn hfd he =>
      rw [mainHandler_open n hn] at h
      rw [earlyHandler_rax h (congrArg some (if_pos ⟨hfd, he⟩))]
      decide
  | prctl hn he =>
      obtain ⟨h₁, h₂, h₃, h₄⟩ := prctlCalls_free n hn
      rw [mainHandler_prctl n hn, denied_eq_self h₁ h₂ h₃ h₄] at h
      rw [earlyHandler_rax h (congrArg some (if_pos he))]
      decide
  | rtSigprocmask he =>
      rw [denied_eq_self (by decide) (by decide) (by decide) (by decide)] at h
      have hmask : earlyHandler rtSigprocmaskEarly env gprs = some (gprs', c) := h
      obtain ⟨e, hearly, rfl, -⟩ := earlyHandler_some hmask
      unfold rtSigprocmaskEarly at hearly
      rw [if_pos he] at hearly
      split at hearly
      · cases hearly
      · cases hearly
        rw [Function.update_self, Option.getD_some]
        decide

theorem mremap_outside (h : RemapsOutside env gprs) :
    SyscallHandler.mremap env gprs = some (gprs, -14) := by
  rw [SyscallHandler.mremap]
  split
  · rfl
  · rename_i rpage hpage
    exact if_pos (h rpage hpage)

/-- An `mremap` of a range that is not the application's is to be emulated. -/
theorem secpolineSyscallHandler_outside (hn : (gprs .rax).toNat = nrMremap)
    (h : RemapsOutside env gprs) : secpolineSyscallHandler env gprs = some (gprs, -14) := by
  rw [secpolineSyscallHandler, hn, if_pos (by decide), syscallHandlerList, runHandlers_prehandlers,
    denied_eq_self (by decide) (by decide) (by decide) (by decide), runHandlers]
  have hmain : mainHandler nrMremap env gprs = some (gprs, -14) := mremap_outside h
  rw [hmain]
  rfl

theorem fdCreators_clone : nrClone ∉ fdCreators := by decide

/-- The handler answers every call as it should if and only if it is not an `mremap`
of a range that is not inside one group of the application. -/
theorem syscallHandler_answers_iff (env : SyscallEnv) (gprs : GpFrame) :
    (∀ gprs' ret, secpolineSyscallHandler env gprs = some (gprs', ret) →
      Answered env gprs gprs' ret) ↔
      ((gprs .rax).toNat = nrMremap → ¬ RemapsOutside env gprs) := by
  refine ⟨fun h hn hout => ?_, fun hin gprs' ret h => ?_⟩
  · have hret := (h gprs (-14) (secpolineSyscallHandler_outside hn hout)).plain fun he =>
      absurd (hn.symm.trans he.1) (by decide)
    exact absurd hret (by decide)
  · obtain ⟨c, hmain, rfl⟩ := secpolineSyscallHandler_main h
    have hrefused := fun hr => refuses_error hmain hr hin
    by_cases hclone : (gprs .rax).toNat = nrClone
    · rw [hclone, denied_eq_self (by decide) (by decide) (by decide) (by decide)] at hmain
      rw [hclone, if_neg fdCreators_clone]
      cases mainHandler_leaves (by decide) hmain with
      | result v hno =>
          refine ⟨fun he => absurd he.2 (hno rfl), fun _ => rfl, fun m hm _ => ?_, hrefused⟩
          exact fallThrough_none (.inl hm)
      | emulated _ hyes =>
          refine ⟨fun _ => ⟨by decide, hclone⟩, fun he => absurd ⟨hclone, hyes⟩ he,
            fun m _ hm => fallThrough_none (.inr ?_), hrefused⟩
          rw [hm]
          exact BitVec.eq_of_toNat_eq hclone
      | unwritten hn => exact absurd hn (by decide)
    · -- no other call is emulated
      have hc : c = 0 := by
        by_cases hmprotect : (gprs .rax).toNat = nrMprotect
        · rw [hmprotect] at hmain
          exact (mprotect_cases hmain).1
        · cases mainHandler_leaves hmprotect hmain with
          | result => rfl
          | emulated hn => exact absurd hn hclone
          | unwritten hn hout =>
              rw [hn, denied_eq_self (by decide) (by decide) (by decide) (by decide)] at hout
              exact absurd hout (hin hn)
      rw [hc, ite_self]
      exact ⟨fun he => absurd he.1 hclone, fun _ => rfl,
        fun m hm _ => fallThrough_none (.inl hm), hrefused⟩

/-- `mremap` of a page at address 0, which nobody owns. -/
theorem syscallHandler_emulates_mremap :
    ¬ ∀ gprs' ret, secpolineSyscallHandler (readEnv .empty)
        (fun r => if r = .rax then 25 else 0) = some (gprs', ret) →
      Answered (readEnv .empty) (fun r => if r = .rax then 25 else 0) gprs' ret := by
  intro h
  have hout : secpolineSyscallHandler (readEnv .empty) (fun r => if r = .rax then 25 else 0) =
      some (fun r => if r = .rax then 25 else 0, -14) :=
    secpolineSyscallHandler_outside rfl nofun
  exact absurd ((h _ _ hout).plain nofun) (by decide)

end

end Secpoline
