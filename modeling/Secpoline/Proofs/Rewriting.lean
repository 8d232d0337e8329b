import Secpoline.Proofs.Scan
import Secpoline.Proofs.System

/-!
# Rewriting a system call creates nothing unsafe

`rewrite_syscall_inst` overwrites the two bytes of a `syscall` with those of
`call *%rax` and does not scan the page again. The argument is in the bytes: no
pattern of an unsafe instruction accepts one of the two new bytes at any of its
places, so a match after the rewrite does not contain them and was there before;
and no accepted guard contains the two old bytes, so it is still there afterwards.
`rewrite_test` and `bytesAt_rewrite` are these two halves.
-/

namespace Secpoline

open Lib

variable {s : Sys} {k x a : Nat} {whitelist : List Nat}

/-- The unsafe instructions that are neither allowed by name nor guarded. -/
def unguarded (m : Mem) (whitelist : List Nat) : Set Nat :=
  { a | ∃ ty, unsafeType m a = some ty ∧ nonBenign m whitelist a ty = true }

/-- Between the two contents of memory no unsafe instruction has come into being, at
whatever address, and no guard has gone. -/
structure CreatesNothing (m m' : Mem) : Prop where
  wrpkru : ∀ a, erimIsWRPKRU m' a = true → erimIsWRPKRU m a = true
  xrstor : ∀ a, erimIsXRSTOR m' a = true → erimIsXRSTOR m a = true
  wrgsbase32 : ∀ a, erimIsWRGSBASE32 m' a = true → erimIsWRGSBASE32 m a = true
  wrgsbase64 : ∀ a, erimIsWRGSBASE64 m' a = true → erimIsWRGSBASE64 m a = true
  benignWRPKRU : ∀ a, isBenignWRPKRU m a = true → isBenignWRPKRU m' a = true
  benignXRSTOR : ∀ a, isBenignXRSTOR m a = true → isBenignXRSTOR m' a = true
  unguarded : ∀ whitelist, unguarded m' whitelist ⊆ unguarded m whitelist

/-! ## Single bytes -/

/-- A byte is as it was, or it is one of the two that were `0F 05`. -/
theorem rewrite_byte (s : Sys) (k x : Nat) :
    (s.rewrite k).kern.mem x = s.kern.mem x ∨
      (s.kern.mem k = 0x0F ∧ s.kern.mem (k + 1) = 0x05 ∧
        ((x = k ∧ (s.rewrite k).kern.mem x = 0xFF) ∨
          (x = k + 1 ∧ (s.rewrite k).kern.mem x = 0xD0))) := by
  simp only [Sys.rewrite]
  split
  · next hk =>
      by_cases hx : x = k
      · simp [hx, hk]
      · by_cases hx' : x = k + 1
        · simp [hx', hk]
        · simp [hx, hx']
  · exact .inl rfl

/-- What is false of both new bytes was there before. -/
theorem rewrite_test {P : UInt8 → Prop} (hFF : ¬ P 0xFF) (hD0 : ¬ P 0xD0)
    (h : P ((s.rewrite k).kern.mem x)) : P (s.kern.mem x) := by
  obtain hsame | ⟨-, -, ⟨-, hnew⟩ | ⟨-, hnew⟩⟩ := rewrite_byte s k x
  · rw [← hsame]
    exact h
  · rw [hnew] at h
    exact absurd h hFF
  · rw [hnew] at h
    exact absurd h hD0

theorem rewrite_eq {b : UInt8} (hFF : b ≠ 0xFF) (hD0 : b ≠ 0xD0)
    (h : (s.rewrite k).kern.mem x = b) : s.kern.mem x = b :=
  rewrite_test (P := (· = b)) hFF.symm hD0.symm h

/-- A byte that is not one of `0F 05` is not touched. -/
theorem rewrite_keeps (h₅ : s.kern.mem x ≠ 0x05)
    (h₀ : s.kern.mem x = 0x0F → s.kern.mem (x + 1) ≠ 0x05) :
    (s.rewrite k).kern.mem x = s.kern.mem x := by
  obtain hsame | ⟨hk, hk', ⟨rfl, -⟩ | ⟨rfl, -⟩⟩ := rewrite_byte s k x
  · exact hsame
  · exact absurd hk' (h₀ hk)
  · exact absurd hk' h₅

/-! ## Patterns and guards -/

theorem erimIsWRPKRU_of_rewrite (h : erimIsWRPKRU (s.rewrite k).kern.mem a = true) :
    erimIsWRPKRU s.kern.mem a = true := by
  obtain ⟨h₀, h₁, h₂⟩ := erimIsWRPKRU_iff.mp h
  exact erimIsWRPKRU_iff.mpr ⟨rewrite_eq (by decide) (by decide) h₀,
    rewrite_eq (by decide) (by decide) h₁, rewrite_eq (by decide) (by decide) h₂⟩

/-- With either new byte as its operand the instruction would work on registers. -/
theorem erimIsXRSTOR_of_rewrite (h : erimIsXRSTOR (s.rewrite k).kern.mem a = true) :
    erimIsXRSTOR s.kern.mem a = true := by
  obtain ⟨h₀, h₁, h₂⟩ := erimIsXRSTOR_iff.mp h
  exact erimIsXRSTOR_iff.mpr ⟨rewrite_eq (by decide) (by decide) h₀,
    rewrite_eq (by decide) (by decide) h₁,
    rewrite_test (P := fun b => b &&& 0xC0 ≠ 0xC0 ∧ b &&& 0x38 = 0x28) (by decide) (by decide) h₂⟩

theorem erimIsWRGSBASE32_of_rewrite (h : erimIsWRGSBASE32 (s.rewrite k).kern.mem a = true) :
    erimIsWRGSBASE32 s.kern.mem a = true := by
  obtain ⟨h₀, h₁, h₂, h₃⟩ := erimIsWRGSBASE32_iff.mp h
  exact erimIsWRGSBASE32_iff.mpr ⟨rewrite_eq (by decide) (by decide) h₀,
    rewrite_eq (by decide) (by decide) h₁, rewrite_eq (by decide) (by decide) h₂,
    rewrite_test (P := fun b => b &&& 0xf8 = 0xd8) (by decide) (by decide) h₃⟩

theorem erimIsWRGSBASE64_of_rewrite (h : erimIsWRGSBASE64 (s.rewrite k).kern.mem a = true) :
    erimIsWRGSBASE64 s.kern.mem a = true := by
  obtain ⟨h₀, h₁, h₂, h₃, h₄⟩ := erimIsWRGSBASE64_iff.mp h
  exact erimIsWRGSBASE64_iff.mpr ⟨rewrite_eq (by decide) (by decide) h₀,
    rewrite_test (P := fun b => b &&& 0xf0 = 0x40) (by decide) (by decide) h₁,
    rewrite_eq (by decide) (by decide) h₂, rewrite_eq (by decide) (by decide) h₃,
    rewrite_test (P := fun b => b &&& 0xf8 = 0xd8) (by decide) (by decide) h₄⟩

/-- A sequence without `05` that does not end in `0F` stays. -/
theorem bytesAt_rewrite {l : List UInt8} (h₅ : 0x05 ∉ l) (hlast : l.getLast? ≠ some 0x0F)
    (h : bytesAt s.kern.mem a l = true) : bytesAt (s.rewrite k).kern.mem a l = true := by
  induction l generalizing a with
  | nil => rfl
  | cons b rest ih =>
      simp only [bytesAt, Bool.and_eq_true, beq_iff_eq] at h ⊢
      obtain ⟨rfl, hrest⟩ := h
      simp only [List.mem_cons, not_or] at h₅
      refine ⟨rewrite_keeps (Ne.symm h₅.1) ?_, ih h₅.2 ?_ hrest⟩
      · intro h₀
        cases rest with
        | nil => exact absurd (by simp [h₀]) hlast
        | cons c rest =>
            simp only [bytesAt, Bool.and_eq_true, beq_iff_eq] at hrest
            rw [hrest.1]
            intro hc
            exact h₅.2 (by simp [hc])
      · cases rest with
        | nil => simp
        | cons c rest => simpa using hlast

theorem isBenignWRPKRU_rewrite (h : isBenignWRPKRU s.kern.mem a = true) :
    isBenignWRPKRU (s.rewrite k).kern.mem a = true := by
  rcases isBenignWRPKRU_iff.mp h with h | h
  · exact isBenignWRPKRU_iff.mpr (.inl (bytesAt_rewrite (by decide) (by decide) h))
  · exact isBenignWRPKRU_iff.mpr (.inr (bytesAt_rewrite (by decide) (by decide) h))

theorem isBenignXRSTOR_rewrite (h : isBenignXRSTOR s.kern.mem a = true) :
    isBenignXRSTOR (s.rewrite k).kern.mem a = true := by
  obtain ⟨hx, hguard⟩ := isBenignXRSTOR_iff.mp h
  obtain ⟨h₀, h₁, h₂, h₃⟩ := erimIsXRSTOR_iff.mp hx
  have hopcode : bytesAt (s.rewrite k).kern.mem a [0x0f, 0xae] = true :=
    bytesAt_rewrite (by decide) (by decide) (by simp [bytesAt, h₀, h₁])
  simp only [bytesAt, Bool.and_eq_true, beq_iff_eq] at hopcode
  have hmodrm : (s.rewrite k).kern.mem (a + 2) = s.kern.mem (a + 2) :=
    rewrite_keeps (masked_ne h₃ (by decide)) fun h => absurd h (masked_ne h₃ (by decide))
  refine isBenignXRSTOR_iff.mpr ⟨erimIsXRSTOR_iff.mpr ⟨hopcode.1, hopcode.2.1, ?_⟩,
    bytesAt_rewrite (by decide) (by decide) hguard⟩
  rw [hmodrm]
  exact ⟨h₂, h₃⟩

theorem unguarded_rewrite :
    unguarded (s.rewrite k).kern.mem whitelist ⊆ unguarded s.kern.mem whitelist := by
  rintro a ⟨ty, hty, hbad⟩
  cases ty with
  | wrpkru =>
      refine ⟨.wrpkru, unsafeType_wrpkru.mpr (erimIsWRPKRU_of_rewrite (unsafeType_wrpkru.mp hty)),
        ?_⟩
      simp only [nonBenign, Bool.not_eq_true', Bool.or_eq_false_iff] at hbad ⊢
      refine ⟨hbad.1, ?_⟩
      rw [Bool.eq_false_iff]
      intro h
      exact Bool.false_ne_true (hbad.2.symm.trans (isBenignWRPKRU_rewrite h))
  | xrstor =>
      refine ⟨.xrstor, unsafeType_xrstor.mpr (erimIsXRSTOR_of_rewrite (unsafeType_xrstor.mp hty)),
        ?_⟩
      simp only [nonBenign, Bool.not_eq_true'] at hbad ⊢
      rw [Bool.eq_false_iff]
      intro h
      exact Bool.false_ne_true (hbad.symm.trans (isBenignXRSTOR_rewrite h))
  | wrgsbase =>
      refine ⟨.wrgsbase, unsafeType_wrgsbase.mpr ?_, rfl⟩
      rcases unsafeType_wrgsbase.mp hty with h | h
      · exact .inl (erimIsWRGSBASE32_of_rewrite h)
      · exact .inr (erimIsWRGSBASE64_of_rewrite h)

theorem Sys.rewrite_creates (s : Sys) (k : Nat) :
    CreatesNothing s.kern.mem (s.rewrite k).kern.mem where
  wrpkru := fun _ h => erimIsWRPKRU_of_rewrite h
  xrstor := fun _ h => erimIsXRSTOR_of_rewrite h
  wrgsbase32 := fun _ h => erimIsWRGSBASE32_of_rewrite h
  wrgsbase64 := fun _ h => erimIsWRGSBASE64_of_rewrite h
  benignWRPKRU := fun _ h => isBenignWRPKRU_rewrite h
  benignXRSTOR := fun _ h => isBenignXRSTOR_rewrite h
  unguarded := fun _ => unguarded_rewrite

/-! ## The rewrite -/

/-- Where there is a `syscall` it becomes `call *%rax`, everything else stays, and
nothing unsafe comes of it. -/
theorem rewrite_creates_nothing_unsafe (s : Sys) (k : Nat) :
    (s.kern.mem k = 0x0F ∧ s.kern.mem (k + 1) = 0x05 →
      (s.rewrite k).kern.mem k = 0xFF ∧ (s.rewrite k).kern.mem (k + 1) = 0xD0) ∧
    (∀ x, x ≠ k → x ≠ k + 1 → (s.rewrite k).kern.mem x = s.kern.mem x) ∧
    CreatesNothing s.kern.mem (s.rewrite k).kern.mem := by
  refine ⟨fun hk => ?_, fun x hx hx' => ?_, s.rewrite_creates k⟩
  · simp [Sys.rewrite, hk]
  · obtain hsame | ⟨-, -, ⟨h, -⟩ | ⟨h, -⟩⟩ := rewrite_byte s k x
    · exact hsame
    · exact absurd h hx
    · exact absurd h hx'

/-! ## All of rewrite_syscall_inst -/

/-- The instruction's page alone is protected otherwise: it is not writable any more, and
it has the given key. -/
structure Rewritten (k key : Nat) (s s' : Sys) : Prop where
  creates : CreatesNothing s.kern.mem s'.kern.mem
  page : s'.kern.pages (k / 4096) = some { prot := PROT_READ ||| PROT_EXEC, key }
  others : ∀ p, p ≠ k / 4096 → s'.kern.pages p = s.kern.pages p

theorem rewrite_pages : (s.rewrite k).kern.pages = s.kern.pages := by
  unfold Sys.rewrite
  split <;> rfl

theorem Kern.protect_page {kern : Kern} {page key : Nat} {prot : Prot}
    (h : (kern.pages page).isSome = true) :
    (kern.protect (page * 4096) 4096 prot (some key)).pages page = some { prot, key } := by
  obtain ⟨g, hg⟩ := Option.isSome_iff_exists.mp h
  have hin : inPages (page * 4096) 4096 page = true := inPages_page.mpr (by omega)
  refine (if_pos hin).trans ?_
  rw [hg]
  rfl

theorem Kern.protect_other {kern : Kern} {page p key : Nat} {prot : Prot} (h : p ≠ page) :
    (kern.protect (page * 4096) 4096 prot (some key)).pages p = kern.pages p := by
  refine if_neg fun hin => h ?_
  rw [inPages_page.mp hin]
  omega

theorem post_pkeyMprotect {page key : Nat} {prot : Prot} {Q : Unit → Sys → Prop}
    (hQ : (s.kern.pages page).isSome = true →
      Q () { s with kern := s.kern.protect (page * 4096) 4096 prot (some key) }) :
    Prog.Post Sys.Step
      (expectZero (perform (.inline (.mprotect (page * 4096) 4096 prot (some key))))) Q s := by
  refine post_expectZero.mpr (Prog.post_call fun r t hstep hr => ?_)
  obtain ⟨kern, happly, rfl⟩ := Sys.step_inline.mp hstep
  obtain ⟨herror, -⟩ | ⟨-, -, hmapped, rfl⟩ := Kern.apply_mprotect_cases happly
  · rw [hr] at herror
    exact absurd herror not_isError_zero
  · refine hQ (hmapped _ ?_)
    simp [pagesOf, pageCount]

/-- Every run of `rewrite_syscall_inst` that returns leaves the page of the instruction
executable and not writable, with the key of its compartment, and creates nothing unsafe. -/
theorem rewriteSyscallInst_creates {cid : Int} :
    Prog.Post Sys.Step (rewriteSyscallInst k cid)
      (fun _ => Rewritten k (if cid = TS_APPLICATION then UNTRUSTED_MPKEY else SECPOLINE_MPKEY) s)
      s := by
  have rest : Prog.Post Sys.Step (do
      expectZero (perform (.inline (.mprotect (k / 4096 * 4096) 4096
        (PROT_READ ||| PROT_WRITE ||| PROT_EXEC) (some SECPOLINE_MPKEY))))
      perform (.rewriteSyscall k)
      expectZero (perform (.inline (.mprotect (k / 4096 * 4096) 4096 (PROT_READ ||| PROT_EXEC)
        (some (if cid = TS_APPLICATION then UNTRUSTED_MPKEY else SECPOLINE_MPKEY))))))
      (fun _ => Rewritten k (if cid = TS_APPLICATION then UNTRUSTED_MPKEY else SECPOLINE_MPKEY) s)
      s := by
    simp only [Prog.post_seq]
    refine post_pkeyMprotect fun _ => Prog.post_call fun _ s₂ hstep => ?_
    obtain ⟨o, ho⟩ := hstep
    cases ho
    refine post_pkeyMprotect fun hsome => ⟨?_, Kern.protect_page hsome, fun p hp => ?_⟩
    · exact Sys.rewrite_creates { s with kern := s.kern.protect _ _ _ _ } k
    · rw [Kern.protect_other hp, rewrite_pages, Kern.protect_other hp]
  unfold rewriteSyscallInst
  rw [Prog.post_seq, Prog.post_whenever]
  refine ⟨fun _ => Prog.post_call fun _ s' hstep => ?_, fun _ => rest⟩
  obtain ⟨o, ho⟩ := hstep
  simp only [Sys.perform] at ho
  split at ho
  · cases ho
    exact rest
  · cases ho

end Secpoline
