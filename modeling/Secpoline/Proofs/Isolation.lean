import Secpoline.Proofs.IsolationSteps
import Secpoline.Proofs.Knowing
import Secpoline.Proofs.PageRuns

/-!
# Calls for the application and pages of the monitor: programs and runs

Each handler asks only for what it knows: its own check has told it that the range
is the application's, or the page manager has just taken the range away or added
it. The loops that scan executable memory stay inside the range they are given.
-/

namespace Secpoline

open Lib

/-! ## The rules of a job -/

abbrev Job.rules (l : Job) : Rules where
  possible := Op.Possible
  asks := l.Asks
  after := l.after

section
variable {l : Job} {known : Nat → Prop}

theorem Job.le_after {e : Op} {r : Resp e} : known ≤ l.after known e r := fun _ => .inl

/-- An operation that asks for nothing. -/
theorem Job.quiet {e : Op} (h : ∀ known r, l.Asks known e r) : l.rules.Quiet e :=
  fun known r => ⟨h known r, Job.le_after⟩

/-- The page across a boundary has just been seen to hold an instruction, and is
not the monitor's. -/
theorem Job.asksNeighbour {page : Nat} {prot : Prot} {cid r : Int}
    (h : l.mapsForMonitor = false → known (page / 4096)) :
    l.Asks known (.wrapper (.mprotect page 4096 prot none) cid) r := by
  intro happ _ p hp
  rw [inPages_page.mp hp]
  exact h (Job.not_mapsForMonitor happ)

theorem Job.scans (l : Job) : l.rules.Scans where
  looks e he := by
    refine Job.quiet fun known r => ?_
    cases e <;> trivial
  prev {_ _ _ _ _ _ _ prot cid _} hfound hle :=
    @Job.asksNeighbour l _ _ prot cid _ fun hl => hle _ (.inr (by
      rw [hl, if_neg Bool.false_ne_true]
      exact ⟨hfound, rfl⟩))
  next {_ _ _ _ _ _ prot cid _} hfound hle :=
    @Job.asksNeighbour l _ _ prot cid _ fun hl => hle _ (.inr (by
      rw [hl, if_neg Bool.false_ne_true]
      exact ⟨hfound, rfl⟩))
  protects := Job.le_after

end

/-! ## Executable mappings -/

section
variable {l : Job} {known : Nat → Prop} {start n : Nat} {prot : Prot}

theorem addGroup_parts {size : Nat} {flags cid : Int} {mapFixed : Bool} {key : Nat}
    (hspace : InUserSpace start size) (hcid : cid = l.cid)
    (hmapped : l.mapsForMonitor = true → ∀ p, inPages start size p = true → known p) :
    l.rules.Parts known start (pageCount size) fun start size prot =>
      addGroup start size prot flags cid mapFixed key := by
  intro j m prot known' hle hm hjm
  have hstart := hspace.1
  have hstop : start + 4096 * j + 4096 * m < 2 ^ 64 := by
    unfold InUserSpace taskSize at hspace
    omega
  unfold addGroup
  rw [sure_seq]
  refine sure_expectZero (sure_call fun r _ => ⟨⟨by omega, by omega, hstop, hcid, ?_⟩,
    fun hr => ?_⟩)
  · intro hl p hp
    rw [inPages_group hstart] at hp
    exact hle p (hmapped hl p (inPages_iff.mpr (by omega)))
  refine sure_expectZero (sure_call fun _ _ => ⟨fun happ _ p hp => .inr ?_, fun _ => ?_⟩)
  · have hl := Job.not_mapsForMonitor happ
    rw [hl, if_neg Bool.false_ne_true]
    rw [Job.cid, hl, if_neg Bool.false_ne_true] at hcid
    exact ⟨hr, hcid, by omega, hp⟩
  · exact le_trans Job.le_after Job.le_after

theorem protectGroup_parts (hl : l.mapsForMonitor = false)
    (hknown : start % 4096 = 0 → ∀ i < n, known (start / 4096 + i)) :
    l.rules.Parts known start n fun start size prot =>
      protectGroup start size prot TS_APPLICATION := by
  intro j m prot known' hle hm hjm
  unfold protectGroup
  rw [sure_seq]
  refine sure_expectZero (sure_call fun r hr => ?_)
  -- only an aligned range in user space can be protected
  have hspace : 0 ≤ r → InUserSpace (start + 4096 * j) (4096 * m) := fun hnonneg =>
    (hr.resolve_left fun herr => absurd hnonneg (Int.not_le.mpr herr.2)).2
  refine ⟨fun _ hnonneg p hp => hle p ?_, fun hzero => ?_⟩
  · have hstart : start % 4096 = 0 := by
      have halign := (hspace hnonneg).1
      omega
    rw [inPages_group hstart] at hp
    have hat := hknown hstart (p - start / 4096) (by omega)
    rw [Nat.add_sub_cancel' (by omega)] at hat
    exact hat
  · have hstop := (hspace (Int.le_of_eq hzero.symm)).stop_lt
    refine sure_expectZero (sure_call fun _ _ => ⟨⟨hl, rfl, by omega⟩, fun _ => ?_⟩)
    exact le_trans Job.le_after Job.le_after

theorem scanExecMappingMprotect_sure {size : Nat} {unsafeProt : Prot} {allowList : List Nat}
    (hl : l.mapsForMonitor = false)
    (hknown : start % 4096 = 0 → ∀ i < pageTurns start size, known (start / 4096 + i)) :
    l.rules.Sure (scanExecMappingMprotect start size prot unsafeProt TS_APPLICATION allowList)
      (fun _ known' => known ≤ known') known :=
  scanExecMappingMprotect_parts l.scans (protectGroup_parts hl hknown)

end

/-! ## Handlers -/

section
variable {l : Job} {known : Nat → Prop} {start size : Nat} {prot : Prot}

theorem checkFixed_plain {cid : Int} {fixed : Bool} :
    l.rules.Plain (checkFixed start size cid fixed) := by
  cases fixed with
  | false => exact plain_pure
  | true =>
      refine plain_seq (plain_call (Job.quiet fun _ _ => trivial)) fun multithreaded =>
        plain_ite ?_ ?_
      · exact plain_call (Job.quiet fun _ _ => trivial)
      · exact plain_seq (plain_call (Job.quiet fun _ _ => trivial)) fun _ => plain_pure

/-- The mapping lies in user space if it was made, and then a job of the monitor
knows that it is mapped. -/
def Job.Mapped (l : Job) (size : Nat) (r : Int) (known : Nat → Prop) : Prop :=
  0 < r → InUserSpace r.toNat size ∧
    (l.mapsForMonitor = true → ∀ p, inPages r.toNat size p = true → known p)

theorem mmapCall_sure {fixed : Bool} :
    l.rules.Sure (perform (.wrapper (.mmap start size prot fixed) cid)) (l.Mapped size) known := by
  refine sure_call fun r hr => ⟨trivial, fun hpos => ?_⟩
  rcases hr with herr | ⟨hnonneg, hspace, _⟩
  · exact absurd hpos (Int.not_lt.mpr (Int.le_of_lt herr.2))
  · refine ⟨hspace, fun hl p hp => .inr ?_⟩
    rw [if_pos hl]
    exact ⟨hnonneg, hp⟩

theorem mapPages_sure {fixed : Bool} {fd cid : Int} :
    l.rules.Sure (mapPages start size prot fixed fd cid) (l.Mapped size) known := by
  unfold mapPages
  refine sure_ite (fun _ => ?_) (fun _ => mmapCall_sure)
  unfold mapFileBaked
  rw [sure_seq]
  refine mmapCall_sure.mono fun r known₁ h₁ => sure_ite (fun _ => h₁) (fun _ => ?_)
  rw [sure_seq]
  refine sure_quiet (Job.quiet fun _ _ => trivial) fun _ known₂ h₂ hpos => ?_
  exact ⟨(h₁ hpos).1, fun hl p hp => h₂ p ((h₁ hpos).2 hl p hp)⟩

theorem tagMapping_sure {flags key : Nat} {fixed : Bool} {cid : Int}
    (hspace : InUserSpace start size)
    (hpos : 0 < size) (hsize : size % 4096 = 0) (hcid : cid = l.cid)
    (hmapped : l.mapsForMonitor = true → ∀ p, inPages start size p = true → known p) :
    l.rules.Sure (tagMapping start size prot flags fixed cid key) (fun _ _ => True) known := by
  unfold tagMapping
  refine sure_ite (fun _ => ?_) (fun _ => ?_)
  · exact (scanExecMapping_sure l.scans hspace fun _ => addGroup_parts hspace hcid hmapped).mono
      fun _ _ _ => trivial
  rw [sure_seq]
  refine sure_expectZero (sure_call fun r _ => ⟨⟨hpos, hsize, hspace.stop_lt, hcid, hmapped⟩, ?_⟩)
  intro hr
  rw [sure_seq]
  refine sure_expectZero (sure_call fun _ _ => ⟨fun happ _ p hp => .inr ?_, fun _ => ?_⟩)
  · have hl := Job.not_mapsForMonitor happ
    rw [hl, if_neg Bool.false_ne_true]
    rw [Job.cid, hl, if_neg Bool.false_ne_true] at hcid
    exact ⟨hr, hcid, hsize, hp⟩
  · exact (plain_whenever (markUnsafe_plain l.scans)).sure fun _ _ _ => trivial

/-- `secpoline_mmap` for the compartment that the job is done for. -/
theorem secpolineMmap_sure {flags : Nat} {fd cid : Int} (hsize : size % 4096 = 0)
    (hcid : cid = l.cid) :
    l.rules.Sure (secpolineMmap start size prot flags fd cid) (fun _ _ => True) known := by
  unfold secpolineMmap
  cases getPkey cid with
  | none => trivial
  | some key =>
      dsimp only
      rw [sure_seq]
      refine sure_require.mpr fun _ => sure_ite (fun _ => trivial) (fun hc => ?_)
      rw [sure_seq]
      refine checkFixed_plain.sure fun allowed known₁ _ => sure_ite (fun _ => trivial) (fun _ => ?_)
      rw [sure_seq]
      refine mapPages_sure.mono fun r known₂ h₂ => sure_ite (fun _ => trivial) (fun hr => ?_)
      obtain ⟨hspace, hmapped⟩ := h₂ (Int.not_le.mp hr)
      rw [sure_seq, toWord_of_nonneg (Int.le_of_lt (Int.not_le.mp hr)) hspace.lt]
      exact (tagMapping_sure hspace (by omega) hsize hcid hmapped).mono fun _ _ _ => trivial

/-- `remove_page` and the call to `munmap` after it, by one of the two ways to call
the kernel. -/
theorem munmap_sure {e : Op} {cid : Int} {start size : Nat}
    (he : e = .wrapper (.munmap start size) cid ∨ e = .inline (.munmap start size))
    (hl : l.mapsForMonitor = false)
    (hcid : cid = TS_APPLICATION ∨ cid = TS_MONITOR) {r : Int} (hr : r ≠ -1) :
    l.rules.Sure (perform e) (fun _ _ => True)
      (l.after known (.removePage start size cid) r) := by
  have hasks : ∀ a : Int, IsError a ∨ KCall.Possible a (.munmap start size) →
      l.AsksCall (l.after known (.removePage start size cid) r) a (.munmap start size) := by
    intro a ha
    refine ⟨hl, fun hnonneg p hp => .inr ?_⟩
    rw [hl, if_neg Bool.false_ne_true]
    rcases ha with herr | ⟨_, hspace⟩
    · exact absurd hnonneg (Int.not_le.mpr herr.2)
    · exact ⟨hr, hcid, hspace, hp⟩
  rcases he with rfl | rfl <;> exact sure_call fun a ha => ⟨hasks a ha, trivial⟩

theorem syscallHandlerMunmap_sure {start size : UInt64} (hl : l.mapsForMonitor = false) :
    l.rules.Sure (syscallHandlerMunmap start size) (fun _ _ => True) known := by
  unfold syscallHandlerMunmap
  rw [sure_seq]
  refine sure_call fun r _ => ⟨hl, sure_whenever.mpr ⟨fun hr => ?_, fun _ => trivial⟩⟩
  rw [sure_seq]
  exact (munmap_sure (.inl rfl) hl (.inl rfl) hr).mono fun _ _ _ => trivial

theorem metaMonitorMunmap_sure {start size : UInt64} (hl : l.mapsForMonitor = false) :
    l.rules.Sure (metaMonitorMunmap start size) (fun _ _ => True) known := by
  unfold metaMonitorMunmap
  rw [sure_seq]
  refine sure_call fun r _ => ⟨hl, sure_whenever.mpr ⟨fun hr => ?_, fun _ => trivial⟩⟩
  rw [sure_seq]
  exact (munmap_sure (.inr rfl) hl (.inr rfl) hr).mono fun _ _ _ => trivial

/-- A call to `mprotect` for a range of which the thread has found out that it is
the application's, if it can be a range at all. -/
theorem mprotectCall_sure {Q : Int → (Nat → Prop) → Prop}
    (hknown : InUserSpace start size → ∀ p, inPages start size p = true → known p)
    (hQ : ∀ r known', known ≤ known' → (0 ≤ r → InUserSpace start size) → Q r known') :
    l.rules.Sure (perform (.wrapper (.mprotect start size prot none) cid)) Q known := by
  refine sure_call fun r hr => ?_
  have hspace : 0 ≤ r → InUserSpace start size := fun hnonneg =>
    (hr.resolve_left fun herr => absurd hnonneg (Int.not_le.mpr herr.2)).2
  exact ⟨fun _ hnonneg => hknown (hspace hnonneg), hQ r _ Job.le_after hspace⟩

/-- The pages of a known range, as the loops count them. -/
theorem known_turns (hspace : InUserSpace start size)
    (h : ∀ p, inPages start size p = true → known p) :
    ∀ i < pageTurns start size, known (start / 4096 + i) := by
  intro i hi
  rw [pageTurns_eq hspace] at hi
  exact h _ (inPages_iff.mpr (by omega))

theorem syscallHandlerMprotect_sure {start size prot : UInt64} (hl : l.mapsForMonitor = false) :
    l.rules.Sure (syscallHandlerMprotect start size prot) (fun _ _ => True) known := by
  unfold syscallHandlerMprotect
  dsimp only
  rw [sure_seq]
  refine sure_call fun owned _ => ⟨trivial, sure_ite (fun _ => trivial) (fun howned => ?_)⟩
  rw [sure_seq]
  refine sure_require.mpr fun _ => ?_
  have hrange : InUserSpace start.toNat size.toNat →
      ∀ p, inPages start.toNat size.toNat p = true →
        l.after known (.lookupRange start.toNat size.toNat TS_APPLICATION) owned p := by
    intro hspace p hp
    refine .inr ?_
    rw [hl, if_neg Bool.false_ne_true]
    exact ⟨Decidable.not_not.mp howned, rfl, hspace, hp⟩
  have hupdate : ∀ {prot : Prot} {known : Nat → Prop} {Q : Unit → (Nat → Prop) → Prop},
      (∀ known', Q () known') → l.rules.Sure
        (expectZero (perform (.updateMprotect start.toNat size.toNat prot TS_APPLICATION))) Q
          known :=
    fun hQ => sure_expectZero (sure_call fun _ _ => ⟨⟨hl, rfl, size.toNat_lt⟩, fun _ => hQ _⟩)
  refine sure_ite (fun _ => ?_) (fun _ => sure_ite (fun _ => ?_) (fun _ => ?_))
  · rw [sure_seq]
    refine mprotectCall_sure hrange fun r known₁ _ _ => ?_
    refine sure_whenever.mpr ⟨fun _ => ?_, fun _ => trivial⟩
    rw [sure_seq]
    exact hupdate fun known₂ => (markUnsafe_plain l.scans).sure fun _ _ _ => trivial
  · rw [sure_seq]
    refine mprotectCall_sure hrange fun r known₁ h₁ hspace => ?_
    refine sure_whenever.mpr ⟨fun hr => ?_, fun _ => trivial⟩
    have hknown := known_turns (hspace hr) fun p hp => h₁ p (hrange (hspace hr) p hp)
    exact (scanExecMappingMprotect_sure hl fun _ => hknown).mono fun _ _ _ => trivial
  · rw [sure_seq]
    exact mprotectCall_sure hrange fun r known₁ _ _ => hupdate fun _ => trivial

/-! ### mremap -/

/-- An address and a size that `handle_mremap` has returned: the pages there are not
the monitor's, unless the address is an error number. -/
def Result (newSize res : Nat) (known : Nat → Prop) : Prop :=
  res % 4096 = 0 → ∀ i < pageTurns res newSize, known (res / 4096 + i)

theorem result_error {newSize : Nat} {e : Int} (h : e = EINVAL ∨ e = EFAULT) :
    Result newSize (toWord (-e)) known := by
  intro halign
  rcases h with rfl | rfl <;> exact absurd halign (by decide)

theorem toWord_aligned {r : Int} (h : toWord r % 4096 = 0) : ¬ IsError r := by
  intro herr
  unfold IsError at herr
  unfold toWord at h
  omega

section
variable {oldSize newSize : Nat} (hl : l.mapsForMonitor = false)
  (hold : InUserSpace start oldSize → ∀ p, inPages start oldSize p = true → known p)
include hl hold

theorem mremapCall_sure {mayMove dontUnmap : Bool} {newStart : Nat} {Q : Int → (Nat → Prop) → Prop}
    (hQ : ∀ r known', known ≤ known' → (¬ IsError r → 0 ≤ r ∧ InUserSpace r.toNat newSize ∧
      ∀ p, inPages r.toNat newSize p = true → known' p) → Q r known') :
    l.rules.Sure
      (perform (.wrapper (.mremap start oldSize newSize mayMove false dontUnmap newStart) cid)) Q
      known := by
  refine sure_call fun r hr => ⟨⟨hl, rfl, fun hnonneg => ?_⟩, hQ r _ Job.le_after fun hok => ?_⟩
  · exact hold (hr.resolve_left fun herr => absurd hnonneg (Int.not_le.mpr herr.2)).2.1
  · obtain ⟨hnonneg, _, hspace⟩ := hr.resolve_left hok
    refine ⟨hnonneg, hspace, fun p hp => .inr ?_⟩
    rw [hl, if_neg Bool.false_ne_true]
    exact ⟨hnonneg, hp⟩

/-- The call after `update_size`. -/
theorem resize_sure {mayMove dontUnmap : Bool} (hstart : start % 4096 = 0) :
    l.rules.Sure (do
      let r ← perform (.wrapper (.mremap start oldSize newSize mayMove false dontUnmap 0) cid)
      Prog.require (toWord r = start)
      pure start) (fun res known' => known ≤ known' ∧ Result newSize res known') known := by
  rw [sure_seq]
  refine mremapCall_sure hl hold fun r known₁ h₁ hr => ?_
  rw [sure_seq]
  refine sure_require.mpr fun hplace => ⟨h₁, fun _ => ?_⟩
  obtain ⟨hnonneg, hspace, hknown⟩ := hr (toWord_aligned (hplace ▸ hstart))
  rw [toWord_of_nonneg hnonneg hspace.lt] at hplace
  subst hplace
  exact known_turns hspace hknown

theorem moveMapping_sure {flags : Nat} {prot : Prot} {addFlags : Int}
    (hfixed : hasFlag flags MREMAP_FIXED = false) (hpos : 0 < newSize)
    (hsize : newSize % 4096 = 0) :
    l.rules.Sure (moveMapping start oldSize newSize flags 0 prot TS_APPLICATION addFlags
      TS_APPLICATION)
      (fun res known' => known ≤ known' ∧ Result newSize res known') known := by
  have hforget : l.rules.Plain
      (forgetOld start oldSize TS_APPLICATION (hasFlag flags MREMAP_DONTUNMAP)) := by
    cases hasFlag flags MREMAP_DONTUNMAP with
    | false => exact plain_seq (plain_call (Job.quiet fun _ _ => hl)) fun _ => plain_pure
    | true => exact plain_call (Job.quiet fun _ _ => trivial)
  unfold moveMapping
  rw [sure_seq]
  refine hforget.sure fun gone known₁ h₁ => sure_ite (fun _ => ?_) (fun _ => ?_)
  · exact ⟨h₁, result_error (.inr rfl)⟩
  rw [sure_seq, hfixed]
  refine mremapCall_sure hl (fun hspace p hp => h₁ p (hold hspace p hp)) fun r known₂ h₂ hr => ?_
  rw [sure_seq]
  refine sure_require.mpr fun _ => ?_
  rw [sure_seq]
  refine sure_expectZero (sure_call fun a halign => ?_)
  obtain ⟨hnonneg, hspace, hknown⟩ := hr (toWord_aligned halign)
  have hword := toWord_of_nonneg hnonneg hspace.lt
  refine ⟨⟨hpos, hsize, ?_, ?_, fun hf => ?_⟩, fun _ => ⟨?_, fun _ => ?_⟩⟩
  · rw [hword]
    exact hspace.stop_lt
  · rw [Job.cid, hl, if_neg Bool.false_ne_true]
  · cases hl.symm.trans hf
  · exact le_trans (le_trans h₁ h₂) Job.le_after
  · rw [hword]
    exact known_turns hspace fun p hp => Job.le_after p (hknown p hp)

theorem handleMremap_sure {flags newStart : Nat}
    (hfixed : hasFlag flags MREMAP_FIXED = false) :
    l.rules.Sure (handleMremap start oldSize newSize flags newStart TS_APPLICATION)
      (fun res known' => known ≤ known' ∧ Result newSize res known') known := by
  have einval : ∀ {known' : Nat → Prop}, known ≤ known' →
      known ≤ known' ∧ Result newSize (toWord (-EINVAL)) known' :=
    fun h => ⟨h, result_error (.inl rfl)⟩
  have efault : ∀ {known' : Nat → Prop}, known ≤ known' →
      known ≤ known' ∧ Result newSize (toWord (-EFAULT)) known' :=
    fun h => ⟨h, result_error (.inr rfl)⟩
  rw [handleMremap_eq ⟨start, oldSize, newSize, flags, newStart⟩]
  refine sure_ite (fun _ => einval (le_refl _)) fun hp =>
    sure_ite (fun hc => absurd hc (by simp [hfixed])) fun _ => ?_
  obtain ⟨-, hnew, hstart, -, -, hpages, -⟩ := not_not.mp hp
  rw [MremapArgs.resizeOrMove, sure_seq]
  refine sure_quiet (Job.quiet fun _ _ => ⟨hl, rfl, hnew⟩) fun r known₁ h₁ =>
    sure_ite (fun _ => ?_) fun _ => sure_ite (fun _ => ?_) fun _ => efault h₁
  · refine (resize_sure hl (fun hspace p hp => h₁ p (hold hspace p hp)) hstart).mono ?_
    exact fun res known₂ h₂ => ⟨le_trans h₁ h₂.1, h₂.2⟩
  · rw [sure_seq]
    refine sure_quiet (Job.quiet fun _ _ => trivial) fun g known₂ h₂ => ?_
    have h₂ := le_trans h₁ h₂
    cases g with
    | none => exact einval h₂
    | some g =>
        refine (moveMapping_sure hl (fun hspace p hp => h₂ p (hold hspace p hp)) hfixed hnew
          hpages).mono ?_
        exact fun res known₃ h₃ => ⟨le_trans h₂ h₃.1, h₃.2⟩

theorem handleMremapExec_sure {flags newStart : Nat} {prot : Prot}
    (hfixed : hasFlag flags MREMAP_FIXED = false) :
    l.rules.Sure (handleMremapExec start oldSize newSize flags newStart prot TS_APPLICATION)
      (fun _ _ => True) known := by
  unfold handleMremapExec
  rw [sure_seq]
  refine mprotectCall_sure hold fun r known₁ h₁ hspace => sure_ite (fun _ => trivial) (fun hr => ?_)
  have hspace := hspace (Int.le_of_eq (Decidable.not_not.mp hr).symm)
  rw [sure_seq]
  refine (handleMremap_sure hl (fun hspace p hp => h₁ p (hold hspace p hp)) hfixed).mono ?_
  intro res known₂ h₂
  obtain ⟨h₂, hres⟩ := h₂
  rw [sure_seq]
  refine sure_require.mpr fun _ => ?_
  rw [sure_seq]
  have hscan : l.rules.Sure (Prog.whenever (hasFlag flags MREMAP_DONTUNMAP)
      (scanExecMappingMprotect start oldSize prot prot.noExec TS_APPLICATION []))
      (fun _ known₃ => known₂ ≤ known₃) known₂ := by
    refine sure_whenever.mpr ⟨fun _ => ?_, fun _ => le_refl _⟩
    refine scanExecMappingMprotect_sure hl fun _ => known_turns hspace fun p hp => ?_
    exact h₂ p (h₁ p (hold hspace p hp))
  refine hscan.mono fun _ known₃ h₃ => ?_
  rw [sure_seq]
  refine (scanExecMappingMprotect_sure hl fun halign i hi => ?_).mono fun _ _ _ => trivial
  exact h₃ _ (hres halign i hi)

end

theorem syscallHandlerMremap_sure {start oldSize newSize flags newStart : UInt64}
    (hl : l.mapsForMonitor = false) (hfixed : hasFlag flags.toNat MREMAP_FIXED = false) :
    l.rules.Sure (syscallHandlerMremap start oldSize newSize flags newStart)
      (fun _ _ => True) known := by
  unfold syscallHandlerMremap
  rw [sure_seq]
  refine sure_call fun g _ => ⟨trivial, ?_⟩
  cases g with
  | none => trivial
  | some g =>
      refine sure_ite (fun _ => trivial) (fun hend => ?_)
      have hold : InUserSpace start.toNat oldSize.toNat →
          ∀ p, inPages start.toNat oldSize.toNat p = true →
            l.after known (.lookupAddr start.toNat TS_APPLICATION) (some g) p := by
        intro hspace p hp
        refine .inr ?_
        rw [hl, if_neg Bool.false_ne_true]
        have hstop := hspace.stop_lt
        have hstart := hspace.1
        rw [inPages_iff] at hp
        unfold pageCount at hp
        unfold wadd at hend
        exact ⟨rfl, g, rfl, by omega, by omega⟩
      refine sure_ite (fun _ => ?_) (fun _ => ?_)
      · rw [sure_seq]
        exact (handleMremapExec_sure hl hold hfixed).mono fun _ _ _ => trivial
      · rw [sure_seq]
        exact (handleMremap_sure hl hold hfixed).mono fun _ _ _ => trivial

theorem Job.program_sure (h : l.NotFixed) : l.rules.Sure l.program (fun _ _ => True) known := by
  cases l with
  | mmap start size prot flags fd =>
      show Rules.Sure _ (secpolineMmap _ _ _ _ _ TS_APPLICATION >>= fun _ => pure ()) _ _
      rw [sure_seq]
      exact (secpolineMmap_sure roundUp_aligned rfl).mono fun _ _ _ => trivial
  | monitorMmap start size prot flags fd =>
      show Rules.Sure _ (secpolineMmap _ _ _ _ _ TS_MONITOR >>= fun _ => pure ()) _ _
      rw [sure_seq]
      exact (secpolineMmap_sure roundUp_aligned rfl).mono fun _ _ _ => trivial
  | munmap => exact syscallHandlerMunmap_sure rfl
  | monitorMunmap => exact metaMonitorMunmap_sure rfl
  | mprotect => exact syscallHandlerMprotect_sure rfl
  | mremap =>
      exact sure_seq.mpr ((syscallHandlerMremap_sure rfl h).mono fun _ _ _ => trivial)

end

/-! ## Whole runs -/

/-- Neither of two jobs that are in progress at the same time maps memory for the
monitor. -/
def Job.Beside (l l' : Job) : Prop := l.mapsForMonitor = false ∧ l'.mapsForMonitor = false

theorem Job.locked_of_mapsForMonitor {l : Job} (h : l.mapsForMonitor = true) : l.locked = true := by
  cases l with
  | monitorMmap => rfl
  | mmap | munmap | mprotect | mremap | monitorMunmap => cases h

theorem Job.Starts.beside {ι : Type} {jobs : ι → Option Job} {l l' : Job} {p : M Unit} {i : ι}
    (h : Job.Starts Apart jobs l p) (hi : jobs i = some l') : l.Beside l' := by
  obtain ⟨_, _, hpermitted, hapart⟩ := h
  obtain ⟨hown, hother⟩ := hapart i l' hi
  constructor
  · cases hl : l.mapsForMonitor with
    | false => rfl
    | true =>
        have hfree := hpermitted (Job.locked_of_mapsForMonitor hl) i l' hi
        cases hfree.symm.trans (hown hl)
  · cases hl : l'.mapsForMonitor with
    | false => rfl
    | true =>
        have hfree := hpermitted (hother hl) i l' hi
        cases hfree.symm.trans (Job.locked_of_mapsForMonitor hl)

theorem threads_verified {ι : Type} :
    Prog.Verified (Job.Step Orderly) Sys.AppActs (Job.Starts (ι := ι) Apart) Sys.Fenced Job.Good
      Job.Beside Job.Holds Job.Learns (fun l known e r _ => l.Asks known e r) where
  start := by
    intro jobs l p s hstart _
    obtain ⟨rfl, hfixed, _⟩ := hstart
    exact ⟨fun _ => False, fun _ => False.elim, Job.program_sure hfixed⟩
  beside := by
    intro jobs l p i l' hstart hi
    have h := hstart.beside hi
    exact ⟨h, h.2, h.1⟩
  step := by
    intro l known s e r s' hfenced hknown hs
    obtain ⟨hpossible, hkeeps⟩ := hs.verified hfenced hknown
    exact ⟨_, ⟨hpossible, rfl⟩, fun hasks => (hkeeps hasks).holds hknown⟩
  stable := by
    intro l l' known s e r s' hbeside hgood hknown
    refine hknown.keep (fun _ => hgood.1 hbeside.1) fun hl => ?_
    cases hbeside.2.symm.trans hl
  env := by
    intro s s' hfenced hact
    have hsame : s'.pm = s.pm ∧ s'.kern.pages = s.kern.pages := by
      rcases hact with ⟨_, _, _, rfl⟩ | rfl <;> exact ⟨rfl, rfl⟩
    refine ⟨hfenced.alike hsame.1 hsame.2, fun l known hknown => ?_⟩
    exact hknown.keep (fun _ p hp => hsame.1 ▸ hp) fun _ p hp => hsame.2 ▸ hp

/-- If the monitor maps no memory while a handler of `mprotect` or `mremap` is in
progress, and every operation is orderly, then no call to `mprotect`, `mremap` or
`munmap` for the application takes effect on a page of the monitor, however many
threads there are and however they interleave. -/
theorem threadRun_isolated {ι : Type} [DecidableEq ι] {s₀ s s' : Sys} {jobs : ι → Option Job}
    {rest : ι → M Unit} {i : ι} {l : Job} {e : Op} {k : Resp e → M Unit} {r : Resp e} {p : Nat}
    (h₀ : s₀.Fenced) (run : ThreadRun Apart Orderly s₀ s jobs rest) (job : jobs i = some l)
    (happ : l.forApplication = true) (next : rest i = .op e k) (hs : l.Step Orderly s e r s')
    (hp : e.changes r p = true) : ¬ MonitorPage s.pm p :=
  (run.each_good threads_verified h₀ job next hs).2 happ p hp

/-! ## Examples of runs

Two threads. The first does what is told of, the second everything else. -/

instance (s : Sys) (o : Oracle) : (e : Op) → (r : Resp e) → Decidable (Orderly s o e r)
  | .addPage .., _ => inferInstanceAs (Decidable (Fresh _ _))
  | .removePage .., _ => inferInstanceAs (Decidable (Fresh _ _ ∧ _))
  | .updateMprotect .., _ => inferInstanceAs (Decidable (Fresh _ _ ∧ _ ∧ _))
  | .updateSize .., _ => inferInstanceAs (Decidable (Fresh _ _ ∧ _ ∧ _))
  | .readPrev .., _ | .readNext .., _ => inferInstanceAs (Decidable (_ = true → ¬ _))
  | .inline _, _ | .wrapper .., _ | .readFile .., _ | .isMultithreaded, _ | .setMultithreaded, _
  | .lookupAddr .., _ | .lookupRange .., _ | .lookupRangeAllowGaps .., _ | .findUnsafePage _, _
  | .addUnsafePage .., _ | .updateUnsafePage .., _ | .updateUnsafeInstruction .., _
  | .setCurrentPerm .., _ | .lockUnsafePages, _ | .unlockUnsafePages, _ | .scan .., _
  | .hardwareBreakpoints, _ | .setHardwareBreakpoints _, _ | .checkReadable _, _
  | .rewriteSyscall _, _ => inferInstanceAs (Decidable True)

/-- An operation that satisfies `P`. -/
def Sys.performIf (P : Sys → Oracle → (e : Op) → Resp e → Prop) [∀ s o e r, Decidable (P s o e r)]
    (s : Sys) (o : Oracle) (e : Op) : Option (Resp e × Sys) :=
  match s.perform o e with
  | none => none
  | some (r, s') => if P s o e r then some (r, s') else none

theorem Sys.performIf_step {P : Sys → Oracle → (e : Op) → Resp e → Prop}
    [∀ s o e r, Decidable (P s o e r)] {l : Job} {s s' : Sys} {o : Oracle} {e : Op} {r : Resp e}
    (h : s.performIf P o e = some (r, s')) : l.Step P s e r s' := by
  unfold Sys.performIf at h
  split at h
  · cases h
  · rename_i ho
    split at h
    · rename_i hP
      cases h
      exact ⟨o, ho, hP⟩
    · cases h

/-- The lock is free if the job needs it, and with `apart` the monitor does not map
memory beside a handler that does not hold it. -/
def Job.may (apart : Bool) (jobs : Bool → Option Job) (l : Job) : Bool :=
  (match l with
    | .mremap _ _ _ flags _ => !hasFlag flags.toNat MREMAP_FIXED
    | _ => true) &&
  [false, true].all fun i => (jobs i).all fun l' =>
    !(l.locked && l'.locked) && (!apart ||
      ((!l.mapsForMonitor || l'.locked) && (!l'.mapsForMonitor || l.locked)))

theorem Job.starts_of_may {apart : Bool} {C : (Bool → Option Job) → Job → Prop}
    (hC : ∀ jobs l, (apart = true → Apart jobs l) → C jobs l) {jobs : Bool → Option Job} {l : Job}
    (h : Job.may apart jobs l = true) : Job.Starts C jobs l l.program := by
  obtain ⟨hfixed, hall⟩ := Bool.and_eq_true_iff.mp h
  have hbeside : ∀ i l', jobs i = some l' → (!(l.locked && l'.locked) && (!apart ||
      ((!l.mapsForMonitor || l'.locked) && (!l'.mapsForMonitor || l.locked)))) = true := by
    intro i l' hi
    have hthread := List.all_eq_true.mp hall i (by cases i <;> decide)
    rw [hi] at hthread
    exact hthread
  refine ⟨rfl, ?_, fun hlocked i l' hi => ?_, hC jobs l fun hapart i l' hi => ?_⟩
  · cases l with
    | mremap start oldSize newSize flags newStart =>
        show hasFlag flags.toNat MREMAP_FIXED = false
        simpa using hfixed
    | mmap | munmap | mprotect | monitorMmap | monitorMunmap => trivial
  · have hpair := hbeside i l' hi
    rw [hlocked] at hpair
    simp only [Bool.true_and, Bool.and_eq_true, Bool.not_eq_true'] at hpair
    exact hpair.1
  · have hpair := hbeside i l' hi
    rw [hapart] at hpair
    simp only [Bool.not_true, Bool.false_or, Bool.and_eq_true, Bool.or_eq_true,
      Bool.not_eq_true'] at hpair
    obtain ⟨_, hown, hother⟩ := hpair
    refine ⟨fun hl => hown.resolve_left ?_, fun hl => hother.resolve_left ?_⟩
    · rw [hl]
      exact Bool.true_eq_false.mp
    · rw [hl]
      exact Bool.true_eq_false.mp

/-- Two threads. -/
abbrev Threads := Prog.Pool Op Resp Sys Job Bool

section
variable (P : Sys → Oracle → (e : Op) → Resp e → Prop) [∀ s o e r, Decidable (P s o e r)]

/-- The schedule, from a state in which both threads are idle. -/
def Threads.run (apart : Bool) (events : List (Bool × Prog.Event Job Oracle)) (s₀ : Sys) :
    Option Threads :=
  Prog.Pool.schedule (Sys.performIf P) Job.program (Job.may apart) events (.idle s₀)

/-- The next operation of the first thread, which is at a handler for the
application, is an orderly call that changes the page. -/
def Threads.changesNext (p : Nat) (pool : Threads) : Bool :=
  (pool.jobs false).any Job.forApplication &&
    match pool.rest false with
    | .op e _ =>
        (pool.state.performIf P { answer := 0, pool := 0, bytes := fun _ => 0 } e).any
          fun r => e.changes r.1 p
    | _ => false

/-- A call for the application that changes the page is about to be made, where the
state and the jobs in progress satisfy `Q`. -/
def Reaches (C : (Bool → Option Job) → Job → Prop) (P : Sys → Oracle → (e : Op) → Resp e → Prop)
    (s₀ : Sys) (p : Nat) (Q : Sys → (Bool → Option Job) → Prop) : Prop :=
  ∃ (s s' : Sys) (jobs : Bool → Option Job) (rest : Bool → M Unit) (l : Job) (e : Op)
    (k : Resp e → M Unit) (r : Resp e), ThreadRun C P s₀ s jobs rest ∧ jobs false = some l ∧
    l.forApplication = true ∧ rest false = .op e k ∧ l.Step P s e r s' ∧ e.changes r p = true ∧
      Q s jobs

variable {P}

theorem Threads.reaches {apart : Bool} {C : (Bool → Option Job) → Job → Prop}
    (hC : ∀ jobs l, (apart = true → Apart jobs l) → C jobs l)
    {events : List (Bool × Prog.Event Job Oracle)} {s₀ : Sys} {p : Nat}
    {Q : Sys → (Bool → Option Job) → Bool}
    (h : (Threads.run P apart events s₀).any
      (fun pool => pool.changesNext P p && Q pool.state pool.jobs) = true) :
    Reaches C P s₀ p fun s jobs => Q s jobs = true := by
  obtain ⟨pool, hpool, hend⟩ := (Option.any_eq_true _ _).mp h
  obtain ⟨hnext, hQ⟩ := Bool.and_eq_true_iff.mp hend
  obtain ⟨hjob, hchanges⟩ := Bool.and_eq_true_iff.mp hnext
  obtain ⟨l, hl, happ⟩ := (Option.any_eq_true _ _).mp hjob
  have run : ThreadRun C P s₀ pool.state pool.jobs pool.rest :=
    Prog.JobRun.schedule (fun _ _ _ _ _ _ => Sys.performIf_step)
      (fun _ _ => Job.starts_of_may hC) .init hpool
  split at hchanges
  · rename_i e k hrest
    obtain ⟨⟨r, s'⟩, hperform, hp⟩ := (Option.any_eq_true _ _).mp hchanges
    exact ⟨_, s', _, _, l, e, k, r, run, hl, happ, hrest, Sys.performIf_step hperform, hp, hQ⟩
  · cases hchanges

end

/-- The second thread does a job from beginning to end; `pool` is where a pool of
nodes would be mapped. -/
def byOther (l : Job) (pool : Nat) (bytes : Nat → UInt8) (answers : List Int) :
    List (Bool × Prog.Event Job Oracle) :=
  [(true, .begin l), (true, .go (answers.map fun answer => { answer, pool, bytes })),
    (true, .finish)]

/-- Two mappings of the application and one of the monitor; then the first thread
begins to make the second mapping read-only, and has made its check. -/
def checked : List (Bool × Prog.Event Job Oracle) :=
  byOther (.mmap 0x8000 0x1000 3 0x22 (-1)) 0x200000 (fun _ => 0) [0x8000, 0, 0] ++
    byOther (.mmap 0x10000 0x1000 3 0x22 (-1)) 0x300000 (fun _ => 0) [0x10000, 0, 0] ++
    byOther (.monitorMmap 0x30000 0x1000 3 0x22 (-1)) 0x300000 (fun _ => 0) [0x30000, 0, 0] ++
    [(false, .begin (.mprotect 0x10000 0x1000 1)), (false, .go (answers [0]))]

/-- The second thread has removed the other mapping from the page list and not yet
unmapped it. -/
def unmapping : List (Bool × Prog.Event Job Oracle) :=
  [(true, .begin (.munmap 0x8000 0x1000)),
    (true, .go [{ answer := 0, pool := 0x300000, bytes := fun _ => 0 }])]

/-- The second thread unmaps the page, and the monitor maps memory there. -/
def taken : List (Bool × Prog.Event Job Oracle) :=
  byOther (.munmap 0x10000 0x1000) 0x300000 (fun _ => 0) [0, 0] ++
    byOther (.monitorMmap 0x10000 0x1000 3 0x22 (-1)) 0x300000 (fun _ => 0) [0x10000, 0, 0]

/-- A WRPKRU that begins on the page 0x10000 and ends on the next. -/
def straddling : Nat → UInt8 := fun x =>
  if x = 0x10ffe then 0x0f else if x = 0x10fff then 0x01 else if x = 0x11000 then 0xef else 0

/-- A file of the monitor is mapped before an executable one of the application, and
the scan of the second has found the instruction. -/
def scannedNeighbour : List (Bool × Prog.Event Job Oracle) :=
  byOther (.monitorMmap 0x10000 0x1000 3 0x22 3) 0x200000 straddling [0x10000, 0, 0, 0] ++
    [(false, .begin (.mmap 0x11000 0x1000 5 0x22 3)),
      (false, .go ([0x11000, 0, 0, 0, 0, 0, 0].map fun answer =>
        { answer, pool := 0x300000, bytes := straddling }))]

theorem start_fenced (mem : Mem) : (Sys.start mem).Fenced := by
  refine ⟨⟨inv_empty, fun x y _ hx => ?_⟩, fun p hp => ?_, fun p hp => nomatch hp⟩
  · obtain ⟨_, ⟨_, hg, _⟩, _⟩ := hx
    cases hg
  · obtain ⟨_, hg, _⟩ := hp
    cases hg

/-- The first thread is about to re-protect a page that is not the monitor's, and the
second is inside its call. -/
theorem threadRun_isolated_checked :
    Reaches Apart Orderly (Sys.start fun _ => 0) 16 fun s jobs =>
      ¬ MonitorPage s.pm 16 ∧ (jobs true).isSome = true := by
  have hrun : (Threads.run Orderly true (checked ++ unmapping) (Sys.start fun _ => 0)).any
      (fun pool => pool.changesNext Orderly 16 && (pool.jobs true).isSome) = true := by
    decide +kernel
  obtain ⟨s, s', jobs, rest, l, e, k, r, run, hl, happ, hnext, hs, hp, hother⟩ :=
    Threads.reaches (Q := fun _ jobs => (jobs true).isSome) (fun _ _ h => h rfl) hrun
  exact ⟨s, s', jobs, rest, l, e, k, r, run, hl, happ, hnext, hs, hp,
    threadRun_isolated (start_fenced _) run hl happ hnext hs hp, hother⟩

/-- It re-protects a page of the monitor, if that was mapped after the check. And so
does a scan that finds an instruction across a page boundary, without any other
thread in progress. -/
theorem threadRun_not_isolated :
    Reaches (fun _ _ => True) Orderly (Sys.start fun _ => 0) 16
      (fun s _ => MonitorPage s.pm 16) ∧
    Reaches Apart (fun _ _ _ _ => True) (Sys.start fun _ => 0) 16
      (fun s _ => MonitorPage s.pm 16) := by
  have hmonitor : ∀ {C P} {s₀ : Sys},
      Reaches C P s₀ 16 (fun s _ => decide (MonitorPage s.pm 16) = true) →
      Reaches C P s₀ 16 fun s _ => MonitorPage s.pm 16 := by
    intro C P s₀ h
    simpa only [decide_eq_true_eq] using h
  have hrace : (Threads.run Orderly false (checked ++ taken) (Sys.start fun _ => 0)).any
      (fun pool => pool.changesNext Orderly 16 && decide (MonitorPage pool.state.pm 16)) =
        true := by
    decide +kernel
  have hscan : (Threads.run (fun _ _ _ _ => True) true scannedNeighbour (Sys.start fun _ => 0)).any
      (fun pool => pool.changesNext (fun _ _ _ _ => True) 16 &&
        decide (MonitorPage pool.state.pm 16)) = true := by
    decide +kernel
  exact ⟨hmonitor (Threads.reaches (Q := fun s _ => decide (MonitorPage s.pm 16))
      (fun _ _ _ => trivial) hrace),
    hmonitor (Threads.reaches (Q := fun s _ => decide (MonitorPage s.pm 16)) (fun _ _ h => h rfl)
      hscan)⟩

end Secpoline
