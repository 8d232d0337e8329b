import Secpoline.Proofs.Mremap
import Secpoline.Proofs.PageProt
import Secpoline.Proofs.ScanLoops
import Secpoline.Proofs.System

/-!
# Write xor execute

No page of the application is ever writable and executable at once. The argument
does not depend on what the handlers do in which order, nor on how threads
interleave: every protection that a handler passes to the kernel for a page of
the application, or to the page manager, lacks one of the two bits. Some are
constants, some have a bit masked off, some were tested; one is read back from
the page manager, which only ever had such protections in it.

The one exception is `rewrite_syscall_inst`, which does ask for all three bits,
but together with the monitor's key.
-/

namespace Secpoline

open Lib

/-- Not both writable and executable. -/
def Prot.Exclusive (p : Prot) : Prop := ¬ (p.isWrite = true ∧ p.isExec = true)

instance (p : Prot) : Decidable p.Exclusive := inferInstanceAs (Decidable (¬ _))

theorem Prot.exclusive_noExec (p : Prot) : p.noExec.Exclusive := by
  intro h
  rw [noExec_isExec] at h
  cases h.2

theorem Prot.exclusive_of_not_exec {p : Prot} (h : ¬ p.isExec = true) : p.Exclusive :=
  fun hp => h hp.2

theorem Prot.exclusive_of_not_write {p : Prot} (h : ¬ p.isWrite = true) : p.Exclusive :=
  fun hp => h hp.1

theorem exclusive_read : PROT_READ.Exclusive := by decide

/-- What the page manager answers. -/
def Answers : (e : Op) → Resp e → Prop
  | .lookupAddr _ _, g => ∀ g', g = some g' → g'.prot.Exclusive
  | _, _ => True

/-- What a kernel call may ask for. -/
def KCall.Exclusive : KCall → Prop
  | .mprotect _ _ prot none => prot.Exclusive
  | .mprotect _ _ prot (some key) => key = UNTRUSTED_MPKEY → prot.Exclusive
  | _ => True

/-- What an operation may ask for. -/
def Asks : Op → Prop
  | .inline c | .wrapper c _ => c.Exclusive
  | .addPage _ _ prot _ _ _ => prot.Exclusive
  | .updateMprotect _ _ prot _ => prot.Exclusive
  | _ => True

/-- A program whose operations stay within `Asks`. -/
def Keeps {α : Type} (p : M α) (Q : α → Prop) : Prop := p.Respects Answers Asks Q

section
variable {α β : Type} {p : M α} {Q Q' : α → Prop} {prot unsafeProt : Prot} {start size key : Nat}
  {flags cid : Int} {mapFixed trustedPage : Bool} {whitelist : List Nat}

@[simp] theorem keeps_seq {f : α → M β} {Q : β → Prop} :
    Keeps (p >>= f) Q ↔ Keeps p fun a => Keeps (f a) Q :=
  Prog.respects_seq

@[simp] theorem keeps_perform {e : Op} {Q : Resp e → Prop} :
    Keeps (perform e) Q ↔ ∀ r, Answers e r → Asks e ∧ Q r :=
  Prog.respects_call

@[simp] theorem keeps_require {c : Prop} [Decidable c] {Q : Unit → Prop} :
    Keeps (Prog.require c) Q ↔ (c → Q ()) :=
  Prog.respects_require

@[simp] theorem keeps_whenever {c : Prop} [Decidable c] {p : M Unit} {Q : Unit → Prop} :
    Keeps (Prog.whenever c p) Q ↔ (c → Keeps p Q) ∧ (¬ c → Q ()) :=
  Prog.respects_whenever

theorem Keeps.mono (h : Keeps p Q) (hQ : ∀ a, Q a → Q' a) : Keeps p Q' := Prog.Respects.mono h hQ

theorem keeps_ite {c : Prop} [Decidable c] {q : M α} (ht : c → Keeps p Q) (hf : ¬ c → Keeps q Q) :
    Keeps (if c then p else q) Q := by
  split
  · exact ht ‹_›
  · exact hf ‹_›

theorem keeps_fold {σ ι : Type} {body : σ → ι → M σ} {l : List ι} {a : σ}
    (hbody : ∀ a i, Keeps (body a i) fun _ => True) : Keeps (Prog.fold body l a) fun _ => True :=
  Prog.respects_fold (fun a i _ => hbody a i) trivial

/-- An operation whose answer does not matter. -/
theorem keeps_ask (e : Op) {Q : Resp e → Prop} (hask : Asks e) (h : ∀ r, Q r) :
    Keeps (perform e) Q :=
  keeps_perform.mpr fun r _ => ⟨hask, h r⟩

theorem keeps_expectZero {p : M Int} {Q : Unit → Prop} (h : Keeps p fun _ => Q ()) :
    Keeps (expectZero p) Q := by
  unfold expectZero
  simp only [keeps_seq, keeps_require]
  exact h.mono fun _ hq _ => hq

/-! ## The scanner -/

theorem erimPrev_keeps {perm : Prot} {prev : Prev} :
    Keeps (erimPrev start perm trustedPage prev) fun _ => True := by
  cases prev with
  | null =>
      refine keeps_ite (fun _ => ?_) (fun _ => trivial)
      rw [keeps_seq]
      refine keeps_ask _ trivial fun g => ?_
      split <;> trivial
  | page address => trivial
  | flagged => trivial

theorem erimNext_keeps {before : Neighbour} :
    Keeps (erimNext start before) fun _ => True := by
  unfold erimNext
  rw [keeps_seq]
  refine keeps_ask _ trivial fun g => ?_
  split <;> trivial

theorem erimScanPrev_keeps {perm unsafePerm : Prot} {nb : Neighbour} {prev : Prev} :
    Keeps (erimScanPrev start nb perm unsafePerm trustedPage prev) fun _ => True := by
  unfold erimScanPrev
  split
  · refine keeps_fold fun prev offset => ?_
    unfold erimScanPrevByte
    rw [keeps_seq]
    refine keeps_ask _ trivial fun m => keeps_ite (fun _ => ?_) (fun _ => trivial)
    rw [keeps_seq]
    refine keeps_ask _ trivial fun _ => ?_
    split
    · rw [keeps_seq]
      exact keeps_expectZero (keeps_ask _ nb.prot.exclusive_noExec fun _ => trivial)
    · trivial
  · trivial

theorem erimScanNext_keeps {perm unsafePerm : Prot} {nb : Neighbour} :
    Keeps (erimScanNext nb perm unsafePerm trustedPage) fun _ => True := by
  unfold erimScanNext
  split
  · refine keeps_fold fun _ offset => ?_
    unfold erimScanNextByte
    rw [keeps_seq]
    refine keeps_ask _ trivial fun m => keeps_whenever.mpr ⟨fun _ => ?_, fun _ => trivial⟩
    rw [keeps_seq]
    refine keeps_ask _ trivial fun _ => ?_
    exact keeps_expectZero (keeps_ask _ nb.prot.exclusive_noExec fun _ => trivial)
  · trivial

theorem erimRecord_keeps {perm unsafePerm : Prot} {instructions : List Nat} :
    Keeps (erimRecord start perm unsafePerm trustedPage instructions) fun _ => True := by
  unfold erimRecord
  refine keeps_ite (fun _ => ?_) (fun _ => ?_)
  · rw [keeps_seq]
    exact keeps_ask _ trivial fun _ => trivial
  · rw [keeps_seq]
    exact keeps_ask _ trivial fun _ => trivial

theorem erimMemScanRegion_keeps {perm unsafePerm : Prot} {prev : Prev} :
    Keeps (erimMemScanRegion start whitelist perm unsafePerm trustedPage prev) fun _ => True := by
  unfold erimMemScanRegion
  simp only [keeps_seq]
  refine erimPrev_keeps.mono fun before _ => ?_
  refine erimNext_keeps.mono fun nb _ => ?_
  refine erimScanPrev_keeps.mono fun prev _ => ?_
  refine erimScanNext_keeps.mono fun _ _ => ?_
  refine keeps_ask _ trivial fun m => ?_
  exact erimRecord_keeps.mono fun _ _ => trivial

/-! ## Mappings -/

theorem addGroup_keeps (hprot : prot.Exclusive) :
    Keeps (addGroup start size prot flags cid mapFixed key) fun _ => True := by
  unfold addGroup
  rw [keeps_seq]
  refine keeps_expectZero (keeps_ask _ hprot fun _ => ?_)
  exact keeps_expectZero (keeps_ask _ (fun _ => hprot) fun _ => trivial)

theorem openAt_keeps {g : Group} {page : Nat} {Q : Nat → Prop} (h : ∀ startGroup, Q startGroup) :
    Keeps (g.openAt page) Q :=
  keeps_ite (fun _ => keeps_seq.mpr (keeps_require.mpr fun _ => h _)) (fun _ => h _)

theorem protectGroup_keeps (hprot : prot.Exclusive) :
    Keeps (protectGroup start size prot cid) fun _ => True := by
  unfold protectGroup
  rw [keeps_seq]
  refine keeps_expectZero (keeps_ask _ hprot fun _ => ?_)
  exact keeps_expectZero (keeps_ask _ hprot fun _ => trivial)

theorem scanGroups_keeps {close : Nat → Nat → Prot → M Unit} {restart : Bool} {allowList : List Nat}
    (hclose : ∀ start size {prot : Prot}, prot.Exclusive →
      Keeps (close start size prot) fun _ => True)
    (hprot : prot.Exclusive) (hinstr : unsafeProt.Exclusive) :
    Keeps (scanGroups close restart allowList prot unsafeProt start size) fun _ => True := by
  unfold scanGroups
  rw [keeps_seq]
  refine (keeps_fold fun g page => ?_).mono fun g _ =>
    keeps_whenever.mpr ⟨fun _ => hclose _ _ hprot, fun _ => trivial⟩
  unfold scanGroupsPage closeFlagged closeOpenGroup
  simp only [keeps_seq]
  refine openAt_keeps fun startGroup => ?_
  refine erimMemScanRegion_keeps.mono fun found _ => ?_
  refine Keeps.mono (Q := fun _ => True) ?_ fun size _ =>
    Keeps.mono (Q := fun _ => True) ?_ fun open' _ => ?_
  · refine keeps_ite (fun _ => ?_) (fun _ => trivial)
    exact keeps_seq.mpr ((hclose _ _ hinstr).mono fun _ _ => trivial)
  · refine keeps_ite (fun _ => ?_) (fun _ => trivial)
    exact keeps_seq.mpr ((hclose _ _ hprot).mono fun _ _ => trivial)
  · refine keeps_ite (fun _ => ?_) (fun _ => trivial)
    exact keeps_seq.mpr ((hclose _ _ hinstr).mono fun _ _ => trivial)

theorem scanExecMapping_keeps {allowList : List Nat} (hprot : prot.Exclusive)
    (hinstr : unsafeProt.Exclusive) :
    Keeps (scanExecMapping start size prot unsafeProt flags mapFixed cid allowList)
      fun _ => True := by
  rw [scanExecMapping_eq]
  split
  · trivial
  · exact scanGroups_keeps (fun _ _ _ => addGroup_keeps) hprot hinstr

theorem scanExecMappingMprotect_keeps {allowList : List Nat} (hprot : prot.Exclusive)
    (hinstr : unsafeProt.Exclusive) :
    Keeps (scanExecMappingMprotect start size prot unsafeProt cid allowList) fun _ => True := by
  rw [scanExecMappingMprotect_eq]
  split
  · trivial
  · exact scanGroups_keeps (fun _ _ _ => protectGroup_keeps) hprot hinstr

theorem markUnsafe_keeps : Keeps (markUnsafe start size prot trustedPage) fun _ => True :=
  keeps_fold fun _ _ => keeps_ask _ trivial fun _ => trivial

theorem exclusive_firstProt : (firstProt prot).Exclusive := by
  unfold firstProt
  split
  · exact exclusive_read
  · split
    · exact prot.exclusive_noExec
    · rename_i h₁ h₂
      intro hp
      exact h₂ ⟨hp.2, hp.1⟩

theorem checkFixed_keeps {fixed : Bool} :
    Keeps (checkFixed start size cid fixed) fun _ => True := by
  cases fixed with
  | false => trivial
  | true =>
      unfold checkFixed
      rw [keeps_seq]
      refine keeps_ask _ trivial fun _ => keeps_ite (fun _ => ?_) (fun _ => ?_)
      · exact keeps_ask _ trivial fun _ => trivial
      · rw [keeps_seq]
        exact keeps_ask _ trivial fun _ => trivial

theorem mapPages_keeps {fixed : Bool} {fd cid : Int} :
    Keeps (mapPages start size prot fixed fd cid) fun _ => True := by
  unfold mapPages mapFileBaked
  refine keeps_ite (fun _ => ?_) (fun _ => ?_)
  · rw [keeps_seq]
    refine keeps_ask _ trivial fun _ => keeps_ite (fun _ => trivial) (fun _ => ?_)
    rw [keeps_seq]
    exact keeps_ask _ trivial fun _ => trivial
  · exact keeps_ask _ trivial fun _ => trivial

theorem tagMapping_keeps {fixed : Bool} {flags : Nat} :
    Keeps (tagMapping start size prot flags fixed cid key) fun _ => True := by
  unfold tagMapping
  refine keeps_ite (fun h => ?_) (fun _ => ?_)
  · exact scanExecMapping_keeps (Prot.exclusive_of_not_write h.2) prot.exclusive_noExec
  · simp only [keeps_seq, keeps_whenever]
    refine keeps_expectZero (keeps_ask _ exclusive_firstProt fun _ => ?_)
    refine keeps_expectZero (keeps_ask _ (fun _ => exclusive_firstProt) fun _ => ?_)
    exact ⟨fun _ => markUnsafe_keeps, fun _ => trivial⟩

theorem secpolineMmap_keeps {flags : Nat} {fd : Int} :
    Keeps (secpolineMmap start size prot flags fd cid) fun _ => True := by
  unfold secpolineMmap
  split
  · trivial
  · simp only [keeps_seq, keeps_require]
    intro _
    refine keeps_ite (fun _ => trivial) (fun _ => ?_)
    simp only [keeps_seq]
    refine checkFixed_keeps.mono fun _ _ => keeps_ite (fun _ => trivial) (fun _ => ?_)
    simp only [keeps_seq]
    refine mapPages_keeps.mono fun _ _ => keeps_ite (fun _ => trivial) (fun _ => ?_)
    rw [keeps_seq]
    exact tagMapping_keeps.mono fun _ _ => trivial

/-! ## mremap -/

theorem moveMapping_keeps {oldSize newSize flags newStart : Nat} {addFlags addCid : Int}
    (hprot : prot.Exclusive) :
    Keeps (moveMapping start oldSize newSize flags newStart prot cid addFlags addCid)
      fun _ => True := by
  unfold moveMapping
  rw [keeps_seq]
  refine Keeps.mono (Q := fun _ => True) ?_ fun gone _ => keeps_ite (fun _ => trivial) (fun _ => ?_)
  · unfold forgetOld
    split
    · rw [keeps_seq]
      exact keeps_ask _ trivial fun _ => trivial
    · exact keeps_ask _ trivial fun _ => trivial
  · simp only [keeps_seq, keeps_require]
    refine keeps_ask _ trivial fun r _ => ?_
    exact keeps_expectZero (keeps_ask _ hprot fun _ => trivial)

/-- The protection that `mremap` replays comes from the page manager. -/
theorem handleMremap_keeps {oldSize newSize flags newStart : Nat} :
    Keeps (handleMremap start oldSize newSize flags newStart cid) fun _ => True := by
  rw [handleMremap_eq ⟨start, oldSize, newSize, flags, newStart⟩]
  refine keeps_ite (fun _ => trivial) fun _ => keeps_ite (fun _ => ?_) (fun _ => ?_)
  · rw [MremapArgs.moveFixed, keeps_seq, keeps_perform]
    intro g hg
    refine ⟨trivial, ?_⟩
    split
    · trivial
    · rw [keeps_seq]
      refine keeps_ask _ trivial fun _ => keeps_ite (fun _ => trivial) (fun _ => ?_)
      exact moveMapping_keeps (hg _ rfl)
  · rw [MremapArgs.resizeOrMove, keeps_seq]
    refine keeps_ask _ trivial fun r => keeps_ite (fun _ => ?_) (fun _ => ?_)
    · simp only [keeps_seq, keeps_require]
      exact keeps_ask _ trivial fun _ _ => trivial
    · refine keeps_ite (fun _ => ?_) (fun _ => trivial)
      rw [keeps_seq, keeps_perform]
      intro g hg
      refine ⟨trivial, ?_⟩
      split
      · trivial
      · exact moveMapping_keeps (hg _ rfl)

theorem handleMremapExec_keeps {oldSize newSize flags newStart : Nat} (hprot : prot.Exclusive) :
    Keeps (handleMremapExec start oldSize newSize flags newStart prot cid) fun _ => True := by
  have scan : ∀ start size : Nat,
      Keeps (scanExecMappingMprotect start size prot prot.noExec cid []) fun _ => True :=
    fun _ _ => scanExecMappingMprotect_keeps hprot prot.exclusive_noExec
  unfold handleMremapExec
  rw [keeps_seq]
  refine keeps_ask _ exclusive_read fun _ => keeps_ite (fun _ => trivial) (fun _ => ?_)
  simp only [keeps_seq, keeps_require, keeps_whenever]
  refine handleMremap_keeps.mono fun res _ _ => ⟨fun _ => ?_, fun _ => ?_⟩
  · exact (scan start oldSize).mono fun _ _ => (scan res newSize).mono fun _ _ => trivial
  · exact (scan res newSize).mono fun _ _ => trivial

/-! ## Faults -/

theorem secpolineMprotect_keeps (hprot : prot.Exclusive) :
    Keeps (secpolineMprotect start size prot cid) fun _ => True := by
  unfold secpolineMprotect
  simp only [keeps_seq, keeps_whenever]
  refine keeps_ask _ hprot fun _ => ⟨fun _ => ?_, fun _ => trivial⟩
  exact keeps_expectZero (keeps_ask _ hprot fun _ => trivial)

theorem setPageNonExecutable_keeps {address : Nat} :
    Keeps (setPageNonExecutable address) fun _ => True := by
  unfold setPageNonExecutable
  simp only [keeps_seq]
  refine keeps_ask _ trivial fun pmPage => keeps_ask _ trivial fun page => ?_
  split
  · simp only [keeps_seq, keeps_require]
    intro _
    refine keeps_ite (fun _ => trivial) (fun _ => ?_)
    rw [keeps_seq]
    refine keeps_ask _ trivial fun _ => keeps_ite (fun _ => ?_) (fun _ => ?_)
    · rw [keeps_seq]
      exact keeps_ask _ trivial fun _ => secpolineMprotect_keeps (by decide)
    · simp only [keeps_seq]
      refine keeps_ask _ trivial fun _ => (secpolineMprotect_keeps exclusive_read).mono
        fun _ _ => ?_
      exact keeps_ask _ trivial fun _ => trivial
  · trivial

theorem addBreakpointWrapper_keeps {address : Nat} {isStatic : Bool} :
    Keeps (addBreakpointWrapper address isStatic) fun _ => True := by
  unfold addBreakpointWrapper
  rw [keeps_seq]
  refine keeps_ask _ trivial fun page => ?_
  split
  · trivial
  · refine keeps_ite (fun _ => trivial) (fun _ => ?_)
    rw [keeps_seq]
    refine keeps_ask _ trivial fun c => ?_
    split
    · trivial
    · rw [keeps_seq]
      refine (keeps_fold fun _ _ => setPageNonExecutable_keeps).mono fun _ _ => ?_
      exact keeps_ask _ trivial fun _ => trivial

theorem makeExecutable_keeps {address : Nat} :
    Keeps (makeExecutable address cid) fun _ => True := by
  unfold makeExecutable
  simp only [keeps_seq]
  refine (secpolineMprotect_keeps (by decide)).mono fun _ _ => ?_
  exact keeps_ask _ trivial fun _ => trivial

theorem secpolineSegfaultHandler_keeps {code : SegvCode} {address : Nat} :
    Keeps (secpolineSegfaultHandler code address cid) fun _ => True := by
  unfold secpolineSegfaultHandler
  simp only [keeps_seq, keeps_require]
  intro _
  refine keeps_ite (fun _ => trivial) (fun _ => ?_)
  rw [keeps_seq]
  refine keeps_ask _ trivial fun page => ?_
  split
  · trivial
  rw [keeps_seq]
  refine keeps_ask _ trivial fun _ => keeps_ite (fun _ => trivial) (fun _ => ?_)
  refine keeps_ite (fun _ => ?_) (fun _ => keeps_ite (fun _ => ?_) (fun _ => ?_))
  · refine keeps_ite (fun _ => trivial) (fun _ => ?_)
    simp only [keeps_seq]
    refine (secpolineMprotect_keeps (Prot.exclusive_noExec _)).mono fun _ _ => ?_
    exact keeps_ask _ trivial fun _ => trivial
  · refine keeps_ite (fun _ => trivial) (fun _ => ?_)
    simp only [keeps_seq, keeps_whenever]
    refine erimMemScanRegion_keeps.mono fun _ _ => ⟨fun _ => ?_, fun _ => makeExecutable_keeps⟩
    exact addBreakpointWrapper_keeps.mono fun _ _ => makeExecutable_keeps
  · refine keeps_ite (fun _ => keeps_ite (fun _ => trivial) (fun _ => ?_)) (fun _ => trivial)
    rw [keeps_seq]
    exact addBreakpointWrapper_keeps.mono fun _ _ => makeExecutable_keeps

/-! ## Start-up and rewriting -/

theorem initPageGroup_keeps {stop : Nat} {isSegfaultHandler : Bool} {allowList : List Nat} :
    Keeps (initPageGroup start stop prot isSegfaultHandler cid allowList) fun _ => True := by
  unfold initPageGroup
  refine keeps_ite (fun _ => ?_) (fun _ => keeps_ite (fun _ => ?_) (fun h => ?_))
  · simp only [keeps_seq, keeps_require, keeps_whenever]
    intro hprot _
    have tag : ∀ _ : Unit, Keeps (addGroup start (wsub stop start) prot 0 TS_MONITOR false
        SECPOLINE_MPKEY) fun _ => True :=
      fun _ => addGroup_keeps fun hp => hprot ⟨hp.2, hp.1⟩
    refine ⟨fun _ => (keeps_fold fun _ address => ?_).mono fun _ _ => tag (), fun _ => tag ()⟩
    simp only [keeps_seq, keeps_whenever]
    refine erimMemScanRegion_keeps.mono fun _ _ => ⟨fun _ => ?_, fun _ => trivial⟩
    exact addBreakpointWrapper_keeps
  · rw [keeps_seq]
    exact markUnsafe_keeps.mono fun _ _ => addGroup_keeps prot.exclusive_noExec
  · have hprot : prot.Exclusive := fun hp => h ⟨hp.2, hp.1⟩
    refine keeps_ite (fun _ => ?_) (fun _ => addGroup_keeps hprot)
    exact scanExecMapping_keeps hprot prot.exclusive_noExec

/-- The call for all three bits carries the monitor's key. -/
theorem rewriteSyscallInst_keeps {address : Nat} :
    Keeps (rewriteSyscallInst address cid) fun _ => True := by
  unfold rewriteSyscallInst
  have rest : Keeps (do
      expectZero (perform (.inline (.mprotect (address / 4096 * 4096) 4096
        (PROT_READ ||| PROT_WRITE ||| PROT_EXEC) (some SECPOLINE_MPKEY))))
      perform (.rewriteSyscall address)
      expectZero (perform (.inline (.mprotect (address / 4096 * 4096) 4096
        (PROT_READ ||| PROT_EXEC)
        (some (if cid = TS_APPLICATION then UNTRUSTED_MPKEY else SECPOLINE_MPKEY))))))
      fun _ => True := by
    simp only [keeps_seq]
    refine keeps_expectZero (keeps_ask _ (fun hkey => absurd hkey (by decide)) fun _ => ?_)
    refine keeps_ask _ trivial fun _ => ?_
    exact keeps_expectZero (keeps_ask _ (fun _ => by decide) fun _ => trivial)
  rw [keeps_seq, keeps_whenever]
  exact ⟨fun _ => keeps_ask _ trivial fun _ => rest, fun _ => rest⟩

end

/-! ## Handlers -/

theorem syscallHandlerMprotect_keeps {start size prot : UInt64} :
    Keeps (syscallHandlerMprotect start size prot) fun _ => True := by
  unfold syscallHandlerMprotect
  rw [keeps_seq]
  refine keeps_ask _ trivial fun _ => keeps_ite (fun _ => trivial) (fun _ => ?_)
  simp only [keeps_seq, keeps_require]
  intro _
  refine keeps_ite (fun _ => ?_) (fun h => keeps_ite (fun hexec => ?_) (fun hexec => ?_))
  · simp only [keeps_seq, keeps_whenever]
    refine keeps_ask _ (Prot.exclusive_noExec _) fun _ => ⟨fun _ => ?_, fun _ => trivial⟩
    exact keeps_expectZero
      (keeps_ask _ (Prot.exclusive_noExec _) fun _ => markUnsafe_keeps)
  · simp only [keeps_seq, keeps_whenever]
    refine keeps_ask _ exclusive_read fun _ => ⟨fun _ => ?_, fun _ => trivial⟩
    exact scanExecMappingMprotect_keeps (fun hp => h ⟨hp.2, hp.1⟩) (Prot.exclusive_noExec _)
  · have hprot := Prot.exclusive_of_not_exec hexec
    rw [keeps_seq]
    refine keeps_ask _ hprot fun _ => ?_
    exact keeps_expectZero (keeps_ask _ hprot fun _ => trivial)

theorem Request.serve_keeps (r : Request) : Keeps r.serve fun _ => True := by
  cases r with
  | mmap start size prot flags fd =>
      exact keeps_seq.mpr (secpolineMmap_keeps.mono fun _ _ => trivial)
  | munmap start size =>
      refine keeps_seq.mpr (keeps_ask _ trivial fun _ => keeps_whenever.mpr
        ⟨fun _ => ?_, fun _ => ?_⟩)
      · exact keeps_seq.mpr (keeps_ask _ trivial fun _ => trivial)
      · trivial
  | mprotect start size prot => exact syscallHandlerMprotect_keeps
  | mremap start oldSize newSize flags newStart =>
      refine keeps_seq.mpr (Keeps.mono (Q := fun _ => True) ?_ fun _ _ => trivial)
      refine keeps_seq.mpr (keeps_perform.mpr fun g hg => ⟨trivial, ?_⟩)
      split
      · trivial
      refine keeps_ite (fun _ => trivial) (fun _ => keeps_ite (fun _ => ?_) (fun _ => ?_))
      · exact keeps_seq.mpr ((handleMremapExec_keeps (hg _ rfl)).mono fun _ _ => trivial)
      · exact keeps_seq.mpr (handleMremap_keeps.mono fun _ _ => trivial)
  | clone => exact keeps_ask _ trivial fun _ => trivial
  | segv code address cid =>
      exact keeps_seq.mpr (secpolineSegfaultHandler_keeps.mono fun _ _ => trivial)
  | rewriteSyscall address cid => exact rewriteSyscallInst_keeps
  | initPageGroup start stop prot isSegfaultHandler cid allowList => exact initPageGroup_keeps

/-! ## Steps -/

/-- No page with the application's key is writable and executable. -/
def Kern.WriteXorExecute (k : Kern) : Prop :=
  ∀ p g, k.pages p = some g → g.key = UNTRUSTED_MPKEY → g.prot.Exclusive

/-- No page of the application is writable and executable in the kernel, and no
group of the page manager is. -/
structure Sys.WriteXorExecute (s : Sys) : Prop where
  kernel : s.kern.WriteXorExecute
  tracker : ∀ g ∈ s.pm.pages, g.prot.Exclusive

section
variable {k k' : Kern} {s s' : Sys} {r : Int}

theorem Kern.WriteXorExecute.map {start size : Nat} {g : Option KPage} (h : k.WriteXorExecute)
    (hg : ∀ g', g = some g' → g'.key = UNTRUSTED_MPKEY → g'.prot.Exclusive) :
    (k.map start size g).WriteXorExecute := by
  intro p g' hp
  rw [Kern.map] at hp
  dsimp only at hp
  split at hp
  · exact hg g' hp
  · exact h p g' hp

theorem Kern.WriteXorExecute.unmap {start size : Nat} (h : k.WriteXorExecute) :
    (k.unmap start size).WriteXorExecute := by
  intro p g' hp
  rw [Kern.unmap] at hp
  dsimp only at hp
  split at hp
  · cases hp
  · exact h p g' hp

theorem Kern.WriteXorExecute.protect {start size : Nat} {prot : Prot} {key : Option Nat}
    (h : k.WriteXorExecute) (hc : KCall.Exclusive (.mprotect start size prot key)) :
    (k.protect start size prot key).WriteXorExecute := by
  intro p g' hp hkey
  rw [Kern.protect] at hp
  dsimp only at hp
  split at hp
  · obtain ⟨g, hg, rfl⟩ := Option.map_eq_some_iff.mp hp
    cases key with
    | none => exact hc
    | some key => exact hc hkey
  · exact h p g' hp hkey

theorem Kern.WriteXorExecute.move {start oldSize target newSize : Nat} {dontUnmap : Bool}
    (h : k.WriteXorExecute) : (k.move start oldSize target newSize dontUnmap).WriteXorExecute := by
  intro p g' hp
  rw [Kern.move] at hp
  dsimp only at hp
  split at hp
  · exact h _ g' hp
  split at hp
  · cases hp
  · exact h p g' hp

/-- A kernel call keeps the property: what it maps is fresh or a copy, and what it
re-protects gets a protection that lacks one of the bits. -/
theorem Kern.WriteXorExecute.apply {c : KCall} (h : k.WriteXorExecute) (hc : c.Exclusive)
    (he : k.apply r c = some k') : k'.WriteXorExecute := by
  cases c with
  | mmap start size prot fixed =>
      rcases Kern.apply_mmap_cases he with ⟨_, rfl⟩ | ⟨_, _, _, _, _, rfl⟩
      · exact h
      · refine h.map fun g hg hkey => ?_
        cases hg
        exact absurd hkey (show (0 : Nat) ≠ UNTRUSTED_MPKEY by decide)
  | mprotect start size prot key =>
      rcases Kern.apply_mprotect_cases he with ⟨_, rfl⟩ | ⟨_, _, _, rfl⟩
      · exact h
      · exact h.protect hc
  | munmap start size =>
      rcases Kern.apply_munmap_cases he with ⟨_, rfl⟩ | ⟨_, _, _, rfl⟩
      · exact h
      · exact h.unmap
  | mremap start oldSize newSize mayMove fixed dontUnmap newStart =>
      rcases Kern.apply_mremap_cases he with ⟨_, rfl⟩ | ⟨_, _, _, _, _, _, hplace | hmoved⟩
      · exact h
      · obtain ⟨_, _, _, hplace⟩ := hplace
        by_cases hle : pageCount newSize ≤ pageCount oldSize
        · rw [hplace.shrink hle]
          exact h.unmap
        · rw [hplace.grow hle]
          exact h.map fun g hg => h _ g hg
      · rw [hmoved.eq]
        exact h.move

theorem Sys.WriteXorExecute.step {e : Op} {r : Resp e} (h : s.WriteXorExecute) (hask : Asks e)
    (hs : s.Step e r s') : s'.WriteXorExecute := by
  have derived : Derived Prot.Exclusive (fun _ => True) s.pm s'.pm →
      ∀ g ∈ s'.pm.pages, g.prot.Exclusive :=
    fun hd => allAttr_prot.mp (hd.attr (.inr ⟨by decide, trivial⟩) (allAttr_prot.mpr h.tracker))
  constructor
  · rcases hs.kernel with hp | ⟨c, a, rfl | ⟨_, rfl⟩ | rfl, hk⟩
    · intro p
      rw [hp]
      exact h.kernel p
    · exact h.kernel.apply hask hk
    · exact h.kernel.apply hask hk
    · exact h.kernel.apply (c := .mmap _ _ _ _) trivial hk
  · rcases hs.tracker with hp | ⟨mm, ret, hadd | hremove | hprotect | hsize⟩
    · rw [hp]
      exact h.tracker
    · obtain ⟨_, _, _, _, _, _, rfl, hp⟩ := hadd
      exact derived (addPage_derived hask trivial hp)
    · obtain ⟨_, _, _, rfl, hp⟩ := hremove
      exact derived (removePageLocked_derived hp)
    · obtain ⟨_, _, _, _, rfl, hp⟩ := hprotect
      exact derived (updateMprotect_derived hask hp)
    · obtain ⟨_, _, _, _, rfl, hp⟩ := hsize
      exact derived (updateSize_derived trivial hp)

end

theorem Sys.WriteXorExecute.answers {s s' : Sys} {e : Op} {r : Resp e} (h : s.WriteXorExecute)
    (hs : s.Step e r s') : Answers e r := by
  obtain ⟨o, ho⟩ := hs
  cases e with
  | lookupAddr addr cid =>
      cases ho
      intro g hg
      exact h.tracker g (List.mem_of_find?_eq_some hg)
  | _ => trivial

theorem Sys.WriteXorExecute.store {s s' : Sys} (h : s.WriteXorExecute) (hs : s.AppStore s') :
    s'.WriteXorExecute := by
  obtain ⟨address, byte, _, rfl⟩ := hs
  exact ⟨h.kernel, h.tracker⟩

/-! ## Runs -/

/-- What a thread may do next: serve a request, or make a page non-executable
that its own breakpoint controller gives up in a round another thread leads. -/
def Starts (p : M Unit) : Prop :=
  (∃ r : Request, p = r.serve) ∨ ∃ address, p = setPageNonExecutable address

theorem Starts.keeps {p : M Unit} (h : Starts p) : Keeps p fun _ => True := by
  rcases h with ⟨r, rfl⟩ | ⟨address, rfl⟩
  · exact r.serve_keeps
  · exact setPageNonExecutable_keeps

/-- What a process can reach from `s₀` while its threads make requests, fault and
have system calls rewritten, interleaved at every operation of the handlers, and
while the application writes to its memory. -/
abbrev ProcessRun {ι : Type} [DecidableEq ι] (s₀ s : Sys) (threads : ι → M Unit) : Prop :=
  Prog.PoolRun Sys.Step Sys.AppStore Starts s₀ s threads

/-- No page of the application is ever writable and executable in the kernel, and
no group of the page manager ever is, in any run from a state in which none is.
At start-up there are no such pages, since none has the application's key and the
page manager is empty. -/
theorem processRun_writeXorExecute {ι : Type} [DecidableEq ι] {s₀ s : Sys} {threads : ι → M Unit}
    (run : ProcessRun s₀ s threads) (h₀ : s₀.WriteXorExecute) : s.WriteXorExecute :=
  (run.inv h₀ (fun _ _ h hs => h.store hs) (fun _ _ _ _ h hs => h.answers hs)
    (fun _ _ _ _ h hask hs => h.step hask hs)
    (fun _ h => h.keeps)).1

theorem Sys.start_writeXorExecute (mem : Mem) : (Sys.start mem).WriteXorExecute :=
  ⟨fun _ _ hp => (nomatch hp), fun _ hg => (nomatch hg)⟩

/-- The application maps a page for writing and execution, gets it without
execution, writes a RET to it, and gets it with execution and without writing once it
jumps there. -/
theorem processRun_writeXorExecute_fault :
    ∃ s, ProcessRun (ι := Unit) (Sys.start fun _ => 0) s (fun _ => .ret ()) ∧
      s.kern.pages 16 = some { prot := PROT_READ ||| PROT_EXEC, key := UNTRUSTED_MPKEY } ∧
      s.WriteXorExecute := by
  let choice (answer : Int) : Oracle := { answer, pool := 0x200000, bytes := fun _ => 0 }
  have h : ((Prog.play Sys.perform Request.serve Sys.appStore
      [.serve (.mmap 0 4096 7 0x22 (-1)) (choice 0x10000 :: List.replicate 3 (choice 0)),
        .act (0x10000, 0xc3),
        .serve (.segv .accErr 0x10000 TS_APPLICATION) (List.replicate 20 (choice 0))]
      (Sys.start fun _ => 0)).map fun s => s.kern.pages 16) =
      some (some { prot := PROT_READ ||| PROT_EXEC, key := UNTRUSTED_MPKEY }) := by
    decide +kernel
  obtain ⟨s, hs, hp⟩ := Option.map_eq_some_iff.mp h
  have run : ProcessRun (Sys.start fun _ => 0) s (fun _ : Unit => .ret ()) :=
    .play Sys.step_of_perform (fun _ _ _ => Sys.appStore_some) (fun r => .inl ⟨r, rfl⟩) () .init hs
  exact ⟨s, run, hp, processRun_writeXorExecute run (Sys.start_writeXorExecute _)⟩

end Secpoline
