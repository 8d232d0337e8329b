import Secpoline.Proofs.Mremap
import Secpoline.Proofs.PageOps
import Secpoline.Proofs.PageProt
import Secpoline.Proofs.System

/-!
# Whose pages they are

Every group of the page manager should belong to the monitor or to the
application, and a mapping that `handle_mremap` moves or resizes should be
recorded for the compartment it was done for.

The owners in the list come from its callers, so it is enough to look at what the
callers pass. Two of them pass the wrong argument. A refill of the free list gives
the flags of its mapping in the place of the owner, so every pool is recorded with
owner 3; and a move to a fixed address gives the flags of the call. The theorem at
the end is about runs without such moves. As long as there is no refill either,
all owners are right; and afterwards 3 is the only other one. A last restriction
is for calls that leave the size as it is, since `update_size` accepts them
without a look at the end of the range.
-/

namespace Secpoline

open Lib

/-- One of the two compartments. -/
def IsCompartment (cid : Int) : Prop := cid = TS_MONITOR ∨ cid = TS_APPLICATION

/-- Every group belongs to one of the compartments. -/
def PageManager.Owned (pm : PageManager) : Prop := ∀ g ∈ pm.pages, IsCompartment g.cid

/-- Every address of the range lies in a group of this owner. -/
def PageManager.Records (pm : PageManager) (start size : Nat) (cid : Int) : Prop :=
  ∀ x, start ≤ x → x < start + size → ∃ g ∈ pm.pages, g.cid = cid ∧ g.start ≤ x ∧ x < g.pageEnd

instance (cid : Int) : Decidable (IsCompartment cid) := inferInstanceAs (Decidable (_ ∨ _))

instance (pm : PageManager) : Decidable pm.Owned :=
  inferInstanceAs (Decidable (∀ g ∈ pm.pages, _))

section
variable {pm pm' : PageManager} {mm start size oldSize newSize n k : Nat} {prot : Prot}
  {flags cid r : Int} {mapFixed multithreaded : Bool} {l l' : List VirtPage} {g p : VirtPage}

theorem owned_iff : pm.Owned ↔ AllAttr (fun _ => True) IsCompartment pm.pages :=
  ⟨fun h g hg => ⟨trivial, h g hg⟩, fun h g hg => (h g hg).2⟩

/-- An owner that is in the list of a run without moves to a fixed address: 3 is
what a refill passes. -/
def IsOwner (cid : Int) : Prop := IsCompartment cid ∨ cid = 3

/-- What holds in a run that began with `n` pools. -/
structure OwnedSince (n : Nat) (pm : PageManager) : Prop where
  pools : n ≤ pm.pools.length
  owners : ∀ g ∈ pm.pages, IsOwner g.cid
  owned : pm.pools.length = n → pm.Owned

/-- A call that brings no other owner into the list than those of `C` and of the
pools. -/
theorem OwnedSince.derived (h : OwnedSince n pm)
    (hd : ∀ C : Int → Prop, (∀ c, IsCompartment c → C c) → Derived (fun _ => True) C pm pm') :
    OwnedSince n pm' := by
  have hcompartment := hd IsCompartment fun _ hc => hc
  have howner := hd IsOwner fun _ hc => .inl hc
  refine ⟨Nat.le_trans h.pools hcompartment.pools, ?_, fun hn => ?_⟩
  · have hall := howner.attr (.inr ⟨trivial, .inr rfl⟩) fun g hg => ⟨trivial, h.owners g hg⟩
    exact fun g hg => (hall g hg).2
  · have hsame : pm.pools.length = n := Nat.le_antisymm (hn ▸ hcompartment.pools) h.pools
    exact owned_iff.mpr (hcompartment.attr (.inl (by omega)) (owned_iff.mp (h.owned hsame)))

theorem OwnedSince.addPage (h : OwnedSince n pm) (hcid : IsCompartment cid)
    (he : addPage multithreaded mm pm start size prot flags cid mapFixed = some (r, pm')) :
    OwnedSince n pm' :=
  h.derived fun _ hC => addPage_derived trivial (hC _ hcid) he

theorem OwnedSince.removePage (h : OwnedSince n pm)
    (he : removePage mm pm start size cid = some (r, pm')) : OwnedSince n pm' :=
  h.derived fun _ _ => removePageLocked_derived he

theorem OwnedSince.updateMprotect (h : OwnedSince n pm)
    (he : updateMprotect mm pm start size prot cid = some (r, pm')) : OwnedSince n pm' :=
  h.derived fun _ _ => updateMprotect_derived trivial he

theorem OwnedSince.updateSize (h : OwnedSince n pm) (hcid : IsCompartment cid)
    (he : updateSize mm pm start oldSize newSize cid = some (r, pm')) : OwnedSince n pm' :=
  h.derived fun _ hC => updateSize_derived (hC _ hcid) he

/-! ## What a call records -/

theorem records_of_group (hg : g ∈ pm.pages) (hcid : g.cid = cid) (hstart : g.start ≤ start)
    (hstop : start + size ≤ g.pageEnd) : pm.Records start size cid :=
  fun _ hle hlt => ⟨g, hg, hcid, Nat.le_trans hstart hle, Nat.lt_of_lt_of_le hlt hstop⟩

/-- A group that was added is in the list. -/
theorem addPage_records (hsize : size % 4096 = 0) (hstop : start + size < 2 ^ 64)
    (he : addPage multithreaded mm pm start size prot flags cid mapFixed = some (0, pm')) :
    pm'.Records start size cid := by
  have hround : roundUp size = size := by
    unfold roundUp
    omega
  cases addPage_ways he with
  | links _ n _ _ _ _ _ _ _ l hlink =>
      rw [if_neg (by decide)]
      refine records_of_group (linkPage_ways hlink).mem rfl (Nat.le_refl _) ?_
      show start + size ≤ wadd start (roundUp size)
      rw [hround]
      unfold wadd
      omega

theorem mem_updateNode {f : VirtPage → VirtPage} (hg : g ∈ l) : f g ∈ updateNode g.node f l :=
  List.mem_map.mpr ⟨g, hg, if_pos rfl⟩

/-- A group whose end, as a word, is the end of the range covers it. -/
theorem records_resized (hmem : { g with size := size } ∈ pm'.pages) (hcid : g.cid = cid)
    (hstart : g.start ≤ start) (hstop : wadd g.start size = start + newSize) :
    pm'.Records start newSize cid :=
  records_of_group hmem hcid hstart (Nat.le_of_eq hstop.symm)

/-- The walk of `lookup_range` from a group that begins before the range. -/
theorem lookupRangeLoop_records {stop : Nat} (hl : ∀ g ∈ l, g ∈ pm.pages)
    (hfirst : ∀ g ∈ l.head?, g.start ≤ start) (h : lookupRangeLoop stop cid l = true) :
    ∀ x, start ≤ x → x < stop → ∃ g ∈ pm.pages, g.cid = cid ∧ g.start ≤ x ∧ x < g.pageEnd := by
  induction l generalizing start with
  | nil => cases h
  | cons g rest ih =>
      intro x hle hlt
      have hg := hl g (.head _)
      have hstart : g.start ≤ x := Nat.le_trans (hfirst g rfl) hle
      rw [lookupRangeLoop.eq_def] at h
      dsimp only at h
      split at h
      · cases h
      rename_i hcid
      have hcid := Decidable.not_not.mp hcid
      by_cases hin : x < g.pageEnd
      · exact ⟨g, hg, hcid, hstart, hin⟩
      split at h
      · omega
      split at h
      · cases h
      split at h
      · cases h
      · rename_i next tail _ hnext
        -- What is left of the range begins where the next group does.
        refine ih (fun g' hg' => hl g' (.tail _ hg')) ?_ h x (Nat.le_of_not_lt hin) hlt
        intro g' hg'
        cases hg'
        exact Nat.le_of_eq (Decidable.not_not.mp hnext)

theorem lookupRange_records (hstop : start + size < 2 ^ 64)
    (h : (lookupRange pm start size cid).join.isSome) : pm.Records start size cid := by
  have hend : wadd start size = start + size := Nat.mod_eq_of_lt hstop
  unfold lookupRange at h
  split at h
  · cases h
  dsimp only at h
  rw [hend] at h
  split at h
  · cases h
  rename_i first rest hdrop
  have hsub : ∀ g ∈ first :: rest, g ∈ pm.pages := by
    rw [← hdrop]
    exact (List.dropWhile_suffix _).subset
  have hfirst : first.start ≤ start := by
    have hnot := List.head?_dropWhile_not (fun g => !virtPageOverlapByte g start) pm.pages
    rw [hdrop] at hnot
    simp [virtPageOverlapByte] at hnot
    exact hnot.1
  split at h
  · cases h
  rename_i hcid
  split at h
  · rename_i hcovers
    exact records_of_group (hsub first (.head _)) (Decidable.not_not.mp hcid) hfirst hcovers
  split at h
  · rename_i hloop
    refine lookupRangeLoop_records hsub ?_ hloop
    intro g hg
    cases hg
    exact hfirst
  · cases h

/-- A size that was changed, or that the group already covered, is recorded. -/
theorem updateSize_records (hcid : cid ≠ -1) (hold : start + oldSize < 2 ^ 64)
    (hnew : start + newSize < 2 ^ 64)
    (hsame : oldSize = newSize → (lookupAddr pm start cid).isSome → pm.Records start newSize cid)
    (he : updateSize mm pm start oldSize newSize cid = some (0, pm')) :
    pm'.Records start newSize cid := by
  have holdEnd : wadd start oldSize = start + oldSize := Nat.mod_eq_of_lt hold
  have hnewEnd : wadd start newSize = start + newSize := Nat.mod_eq_of_lt hnew
  have hfound {g : VirtPage} (hg : lookupAddr pm start cid = some g) :
      g ∈ pm.pages ∧ g.start ≤ start ∧ start < g.pageEnd ∧ g.cid = cid := by
    obtain ⟨hmem, hstart, hstop, hany | hgcid⟩ := lookupAddr_some hg
    · exact absurd hany hcid
    · exact ⟨hmem, hstart, hstop, hgcid⟩
  -- In each case the new end of the group is the new end of the range; the group may
  -- wrap around, so only as a word.
  have hword (g : VirtPage) : g.pageEnd = (g.start + g.size) % 2 ^ 64 := rfl
  cases updateSize_ways he with
  | same g hg heq => exact hsame heq (by rw [hg]; rfl)
  | grows g hg hlt hend hnext =>
      obtain ⟨hmem, hstart, -, hgcid⟩ := hfound hg
      refine records_resized (mem_updateNode hmem) hgcid hstart ?_
      have := hword g
      unfold wadd wsub at *
      omega
  | shrinks g hg hlt hend =>
      obtain ⟨hmem, hstart, -, hgcid⟩ := hfound hg
      refine records_resized (mem_updateNode hmem) hgcid hstart ?_
      have := hword g
      unfold wadd wsub at *
      omega
  | splits g hg hlt hin n pm₁ ha =>
      obtain ⟨hmem, hstart, -, hgcid⟩ := hfound hg
      have hmem₁ := (virtPageAlloc_keeps ha).subset hmem
      refine records_resized (insertAfter_sublist.subset (mem_updateNode hmem₁)) hgcid hstart ?_
      unfold wadd wsub at *
      omega

end

/-! ## Calls -/

/-- The arguments of `handle_mremap`. -/
structure MremapCall where
  start : UInt64
  oldSize : UInt64
  newSize : UInt64
  flags : UInt64
  newStart : UInt64
  cid : Int
deriving DecidableEq, Repr

namespace MremapCall

def program (m : MremapCall) : M Nat :=
  handleMremap m.start.toNat m.oldSize.toNat m.newSize.toNat m.flags.toNat m.newStart.toNat m.cid

/-- The call has a fixed target, and neither its own range nor the state of the
target stops it before the mapping moves. -/
def Reaches (pm : PageManager) (m : MremapCall) : Prop :=
  hasFlag m.flags.toNat MREMAP_MAYMOVE ∧ hasFlag m.flags.toNat MREMAP_FIXED ∧
    (lookupAddr pm m.start.toNat m.cid).isSome ∧
    (lookupRange pm m.newStart.toNat m.newSize.toNat m.cid).join = none

/-- `lookup_range` accepts a range that keeps its size. -/
def Accepted (pm : PageManager) (m : MremapCall) : Prop :=
  m.oldSize = m.newSize → (lookupAddr pm m.start.toNat m.cid).isSome →
    (lookupRange pm m.start.toNat m.newSize.toNat m.cid).join.isSome

end MremapCall

/-- The operation of a call to the page manager. -/
def PageCall.op : PageCall → Op
  | .addPage start size prot flags cid mapFixed =>
      .addPage start.toNat size.toNat prot flags cid mapFixed
  | .removePage start size cid => .removePage start.toNat size.toNat cid
  | .updateMprotect start size prot cid => .updateMprotect start.toNat size.toNat prot cid
  | .updateSize start oldSize newSize cid =>
      .updateSize start.toNat oldSize.toNat newSize.toNat cid

/-- What a run consists of. -/
inductive OwnerAct where
  | call (c : PageCall)
  | mremap (m : MremapCall)
deriving DecidableEq, Repr

/-- The act is done for one of the compartments. -/
def OwnerAct.ForCompartment : OwnerAct → Prop
  | .call c => IsCompartment c.cid
  | .mremap m => IsCompartment m.cid

/-- The act is no `handle_mremap` whose arguments would be mixed up or whose range
would not be looked at. -/
def OwnerAct.InOrder (pm : PageManager) : OwnerAct → Prop
  | .call _ => True
  | .mremap m => ¬ m.Reaches pm ∧ m.Accepted pm

/-- The act can take the process from `s` to `s'`. -/
def OwnerAct.Done (s s' : Sys) : OwnerAct → Prop
  | .call c => ∃ r, s.Step c.op r s'
  | .mremap m => ∃ res, m.program.Runs Sys.Step s res s'

/-- The states that runs reach from `s₀` when every act satisfies `P` in the state
it begins in. -/
inductive OwnerRun (P : PageManager → OwnerAct → Prop) (s₀ : Sys) : Sys → Prop
  | start : OwnerRun P s₀ s₀
  | act {s s' : Sys} {a : OwnerAct} : OwnerRun P s₀ s → P s.pm a → a.Done s s' → OwnerRun P s₀ s'

/-! ## Steps -/

theorem IsCompartment.ne_any {cid : Int} (h : IsCompartment cid) : cid ≠ -1 := by
  rcases h with rfl | rfl <;> decide

section
variable {s s' : Sys} {start oldSize newSize flags newStart n : Nat} {cid : Int} {prot : Prot}

theorem PageCall.owned {c : PageCall} {r : Resp c.op} (h : OwnedSince n s.pm)
    (hcid : IsCompartment c.cid) (hs : s.Step c.op r s') : OwnedSince n s'.pm := by
  rcases hs.tracker with hp | ⟨mm, ret, hadd | hremove | hprotect | hsize⟩
  · rw [hp]
    exact h
  · obtain ⟨_, _, _, _, _, mapFixed, hop, hp⟩ := hadd
    cases c <;> cases hop
    exact h.addPage hcid hp
  · obtain ⟨_, _, _, hop, hp⟩ := hremove
    exact h.removePage hp
  · obtain ⟨_, _, _, _, hop, hp⟩ := hprotect
    exact h.updateMprotect hp
  · obtain ⟨_, _, _, _, hop, hp⟩ := hsize
    cases c <;> cases hop
    exact h.updateSize hcid hp

/-- A word that reports an error. -/
def IsErrorWord (w : Nat) : Prop := 2 ^ 64 - 4096 < w

/-- What `handle_mremap` leaves. -/
def Remapped (n newSize : Nat) (cid : Int) (res : Nat) (s : Sys) : Prop :=
  OwnedSince n s.pm ∧ (¬ IsErrorWord res → s.pm.Records res newSize cid)

theorem remapped_error {e : Int} (h : OwnedSince n s.pm) (he : 0 < e ∧ e < 4096) :
    Remapped n newSize cid (toWord (-e)) s := by
  refine ⟨h, fun hok => absurd ?_ hok⟩
  unfold IsErrorWord toWord
  omega

/-- What is known of a kernel call that was answered without an error. -/
theorem mremap_step {mayMove fixed dontUnmap : Bool} {r : Int}
    (h : s.Step
      (.wrapper (.mremap start oldSize newSize mayMove fixed dontUnmap newStart) cid) r s') :
    s'.pm = s.pm ∧ (IsError r ∨
      (0 ≤ r ∧ InUserSpace start oldSize ∧ InUserSpace r.toNat newSize)) := by
  obtain ⟨k, hk, rfl⟩ := Sys.step_wrapper.mp h
  refine ⟨rfl, ?_⟩
  rcases Kern.apply_mremap_cases hk with ⟨herr, _⟩ | ⟨hr, hold, _, _, _, _, hplace | hmoved⟩
  · exact .inl herr
  · obtain ⟨htarget, _, _, hresized⟩ := hplace
    exact .inr ⟨hr, hold, htarget ▸ hresized.space⟩
  · exact .inr ⟨hr, hold, hmoved.space⟩

/-- The kernel call after `update_size`. An error is never a page aligned
address, so it ends the process. -/
theorem resize_ends {mayMove dontUnmap : Bool} (hstart : start % 4096 = 0)
    (howned : OwnedSince n s.pm) (hrec : start + oldSize < 2 ^ 64 → start + newSize < 2 ^ 64 →
      s.pm.Records start newSize cid) :
    Prog.Post Sys.Step (do
        let r ← perform (.wrapper (.mremap start oldSize newSize mayMove false dontUnmap 0) cid)
        Prog.require (toWord r = start)
        pure start)
      (Remapped n newSize cid) s := by
  rw [Prog.post_seq]
  refine Prog.post_call fun r s' hs => ?_
  obtain ⟨hpm, hr⟩ := mremap_step hs
  rw [Prog.post_seq, Prog.post_require, Prog.post_pure]
  intro hplace
  unfold Remapped
  rw [hpm]
  refine ⟨howned, fun _ => ?_⟩
  rcases hr with herr | ⟨hnonneg, hold, hnew⟩
  · unfold IsError at herr
    unfold toWord at hplace
    omega
  · have htarget : r.toNat = start := by
      have hlt := hnew.stop_lt
      unfold toWord at hplace
      omega
    exact hrec hold.stop_lt (htarget ▸ hnew.stop_lt)

theorem forgetOld_ends {dontUnmap : Bool} (howned : OwnedSince n s.pm) :
    Prog.Post Sys.Step (forgetOld start oldSize cid dontUnmap)
      (fun _ s' => OwnedSince n s'.pm) s := by
  cases dontUnmap with
  | true =>
      refine Prog.post_call fun r s' hs => ?_
      obtain ⟨_, _, _, rfl⟩ := Sys.step_lookupRange.mp hs
      exact howned
  | false =>
      unfold forgetOld
      rw [Prog.post_seq]
      refine Prog.post_call fun r s' hs => ?_
      obtain ⟨mm, pm, hremove, hr⟩ := Sys.step_removePage.mp hs
      rw [Prog.post_pure, hr.pm]
      exact howned.removePage hremove

/-- A move whose new group is recorded for the compartment it is done for. -/
theorem moveMapping_ends {addFlags : Int} (howned : OwnedSince n s.pm) (hcid : IsCompartment cid)
    (hnew : newSize % 4096 = 0) :
    Prog.Post Sys.Step (moveMapping start oldSize newSize flags newStart prot cid addFlags cid)
      (Remapped n newSize cid) s := by
  unfold moveMapping
  rw [Prog.post_seq]
  refine Prog.Post.mono (forgetOld_ends howned) ?_
  intro gone s₁ h₁
  split
  · exact remapped_error h₁ (by decide)
  rw [Prog.post_seq]
  refine Prog.post_call fun r s₂ hs₂ => ?_
  obtain ⟨hpm₂, hr⟩ := mremap_step hs₂
  rw [← hpm₂] at h₁
  rw [Prog.post_seq, Prog.post_require]
  intro _
  rw [Prog.post_seq]
  unfold expectZero
  rw [Prog.post_seq]
  refine Prog.post_call fun ret s₃ hs₃ => ?_
  rw [Prog.post_require, Prog.post_pure]
  intro hret
  subst hret
  obtain ⟨mm, pm, hadd, hrefill⟩ := Sys.step_addPage.mp hs₃
  unfold Remapped
  rw [hrefill.pm]
  refine ⟨h₁.addPage hcid hadd, fun hok => ?_⟩
  rcases hr with herr | ⟨hnonneg, _, hspace⟩
  · unfold IsErrorWord toWord at hok
    unfold IsError at herr
    omega
  · rw [toWord_of_nonneg hnonneg hspace.lt] at hadd ⊢
    exact addPage_records hnew hspace.stop_lt hadd

theorem handleMremap_ends {m : MremapCall} (howned : OwnedSince n s.pm) (hcid : IsCompartment m.cid)
    (horder : (OwnerAct.mremap m).InOrder s.pm) :
    Prog.Post Sys.Step m.program (Remapped n m.newSize.toNat m.cid) s := by
  obtain ⟨hfree, haccepted⟩ := horder
  have einval : Remapped n m.newSize.toNat m.cid (toWord (-EINVAL)) s :=
    remapped_error howned (by decide)
  rw [MremapCall.program, handleMremap_eq ⟨m.start.toNat, m.oldSize.toNat, m.newSize.toNat,
    m.flags.toNat, m.newStart.toNat⟩]
  refine Prog.post_ite (fun _ => einval) fun hp => Prog.post_ite (fun hfixed => ?_) (fun _ => ?_)
  -- With a fixed target the call is refused before it moves anything.
  · rw [MremapArgs.moveFixed, Prog.post_seq]
    refine Prog.post_call fun g s₁ hs₁ => ?_
    obtain ⟨hg, rfl⟩ := Sys.step_lookupAddr.mp hs₁
    split
    · exact einval
    · rw [Prog.post_seq]
      refine Prog.post_call fun taken s₂ hs₂ => ?_
      obtain ⟨found, hrange, htaken, rfl⟩ := Sys.step_lookupRange.mp hs₂
      refine Prog.post_ite (fun _ => remapped_error howned (by decide)) fun hfree' => ?_
      refine absurd ⟨(Decidable.not_not.mp hp).mayMove hfixed, hfixed, ?_, ?_⟩ hfree
      · rw [← hg]
        rfl
      · rw [hrange]
        cases found with
        | none => rfl
        | some _ => exact absurd htaken hfree'
  · have hp := Decidable.not_not.mp hp
    rw [MremapArgs.resizeOrMove, Prog.post_seq]
    refine Prog.post_call fun r s₁ hs₁ => ?_
    obtain ⟨mm, pm, hsize, hr⟩ := Sys.step_updateSize.mp hs₁
    refine Prog.post_ite (fun hzero => ?_) (fun hne => ?_)
    · subst hzero
      refine resize_ends hp.aligned (hr.pm ▸ howned.updateSize hcid hsize) fun hold hnew => ?_
      rw [hr.pm]
      refine updateSize_records hcid.ne_any hold hnew (fun heq hfound => ?_) hsize
      exact lookupRange_records hnew (haccepted (UInt64.toNat_inj.mp heq) hfound)
    · rw [updateSize_refused hne hsize] at hr
      have howned₁ : OwnedSince n s₁.pm := hr.pm ▸ howned
      refine Prog.post_ite (fun _ => ?_) fun _ => remapped_error howned₁ (by decide)
      rw [Prog.post_seq]
      refine Prog.post_call fun g s₂ hs₂ => ?_
      obtain ⟨_, rfl⟩ := Sys.step_lookupAddr.mp hs₂
      split
      · exact remapped_error howned₁ (by decide)
      · exact moveMapping_ends howned₁ hcid hp.newPages

end

/-! ## The result -/

theorem OwnerAct.Done.owned {a : OwnerAct} {s s' : Sys} {n : Nat} (hdone : a.Done s s')
    (h : OwnedSince n s.pm) (hcid : a.ForCompartment) (horder : a.InOrder s.pm) :
    OwnedSince n s'.pm := by
  cases a with
  | call c =>
      obtain ⟨r, hs⟩ := hdone
      exact PageCall.owned h hcid hs
  | mremap m =>
      obtain ⟨res, hruns⟩ := hdone
      exact (hruns.post (handleMremap_ends h hcid horder)).1

theorem OwnerRun.owned {s₀ s : Sys}
    (run : OwnerRun (fun pm a => a.ForCompartment ∧ a.InOrder pm) s₀ s) (h₀ : s₀.pm.Owned) :
    OwnedSince s₀.pm.pools.length s.pm := by
  induction run with
  | start => exact ⟨Nat.le_refl _, fun g hg => .inl (h₀ g hg), fun _ => h₀⟩
  | act _ ha hdone ih => exact hdone.owned ih ha.1 ha.2

/-- In a run whose acts are done for one of the compartments and are in order,
every group belongs to one of them as long as the free list has not been refilled,
3 is the only other owner there ever is, and a `handle_mremap` that succeeds
records its destination for the compartment it was done for. -/
theorem ownerRun_owned {s₀ s : Sys}
    (run : OwnerRun (fun pm a => a.ForCompartment ∧ a.InOrder pm) s₀ s) (h₀ : s₀.pm.Owned) :
    (s.pm.pools = s₀.pm.pools → s.pm.Owned) ∧
    (∀ g ∈ s.pm.pages, IsCompartment g.cid ∨ g.cid = 3) ∧
    ∀ (m : MremapCall) (res : Nat) (s' : Sys), IsCompartment m.cid →
      (OwnerAct.mremap m).InOrder s.pm → m.program.Runs Sys.Step s res s' → ¬ IsErrorWord res →
      s'.pm.Records res m.newSize.toNat m.cid := by
  have howned := run.owned h₀
  refine ⟨fun hpools => howned.owned (congrArg List.length hpools), howned.owners, ?_⟩
  intro m res s' hcid horder hruns hok
  exact (hruns.post (handleMremap_ends howned hcid horder)).2 hok

/-- Three mappings of the application, the second of two pages. -/
def threeMappings : Sys :=
  { Sys.start (fun _ => 0) with
    pm :=
      { pages :=
          [{ start := 0x8000, size := 0x1000, prot := 3, flags := 2, cid := 1, node := 0x200000 },
           { start := 0x10000, size := 0x2000, prot := 3, flags := 2, cid := 1, node := 0x200040 },
           { start := 0x30000, size := 0x1000, prot := 3, flags := 2, cid := 1, node := 0x200080 }]
        freePages := [0x2000c0, 0x200100, 0x200140, 0x200180] }
    kern :=
      { pages := fun p => if p ∈ [8, 16, 17, 48] then some { prot := 3, key := 2 } else none
        mem := fun _ => 0 } }

theorem MremapCall.runs_of_exec {m : MremapCall} {s : Sys} {choices : List Oracle}
    {P : Nat × Sys → Bool} (h : (m.program.exec Sys.perform choices s).any P = true) :
    ∃ res s', m.program.Runs Sys.Step s res s' ∧ P (res, s') = true := by
  obtain ⟨⟨res, s'⟩, hexec, hP⟩ := (Option.any_eq_true _ _).mp h
  exact ⟨res, s', .exec Sys.step_of_perform hexec, hP⟩

/-- The second mapping grows to four pages where it is. -/
theorem ownerRun_owned_grow :
    ∃ s' : Sys, OwnerRun (fun pm a => a.ForCompartment ∧ a.InOrder pm) threeMappings s' ∧
      s'.pm.Owned ∧ s'.pm.Records 0x10000 0x4000 TS_APPLICATION := by
  let m : MremapCall := ⟨0x10000, 0x2000, 0x4000, 1, 0, TS_APPLICATION⟩
  have horder : (OwnerAct.mremap m).InOrder threeMappings.pm :=
    ⟨fun h => absurd h.2.1 (by decide), fun h => absurd h (by decide)⟩
  have hcid : IsCompartment m.cid := by decide
  have howned : threeMappings.pm.Owned := by decide
  have hexec : (m.program.exec Sys.perform (answers [0, 0x10000]) threeMappings).any
      (fun r => r.1 == 0x10000 && r.2.pm.pools == []) = true := by decide +kernel
  obtain ⟨res, s', hruns, hend⟩ := MremapCall.runs_of_exec hexec
  rw [Bool.and_eq_true, beq_iff_eq, beq_iff_eq] at hend
  obtain ⟨rfl, hpools⟩ := hend
  have run : OwnerRun (fun pm a => a.ForCompartment ∧ a.InOrder pm) threeMappings s' :=
    .act (a := .mremap m) .start ⟨hcid, horder⟩ ⟨_, hruns⟩
  refine ⟨s', run, (ownerRun_owned run howned).1 hpools, ?_⟩
  exact (ownerRun_owned .start howned).2.2 m _ s' hcid horder hruns (by unfold IsErrorWord; decide)

/-- The three ways in which a run fails without the restrictions: the first call
refills the free list, and the pool has owner 3; a mapping moves to a fixed
address, where it has its flags for an owner; a range keeps its size although its
second page is not tracked any more. -/
theorem ownerRun_not_owned :
    (∃ s, OwnerRun (fun pm a => a.ForCompartment ∧ a.InOrder pm) (Sys.start fun _ => 0) s ∧
      ¬ s.pm.Owned) ∧
    (∃ s, OwnerRun (fun _ a => a.ForCompartment) threeMappings s ∧
      s.pm.pools = threeMappings.pm.pools ∧ ¬ s.pm.Owned) ∧
    ∃ (s : Sys) (m : MremapCall) (res : Nat) (s' : Sys),
      OwnerRun (fun pm a => a.ForCompartment ∧ a.InOrder pm) threeMappings s ∧
      IsCompartment m.cid ∧ m.program.Runs Sys.Step s res s' ∧ ¬ IsErrorWord res ∧
      ¬ s'.pm.Records res m.newSize.toNat m.cid := by
  refine ⟨?_, ?_, ?_⟩
  · have hperform : ((Sys.start fun _ => 0).perform ⟨0, 0x200000, fun _ => 0⟩
        (.addPage 0x10000 0x1000 3 2 1 false)).any (fun r => !decide r.2.pm.Owned) = true := by
      decide +kernel
    obtain ⟨⟨r, s⟩, hperform, hnot⟩ := (Option.any_eq_true _ _).mp hperform
    refine ⟨s, .act (a := .call (.addPage 0x10000 0x1000 3 2 1 false)) .start ?_
      ⟨r, _, hperform⟩, ?_⟩
    · exact ⟨.inr rfl, trivial⟩
    · simpa using hnot
  · let m : MremapCall := ⟨0x10000, 0x2000, 0x2000, 3, 0x50000, TS_APPLICATION⟩
    have hexec : (m.program.exec Sys.perform (answers [0, 0, 0, 0x50000, 0]) threeMappings).any
        (fun r => r.2.pm.pools == [] && !decide r.2.pm.Owned) = true := by decide +kernel
    obtain ⟨res, s, hruns, hend⟩ := MremapCall.runs_of_exec hexec
    rw [Bool.and_eq_true, beq_iff_eq, Bool.not_eq_true', decide_eq_false_iff_not] at hend
    exact ⟨s, .act (a := .mremap m) .start (.inr rfl) ⟨res, hruns⟩, hend.1, hend.2⟩
  · let m : MremapCall := ⟨0x10000, 0x2000, 0x2000, 0, 0, TS_APPLICATION⟩
    have hperform : (threeMappings.perform ⟨0, 0, fun _ => 0⟩ (.removePage 0x11000 0x1000 1)).any
        (fun r => (m.program.exec Sys.perform (answers [0, 0x10000]) r.2).any fun r' =>
          r'.1 == 0x10000 && r'.2.pm.pages.all fun g =>
            !(decide (g.start ≤ 0x11000) && decide (0x11000 < g.pageEnd))) = true := by
      decide +kernel
    obtain ⟨⟨r, s⟩, hperform, hexec⟩ := (Option.any_eq_true _ _).mp hperform
    obtain ⟨res, s', hruns, hend⟩ := MremapCall.runs_of_exec hexec
    rw [Bool.and_eq_true, beq_iff_eq, List.all_eq_true] at hend
    obtain ⟨rfl, hnone⟩ := hend
    refine ⟨s, m, _, s', ?_, .inr rfl, hruns, by unfold IsErrorWord; decide, ?_⟩
    · exact .act (a := .call (.removePage 0x11000 0x1000 1)) .start ⟨.inr rfl, trivial⟩
        ⟨r, _, hperform⟩
    · intro hrecords
      obtain ⟨g, hg, _, hstart, hstop⟩ := hrecords 0x11000 (by decide) (by decide)
      have hmiss := hnone g hg
      simp only [hstart, hstop, decide_true, Bool.and_self, Bool.not_true] at hmiss
      cases hmiss

end Secpoline
