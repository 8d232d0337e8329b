import Secpoline.Model.Threads
import Secpoline.Proofs.MonitorPages

/-!
# Calls for the application and pages of the monitor: one operation

No call of the kernel that a handler makes for the application should take effect
on a page that is tracked for the monitor. The handlers of `mprotect` and `mremap`
look at the page manager first and call the kernel later, without `mmap_lock`. If
in between another thread unmaps the range and the monitor maps memory there, the
call hits the monitor's memory.

Where the monitor maps no memory while one of these handlers is in progress, pages
never become the monitor's while a handler for the application runs. So whatever a
handler has once found out not to be the monitor's stays so, whatever the other
threads do, and this is all that a handler has to know before it calls the kernel.

This file says what each operation tells a thread, what the thread has to know for
it, and that both are right. The programs and whole runs are in `Isolation.lean`.
-/

namespace Secpoline

open Lib

/-! ## Conditions -/

def Job.mapsForMonitor : Job → Bool
  | .monitorMmap .. => true
  | .mmap .. | .munmap .. | .mprotect .. | .mremap .. | .monitorMunmap .. => false

/-- The monitor does not map memory while a handler is in progress that does not
hold `mmap_lock`. -/
def Apart {ι : Type} (jobs : ι → Option Job) (l : Job) : Prop :=
  ∀ i l', jobs i = some l' →
    (l.mapsForMonitor = true → l'.locked = true) ∧ (l'.mapsForMonitor = true → l.locked = true)

/-- The page manager can do what it is asked to without breaking its list, pools
are mapped away from everything it tracks, and a scan finds nothing that reaches
into a page of the monitor. -/
def Orderly (s : Sys) (o : Oracle) : (e : Op) → Resp e → Prop
  | .addPage .., _ => Fresh s.pm o.pool
  | .removePage start size _, _ => Fresh s.pm o.pool ∧ start + roundUp size < 2 ^ 64
  | .updateMprotect start size _ _, _ =>
      Fresh s.pm o.pool ∧ start + roundUp size < 2 ^ 64 ∧ MprotectPlace s.pm start size
  | .updateSize start oldSize newSize _, _ =>
      Fresh s.pm o.pool ∧ start + oldSize < 2 ^ 64 ∧ start + newSize < 2 ^ 64
  | .readPrev page address _ _, m | .readNext page address _, m =>
      isUnsafe m address = true → ¬ MonitorPage s.pm (page / 4096)
  | _, _ => True

/-- The list is in order, and the monitor owns whole pages, which are mapped. -/
structure Sys.Fenced (s : Sys) : Prop where
  whole : Whole s.pm
  mapped : ∀ p, MonitorPage s.pm p → (s.kern.pages p).isSome = true
  bounded : s.kern.Bounded

/-! ## What a thread knows

A thread that maps memory for the monitor knows of pages that they are mapped, any
other one that they are not the monitor's. -/

def Job.Holds (l : Job) (known : Nat → Prop) (s : Sys) : Prop :=
  ∀ p, known p →
    if l.mapsForMonitor = true then (s.kern.pages p).isSome = true else ¬ MonitorPage s.pm p

/-- The pages that are not the monitor's after the operation. -/
def Op.Clears : (e : Op) → Resp e → Nat → Prop
  | .lookupRange start size cid, b, p =>
      b = true ∧ cid = TS_APPLICATION ∧ InUserSpace start size ∧ inPages start size p = true
  | .lookupAddr addr cid, g, p =>
      cid = TS_APPLICATION ∧ ∃ g', g = some g' ∧ addr ≤ 4096 * p ∧ 4096 * p < g'.pageEnd
  | .addPage start size _ _ cid _, r, p =>
      r = 0 ∧ cid = TS_APPLICATION ∧ size % 4096 = 0 ∧ inPages start size p = true
  | .removePage start size cid, r, p =>
      r ≠ -1 ∧ (cid = TS_APPLICATION ∨ cid = TS_MONITOR) ∧ InUserSpace start size ∧
        inPages start size p = true
  | .readPrev page address _ _, m, p | .readNext page address _, m, p =>
      isUnsafe m address = true ∧ p = page / 4096
  | .wrapper (.mremap _ _ newSize _ _ _ _) _, r, p => 0 ≤ r ∧ inPages r.toNat newSize p = true
  | _, _, _ => False

/-- The pages that the operation maps. -/
def Op.Maps : (e : Op) → Resp e → Nat → Prop
  | .wrapper (.mmap _ size _ _) _, r, p => 0 ≤ r ∧ inPages r.toNat size p = true
  | _, _, _ => False

/-- What the kernel can answer. -/
def KCall.Possible (r : Int) : KCall → Prop
  | .mmap _ size _ _ => 0 ≤ r ∧ InUserSpace r.toNat size ∧ 0 < size
  | .mprotect start size _ _ => r = 0 ∧ InUserSpace start size
  | .munmap start size => r = 0 ∧ InUserSpace start size
  | .mremap start oldSize newSize _ _ _ _ =>
      0 ≤ r ∧ InUserSpace start oldSize ∧ InUserSpace r.toNat newSize

def Op.Possible : (e : Op) → Resp e → Prop
  | .wrapper c _, r | .inline c, r => IsError r ∨ c.Possible r
  | .addPage start .., _ => start % 4096 = 0
  | _, _ => True

/-- What the thread knows after an operation. -/
def Job.after (l : Job) (known : Nat → Prop) (e : Op) (r : Resp e) : Nat → Prop :=
  fun p => known p ∨ if l.mapsForMonitor = true then e.Maps r p else e.Clears r p

/-- What an operation tells the thread. -/
def Job.Learns (l : Job) (known : Nat → Prop) (e : Op) (r : Resp e) (known' : Nat → Prop) : Prop :=
  e.Possible r ∧ known' = l.after known e r

/-- What a thread has to know when it calls the kernel. -/
def Job.AsksCall (l : Job) (known : Nat → Prop) (r : Int) : KCall → Prop
  | .mmap .. => True
  | .mprotect start size _ _ =>
      l.forApplication = true → 0 ≤ r → ∀ p, inPages start size p = true → known p
  | .munmap start size =>
      l.mapsForMonitor = false ∧ (0 ≤ r → ∀ p, inPages start size p = true → known p)
  | .mremap start oldSize _ _ fixed _ _ =>
      l.mapsForMonitor = false ∧ fixed = false ∧
        (0 ≤ r → ∀ p, inPages start oldSize p = true → known p)

/-- The compartment that a job adds memory for. -/
def Job.cid (l : Job) : Int := if l.mapsForMonitor = true then TS_MONITOR else TS_APPLICATION

/-- What it has to know when it performs an operation. -/
def Job.Asks (l : Job) (known : Nat → Prop) : (e : Op) → Resp e → Prop
  | .wrapper c _, r | .inline c, r => l.AsksCall known r c
  | .addPage start size _ _ cid _, _ =>
      0 < size ∧ size % 4096 = 0 ∧ start + size < 2 ^ 64 ∧ cid = l.cid ∧
        (l.mapsForMonitor = true → ∀ p, inPages start size p = true → known p)
  | .removePage .., _ => l.mapsForMonitor = false
  | .updateMprotect _ size _ cid, _ =>
      l.mapsForMonitor = false ∧ cid = TS_APPLICATION ∧ size < 2 ^ 64
  | .updateSize _ _ newSize cid, _ =>
      l.mapsForMonitor = false ∧ cid = TS_APPLICATION ∧ 0 < newSize
  | _, _ => True

/-- No page becomes the monitor's unless the monitor maps memory, and calls for the
application change no page of the monitor. -/
def Job.Good (l : Job) (s : Sys) (e : Op) (r : Resp e) (s' : Sys) : Prop :=
  (l.mapsForMonitor = false → ∀ p, MonitorPage s'.pm p → MonitorPage s.pm p) ∧
    (l.forApplication = true → ∀ p, e.changes r p = true → ¬ MonitorPage s.pm p)

/-! ## Operations

What each operation tells is true, and it keeps the invariant. -/

section
variable {l : Job} {known : Nat → Prop} {s s' : Sys} {start size p : Nat} {cid : Int} {r : Int}

theorem Job.not_mapsForMonitor (h : l.forApplication = true) : l.mapsForMonitor = false := by
  cases l with
  | monitorMmap => cases h
  | mmap | munmap | mprotect | mremap | monitorMunmap => rfl

/-- What the thread knows already is still true. -/
theorem Job.Holds.keep (h : l.Holds known s)
    (hm : l.mapsForMonitor = false → ∀ p, MonitorPage s'.pm p → MonitorPage s.pm p)
    (hk : l.mapsForMonitor = true → ∀ p, (s.kern.pages p).isSome = true →
      (s'.kern.pages p).isSome = true) : l.Holds known s' := by
  intro p hp
  have h₁ := h p hp
  cases hl : l.mapsForMonitor with
  | true =>
      rw [hl, if_pos rfl] at h₁
      rw [if_pos rfl]
      exact hk hl p h₁
  | false =>
      rw [hl, if_neg Bool.false_ne_true] at h₁
      rw [if_neg Bool.false_ne_true]
      exact fun hmon => h₁ (hm hl p hmon)

theorem Job.Holds.learn {e : Op} {r : Resp e} (h : l.Holds known s)
    (hm : l.mapsForMonitor = true → ∀ p, e.Maps r p → (s.kern.pages p).isSome = true)
    (hc : l.mapsForMonitor = false → ∀ p, e.Clears r p → ¬ MonitorPage s.pm p) :
    l.Holds (l.after known e r) s := by
  intro p hp
  rcases hp with hp | hp
  · exact h p hp
  · cases hl : l.mapsForMonitor with
    | true =>
        rw [hl, if_pos rfl] at hp
        exact hm hl p hp
    | false =>
        rw [hl, if_neg Bool.false_ne_true] at hp
        exact hc hl p hp

/-- Only the memory, or nothing at all, has changed. -/
theorem Sys.Fenced.alike (h : s.Fenced) (hpm : s'.pm = s.pm)
    (hpages : s'.kern.pages = s.kern.pages) :
    s'.Fenced := by
  refine ⟨hpm ▸ h.whole, fun p hp => ?_, fun p hp => ?_⟩
  · rw [hpm] at hp
    rw [hpages]
    exact h.mapped p hp
  · rw [hpages] at hp
    exact h.bounded p hp

/-- A range that the page manager has for the application. -/
theorem Sys.Fenced.spare (h : s.Fenced) (hstart : start % 4096 = 0)
    (hrec : s.pm.Records start size TS_APPLICATION) (hp : inPages start size p = true) :
    ¬ MonitorPage s.pm p := by
  rw [inPages_iff] at hp
  unfold pageCount at hp
  exact h.whole.not_monitorPage hrec (by omega) (by omega)

/-! ### Kernel calls -/

/-- The pages that a call takes away, perhaps only to map them again. -/
def KCall.removes (r : Int) : KCall → Nat → Bool
  | .munmap start size, p => decide (0 ≤ r) && inPages start size p
  | .mremap start oldSize _ _ _ _ _, p => decide (0 ≤ r) && inPages start oldSize p
  | .mmap .., _ | .mprotect .., _ => false

theorem Kern.Mapped.first {k : Kern} (h : k.Mapped start size) (hpos : 0 < size) :
    (k.pages (start / 4096)).isSome = true := by
  refine h _ (List.mem_map.mpr ⟨0, List.mem_range.mpr ?_, rfl⟩)
  unfold pageCount
  omega

/-- Every other page stays mapped. -/
theorem Kern.apply_mapped {k k' : Kern} {c : KCall} (h : k.apply r c = some k')
    (hp : (k.pages p).isSome = true) (hr : c.removes r p = false) : (k'.pages p).isSome = true := by
  cases c with
  | mmap start size prot fixed =>
      rcases Kern.apply_mmap_cases h with ⟨_, rfl⟩ | ⟨_, _, _, _, _, rfl⟩
      · exact hp
      · show (if _ then _ else _ : Option KPage).isSome = true
        split
        · rfl
        · exact hp
  | mprotect start size prot key =>
      rcases Kern.apply_mprotect_cases h with ⟨_, rfl⟩ | ⟨_, _, _, rfl⟩
      · exact hp
      · show (if _ then _ else _ : Option KPage).isSome = true
        split
        · rw [Option.isSome_map]
          exact hp
        · exact hp
  | munmap start size =>
      rcases Kern.apply_munmap_cases h with ⟨_, rfl⟩ | ⟨rfl, _, _, rfl⟩
      · exact hp
      · have hout : inPages start size p = false := hr
        show (if _ then _ else _ : Option KPage).isSome = true
        rw [hout, if_neg Bool.false_ne_true]
        exact hp
  | mremap start oldSize newSize mayMove fixed dontUnmap newStart =>
      rcases Kern.apply_mremap_cases h with ⟨_, rfl⟩ | ⟨hnonneg, hold, hpos, _, hmapped, _, hcase⟩
      · exact hp
      have hout : ¬ inPages start oldSize p = true := by
        intro hin
        rw [KCall.removes, hin, decide_eq_true hnonneg] at hr
        cases hr
      have hfirst := hmapped.first hpos
      rcases hcase with ⟨_, _, _, hplace⟩ | hmoved
      · by_cases hle : pageCount newSize ≤ pageCount oldSize
        · rw [hplace.shrink hle]
          show (if _ then _ else _ : Option KPage).isSome = true
          rw [if_neg fun hin => hout ?_]
          · exact hp
          · rw [inPages_group hold.1] at hin
            exact inPages_iff.mpr (by omega)
        · rw [hplace.grow hle]
          show (if _ then _ else _ : Option KPage).isSome = true
          split
          · exact hfirst
          · exact hp
      · rw [hmoved.eq]
        show (if _ then _ else if _ then _ else _ : Option KPage).isSome = true
        split
        · exact hfirst
        · rw [if_neg fun hin => hout hin.1]
          exact hp

/-- What a call needs to know of the monitor's pages, in a state where the thread
knows what it asks for. -/
theorem Job.AsksCall.spare {c : KCall} (hasks : l.AsksCall known r c) (hknown : l.Holds known s)
    (happ : l.mapsForMonitor = false) (hr : c.removes r p = true) : ¬ MonitorPage s.pm p := by
  have hspare : known p → ¬ MonitorPage s.pm p := by
    intro hp
    have := hknown p hp
    rw [happ, if_neg Bool.false_ne_true] at this
    exact this
  cases c with
  | mmap | mprotect => cases hr
  | munmap start size =>
      rw [KCall.removes, Bool.and_eq_true, decide_eq_true_eq] at hr
      exact hspare (hasks.2 hr.1 p hr.2)
  | mremap =>
      rw [KCall.removes, Bool.and_eq_true, decide_eq_true_eq] at hr
      exact hspare (hasks.2.2 hr.1 p hr.2)

/-- `mremap` maps what was its own or was not mapped. -/
theorem Sys.Fenced.mremap {oldSize newSize newStart : Nat} {mayMove fixed dontUnmap : Bool}
    {k' : Kern} (h : s.Fenced)
    (hk : s.kern.apply r (.mremap start oldSize newSize mayMove fixed dontUnmap newStart) = some k')
    (hfixed : fixed = false) (hr : 0 ≤ r)
    (hold : ∀ p, inPages start oldSize p = true → ¬ MonitorPage s.pm p)
    (hp : inPages r.toNat newSize p = true) : ¬ MonitorPage s.pm p := by
  have hfree : ∀ {start' size' : Nat}, s.kern.Unmapped start' size' →
      inPages start' size' p = true → ¬ MonitorPage s.pm p := by
    intro start' size' hun hin hmon
    rw [inPages_iff] at hin
    have hnone := hun p
      (List.mem_map.mpr ⟨p - start' / 4096, List.mem_range.mpr (by omega), by omega⟩)
    have hsome := h.mapped p hmon
    rw [hnone] at hsome
    cases hsome
  rcases Kern.apply_mremap_cases hk with ⟨herr, _⟩ | ⟨_, hspace, _, _, _, _, hcase⟩
  · exact absurd hr (Int.not_le.mpr herr.2)
  rcases hcase with ⟨hplace, _, _, hresized⟩ | hmoved
  · rw [hplace] at hp
    by_cases hin : inPages start oldSize p = true
    · exact hold p hin
    · refine hfree hresized.room (inPages_iff.mpr ?_)
      have hstart := hspace.1
      rw [inPages_iff] at hp hin
      unfold pageCount at hp hin ⊢
      omega
  · exact hfree (hmoved.free (by rw [hfixed]; exact Bool.false_ne_true)) hp

theorem Kern.apply_possible {k k' : Kern} {c : KCall} (h : k.apply r c = some k') :
    IsError r ∨ c.Possible r := by
  cases c with
  | mmap =>
      rcases Kern.apply_mmap_cases h with ⟨herr, _⟩ | ⟨hr, hspace, hpos, _⟩
      · exact .inl herr
      · exact .inr ⟨hr, hspace, hpos⟩
  | mprotect =>
      rcases Kern.apply_mprotect_cases h with ⟨herr, _⟩ | ⟨hr, hspace, _⟩
      · exact .inl herr
      · exact .inr ⟨hr, hspace⟩
  | munmap =>
      rcases Kern.apply_munmap_cases h with ⟨herr, _⟩ | ⟨hr, hspace, _⟩
      · exact .inl herr
      · exact .inr ⟨hr, hspace⟩
  | mremap =>
      rcases Kern.apply_mremap_cases h with ⟨herr, _⟩ | ⟨hr, hold, _, _, _, _, hcase⟩
      · exact .inl herr
      · refine .inr ⟨hr, hold, ?_⟩
        rcases hcase with ⟨hplace, _, _, hresized⟩ | hmoved
        · exact hplace ▸ hresized.space
        · exact hmoved.space

/-- A call to the kernel by a thread that knows what it asks for. -/
theorem kernelCall_verified {c : KCall} {k' : Kern} (h : s.Fenced) (hknown : l.Holds known s)
    (hk : s.kern.apply r c = some k') (hasks : l.AsksCall known r c) :
    ({ s with kern := k' } : Sys).Fenced ∧
      (l.forApplication = true → ∀ p, c.changes r p = true → ¬ MonitorPage s.pm p) ∧
      (l.mapsForMonitor = true → ∀ p, (s.kern.pages p).isSome = true →
        (k'.pages p).isSome = true) := by
  have hremoves : l.mapsForMonitor = true → ∀ p, c.removes r p = false := by
    intro hl p
    cases c with
    | mmap | mprotect => rfl
    | munmap => cases hl.symm.trans hasks.1
    | mremap => cases hl.symm.trans hasks.1
  refine ⟨⟨h.whole, fun p hp => ?_, h.bounded.apply hk⟩, fun happ p hp => ?_, fun hl p hp => ?_⟩
  · refine Kern.apply_mapped hk (h.mapped p hp) ?_
    cases hl : l.mapsForMonitor with
    | true => exact hremoves hl p
    | false =>
        cases hr : c.removes r p with
        | false => rfl
        | true =>
            have hspare : ¬ MonitorPage s.pm p := hasks.spare hknown hl hr
            exact absurd hp hspare
  · have hl := Job.not_mapsForMonitor happ
    cases c with
    | mmap => cases hp
    | mprotect start size =>
        have hp : (decide (0 ≤ r) && inPages start size p) = true := hp
        rw [Bool.and_eq_true, decide_eq_true_eq] at hp
        have hspare := hknown p (hasks happ hp.1 p hp.2)
        rw [hl, if_neg Bool.false_ne_true] at hspare
        exact hspare
    | munmap => exact hasks.spare hknown hl hp
    | mremap start oldSize newSize =>
        have hp :
            (decide (0 ≤ r) && (inPages start oldSize p || inPages r.toNat newSize p)) = true :=
          hp
        rw [Bool.and_eq_true, decide_eq_true_eq, Bool.or_eq_true] at hp
        have hold : ∀ p, inPages start oldSize p = true → ¬ MonitorPage s.pm p := by
          intro p hin
          refine hasks.spare hknown hl ?_
          rw [KCall.removes, Bool.and_eq_true, decide_eq_true_eq]
          exact ⟨hp.1, hin⟩
        rcases hp.2 with hin | hin
        · exact hold p hin
        · exact h.mremap hk hasks.2.1 hp.1 hold hin
  · exact Kern.apply_mapped hk hp (hremoves hl p)

/-! ### Calls to the page manager -/

theorem Sys.Refilled.isSome {mm : Nat} {pm : PageManager} (h : s.Refilled mm pm s')
    (hp : (s.kern.pages p).isSome = true) : (s'.kern.pages p).isSome = true := by
  rcases h with ⟨_, rfl⟩ | ⟨_, k, hk, rfl⟩
  · exact hp
  · exact Kern.apply_mapped hk hp rfl

theorem Sys.Refilled.bounded {mm : Nat} {pm : PageManager} (h : s.Refilled mm pm s')
    (hb : s.kern.Bounded) : s'.kern.Bounded := by
  rcases h with ⟨_, rfl⟩ | ⟨_, k, hk, rfl⟩
  · exact hb
  · exact hb.apply hk

/-- A call that leaves the monitor's pages, or takes some of them away. -/
theorem Sys.Fenced.tracker {mm : Nat} {pm : PageManager} (h : s.Fenced) (hr : s.Refilled mm pm s')
    (hw : Whole pm) (hm : ∀ x, MonitorAt pm x → MonitorAt s.pm x) :
    s'.Fenced ∧ ∀ p, MonitorPage s'.pm p → MonitorPage s.pm p := by
  have hpm := hr.pm
  have hpages : ∀ p, MonitorPage s'.pm p → MonitorPage s.pm p := by
    intro p hp
    rw [hpm, hw.monitorPage_iff] at hp
    exact h.whole.monitorPage_iff.mpr (hm _ hp)
  exact ⟨⟨hpm ▸ hw, fun p hp => hr.isSome (h.mapped p (hpages p hp)), hr.bounded h.bounded⟩, hpages⟩

/-- What is to be shown of an operation. -/
structure Job.Keeps (l : Job) (s : Sys) (e : Op) (r : Resp e) (s' : Sys) : Prop where
  fenced : s'.Fenced
  fewer : l.mapsForMonitor = false → ∀ p, MonitorPage s'.pm p → MonitorPage s.pm p
  mapped : l.mapsForMonitor = true → ∀ p, (s.kern.pages p).isSome = true →
    (s'.kern.pages p).isSome = true
  changes : l.forApplication = true → ∀ p, e.changes r p = true → ¬ MonitorPage s.pm p
  maps : l.mapsForMonitor = true → ∀ p, e.Maps r p → (s'.kern.pages p).isSome = true
  clears : l.mapsForMonitor = false → ∀ p, e.Clears r p → ¬ MonitorPage s'.pm p

theorem Job.Keeps.holds {e : Op} {r : Resp e} (h : l.Keeps s e r s') (hknown : l.Holds known s) :
    s'.Fenced ∧ l.Good s e r s' ∧ l.Holds (l.after known e r) s' :=
  ⟨h.fenced, ⟨h.fewer, h.changes⟩, (hknown.keep h.fewer h.mapped).learn h.maps h.clears⟩

/-- An operation that leaves the page manager and the kernel's pages alone. -/
theorem Job.Keeps.alike {e : Op} {r : Resp e} (h : s.Fenced) (hpm : s'.pm = s.pm)
    (hpages : s'.kern.pages = s.kern.pages) (hchanges : ∀ p, e.changes r p = false)
    (hmaps : ∀ p, ¬ e.Maps r p) (hclears : ∀ p, e.Clears r p → ¬ MonitorPage s.pm p) :
    l.Keeps s e r s' where
  fenced := h.alike hpm hpages
  fewer := fun _ p hp => hpm ▸ hp
  mapped := fun _ p hp => hpages ▸ hp
  changes := fun _ p hp => absurd hp (by rw [hchanges p]; exact Bool.false_ne_true)
  maps := fun _ p hp => absurd hp (hmaps p)
  clears := fun _ p hp => hpm ▸ hclears p hp

/-- A call to the page manager that adds nothing to the monitor's memory. -/
theorem Job.Keeps.tracker {e : Op} {r : Resp e} {mm : Nat} {pm : PageManager} (h : s.Fenced)
    (hr : s.Refilled mm pm s') (hw : Whole pm) (hm : ∀ x, MonitorAt pm x → MonitorAt s.pm x)
    (hchanges : ∀ p, e.changes r p = false) (hmaps : ∀ p, ¬ e.Maps r p)
    (hclears : ∀ p, e.Clears r p → ¬ MonitorPage s'.pm p) : l.Keeps s e r s' where
  fenced := (h.tracker hr hw hm).1
  fewer := fun _ => (h.tracker hr hw hm).2
  mapped := fun _ _ hp => hr.isSome hp
  changes := fun _ p hp => absurd hp (by rw [hchanges p]; exact Bool.false_ne_true)
  maps := fun _ p hp => absurd hp (hmaps p)
  clears := fun _ p hp => hclears p hp

theorem kernelCall_keeps {e : Op} {c : KCall} {k' : Kern} {r : Resp e} {a : Int} (h : s.Fenced)
    (hknown : l.Holds known s) (hk : s.kern.apply a c = some k') (hasks : l.AsksCall known a c)
    (hchanges : ∀ p, e.changes r p = c.changes a p)
    (hmaps : ∀ p, e.Maps r p → ∃ start size prot fixed, c = .mmap start size prot fixed ∧
      0 ≤ a ∧ inPages a.toNat size p = true)
    (hclears : ∀ p, e.Clears r p → ∃ start oldSize newSize mayMove fixed dontUnmap newStart,
      c = .mremap start oldSize newSize mayMove fixed dontUnmap newStart ∧ 0 ≤ a ∧
        inPages a.toNat newSize p = true) :
    l.Keeps s e r { s with kern := k' } := by
  obtain ⟨hfenced, hspare, hmapped⟩ := kernelCall_verified h hknown hk hasks
  refine ⟨hfenced, fun _ p hp => hp, hmapped, fun happ p hp => ?_, fun _ p hp => ?_,
    fun hl p hp => ?_⟩
  · rw [hchanges] at hp
    exact hspare happ p hp
  · obtain ⟨start, size, prot, fixed, rfl, hnonneg, hin⟩ := hmaps p hp
    rcases Kern.apply_mmap_cases hk with ⟨herr, _⟩ | ⟨_, _, _, _, _, rfl⟩
    · exact absurd hnonneg (Int.not_le.mpr herr.2)
    · show (if _ then _ else _ : Option KPage).isSome = true
      rw [if_pos hin]
      rfl
  · obtain ⟨start, oldSize, newSize, mayMove, fixed, dontUnmap, newStart, rfl, hnonneg, hin⟩ :=
      hclears p hp
    refine h.mremap hk hasks.2.1 hnonneg (fun p hp => ?_) hin
    have hspare := hknown p (hasks.2.2 hnonneg p hp)
    rw [hl, if_neg Bool.false_ne_true] at hspare
    exact hspare

theorem addPage_keeps {prot : Prot} {flags : Int} {mapFixed : Bool} {o : Oracle} {pm : PageManager}
    (h : s.Fenced) (hknown : l.Holds known s)
    (hadd : addPage s.multithreaded o.pool s.pm start size prot flags cid mapFixed = some (r, pm))
    (hr : s.Refilled o.pool pm s') (hfresh : Fresh s.pm o.pool)
    (hasks : l.Asks known (.addPage start size prot flags cid mapFixed) r) :
    l.Keeps s (.addPage start size prot flags cid mapFixed) r s' := by
  obtain ⟨hpos, hsize, hstop, hcid, hmonitor⟩ := hasks
  have hround : roundUp size = size := roundUp_of_dvd hsize (by omega)
  have hstart := addPage_aligned hadd
  obtain ⟨hinv, hm⟩ := addPage_monitorAt h.whole hfresh (by omega) (by omega) hadd
  rw [hround] at hm
  have hwhole : Whole pm := by
    refine Whole.paint (start + size) (r = 0 ∧ cid = TS_MONITOR) h.whole hinv hstart (by omega)
      (.inl fun x => ?_)
    rw [hm x, and_assoc]
  have hpm := hr.pm
  cases hl : l.mapsForMonitor with
  | false =>
      rw [Job.cid, hl, if_neg Bool.false_ne_true] at hcid
      have hless : ∀ x, MonitorAt pm x → MonitorAt s.pm x := fun x hx =>
        ((hm x).mp hx).resolve_right fun hn => absurd (hcid.symm.trans hn.2.1) (by decide)
      refine .tracker h hr hwhole hless (fun _ => rfl) (fun _ => id) fun p hp => ?_
      obtain ⟨rfl, rfl, _, hin⟩ := hp
      have hfenced := (h.tracker hr hwhole hless).1
      exact hfenced.spare hstart (hpm ▸ addPage_records hsize hstop hadd) hin
  | true =>
      refine ⟨⟨hpm ▸ hwhole, fun p hp => ?_, hr.bounded h.bounded⟩, fun hf => ?_,
        fun _ p hp => hr.isSome hp, fun happ => ?_, fun _ _ hp => hp.elim, fun hf => ?_⟩
      · rw [hpm, hwhole.monitorPage_iff, hm] at hp
        rcases hp with hp | ⟨_, _, hlo, hhi⟩
        · exact hr.isSome (h.mapped p (h.whole.monitorPage_iff.mpr hp))
        · have hin : inPages start size p = true := by
            rw [inPages_iff]
            unfold pageCount
            omega
          have hmapped := hknown p (hmonitor hl p hin)
          rw [hl, if_pos rfl] at hmapped
          exact hr.isSome hmapped
      · cases hl.symm.trans hf
      · cases hl.symm.trans (Job.not_mapsForMonitor happ)
      · cases hl.symm.trans hf

theorem removePage_keeps {o : Oracle} {pm : PageManager} (h : s.Fenced)
    (hrem : removePage o.pool s.pm start size cid = some (r, pm)) (hr : s.Refilled o.pool pm s')
    (hfresh : Fresh s.pm o.pool) (hw : start + roundUp size < 2 ^ 64) :
    l.Keeps s (.removePage start size cid) r s' := by
  obtain ⟨hinv, hm, howned⟩ := removePage_monitorAt h.whole hfresh hw hrem
  have hless : ∀ x, MonitorAt pm x → MonitorAt s.pm x := fun x hx => ((hm x).mp hx).1
  have hwhole : Whole pm := by
    by_cases hne : r = -1
    · refine h.whole.congr hinv fun x => ?_
      rw [hm x]
      exact and_iff_left fun hn => hn.1 hne
    · obtain ⟨hstart, _, _⟩ := howned hne
      have hround : roundUp size % 4096 = 0 := roundUp_aligned
      refine Whole.paint (start + roundUp size) (r ≠ -1 ∧ cid = TS_MONITOR) h.whole hinv hstart
        (by omega) (.inr fun x => ?_)
      rw [hm x, and_assoc]
  refine .tracker h hr hwhole hless (fun _ => rfl) (fun _ => id) fun p hp => ?_
  obtain ⟨hne, hcid, hspace, hin⟩ := hp
  obtain ⟨hstart, _, howned⟩ := howned hne
  have hrange : start ≤ 4096 * p ∧ 4096 * p < start + roundUp size := by
    rw [inPages_iff] at hin
    unfold InUserSpace taskSize at hspace
    unfold pageCount at hin hspace
    unfold roundUp
    omega
  rw [hr.pm, hwhole.monitorPage_iff, hm]
  intro hmon
  rcases hcid with rfl | rfl
  · obtain ⟨q, hq, hcid⟩ := howned (4096 * p) hrange.1 hrange.2
    refine h.whole.not_monitorAt hq ?_ hmon.1
    rw [hcid]
    decide
  · exact hmon.2 ⟨hne, rfl, hrange⟩

theorem lookupAddr_keeps {addr : Nat} {g : Option VirtPage} (h : s.Fenced)
    (hg : g = lookupAddr s.pm addr cid) : l.Keeps s (.lookupAddr addr cid) g s := by
  refine .alike h rfl rfl (fun _ => rfl) (fun _ => id) fun p hp => ?_
  obtain ⟨rfl, g', rfl, hlo, hhi⟩ := hp
  obtain ⟨hmem, hstart, _, hcid⟩ := lookupAddr_some hg.symm
  rw [h.whole.monitorPage_iff]
  rw [h.whole.inv.wf.pageEnd hmem] at hhi
  refine h.whole.not_monitorAt ⟨g', hmem, by omega, hhi, rfl⟩ ?_
  rw [show g'.attr.cid = g'.cid from rfl, hcid.resolve_left (by decide)]
  decide

theorem lookupRange_keeps {b : Bool} {found : Option VirtPage} (h : s.Fenced)
    (hfound : lookupRange s.pm start size cid = some found) (hb : b = found.isSome) :
    l.Keeps s (.lookupRange start size cid) b s := by
  refine .alike h rfl rfl (fun _ => rfl) (fun _ => id) fun p hp => ?_
  obtain ⟨htrue, rfl, hspace, hin⟩ := hp
  refine h.spare hspace.1 (lookupRange_records hspace.stop_lt ?_) hin
  rw [hfound]
  exact hb.symm.trans htrue

/-- What an operation tells is true, and it keeps the invariant if the thread knows
what it asks for. -/
theorem Job.Step.verified {e : Op} {r : Resp e} (h : s.Fenced) (hknown : l.Holds known s)
    (hs : l.Step Orderly s e r s') :
    e.Possible r ∧ (l.Asks known e r → l.Keeps s e r s') := by
  obtain ⟨o, ho, horder⟩ := hs
  cases e with
  | inline c =>
      obtain ⟨_, k, hk, rfl⟩ := Sys.kernelCall_iff.mp ho
      refine ⟨Kern.apply_possible hk, fun hasks => ?_⟩
      exact kernelCall_keeps h hknown hk hasks (fun _ => rfl) (fun _ => False.elim) fun _ =>
        False.elim
  | wrapper c cid =>
      obtain ⟨_, k, hk, rfl⟩ := Sys.kernelCall_iff.mp ho
      refine ⟨Kern.apply_possible hk, fun hasks => ?_⟩
      refine kernelCall_keeps h hknown hk hasks (fun _ => rfl) (fun p hp => ?_) fun p hp => ?_
      · cases c with
        | mmap => exact ⟨_, _, _, _, rfl, hp⟩
        | mprotect | munmap | mremap => exact hp.elim
      · cases c with
        | mremap => exact ⟨_, _, _, _, _, _, _, rfl, hp⟩
        | mmap | mprotect | munmap => exact hp.elim
  | addPage start size prot flags cid mapFixed =>
      obtain ⟨pm, hadd, hr⟩ := Sys.pageCall_iff.mp ho
      exact ⟨addPage_aligned hadd, fun hasks => addPage_keeps h hknown hadd hr horder hasks⟩
  | removePage start size cid =>
      obtain ⟨pm, hrem, hr⟩ := Sys.pageCall_iff.mp ho
      exact ⟨trivial, fun _ => removePage_keeps h hrem hr horder.1 horder.2⟩
  | updateMprotect start size prot cid =>
      obtain ⟨pm, hupdate, hr⟩ := Sys.pageCall_iff.mp ho
      refine ⟨trivial, fun hasks => ?_⟩
      obtain ⟨_, hcid, hsize⟩ := hasks
      obtain ⟨hfresh, hw, hplace⟩ := horder
      obtain ⟨hinv, hm⟩ := updateMprotect_monitorAt h.whole hfresh (by omega) hsize hw hplace
        (hcid ▸ by decide) hupdate
      exact .tracker h hr (h.whole.congr hinv hm) (fun x => (hm x).mp) (fun _ => rfl) (fun _ => id)
        fun _ => False.elim
  | updateSize start oldSize newSize cid =>
      obtain ⟨pm, hupdate, hr⟩ := Sys.pageCall_iff.mp ho
      refine ⟨trivial, fun hasks => ?_⟩
      obtain ⟨_, hcid, hnew⟩ := hasks
      obtain ⟨hfresh, hwo, hwn⟩ := horder
      obtain ⟨hinv, hm⟩ := updateSize_monitorAt h.whole hfresh hnew hwo hwn (hcid ▸ by decide)
        (hcid ▸ by decide) hupdate
      exact .tracker h hr (h.whole.congr hinv hm) (fun x => (hm x).mp) (fun _ => rfl) (fun _ => id)
        fun _ => False.elim
  | lookupAddr addr cid =>
      obtain ⟨hg, rfl⟩ := Sys.step_lookupAddr.mp ⟨o, ho⟩
      exact ⟨trivial, fun _ => lookupAddr_keeps h hg⟩
  | lookupRange start size cid =>
      obtain ⟨found, hfound, hb, rfl⟩ := Sys.step_lookupRange.mp ⟨o, ho⟩
      exact ⟨trivial, fun _ => lookupRange_keeps h hfound hb⟩
  | readPrev page address | readNext page address =>
      cases ho
      refine ⟨trivial, fun _ => .alike h rfl rfl (fun _ => rfl) (fun _ => id) fun p hp => ?_⟩
      obtain ⟨hfound, rfl⟩ := hp
      exact horder hfound
  | addUnsafePage | updateUnsafePage =>
      obtain ⟨_, _, hs⟩ := Option.map_eq_some_iff.mp ho
      cases hs
      exact ⟨trivial, fun _ => .alike h rfl rfl (fun _ => rfl) (fun _ => id) fun _ => False.elim⟩
  | updateUnsafeInstruction =>
      obtain ⟨_, _, _, _, rfl⟩ := Sys.step_updateUnsafeInstruction.mp ⟨o, ho⟩
      exact ⟨trivial, fun _ => .alike h rfl rfl (fun _ => rfl) (fun _ => id) fun _ => False.elim⟩
  | lockUnsafePages | checkReadable | scan =>
      rw [Sys.perform] at ho
      split at ho <;> cases ho
      exact ⟨trivial, fun _ => .alike h rfl rfl (fun _ => rfl) (fun _ => id) fun _ => False.elim⟩
  | rewriteSyscall address =>
      cases ho
      have hsame : (s.rewrite address).pm = s.pm ∧
          (s.rewrite address).kern.pages = s.kern.pages := by
        unfold Sys.rewrite
        split <;> exact ⟨rfl, rfl⟩
      exact ⟨trivial, fun _ => .alike h hsame.1 hsame.2 (fun _ => rfl) (fun _ => id)
        fun _ => False.elim⟩
  | readFile | isMultithreaded | setMultithreaded | lookupRangeAllowGaps | findUnsafePage
  | setCurrentPerm | unlockUnsafePages | hardwareBreakpoints | setHardwareBreakpoints =>
      cases ho
      exact ⟨trivial, fun _ => .alike h rfl rfl (fun _ => rfl) (fun _ => id) fun _ => False.elim⟩

end

end Secpoline
