import Secpoline.Proofs.Mremap
import Secpoline.Proofs.Scan
import Secpoline.Proofs.ScanLoops
import Secpoline.Proofs.System
import Secpoline.Proofs.UnsafePages

/-!
# Recorded instructions are watched

An entry of `unsafe_pages` whose `current_perm` has the execute bit should have
all of its instructions under a breakpoint. `add_breakpoint_wrapper` is what
brings this about, and it does nothing for an entry that has the execute bit
already; so whatever makes the scanner write an entry with the execute bit set
leaves its instructions unwatched. The scanner is called in that way for the
pages of the segfault handler, and for a page that was writable and is now to be
executed. Moreover an instruction that is found across a page boundary is added
to an existing entry without counting it, and without a look at its protection.

Apart from these cases the property holds in every run, which is shown here: the
list of entries is in order, every dynamic record of a controller belongs to one
page, and an evicted page loses the execute bit before its record is dropped.
-/

namespace Secpoline

open Lib

/-- Every instruction recorded for a page that counts as executable is watched. -/
def Sys.Watched (s : Sys) : Prop :=
  ∀ e ∈ s.unsafePages, e.currentPerm.isExec = true → ∀ a ∈ e.instructions, a ∈ s.hb.watched

instance (s : Sys) : Decidable s.Watched := inferInstanceAs (Decidable (∀ e ∈ s.unsafePages, _))

/-- The scanner finds nothing if it is called with an executable `unsafe_perm`; and
what it finds across a page boundary is listed already, if the page has an entry. -/
def Op.Calm (s : Sys) : Op → Prop
  | .readPrev page address unsafePerm _ | .readNext page address unsafePerm =>
      isUnsafe s.kern.mem address = true → ¬ unsafePerm.isExec = true ∧
        ∀ e ∈ s.unsafePages, e.address = page → address ∈ e.instructions
  | .scan page whitelist unsafePerm =>
      unsafePerm.isExec = true → scanPage s.kern.mem whitelist page = []
  | _ => True

instance (s : Sys) (e : Op) : Decidable (e.Calm s) :=
  match e with
  | .readPrev .. | .readNext .. => inferInstanceAs (Decidable (_ → _ ∧ ∀ e ∈ s.unsafePages, _))
  | .scan .. => inferInstanceAs (Decidable (_ → _))
  | .inline _ | .wrapper .. | .readFile .. | .isMultithreaded | .setMultithreaded | .lookupAddr ..
  | .lookupRange .. | .lookupRangeAllowGaps .. | .addPage .. | .removePage .. | .updateMprotect ..
  | .updateSize .. | .findUnsafePage _ | .addUnsafePage .. | .updateUnsafePage ..
  | .updateUnsafeInstruction .. | .setCurrentPerm .. | .lockUnsafePages | .unlockUnsafePages
  | .hardwareBreakpoints | .setHardwareBreakpoints _ | .checkReadable _ | .rewriteSyscall _ =>
      .isTrue trivial

/-- An operation of a scan that meets the condition. -/
def CalmStep (s : Sys) (e : Op) (r : Resp e) (s' : Sys) : Prop := e.Calm s ∧ s.Step e r s'

/-- What is kept: the property, and what it rests on. -/
structure Sys.Guarded (s : Sys) : Prop where
  bounded : s.kern.Bounded
  entries : SoundList s.unsafePages
  records : ∀ r ∈ s.hb.dynamicHbreakpoints, ∀ a ∈ r, ∀ b ∈ r, a / 4096 = b / 4096
  watched : s.Watched

section
variable {s s' : Sys} {prot unsafeProt : Prot}
  {start size key address : Nat} {flags cid : Int} {mapFixed trustedPage : Bool}
  {whitelist : List Nat}

theorem calm_perform {e : Op} {Q : Resp e → Sys → Prop}
    (h : ∀ r s', e.Calm s → s.Step e r s' → Q r s') : Prog.Post CalmStep (perform e) Q s :=
  Prog.post_call fun r s' hs => h r s' hs.1 hs.2

theorem calm_bounded {α : Type} {p : M α} (h : s.kern.Bounded) :
    Prog.Post CalmStep p (fun _ s' => s'.kern.Bounded) s :=
  Prog.post_invariant (fun _ _ _ _ hb hs => hs.2.bounded hb) h

/-! ## Operations that leave the lists alone -/

/-- The lists are the same, and everything mapped is still in user space. -/
structure Sys.Alike (s s' : Sys) : Prop where
  bounded : s'.kern.Bounded
  unsafePages : s'.unsafePages = s.unsafePages
  hb : s'.hb = s.hb

theorem Sys.Alike.trans {s₁ s₂ s₃ : Sys} (h₁ : s₁.Alike s₂) (h₂ : s₂.Alike s₃) : s₁.Alike s₃ :=
  ⟨h₂.bounded, h₂.unsafePages.trans h₁.unsafePages, h₂.hb.trans h₁.hb⟩

theorem Sys.Step.alike {e : Op} {r : Resp e} (h : s.Step e r s') (he : e.listFree = true)
    (hb : s.kern.Bounded) : s.Alike s' :=
  ⟨h.bounded hb, (h.lists he).1, (h.lists he).2⟩

theorem Sys.Guarded.alike (h : s.Guarded) (hs : s.Alike s') : s'.Guarded := by
  obtain ⟨hbounded, hl, hhb⟩ := hs
  refine ⟨hbounded, ?_, ?_, ?_⟩
  · rw [hl]
    exact h.entries
  · rw [hhb]
    exact h.records
  · unfold Sys.Watched
    rw [hl, hhb]
    exact h.watched

theorem Sys.Guarded.step {e : Op} {r : Resp e} (h : s.Guarded) (he : e.listFree = true)
    (hs : s.Step e r s') : s'.Guarded :=
  h.alike (hs.alike he h.bounded)

theorem calm_free (e : Op) {Q : Resp e → Sys → Prop} (he : e.listFree = true) (h : s.Guarded)
    (hQ : ∀ r s', s.Step e r s' → s'.Guarded → Q r s') : Prog.Post CalmStep (perform e) Q s :=
  calm_perform fun r s' _ hs => hQ r s' hs (h.step he hs)

theorem calm_expectZero {p : M Int} {Q : Unit → Sys → Prop}
    (h : Prog.Post CalmStep p (fun _ s' => Q () s') s) : Prog.Post CalmStep (expectZero p) Q s :=
  post_expectZero.mpr (h.mono fun _ _ hq _ => hq)

theorem addGroup_guarded (h : s.Guarded) :
    Prog.Post CalmStep (addGroup start size prot flags cid mapFixed key)
      (fun _ s' => s'.Guarded) s := by
  unfold addGroup
  rw [Prog.post_seq]
  refine calm_expectZero (calm_free _ rfl h fun _ s' _ h => ?_)
  exact calm_expectZero (calm_free _ rfl h fun _ _ _ h => h)

theorem protectGroup_guarded (h : s.Guarded) :
    Prog.Post CalmStep (protectGroup start size prot cid) (fun _ s' => s'.Guarded) s := by
  unfold protectGroup
  rw [Prog.post_seq]
  refine calm_expectZero (calm_free _ rfl h fun _ s' _ h => ?_)
  exact calm_expectZero (calm_free _ rfl h fun _ _ _ h => h)

theorem secpolineMprotect_alike (h : s.kern.Bounded) :
    Prog.Post CalmStep (secpolineMprotect address size prot cid) (fun _ s' => s.Alike s') s := by
  unfold secpolineMprotect
  rw [Prog.post_seq]
  refine calm_perform fun _ s₁ _ hs => ?_
  have h₁ := hs.alike rfl h
  refine Prog.post_whenever.mpr ⟨fun _ => ?_, fun _ => h₁⟩
  refine calm_expectZero (calm_perform fun _ s₂ _ hs => ?_)
  exact h₁.trans (hs.alike rfl h₁.bounded)

/-! ## The scanner -/

theorem erimPrev_ensures {perm : Prot} {prev : Prev} (ha : start % 4096 = 0)
    (hprev : ∀ p, prev = .page p → p % 4096 = 0) :
    Prog.Post CalmStep (erimPrev start perm trustedPage prev)
      (fun nb s' => s' = s ∧ (∀ p, nb.prev = some p → p % 4096 = 0) ∧ nb.next = none) s := by
  cases prev with
  | null =>
      refine Prog.post_ite (fun _ => ?_) (fun _ => ⟨rfl, fun _ hp => (nomatch hp), rfl⟩)
      rw [Prog.post_seq]
      refine calm_perform fun g s' _ hs => ?_
      obtain ⟨_, rfl⟩ := Sys.step_lookupAddr.mp hs
      split
      · refine ⟨rfl, fun p hp => ?_, rfl⟩
        rw [← Option.some.inj hp]
        omega
      · exact ⟨rfl, fun _ hp => (nomatch hp), rfl⟩
  | page q =>
      refine ⟨rfl, fun p hp => ?_, rfl⟩
      cases hp
      exact hprev _ rfl
  | flagged => trivial

theorem wadd_aligned (ha : start % 4096 = 0) : wadd start 4096 % 4096 = 0 := by
  unfold wadd
  omega

theorem erimNext_ensures {before : Neighbour} (ha : start % 4096 = 0)
    (hbefore : ∀ p, before.prev = some p → p % 4096 = 0) (hnone : before.next = none) :
    Prog.Post CalmStep (erimNext start before) (fun nb s' => s' = s ∧
      (∀ p, nb.prev = some p → p % 4096 = 0) ∧ ∀ p, nb.next = some p → p % 4096 = 0) s := by
  unfold erimNext
  rw [Prog.post_seq]
  refine calm_perform fun g s' _ hs => ?_
  obtain ⟨_, rfl⟩ := Sys.step_lookupAddr.mp hs
  split
  · refine ⟨rfl, hbefore, fun p hp => ?_⟩
    rw [← Option.some.inj hp]
    exact wadd_aligned ha
  · refine ⟨rfl, hbefore, fun p hp => ?_⟩
    rw [hnone] at hp
    cases hp

/-- What a scan finds across a boundary is listed, or makes an entry that does not
count as executable. -/
theorem updateUnsafeInstruction_guarded {page instruction : Nat} {perm unsafePerm : Prot}
    {r : Unit} (h : s.Guarded) (ha : page % 4096 = 0)
    (hcalm : ¬ unsafePerm.isExec = true ∧
      ∀ e ∈ s.unsafePages, e.address = page → instruction ∈ e.instructions)
    (hs : s.Step (.updateUnsafeInstruction page instruction unsafePerm perm trustedPage) r s') :
    s'.Guarded := by
  obtain ⟨hle, hlt, l, hl, rfl⟩ := Sys.step_updateUnsafeInstruction.mp hs
  rcases updateUnsafeInstruction_cases ha h.entries.nodup hl with ⟨e, he, hea, _, hin⟩ | hadd
  · rw [hin (hcalm.2 e he hea)]
    exact h
  · have hrep := addUnsafePage_replaced h.entries.nodup hadd
    refine ⟨h.bounded, hrep.sound h.entries ⟨ha, rfl, fun a hin => ?_⟩, h.records, ?_⟩
    · cases List.mem_singleton.mp hin
      show instruction / 4096 * 4096 = page
      omega
    · exact hrep.covered h.watched fun hexec => absurd hexec hcalm.1

theorem erimScanPrev_guarded {perm unsafePerm : Prot} {nb : Neighbour} {prev : Prev}
    (h : s.Guarded) (hnb : ∀ p, nb.prev = some p → p % 4096 = 0) :
    Prog.Post CalmStep (erimScanPrev start nb perm unsafePerm trustedPage prev)
      (fun _ s' => s'.Guarded) s := by
  unfold erimScanPrev
  split
  · rename_i prevPage hprev
    refine Prog.post_fold (fun _ _ (s' : Sys) => s'.Guarded) (fun offset _ prev s h => ?_) h
    unfold erimScanPrevByte
    rw [Prog.post_seq]
    refine calm_perform fun m s' hcalm hs => ?_
    obtain ⟨rfl, rfl⟩ := Sys.step_readPrev.mp hs
    refine Prog.post_ite (fun hin => ?_) (fun _ => h)
    rw [Prog.post_seq]
    refine calm_perform fun _ s' _ hs => ?_
    have h := updateUnsafeInstruction_guarded h (hnb _ (nonNull_some.mp hprev).1) (hcalm hin) hs
    split
    · rw [Prog.post_seq]
      exact calm_expectZero (calm_free _ rfl h fun _ _ _ h => h)
    · exact h
  · exact h

theorem erimScanNext_guarded {perm unsafePerm : Prot} {nb : Neighbour} (h : s.Guarded)
    (hnb : ∀ p, nb.next = some p → p % 4096 = 0) :
    Prog.Post CalmStep (erimScanNext nb perm unsafePerm trustedPage)
      (fun _ s' => s'.Guarded) s := by
  unfold erimScanNext
  split
  · rename_i nextPage hnext
    refine Prog.post_fold (fun _ _ (s' : Sys) => s'.Guarded) (fun offset _ _ s h => ?_) h
    unfold erimScanNextByte
    rw [Prog.post_seq]
    refine calm_perform fun m s' hcalm hs => ?_
    obtain ⟨rfl, rfl⟩ := Sys.step_readNext.mp hs
    refine Prog.post_whenever.mpr ⟨fun hin => ?_, fun _ => h⟩
    rw [Prog.post_seq]
    refine calm_perform fun _ s' _ hs => ?_
    have h := updateUnsafeInstruction_guarded h (hnb _ (nonNull_some.mp hnext).1) (hcalm hin) hs
    exact calm_expectZero (calm_free _ rfl h fun _ _ _ h => h)
  · exact h

/-- After a scan: nothing was found if `unsafe_perm` is executable, and if nothing
was found, nothing is listed. -/
def Scanned (start : Nat) (unsafePerm : Prot) (found : Bool) (s : Sys) : Prop :=
  s.Guarded ∧ start % 4096 = 0 ∧ (unsafePerm.isExec = true → found = false) ∧
    (found = false → ∀ e ∈ s.unsafePages, e.address = start → e.instructions = [])

theorem erimRecord_scanned {perm unsafePerm : Prot} {instructions : List Nat} (h : s.Guarded)
    (ha : start % 4096 = 0) (hin : ∀ a ∈ instructions, start ≤ a ∧ a < start + 4096)
    (hexec : unsafePerm.isExec = true → instructions = []) :
    Prog.Post CalmStep (erimRecord start perm unsafePerm trustedPage instructions)
      (Scanned start unsafePerm) s := by
  unfold erimRecord
  refine Prog.post_ite (fun hne => ?_) (fun hnil => ?_)
  · rw [Prog.post_seq]
    refine calm_perform fun _ s' _ hs => ?_
    obtain ⟨l, hl, rfl⟩ := Sys.step_addUnsafePage.mp hs
    have hrep := addUnsafePage_replaced h.entries.nodup hl
    refine ⟨⟨h.bounded, hrep.sound h.entries ⟨ha, rfl, fun a hmem => ?_⟩, h.records, ?_⟩, ha,
      fun hx => absurd (hexec hx) hne, fun hf => nomatch hf⟩
    · have := hin a hmem
      show a / 4096 * 4096 = start
      omega
    · exact hrep.covered h.watched fun hx => absurd (hexec hx) hne
  · cases Decidable.not_not.mp hnil
    rw [Prog.post_seq]
    refine calm_perform fun _ s' _ hs => ?_
    obtain ⟨b, l, hl, rfl⟩ := Sys.step_updateUnsafePage.mp hs
    have hrep := updateUnsafePage_replaced h.entries.nodup hl
    refine ⟨⟨h.bounded, hrep.sound h.entries ⟨ha, rfl, nofun⟩, h.records, ?_⟩, ha, fun _ => rfl,
      fun _ e he hea => ?_⟩
    · exact hrep.covered h.watched fun _ => nofun
    · rcases hrep.mem e he with ⟨_, hne⟩ | rfl
      · exact absurd hea hne
      · rfl

theorem erimMemScanRegion_scanned {perm unsafePerm : Prot} {prev : Prev} (h : s.Guarded)
    (ha : start % 4096 = 0 ∨ 2 ^ 64 - 4096 < start)
    (hprev : ∀ p, prev = .page p → p % 4096 = 0) :
    Prog.Post CalmStep (erimMemScanRegion start whitelist perm unsafePerm trustedPage prev)
      (fun r s' => Scanned start unsafePerm r.1 s') s := by
  unfold erimMemScanRegion
  rw [Prog.post_seq]
  rcases ha with ha | hhigh
  · refine (erimPrev_ensures ha hprev).mono fun before s₁ hbefore => ?_
    obtain ⟨rfl, hbefore, hnone⟩ := hbefore
    rw [Prog.post_seq]
    refine (erimNext_ensures ha hbefore hnone).mono fun nb s₂ hnb => ?_
    obtain ⟨rfl, hprev, hnext⟩ := hnb
    rw [Prog.post_seq]
    refine (erimScanPrev_guarded h hprev).mono fun prev s₃ h => ?_
    rw [Prog.post_seq]
    refine (erimScanNext_guarded h hnext).mono fun _ s₄ h => ?_
    rw [Prog.post_seq]
    refine calm_perform fun m s₅ hcalm hs => ?_
    have h₅ := h.step rfl hs
    obtain ⟨_, rfl, _⟩ := Sys.step_scan.mp hs
    rw [Prog.post_seq]
    exact erimRecord_scanned h₅ ha (fun a => mem_scanPage) hcalm
  · -- an error number taken for an address: the scan faults
    refine (calm_bounded h.bounded).mono fun before s₁ h => ?_
    rw [Prog.post_seq]
    refine (calm_bounded h).mono fun nb s₂ h => ?_
    rw [Prog.post_seq]
    refine (calm_bounded h).mono fun prev s₃ h => ?_
    rw [Prog.post_seq]
    refine (calm_bounded h).mono fun _ s₄ h => ?_
    rw [Prog.post_seq]
    refine calm_perform fun m s₅ _ hs => ?_
    have hmapped := h _ (Sys.step_scan.mp hs).1
    unfold taskSize at hmapped
    omega

/-! ## Mappings -/

/-- What the handlers pass on as an address: one of a page, or an error number. -/
def PageOrError (address : Nat) : Prop := address % 4096 = 0 ∨ 2 ^ 64 - 4096 < address

theorem PageOrError.pageLoop {page : Nat} (h : PageOrError start)
    (hp : page ∈ pageLoop start size) :
    PageOrError page := by
  obtain ⟨i, hi, rfl⟩ := List.mem_map.mp hp
  rw [List.mem_range] at hi
  unfold PageOrError wadd at *
  omega

theorem aligned_pageLoop {page : Nat} (h : start % 4096 = 0) (hp : page ∈ pageLoop start size) :
    page % 4096 = 0 := by
  obtain ⟨i, _, rfl⟩ := List.mem_map.mp hp
  omega

/-- A loop over pages that scans each of them. -/
theorem scanLoop_guarded {body : Group → Nat → M Group} {pages : List Nat} {g : Group}
    (hbody : ∀ g page s, s.Guarded → PageOrError page → (∀ p, g.prev = .page p → p % 4096 = 0) →
      Prog.Post CalmStep (body g page)
        (fun g' s' => s'.Guarded ∧ ∀ p, g'.prev = .page p → p % 4096 = 0) s)
    (h : s.Guarded) (hpages : ∀ page ∈ pages, PageOrError page)
    (hg : ∀ p, g.prev = .page p → p % 4096 = 0) :
    Prog.Post CalmStep (Prog.fold body pages g) (fun _ s' => s'.Guarded) s := by
  refine Prog.Post.mono (Prog.post_fold (fun rest g s => (∀ page ∈ rest, PageOrError page) ∧
    s.Guarded ∧ ∀ p, g.prev = .page p → p % 4096 = 0) (fun page rest g s hI => ?_)
    ⟨hpages, h, hg⟩) fun _ _ hI => hI.2.1
  obtain ⟨hrest, h, hg⟩ := hI
  refine (hbody g page s h (hrest page List.mem_cons_self) hg).mono fun _ _ h' => ?_
  exact ⟨fun q hq => hrest q (List.mem_cons_of_mem _ hq), h'⟩

theorem calm_openAt {g : Group} {page : Nat} {Q : Nat → Sys → Prop}
    (h : ∀ startGroup, Q startGroup s) : Prog.Post CalmStep (g.openAt page) Q s :=
  Prog.post_ite (fun _ => Prog.post_seq.mpr (Prog.post_require.mpr fun _ => h _)) (fun _ => h _)

theorem scanGroups_guarded {close : Nat → Nat → Prot → M Unit} {restart : Bool}
    {allowList : List Nat}
    (hclose : ∀ start size prot {s : Sys}, s.Guarded →
      Prog.Post CalmStep (close start size prot) (fun _ s' => s'.Guarded) s)
    (h : s.Guarded) (ha : PageOrError start) :
    Prog.Post CalmStep (scanGroups close restart allowList prot unsafeProt start size)
      (fun _ s' => s'.Guarded) s := by
  unfold scanGroups
  rw [Prog.post_seq]
  refine Prog.Post.mono (scanLoop_guarded (fun g page s h hp hg => ?_) h (fun _ => ha.pageLoop)
    (fun _ hp => nomatch hp)) fun g s' h =>
      Prog.post_whenever.mpr ⟨fun _ => hclose _ _ _ h, fun _ => h⟩
  unfold scanGroupsPage
  rw [Prog.post_seq]
  refine calm_openAt fun startGroup => ?_
  rw [Prog.post_seq]
  refine (erimMemScanRegion_scanned h hp hg).mono fun r s₁ hr => ?_
  obtain ⟨found, prev⟩ := r
  obtain ⟨h, hpage, _⟩ := hr
  have hlast : ∀ p, Prev.page page = .page p → p % 4096 = 0 := fun p he => by
    cases he
    exact hpage
  dsimp only
  rw [Prog.post_seq]
  refine Prog.Post.mono (Q := fun _ s' => s'.Guarded) ?_ fun size s₂ h => ?_
  · refine Prog.post_ite (fun _ => ?_) (fun _ => h)
    exact Prog.post_seq.mpr ((hclose _ _ _ h).mono fun _ _ h => h)
  rw [Prog.post_seq]
  refine Prog.Post.mono (Q := fun _ s' => s'.Guarded) ?_ fun open' s₃ h => ?_
  · refine Prog.post_ite (fun _ => ?_) (fun _ => h)
    exact Prog.post_seq.mpr ((hclose _ _ _ h).mono fun _ _ h => h)
  refine Prog.post_ite (fun _ => ?_) (fun _ => ⟨h, hlast⟩)
  exact Prog.post_seq.mpr ((hclose _ _ _ h).mono fun _ _ h => ⟨h, hlast⟩)

theorem scanExecMapping_guarded {allowList : List Nat} (h : s.Guarded) (ha : PageOrError start) :
    Prog.Post CalmStep (scanExecMapping start size prot unsafeProt flags mapFixed cid allowList)
      (fun _ s' => s'.Guarded) s := by
  rw [scanExecMapping_eq]
  split
  · exact h
  · exact scanGroups_guarded (fun _ _ _ _ => addGroup_guarded) h ha

theorem scanExecMappingMprotect_guarded {allowList : List Nat} (h : s.Guarded)
    (ha : PageOrError start) :
    Prog.Post CalmStep (scanExecMappingMprotect start size prot unsafeProt cid allowList)
      (fun _ s' => s'.Guarded) s := by
  rw [scanExecMappingMprotect_eq]
  split
  · exact h
  · exact scanGroups_guarded (fun _ _ _ _ => protectGroup_guarded) h ha

/-- Pages that begin as writable ones do not count as executable. -/
theorem markUnsafe_guarded (h : s.Guarded) (ha : start % 4096 = 0)
    (hprot : ¬ prot.isExec = true) :
    Prog.Post CalmStep (markUnsafe start size prot trustedPage) (fun _ s' => s'.Guarded) s := by
  refine Prog.Post.mono (Prog.post_fold
    (fun rest _ s => (∀ page ∈ rest, page % 4096 = 0) ∧ s.Guarded)
    (fun page rest _ s hI => ?_) ⟨fun _ => aligned_pageLoop ha, h⟩) fun _ _ hI => hI.2
  obtain ⟨hrest, h⟩ := hI
  refine calm_perform fun _ s' _ hs => ?_
  obtain ⟨l, hl, rfl⟩ := Sys.step_addUnsafePage.mp hs
  have hrep := addUnsafePage_replaced h.entries.nodup hl
  refine ⟨fun q hq => hrest q (List.mem_cons_of_mem _ hq), h.bounded,
    hrep.sound h.entries ⟨hrest page List.mem_cons_self, rfl, nofun⟩, h.records, ?_⟩
  exact hrep.covered h.watched fun hexec => absurd hexec hprot

/-! ## Breakpoints -/

/-- While the pages in `rest` are still to be made non-executable, everything is
watched by `c` or on one of them; and the entries are those of `l`, apart from
their protections. -/
structure Sys.Draining (s : Sys) (c : HbController) (l : List UnsafePage) (rest : List Nat) :
    Prop where
  bounded : s.kern.Bounded
  entries : SoundList s.unsafePages
  same : ∀ e ∈ s.unsafePages, ∃ e₀ ∈ l, e₀.address = e.address ∧ e₀.instructions = e.instructions
  covered : Covered s.unsafePages
    fun a => a ∈ c.watched ∨ ∃ b ∈ rest, b / 4096 = a / 4096

theorem Sys.Draining.alike {c : HbController} {l : List UnsafePage} {rest : List Nat}
    (h : s.Draining c l rest) (hs : s.Alike s') : s'.Draining c l rest := by
  refine ⟨hs.bounded, ?_, ?_, ?_⟩
  · rw [hs.unsafePages]
    exact h.entries
  · rw [hs.unsafePages]
    exact h.same
  · rw [hs.unsafePages]
    exact h.covered

/-- Once the page of an evicted address is not executable, it need not be drained. -/
theorem Sys.Draining.drop {c : HbController} {l : List UnsafePage} {b : Nat} {rest : List Nat}
    (h : s.Draining c l (b :: rest))
    (hb : ∀ e ∈ s.unsafePages, e.address = b / 4096 * 4096 → ¬ e.currentPerm.isExec = true) :
    s.Draining c l rest := by
  refine ⟨h.bounded, h.entries, h.same, fun e he hexec a ha => ?_⟩
  rcases h.covered e he hexec a ha with hw | ⟨x, hx, hpage⟩
  · exact .inl hw
  rcases List.mem_cons.mp hx with rfl | hx
  · refine absurd hexec (hb e he ?_)
    rw [← (h.entries.entries e he).inPage a ha, hpage]
  · exact .inr ⟨x, hx, hpage⟩

theorem Sys.Draining.setCurrentPerm {c : HbController} {l : List UnsafePage} {rest : List Nat}
    {r : Unit} (h : s.Draining c l rest) (hprot : ¬ prot.isExec = true)
    (hs : s.Step (.setCurrentPerm address prot) r s') :
    s'.Draining c l rest ∧
      ∀ e ∈ s'.unsafePages, e.address = address → ¬ e.currentPerm.isExec = true := by
  cases Sys.step_setCurrentPerm.mp hs
  refine ⟨⟨h.bounded, h.entries.setCurrentPerm, fun e he => ?_, fun e he hexec => ?_⟩,
    fun e he hea => ?_⟩
  · rcases mem_setCurrentPerm h.entries.nodup he with ⟨he, _⟩ | ⟨e₀, he₀, _, rfl⟩
    · exact h.same e he
    · exact h.same e₀ he₀
  · rcases mem_setCurrentPerm h.entries.nodup he with ⟨he, _⟩ | ⟨e₀, he₀, _, rfl⟩
    · exact h.covered e he hexec
    · exact absurd hexec hprot
  · rcases mem_setCurrentPerm h.entries.nodup he with ⟨_, hne⟩ | ⟨e₀, he₀, _, rfl⟩
    · exact absurd hea hne
    · exact hprot

theorem setPageNonExecutable_draining {c : HbController} {l : List UnsafePage} {b : Nat}
    {rest : List Nat} (h : s.Draining c l (b :: rest)) :
    Prog.Post CalmStep (setPageNonExecutable b) (fun _ s' => s'.Draining c l rest) s := by
  unfold setPageNonExecutable
  rw [Prog.post_seq]
  refine calm_perform fun pmPage s₁ _ hs => ?_
  obtain ⟨_, rfl⟩ := Sys.step_lookupAddr.mp hs
  rw [Prog.post_seq]
  refine calm_perform fun page s₁ _ hs => ?_
  obtain ⟨hpage, rfl⟩ := Sys.step_findUnsafePage.mp hs
  split
  · rename_i pmPage page _ _
    obtain ⟨hmem, haddr⟩ := findUnsafePage_some hpage.symm
    rw [Prog.post_seq]
    refine Prog.post_require.mpr fun _ => Prog.post_ite (fun hexec => ?_) (fun _ => ?_)
    · refine h.drop fun e he hea => ?_
      rw [List.inj_on_of_nodup_map h.entries.nodup he hmem (hea.trans haddr.symm)]
      exact hexec
    · rw [Prog.post_seq]
      refine calm_perform fun _ s₁ _ hs => ?_
      have h₁ := h.alike (hs.alike rfl h.bounded)
      have set : ∀ perm : Prot, ¬ perm.isExec = true → ∀ (r : Unit) s₂,
          s₁.Step (.setCurrentPerm page.address perm) r s₂ → s₂.Draining c l rest := by
        intro perm hperm r s₂ hs
        obtain ⟨h₂, hoff⟩ := h₁.setCurrentPerm hperm hs
        exact h₂.drop fun e he hea => hoff e he (hea.trans haddr.symm)
      refine Prog.post_ite (fun _ => ?_) (fun _ => ?_)
      · rw [Prog.post_seq]
        refine calm_perform fun _ s₂ _ hs => ?_
        have h₂ := set (PROT_READ ||| PROT_WRITE) (by decide) _ _ hs
        exact (secpolineMprotect_alike h₂.bounded).mono fun _ _ hs => h₂.alike hs
      · rw [Prog.post_seq]
        refine calm_perform fun _ s₂ _ hs => ?_
        have h₂ := set PROT_READ (by decide) _ _ hs
        rw [Prog.post_seq]
        refine (secpolineMprotect_alike h₂.bounded).mono fun _ s₃ hs => ?_
        have h₃ := h₂.alike hs
        exact calm_perform fun _ s₄ _ hs => h₃.alike (hs.alike rfl h₃.bounded)
  · trivial

/-- After a round: everything that is listed for the page is watched. -/
def WatchedAt (address : Nat) (s : Sys) : Prop :=
  ∀ e ∈ s.unsafePages, e.address = address → ∀ a ∈ e.instructions, a ∈ s.hb.watched

theorem addBreakpointWrapper_guarded {isStatic : Bool} (h : s.Guarded) (ha : address % 4096 = 0) :
    Prog.Post CalmStep (addBreakpointWrapper address isStatic)
      (fun _ s' => s'.Guarded ∧ WatchedAt address s') s := by
  have hround : address / 4096 * 4096 = address := by omega
  unfold addBreakpointWrapper
  rw [Prog.post_seq]
  refine calm_perform fun page s₁ _ hs => ?_
  obtain ⟨hpage, rfl⟩ := Sys.step_findUnsafePage.mp hs
  split
  · trivial
  rename_i page
  obtain ⟨hmem, haddr⟩ := findUnsafePage_some hpage.symm
  rw [hround] at haddr
  refine Prog.post_ite (fun hexec => ⟨h, fun e he hea => ?_⟩) (fun _ => ?_)
  · rw [List.inj_on_of_nodup_map h.entries.nodup he hmem (hea.trans haddr.symm)]
    exact h.watched page hmem hexec
  rw [Prog.post_seq]
  refine calm_perform fun c s₁ _ hs => ?_
  obtain ⟨rfl, rfl⟩ := Sys.step_hardwareBreakpoints.mp hs
  split
  · trivial
  rename_i c' evicted hadd
  obtain ⟨hold, hnew, hrecords⟩ := HbController.addBreakpoints_cases hadd
  have hsound := h.entries.entries page hmem
  rw [hsound.counted, List.take_length] at hnew hrecords
  have hdrain : s₁.Draining c' s₁.unsafePages evicted := by
    refine ⟨h.bounded, h.entries, fun e he => ⟨e, he, rfl, rfl⟩, fun e he hexec a ha => ?_⟩
    rcases hold a (h.watched e he hexec a ha) with hw | ⟨r, hr, har, b, hb, hbr⟩
    · exact .inl hw
    · exact .inr ⟨b, hb, h.records r hr b hbr a har⟩
  rw [Prog.post_seq]
  refine (Prog.post_fold (fun rest _ s => s.Draining c' s₁.unsafePages rest)
    (fun b rest _ s h => setPageNonExecutable_draining h) hdrain).mono fun _ s₂ h₂ => ?_
  refine calm_perform fun _ s₃ _ hs => ?_
  cases Sys.step_setHardwareBreakpoints.mp hs
  refine ⟨⟨h₂.bounded, h₂.entries, fun r hr a ha b hb => ?_, fun e he hexec a ha => ?_⟩,
    fun e he hea a hain => ?_⟩
  · rcases hrecords r hr with hr | rfl
    · exact h.records r hr a ha b hb
    · have h₁ := hsound.inPage a ha
      have h₂ := hsound.inPage b hb
      omega
  · rcases h₂.covered e he hexec a ha with hw | ⟨_, hx, _⟩
    · exact hw
    · cases hx
  · obtain ⟨e₀, he₀, hea₀, hin₀⟩ := h₂.same e he
    rw [← hin₀, List.inj_on_of_nodup_map h.entries.nodup he₀ hmem
      ((hea₀.trans hea).trans haddr.symm)] at hain
    exact hnew a hain

/-- Changing the protection of an entry is safe if it loses the execute bit or all
of its instructions are watched. -/
theorem Sys.Guarded.setCurrentPerm {r : Unit} (h : s.Guarded)
    (hprot : prot.isExec = true → WatchedAt address s)
    (hs : s.Step (.setCurrentPerm address prot) r s') : s'.Guarded := by
  cases Sys.step_setCurrentPerm.mp hs
  refine ⟨h.bounded, h.entries.setCurrentPerm, h.records, fun e he hexec => ?_⟩
  rcases mem_setCurrentPerm h.entries.nodup he with ⟨he, _⟩ | ⟨e₀, he₀, hea, rfl⟩
  · exact h.watched e he hexec
  · exact hprot hexec e₀ he₀ hea

theorem makeExecutable_guarded (h : s.Guarded) (hw : WatchedAt address s) :
    Prog.Post CalmStep (makeExecutable address cid) (fun _ s' => s'.Guarded) s := by
  unfold makeExecutable
  rw [Prog.post_seq]
  refine (secpolineMprotect_alike h.bounded).mono fun _ s₁ hs => ?_
  have hw₁ : WatchedAt address s₁ := by
    unfold WatchedAt
    rw [hs.unsafePages, hs.hb]
    exact hw
  have h₁ := h.alike hs
  rw [Prog.post_seq]
  exact calm_perform fun _ s₂ _ hs => h₁.setCurrentPerm (fun _ => hw₁) hs

theorem secpolineSegfaultHandler_guarded {code : SegvCode} (h : s.Guarded) :
    Prog.Post CalmStep (secpolineSegfaultHandler code address cid) (fun _ s' => s'.Guarded) s := by
  unfold secpolineSegfaultHandler
  rw [Prog.post_seq]
  refine Prog.post_require.mpr fun _ => Prog.post_ite (fun _ => h) (fun _ => ?_)
  rw [Prog.post_seq]
  refine calm_perform fun page s₁ _ hs => ?_
  obtain ⟨hpage, rfl⟩ := Sys.step_findUnsafePage.mp hs
  split
  · exact h
  rename_i page
  have ha := (h.entries.entries page (findUnsafePage_some hpage.symm).1).aligned
  rw [Prog.post_seq]
  refine calm_free _ rfl h fun tracked s₂ _ h => Prog.post_ite (fun _ => h) (fun _ => ?_)
  refine Prog.post_ite (fun _ => ?_) (fun _ => Prog.post_ite (fun _ => ?_) (fun _ => ?_))
  · -- a write to an executable page
    refine Prog.post_ite (fun _ => h) (fun _ => ?_)
    rw [Prog.post_seq]
    refine (secpolineMprotect_alike h.bounded).mono fun _ s₃ hs => ?_
    have h₃ := h.alike hs
    rw [Prog.post_seq]
    refine calm_perform fun _ s₄ _ hs => h₃.setCurrentPerm (fun hexec => ?_) hs
    rw [Prot.noExec_isExec] at hexec
    cases hexec
  · -- a jump to a writable page: the scan has found nothing
    refine Prog.post_ite (fun _ => h) (fun hexec => ?_)
    rw [Prog.post_seq]
    refine (erimMemScanRegion_scanned h (.inl ha) (by nofun)).mono fun r s₃ hr => ?_
    obtain ⟨found, prev⟩ := r
    obtain ⟨h₃, _, hfound, hnone⟩ := hr
    have hfound : found = false := hfound (by
      rw [Prot.noWrite_isExec]
      exact Decidable.not_not.mp hexec)
    dsimp only
    rw [Prog.post_seq]
    refine Prog.post_whenever.mpr ⟨fun hf => ?_, fun _ => makeExecutable_guarded h₃ ?_⟩
    · rw [hfound] at hf
      cases hf
    · intro e he hea a hin
      rw [hnone hfound e he hea] at hin
      cases hin
  · -- a jump to a read-only page
    refine Prog.post_ite (fun _ => Prog.post_ite (fun _ => h) (fun _ => ?_)) (fun _ => h)
    rw [Prog.post_seq]
    exact (addBreakpointWrapper_guarded h ha).mono fun _ _ h => makeExecutable_guarded h.1 h.2

/-! ## System calls -/

theorem toWord_of_error {r : Int} (h : IsError r) : 2 ^ 64 - 4096 < toWord r := by
  unfold IsError at h
  unfold toWord
  omega

theorem mmap_result {k k' : Kern} {r : Int} {fixed : Bool}
    (h : k.apply r (.mmap start size prot fixed) = some k') (hr : 0 < r) :
    toWord r % 4096 = 0 := by
  rcases Kern.apply_mmap_cases h with ⟨herr, _⟩ | ⟨h₀, hspace, _⟩
  · exact absurd herr.2 (by omega)
  · rw [toWord_of_nonneg h₀ hspace.lt]
    exact hspace.1

theorem mremap_result {k k' : Kern} {r : Int} {oldSize newSize newStart : Nat}
    {mayMove fixed dontUnmap : Bool}
    (h : k.apply r (.mremap start oldSize newSize mayMove fixed dontUnmap newStart) = some k') :
    PageOrError (toWord r) := by
  rcases Kern.apply_mremap_cases h with ⟨herr, _⟩ | ⟨h₀, hold, _, _, _, _, hplace | hmoved⟩
  · exact .inr (toWord_of_error herr)
  · rw [toWord_of_nonneg h₀ (hplace.1 ▸ hold.lt), hplace.1]
    exact .inl hold.1
  · rw [toWord_of_nonneg h₀ hmoved.space.lt]
    exact .inl hmoved.space.1

theorem mprotect_result {k k' : Kern} {r : Int} {key : Option Nat}
    (h : k.apply r (.mprotect start size prot key) = some k') (hr : 0 ≤ r) : start % 4096 = 0 := by
  rcases Kern.apply_mprotect_cases h with ⟨herr, _⟩ | ⟨_, hspace, _⟩
  · exact absurd herr.2 (by omega)
  · exact hspace.1

theorem checkFixed_guarded {fixed : Bool} (h : s.Guarded) :
    Prog.Post CalmStep (checkFixed start size cid fixed) (fun _ s' => s'.Guarded) s := by
  cases fixed with
  | false => exact h
  | true =>
      unfold checkFixed
      rw [Prog.post_seq]
      refine calm_free _ rfl h fun _ _ _ h => Prog.post_ite (fun _ => ?_) (fun _ => ?_)
      · exact calm_free _ rfl h fun _ _ _ h => h
      · rw [Prog.post_seq]
        exact calm_free _ rfl h fun _ _ _ h => h

theorem mapPages_guarded {fixed : Bool} {fd cid : Int} (h : s.Guarded) :
    Prog.Post CalmStep (mapPages start size prot fixed fd cid)
      (fun r s' => s'.Guarded ∧ (0 < r → toWord r % 4096 = 0)) s := by
  unfold mapPages mapFileBaked
  refine Prog.post_ite (fun _ => ?_) (fun _ => ?_)
  · rw [Prog.post_seq]
    refine calm_free _ rfl h fun r s' hs h => ?_
    obtain ⟨k, hk, _⟩ := Sys.step_wrapper.mp hs
    refine Prog.post_ite (fun _ => ⟨h, mmap_result hk⟩) (fun _ => ?_)
    rw [Prog.post_seq]
    exact calm_free _ rfl h fun _ _ _ h => ⟨h, mmap_result hk⟩
  · refine calm_free _ rfl h fun r s' hs h => ?_
    obtain ⟨k, hk, _⟩ := Sys.step_wrapper.mp hs
    exact ⟨h, mmap_result hk⟩

theorem tagMapping_guarded {fixed : Bool} {flags : Nat} (h : s.Guarded) (ha : start % 4096 = 0) :
    Prog.Post CalmStep (tagMapping start size prot flags fixed cid key)
      (fun _ s' => s'.Guarded) s := by
  unfold tagMapping
  refine Prog.post_ite (fun _ => scanExecMapping_guarded h (.inl ha)) (fun hx => ?_)
  rw [Prog.post_seq]
  refine calm_expectZero (calm_free _ rfl h fun _ _ _ h => ?_)
  rw [Prog.post_seq]
  refine calm_expectZero (calm_free _ rfl h fun _ _ _ h => ?_)
  refine Prog.post_whenever.mpr ⟨fun hwx => markUnsafe_guarded h ha ?_, fun _ => h⟩
  unfold firstProt
  rw [if_neg hx, if_pos hwx, Prot.noExec_isExec]
  exact Bool.false_ne_true

theorem secpolineMmap_guarded {flags : Nat} {fd : Int} (h : s.Guarded) :
    Prog.Post CalmStep (secpolineMmap start size prot flags fd cid) (fun _ s' => s'.Guarded) s := by
  unfold secpolineMmap
  split
  · exact h
  rw [Prog.post_seq]
  refine Prog.post_require.mpr fun _ => Prog.post_ite (fun _ => h) (fun _ => ?_)
  rw [Prog.post_seq]
  refine (checkFixed_guarded h).mono fun _ _ h => Prog.post_ite (fun _ => h) (fun _ => ?_)
  rw [Prog.post_seq]
  refine (mapPages_guarded h).mono fun r s' hr => Prog.post_ite (fun _ => hr.1) (fun hpos => ?_)
  rw [Prog.post_seq]
  exact (tagMapping_guarded hr.1 (hr.2 (Int.not_le.mp hpos))).mono fun _ _ h => h

theorem moveMapping_guarded {oldSize newSize flags newStart : Nat} {addFlags addCid : Int}
    (h : s.Guarded) :
    Prog.Post CalmStep (moveMapping start oldSize newSize flags newStart prot cid addFlags addCid)
      (fun r s' => s'.Guarded ∧ PageOrError r) s := by
  unfold moveMapping
  rw [Prog.post_seq]
  refine Prog.Post.mono (Q := fun _ s' => s'.Guarded) ?_ fun gone s₁ h => ?_
  · unfold forgetOld
    split
    · rw [Prog.post_seq]
      exact calm_free _ rfl h fun _ _ _ h => h
    · exact calm_free _ rfl h fun _ _ _ h => h
  refine Prog.post_ite (fun _ => ⟨h, .inr (by decide)⟩) (fun _ => ?_)
  rw [Prog.post_seq]
  refine calm_free _ rfl h fun r s₂ hs h => ?_
  obtain ⟨k, hk, _⟩ := Sys.step_wrapper.mp hs
  rw [Prog.post_seq]
  refine Prog.post_require.mpr fun _ => ?_
  rw [Prog.post_seq]
  exact calm_expectZero (calm_free _ rfl h fun _ _ _ h => ⟨h, mremap_result hk⟩)

theorem handleMremap_guarded {oldSize newSize flags newStart : Nat} (h : s.Guarded) :
    Prog.Post CalmStep (handleMremap start oldSize newSize flags newStart cid)
      (fun r s' => s'.Guarded ∧ PageOrError r) s := by
  have hEINVAL : PageOrError (toWord (-EINVAL)) := .inr (by decide)
  have hEFAULT : PageOrError (toWord (-EFAULT)) := .inr (by decide)
  rw [handleMremap_eq ⟨start, oldSize, newSize, flags, newStart⟩]
  refine Prog.post_ite (fun _ => ⟨h, hEINVAL⟩) fun hp => Prog.post_ite (fun _ => ?_) (fun _ => ?_)
  · rw [MremapArgs.moveFixed, Prog.post_seq]
    refine calm_free _ rfl h fun g _ _ h => ?_
    split
    · exact ⟨h, hEINVAL⟩
    · rw [Prog.post_seq]
      refine calm_free _ rfl h fun taken _ _ h =>
        Prog.post_ite (fun _ => ⟨h, hEFAULT⟩) (fun _ => moveMapping_guarded h)
  · have ha : PageOrError start := .inl (not_not.mp hp).aligned
    rw [MremapArgs.resizeOrMove, Prog.post_seq]
    refine calm_free _ rfl h fun r _ _ h => Prog.post_ite (fun _ => ?_) (fun _ => ?_)
    · rw [Prog.post_seq]
      refine calm_free _ rfl h fun r _ _ h => ?_
      rw [Prog.post_seq]
      exact Prog.post_require.mpr fun _ => ⟨h, ha⟩
    · refine Prog.post_ite (fun _ => ?_) (fun _ => ⟨h, hEFAULT⟩)
      rw [Prog.post_seq]
      refine calm_free _ rfl h fun g _ _ h => ?_
      split
      · exact ⟨h, hEINVAL⟩
      · exact moveMapping_guarded h

theorem handleMremapExec_guarded {oldSize newSize flags newStart : Nat} (h : s.Guarded) :
    Prog.Post CalmStep (handleMremapExec start oldSize newSize flags newStart prot cid)
      (fun _ s' => s'.Guarded) s := by
  unfold handleMremapExec
  rw [Prog.post_seq]
  refine calm_free _ rfl h fun r s₁ hs h => Prog.post_ite (fun _ => h) (fun hr => ?_)
  obtain ⟨k, hk, _⟩ := Sys.step_wrapper.mp hs
  have ha : PageOrError start :=
    .inl (mprotect_result hk (Int.le_of_eq (Decidable.not_not.mp hr).symm))
  rw [Prog.post_seq]
  refine (handleMremap_guarded h).mono fun res s₂ h => ?_
  rw [Prog.post_seq]
  refine Prog.post_require.mpr fun _ => ?_
  rw [Prog.post_seq]
  refine Prog.Post.mono (Q := fun _ s' => s'.Guarded) ?_ fun _ s₃ h₃ => ?_
  · exact Prog.post_whenever.mpr ⟨fun _ => scanExecMappingMprotect_guarded h.1 ha, fun _ => h.1⟩
  · rw [Prog.post_seq]
    exact (scanExecMappingMprotect_guarded h₃ h.2).mono fun _ _ h => h

end

theorem syscallHandlerMprotect_guarded {start size prot : UInt64} {s : Sys} (h : s.Guarded) :
    Prog.Post CalmStep (syscallHandlerMprotect start size prot) (fun _ s' => s'.Guarded) s := by
  unfold syscallHandlerMprotect
  dsimp only
  rw [Prog.post_seq]
  refine calm_free _ rfl h fun _ _ _ h => Prog.post_ite (fun _ => h) (fun _ => ?_)
  rw [Prog.post_seq]
  refine Prog.post_require.mpr fun _ => Prog.post_ite (fun _ => ?_) (fun _ => ?_)
  · rw [Prog.post_seq]
    refine calm_free _ rfl h fun r s₁ hs h => ?_
    refine Prog.post_whenever.mpr ⟨fun hr => ?_, fun _ => h⟩
    obtain ⟨k, hk, _⟩ := Sys.step_wrapper.mp hs
    have ha := mprotect_result hk (Int.le_of_eq hr.symm)
    rw [Prog.post_seq]
    refine calm_expectZero (calm_free _ rfl h fun _ _ _ h => markUnsafe_guarded h ha ?_)
    rw [Prot.noExec_isExec]
    exact Bool.false_ne_true
  · refine Prog.post_ite (fun _ => ?_) (fun _ => ?_)
    · rw [Prog.post_seq]
      refine calm_free _ rfl h fun r s₁ hs h => ?_
      refine Prog.post_whenever.mpr ⟨fun hr => ?_, fun _ => h⟩
      obtain ⟨k, hk, _⟩ := Sys.step_wrapper.mp hs
      exact scanExecMappingMprotect_guarded h (.inl (mprotect_result hk hr))
    · rw [Prog.post_seq]
      refine calm_free _ rfl h fun _ _ _ h => ?_
      exact calm_expectZero (calm_free _ rfl h fun _ _ _ h => h)

theorem syscallHandlerMremap_guarded {start oldSize newSize flags newStart : UInt64} {s : Sys}
    (h : s.Guarded) :
    Prog.Post CalmStep (syscallHandlerMremap start oldSize newSize flags newStart)
      (fun _ s' => s'.Guarded) s := by
  unfold syscallHandlerMremap
  rw [Prog.post_seq]
  refine calm_free _ rfl h fun g _ _ h => ?_
  split
  · exact h
  refine Prog.post_ite (fun _ => h) (fun _ => Prog.post_ite (fun _ => ?_) (fun _ => ?_))
  · rw [Prog.post_seq]
    exact (handleMremapExec_guarded h).mono fun _ _ h => h
  · rw [Prog.post_seq]
    exact (handleMremap_guarded h).mono fun _ _ h => h.1

theorem initPageGroup_guarded {start stop : Nat} {prot : Prot} {isSegfaultHandler : Bool}
    {cid : Int} {allowList : List Nat} {s : Sys} (h : s.Guarded) (ha : start % 4096 = 0) :
    Prog.Post CalmStep (initPageGroup start stop prot isSegfaultHandler cid allowList)
      (fun _ s' => s'.Guarded) s := by
  unfold initPageGroup
  refine Prog.post_ite (fun _ => ?_) (fun _ => Prog.post_ite (fun _ => ?_) (fun _ => ?_))
  · rw [Prog.post_seq]
    refine Prog.post_require.mpr fun _ => ?_
    rw [Prog.post_seq]
    refine Prog.post_require.mpr fun _ => ?_
    rw [Prog.post_seq]
    refine Prog.post_whenever.mpr ⟨fun hexec => ?_, fun _ => addGroup_guarded h⟩
    refine (Prog.post_fold (fun rest _ s => (∀ page ∈ rest, page % 4096 = 0) ∧ s.Guarded)
      (fun page rest _ s hI => ?_) ⟨fun _ => aligned_pageLoop ha, h⟩).mono
      fun _ _ hI => addGroup_guarded hI.2
    obtain ⟨hrest, h⟩ := hI
    rw [Prog.post_seq]
    refine (erimMemScanRegion_scanned h (.inl (hrest page List.mem_cons_self)) (by nofun)).mono
      fun r s₁ hr => ?_
    obtain ⟨found, prev⟩ := r
    obtain ⟨h₁, _, hfound, _⟩ := hr
    have hfound : found = false := hfound hexec
    refine Prog.post_whenever.mpr ⟨fun hf => ?_, fun _ =>
      ⟨fun q hq => hrest q (List.mem_cons_of_mem _ hq), h₁⟩⟩
    rw [hfound] at hf
    cases hf
  · rw [Prog.post_seq]
    refine (markUnsafe_guarded h ha ?_).mono fun _ _ h => addGroup_guarded h
    rw [Prot.noExec_isExec]
    exact Bool.false_ne_true
  · exact Prog.post_ite (fun _ => scanExecMapping_guarded h (.inl ha)) (fun _ => addGroup_guarded h)

/-- The mappings that are read from `/proc/self/maps` begin at a page. -/
def Request.PageAligned : Request → Prop
  | .initPageGroup start .. => start % 4096 = 0
  | _ => True

theorem Request.serve_guarded {r : Request} (hr : r.PageAligned) {s : Sys} (h : s.Guarded) :
    Prog.Post CalmStep r.serve (fun _ s' => s'.Guarded) s := by
  cases r with
  | mmap start size prot flags fd =>
      exact Prog.post_seq.mpr ((secpolineMmap_guarded h).mono fun _ _ h => h)
  | munmap start size =>
      refine Prog.post_seq.mpr (calm_free _ rfl h fun _ _ _ h => ?_)
      refine Prog.post_whenever.mpr ⟨fun _ => ?_, fun _ => h⟩
      exact Prog.post_seq.mpr (calm_free _ rfl h fun _ _ _ h => h)
  | mprotect start size prot => exact syscallHandlerMprotect_guarded h
  | mremap start oldSize newSize flags newStart =>
    exact Prog.post_seq.mpr ((syscallHandlerMremap_guarded h).mono fun _ _ h => h)
  | clone => exact calm_free _ rfl h fun _ _ _ h => h
  | segv code address cid =>
      exact Prog.post_seq.mpr ((secpolineSegfaultHandler_guarded h).mono fun _ _ h => h)
  | rewriteSyscall address cid =>
      refine Prog.post_seq.mpr (Prog.Post.mono (Q := fun _ s' => s'.Guarded) ?_ fun _ s₁ h => ?_)
      · exact Prog.post_whenever.mpr ⟨fun _ => calm_free _ rfl h fun _ _ _ h => h, fun _ => h⟩
      · refine Prog.post_seq.mpr (calm_expectZero (calm_free _ rfl h fun _ _ _ h => ?_))
        refine Prog.post_seq.mpr (calm_free _ rfl h fun _ _ _ h => ?_)
        exact calm_expectZero (calm_free _ rfl h fun _ _ _ h => h)
  | initPageGroup start stop prot isSegfaultHandler cid allowList =>
      exact initPageGroup_guarded h hr

/-! ## Runs -/

/-- What the application does between two requests. -/
def IdleStore (l : Option Request) (s s' : Sys) : Prop := l = none ∧ s.AppStore s'

/-- The requests served one after the other; between them the application writes
to its memory. -/
abbrev WatchRun (step : Sys → (e : Op) → Resp e → Sys → Prop) (s₀ s : Sys) (l : Option Request)
    (p : M Unit) : Prop :=
  Prog.SeqRun step IdleStore (fun _ r p => r.PageAligned ∧ p = r.serve) s₀ s l p

theorem Sys.Guarded.store {s s' : Sys} (h : s.Guarded) (hs : s.AppStore s') : s'.Guarded := by
  obtain ⟨address, byte, _, rfl⟩ := hs
  exact ⟨h.bounded, h.entries, h.records, h.watched⟩

theorem idle_of_interfered {r : Request} {s s' : Sys} {e : Op} {a : Resp e}
    (h : Prog.Interfered CalmStep (IdleStore (some r)) s e a s') : CalmStep s e a s' := by
  obtain ⟨s₁, hs₁, hstep⟩ := h
  cases hs₁ with
  | refl => exact hstep
  | tail _ h => cases h.1

/-- In a run from start-up whose scans all meet the condition, whenever no handler
is running, every instruction recorded for an executable page is watched. -/
theorem watchRun_watched {s₀ s : Sys} {l : Option Request} (hlist : s₀.unsafePages = [])
    (hhb : s₀.hb = .init) (hbounded : s₀.kern.Bounded)
    (run : WatchRun CalmStep s₀ s l (.ret ())) : s.Watched := by
  have h₀ : s₀.Guarded := by
    refine ⟨hbounded, ?_, ?_, ?_⟩
    · rw [hlist]
      exact .nil
    · rw [hhb]
      nofun
    · unfold Sys.Watched
      rw [hlist]
      nofun
  have h : s.Guarded := run.wp h₀ (fun _ _ _ h hs => h.store hs.2)
    (fun _ _ _ _ _ _ _ h => h) (fun s r p h hp => by
      obtain ⟨hr, rfl⟩ := hp
      exact Prog.wp_step (fun _ _ _ _ => idle_of_interfered) (Request.serve_guarded hr h))
  exact h.watched

/-- An operation, if it meets the condition. -/
def Sys.performCalm (s : Sys) (o : Oracle) (e : Op) : Option (Resp e × Sys) :=
  if e.Calm s then s.perform o e else none

theorem Sys.performCalm_step {s s' : Sys} {o : Oracle} {e : Op} {r : Resp e}
    (h : s.performCalm o e = some (r, s')) : CalmStep s e r s' := by
  unfold Sys.performCalm at h
  split at h
  · exact ⟨‹_›, o, h⟩
  · cases h

theorem watchRun_play {perform : Sys → Oracle → (e : Op) → Option (Resp e × Sys)}
    {step : Sys → (e : Op) → Resp e → Sys → Prop} {s s' : Sys}
    {turns : List (Prog.Turn Oracle Request (Nat × UInt8))}
    (hstep : ∀ s o e r s', perform s o e = some (r, s') → step s e r s')
    (h : Prog.play perform Request.serve Sys.appStore turns s = some s')
    (hturns : turns.Forall (Prog.Turn.Serves Request.PageAligned)) :
    WatchRun step s s' none (.ret ()) :=
  .play hstep (fun _ _ _ h => ⟨rfl, Sys.appStore_some h⟩)
    (hturns.imp fun t ht => by cases t with
      | serve r choices => exact fun _ => ⟨ht, rfl⟩
      | act a => trivial) .init h

/-- The application maps a file for execution that holds a WRPKRU; the page is
readable only at first. When it is jumped to, it becomes executable and the
instruction is watched. -/
theorem watchRun_watched_file :
    ∃ s, WatchRun CalmStep (Sys.start fun _ => 0) s none (.ret ()) ∧
      s.kern.pages 16 = some { prot := PROT_READ ||| PROT_EXEC, key := UNTRUSTED_MPKEY } ∧
      s.hb.watched = [0x10010] ∧ s.Watched := by
  let file (a : Nat) : UInt8 :=
    if a = 0x10010 then 0x0f else if a = 0x10011 then 0x01 else if a = 0x10012 then 0xef else 0
  let choice (answer : Int) : Oracle := { answer, pool := 0x200000, bytes := file }
  have h : ((Prog.play Sys.performCalm Request.serve Sys.appStore
      [.serve (.mmap 0 4096 5 0x22 3) (choice 0x10000 :: List.replicate 12 (choice 0)),
        .serve (.segv .accErr 0x10010 TS_APPLICATION) (List.replicate 12 (choice 0))]
      (Sys.start fun _ => 0)).map fun s => (s.kern.pages 16, s.hb.watched)) =
      some (some { prot := PROT_READ ||| PROT_EXEC, key := UNTRUSTED_MPKEY }, [0x10010]) := by
    decide +kernel
  obtain ⟨s, hs, hp⟩ := Option.map_eq_some_iff.mp h
  have run : WatchRun CalmStep (Sys.start fun _ => 0) s none (.ret ()) :=
    watchRun_play (fun _ _ _ _ _ => Sys.performCalm_step) hs ⟨trivial, trivial⟩
  refine ⟨s, run, congrArg Prod.fst hp, congrArg Prod.snd hp, ?_⟩
  have hbounded : (Sys.start fun _ => 0).kern.Bounded := fun _ hp => nomatch hp
  exact watchRun_watched rfl rfl hbounded run

/-- The application maps a page for writing and execution, writes a WRPKRU to it
and jumps there: the scan finds it, and nothing watches it. -/
theorem watchRun_unwatched :
    ∃ s, WatchRun Sys.Step (Sys.start fun _ => 0) s none (.ret ()) ∧
      s.kern.pages 16 = some { prot := PROT_READ ||| PROT_EXEC, key := UNTRUSTED_MPKEY } ∧
      ¬ s.Watched := by
  let choice (answer : Int) : Oracle := { answer, pool := 0x200000, bytes := fun _ => 0 }
  have h : ((Prog.play Sys.perform Request.serve Sys.appStore
      [.serve (.mmap 0 4096 7 0x22 (-1)) (choice 0x10000 :: List.replicate 3 (choice 0)),
        .act (0x10010, 0x0f), .act (0x10011, 0x01), .act (0x10012, 0xef),
        .serve (.segv .accErr 0x10010 TS_APPLICATION) (List.replicate 20 (choice 0))]
      (Sys.start fun _ => 0)).map fun s => (s.kern.pages 16, decide s.Watched)) =
      some (some { prot := PROT_READ ||| PROT_EXEC, key := UNTRUSTED_MPKEY }, false) := by
    decide +kernel
  obtain ⟨s, hs, hp⟩ := Option.map_eq_some_iff.mp h
  have run : WatchRun Sys.Step (Sys.start fun _ => 0) s none (.ret ()) :=
    watchRun_play Sys.step_of_perform hs ⟨trivial, trivial, trivial, trivial, trivial⟩
  exact ⟨s, run, congrArg Prod.fst hp, of_decide_eq_false (congrArg Prod.snd hp)⟩

end Secpoline
