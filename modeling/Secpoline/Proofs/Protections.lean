import Secpoline.Proofs.ScanLoops
import Secpoline.Proofs.System
import Secpoline.Proofs.UnsafePages

/-!
# What the list of unsafe pages says about protections

An entry of `unsafe_pages` should say which protection its page has in the kernel,
and its `desired_perm` should not be executable unless the application has asked
for that last. Several protections are changed without a look at the list: those
of a system call that does not ask for execution, those of the pages next to one
that is scanned, and those that the monitor maps for its own lists. And the
handlers of faults write down a protection that the kernel may have refused.

Where none of this happens the list is right whenever no handler runs. For the
proof only the list and the kernel's table of pages matter, so a state is reduced
to its `View`; the bytes that the application writes, at any time, do not show in
it. While a handler runs, the entries of some pages are wrong, and the invariant
says which these may be.
-/

namespace Secpoline

open Lib

/-! ## Runs -/

/-- The process, and for every page the protection that was asked for by the last
request that covered it and was granted. -/
structure Ledger where
  sys : Sys
  asked : Nat → Option Prot

/-- What a thread does: serve a request, or make a page non-executable that its own
breakpoint controller gives up. -/
inductive TableAct where
  | serve (r : Request)
  | evict (address : Nat)
deriving DecidableEq, Repr

namespace TableAct

def program : TableAct → M Unit
  | .serve r => r.serve
  | .evict address => setPageNonExecutable address

/-- The system calls that map, unmap and protect memory, and the faults. -/
def Concerns : TableAct → Prop
  | .serve (.mmap ..) | .serve (.munmap ..) | .serve (.mprotect ..) | .serve .clone
  | .serve (.segv ..) | .evict _ => True
  | .serve (.mremap ..) | .serve (.rewriteSyscall ..) | .serve (.initPageGroup ..) => False

/-- The range and the protection of a request, once the kernel grants it. -/
def granted : TableAct → (e : Op) → Resp e → Option (Nat × Nat × Prot)
  | .serve (.mmap _ _ prot _ _), .wrapper (.mmap _ size _ _) _, r =>
      if IsError r then none else some (r.toNat, size, .ofNat 32 prot.toNat)
  | .serve (.mprotect start size prot), .wrapper (.mprotect start' size' _ none) _, r =>
      if start' = start.toNat ∧ size' = size.toNat ∧ r = 0 then
        some (start', size', .ofNat 32 prot.toNat)
      else none
  | _, _, _ => none

/-- The request is for memory that can be executed. -/
def asksExec : TableAct → Bool
  | .serve (.mmap _ _ prot _ _) | .serve (.mprotect _ _ prot) =>
      Prot.isExec (.ofNat 32 prot.toNat)
  | _ => false

end TableAct

/-- Remember what was granted. -/
def note (asked : Nat → Option Prot) : Option (Nat × Nat × Prot) → Nat → Option Prot
  | none => asked
  | some (start, size, prot) => fun p => if inPages start size p then some prot else asked p

/-- No page of the range has an entry. -/
def NoEntry (l : List UnsafePage) (start size : Nat) : Prop :=
  ∀ u ∈ l, ¬ inPages start size (u.address / 4096) = true

/-- The operation leaves the list of unsafe pages right, as far as it is concerned:
a scan finds nothing across a page boundary; the kernel does not refuse what the
fault handlers ask for; memory that is not for execution, or that is mapped at
address zero, is granted where there are no entries; and a pool of list nodes is
mapped where there are none. -/
def TableAct.Fits (a : TableAct) (s : Sys) : (e : Op) → Resp e → Sys → Prop
  | .readPrev _ address _ _, m, _ | .readNext _ address _, m, _ => ¬ isUnsafe m address = true
  | .inline _, r, _ => ¬ IsError r
  | .wrapper (.mmap _ size _ _) _, r, _ =>
      ¬ IsError r → a.asksExec = false ∨ r = 0 → NoEntry s.unsafePages r.toNat size
  | .wrapper (.mprotect start size _ none) _, r, _ =>
      r = 0 → a.asksExec = false → NoEntry s.unsafePages start size
  | .addPage .., _, s' | .removePage .., _, s' | .updateMprotect .., _, s' =>
      ∀ u ∈ s.unsafePages, s'.kern.pages (u.address / 4096) = s.kern.pages (u.address / 4096)
  | _, _, _ => True

instance (l : List UnsafePage) (start size : Nat) : Decidable (NoEntry l start size) :=
  inferInstanceAs (Decidable (∀ u ∈ l, _))

instance TableAct.decidableFits (a : TableAct) (s : Sys) :
    (e : Op) → (r : Resp e) → (s' : Sys) → Decidable (a.Fits s e r s')
  | .readPrev _ address _ _, m, _ | .readNext _ address _, m, _ =>
      inferInstanceAs (Decidable (¬ isUnsafe m address = true))
  | .inline _, r, _ => inferInstanceAs (Decidable (¬ IsError r))
  | .wrapper (.mmap _ size _ _) _, r, _ =>
      inferInstanceAs (Decidable (¬ IsError r → a.asksExec = false ∨ r = 0 →
        NoEntry s.unsafePages r.toNat size))
  | .wrapper (.mprotect start size _ none) _, r, _ =>
      inferInstanceAs (Decidable (r = 0 → a.asksExec = false → NoEntry s.unsafePages start size))
  | .addPage .., _, s' | .removePage .., _, s' | .updateMprotect .., _, s' =>
      inferInstanceAs (Decidable (∀ u ∈ s.unsafePages,
        s'.kern.pages (u.address / 4096) = s.kern.pages (u.address / 4096)))
  | .wrapper (.mprotect _ _ _ (some _)) _, _, _ | .wrapper (.munmap ..) _, _, _
  | .wrapper (.mremap ..) _, _, _ | .readFile .., _, _ | .isMultithreaded, _, _
  | .setMultithreaded, _, _ | .lookupAddr .., _, _ | .lookupRange .., _, _
  | .lookupRangeAllowGaps .., _, _ | .updateSize .., _, _ | .findUnsafePage _, _, _
  | .addUnsafePage .., _, _ | .updateUnsafePage .., _, _ | .updateUnsafeInstruction .., _, _
  | .setCurrentPerm .., _, _ | .lockUnsafePages, _, _ | .unlockUnsafePages, _, _
  | .scan .., _, _ | .hardwareBreakpoints, _, _ | .setHardwareBreakpoints _, _, _
  | .checkReadable _, _, _ | .rewriteSyscall _, _, _ => inferInstanceAs (Decidable True)

/-- One operation of an act, after any number of writes by the application. -/
def TableAct.Step (P : TableAct → Sys → (e : Op) → Resp e → Sys → Prop) (a : TableAct) (t : Ledger)
    (e : Op) (r : Resp e) (t' : Ledger) : Prop :=
  ∃ s, Relation.ReflTransGen Sys.AppStore t.sys s ∧ s.Step e r t'.sys ∧ P a s e r t'.sys ∧
    t'.asked = note t.asked (a.granted e r)

/-- The states between acts, when every operation satisfies `P`. -/
inductive TableRun (P : TableAct → Sys → (e : Op) → Resp e → Sys → Prop) (t₀ : Ledger) :
    Ledger → Prop
  | start : TableRun P t₀ t₀
  | store {t : Ledger} {s : Sys} (run : TableRun P t₀ t) (h : t.sys.AppStore s) :
      TableRun P t₀ { t with sys := s }
  | act {t t' : Ledger} {a : TableAct} (run : TableRun P t₀ t) (hc : a.Concerns)
      (h : a.program.Runs (a.Step P) t () t') : TableRun P t₀ t'

/-- What the property is about. -/
structure View where
  entries : List UnsafePage
  pages : Nat → Option KPage
  asked : Nat → Option Prot

def Ledger.view (t : Ledger) : View := ⟨t.sys.unsafePages, t.sys.kern.pages, t.asked⟩

/-- What an operation can do to the view. -/
def ViewStep (a : TableAct) (v : View) (e : Op) (r : Resp e) (v' : View) : Prop :=
  ∃ s s' : Sys, s.unsafePages = v.entries ∧ s.kern.pages = v.pages ∧ s.Step e r s' ∧
    a.Fits s e r s' ∧ v' = ⟨s'.unsafePages, s'.kern.pages, note v.asked (a.granted e r)⟩

theorem appStores_view {s s' : Sys} (h : Relation.ReflTransGen Sys.AppStore s s') :
    s'.unsafePages = s.unsafePages ∧ s'.kern.pages = s.kern.pages := by
  induction h with
  | refl => exact ⟨rfl, rfl⟩
  | tail _ hs ih =>
      obtain ⟨_, _, _, rfl⟩ := hs
      exact ih

theorem TableAct.Step.view {a : TableAct} {t t' : Ledger} {e : Op} {r : Resp e}
    (h : a.Step Fits t e r t') : ViewStep a t.view e r t'.view := by
  obtain ⟨s, hstores, hs, hfits, hasked⟩ := h
  obtain ⟨hentries, hpages⟩ := appStores_view hstores
  refine ⟨s, t'.sys, hentries, hpages, hs, hfits, ?_⟩
  unfold Ledger.view
  rw [hasked]

/-- The last request for the page asked for execution. -/
def View.AsksExec (v : View) (p : Nat) : Prop := ∃ q, v.asked p = some q ∧ q.isExec = true

/-- All is well, except that the entries of the pages in `R` may have the wrong
`current_perm`. -/
structure View.Sound (R : Nat → Prop) (v : View) : Prop where
  nodup : (v.entries.map (·.address)).Nodup
  aligned : ∀ u ∈ v.entries, u.address % 4096 = 0
  asked : ∀ u ∈ v.entries, u.desiredPerm.isExec = true → v.AsksExec (u.address / 4096)
  current : ∀ u ∈ v.entries, ¬ R (u.address / 4096) →
    ∀ g, v.pages (u.address / 4096) = some g → g.prot = u.currentPerm

section
variable {a : TableAct} {R R' : Nat → Prop} {v v' : View} {start size address : Nat} {prot : Prot}
  {cid : Int}

theorem View.Sound.weaken (h : v.Sound R) (hR : ∀ p, R p → R' p) : v.Sound R' :=
  ⟨h.nodup, h.aligned, h.asked, fun u hu hn => h.current u hu fun hr => hn (hR _ hr)⟩

/-- An entry whose `current_perm` is right is no exception. -/
theorem View.Sound.settle (h : v.Sound R)
    (hR : ∀ u ∈ v.entries, R (u.address / 4096) → ¬ R' (u.address / 4096) →
      ∀ g, v.pages (u.address / 4096) = some g → g.prot = u.currentPerm) : v.Sound R' := by
  refine ⟨h.nodup, h.aligned, h.asked, fun u hu hn => ?_⟩
  by_cases hr : R (u.address / 4096)
  · exact hR u hu hr hn
  · exact h.current u hu hr

/-- The kernel's pages have changed, but not those with an entry outside `R`. -/
theorem View.Sound.repage (h : v.Sound R) (hentries : v'.entries = v.entries)
    (hasked : v'.asked = v.asked)
    (hpages : ∀ u ∈ v.entries, ¬ R (u.address / 4096) →
      v'.pages (u.address / 4096) = v.pages (u.address / 4096)) : v'.Sound R := by
  refine ⟨?_, ?_, ?_, ?_⟩
  · rw [hentries]
    exact h.nodup
  · rw [hentries]
    exact h.aligned
  · unfold View.AsksExec
    rw [hentries, hasked]
    exact h.asked
  · rw [hentries]
    intro u hu hn
    rw [hpages u hu hn]
    exact h.current u hu hn

/-! ## Operations -/

/-- The operation leaves the list and the kernel's pages alone. -/
def Op.Quiet : Op → Bool
  | .readFile .. | .isMultithreaded | .setMultithreaded | .lookupAddr .. | .lookupRange ..
  | .lookupRangeAllowGaps .. | .findUnsafePage _ | .lockUnsafePages | .unlockUnsafePages
  | .readPrev .. | .readNext .. | .scan .. | .hardwareBreakpoints
  | .setHardwareBreakpoints _ => true
  | _ => false

theorem viewStep_quiet {e : Op} {r : Resp e} (he : e.Quiet = true) (h : ViewStep a v e r v') :
    v' = v := by
  obtain ⟨s, s', hentries, hpages, ⟨o, ho⟩, _, rfl⟩ := h
  have hgranted : a.granted e r = none := by
    cases a with
    | evict address => rfl
    | serve q => cases q <;> cases e <;> first | rfl | cases he
  have hsame : s'.unsafePages = s.unsafePages ∧ s'.kern.pages = s.kern.pages := by
    cases e with
    | lookupRange =>
        obtain ⟨_, _, hs⟩ := Option.map_eq_some_iff.mp ho
        cases hs
        exact ⟨rfl, rfl⟩
    | lockUnsafePages | scan =>
        rw [Sys.perform] at ho
        split at ho <;> cases ho
        exact ⟨rfl, rfl⟩
    | readFile | isMultithreaded | setMultithreaded | lookupAddr | lookupRangeAllowGaps
    | findUnsafePage | unlockUnsafePages | readPrev | readNext | hardwareBreakpoints
    | setHardwareBreakpoints =>
        cases ho
        exact ⟨rfl, rfl⟩
    | _ => cases he
  rw [hgranted, hsame.1, hsame.2, hentries, hpages]
  rfl

/-- Nothing that has an entry or was mapped has changed. -/
structure View.Alike (v v' : View) : Prop where
  entries : v'.entries = v.entries
  asked : v'.asked = v.asked
  atEntries : ∀ u ∈ v.entries, v'.pages (u.address / 4096) = v.pages (u.address / 4096)
  mapped : ∀ p g, v.pages p = some g → v'.pages p = some g

/-- The operation is a call to the page manager. -/
def Op.OnTracker : Op → Bool
  | .addPage .. | .removePage .. | .updateMprotect .. => true
  | _ => false

/-- A pool of nodes takes no page that is mapped. -/
theorem Sys.Refilled.mapped {s s' : Sys} {mm : Nat} {pm : PageManager} {p : Nat} {g : KPage}
    (h : s.Refilled mm pm s') (hp : s.kern.pages p = some g) : s'.kern.pages p = some g := by
  rcases h with ⟨_, rfl⟩ | ⟨_, k, hk, rfl⟩
  · exact hp
  rcases Kern.apply_mmap_cases hk with ⟨_, rfl⟩ | ⟨_, _, _, _, hfree, rfl⟩
  · exact hp
  · rw [← hp]
    refine if_neg fun hin => ?_
    rw [inPages_iff] at hin
    have hnone := hfree Bool.false_ne_true p
      (List.mem_map.mpr ⟨p - (mm : Int).toNat / 4096, List.mem_range.mpr (by omega), by omega⟩)
    cases hp.symm.trans hnone

theorem viewStep_tracker {e : Op} {r : Resp e} (he : e.OnTracker = true)
    (h : ViewStep a v e r v') : v.Alike v' := by
  obtain ⟨s, s', hentries, hpages, ⟨o, ho⟩, hfits, rfl⟩ := h
  have page : ∀ {result : Option (Int × PageManager)} {r : Int},
      s.pageCall o result = some (r, s') → s'.unsafePages = s.unsafePages ∧
        ∀ p g, s.kern.pages p = some g → s'.kern.pages p = some g := by
    intro result r hcall
    obtain ⟨_, _, hr⟩ := Sys.pageCall_iff.mp hcall
    exact ⟨hr.lists.1, fun _ _ => hr.mapped⟩
  have hgranted : a.granted e r = none := by
    cases a with
    | evict address => rfl
    | serve q => cases q <;> cases e <;> first | rfl | cases he
  have hsame : s'.unsafePages = s.unsafePages ∧
      ∀ p g, s.kern.pages p = some g → s'.kern.pages p = some g := by
    cases e with
    | addPage | removePage | updateMprotect => exact page ho
    | _ => cases he
  have hat : ∀ u ∈ s.unsafePages,
      s'.kern.pages (u.address / 4096) = s.kern.pages (u.address / 4096) := by
    cases e with
    | addPage | removePage | updateMprotect => exact hfits
    | _ => cases he
  rw [hgranted]
  refine ⟨hsame.1.trans hentries, rfl, ?_, ?_⟩
  · rw [← hentries, ← hpages]
    exact hat
  · rw [← hpages]
    exact hsame.2

theorem viewStep_wrapper {c : KCall} {cid r : Int} (h : ViewStep a v (.wrapper c cid) r v') :
    ∃ k k' : Kern, k.pages = v.pages ∧ k.apply r c = some k' ∧
      v' = ⟨v.entries, k'.pages, note v.asked (a.granted (.wrapper c cid) r)⟩ := by
  obtain ⟨s, s', hentries, hpages, hs, _, rfl⟩ := h
  obtain ⟨k', hk, rfl⟩ := Sys.step_wrapper.mp hs
  exact ⟨s.kern, k', hpages, hk, by rw [hentries]⟩

theorem viewStep_inline {c : KCall} {r : Int} (h : ViewStep a v (.inline c) r v') :
    ¬ IsError r ∧ ∃ k k' : Kern, k.pages = v.pages ∧ k.apply r c = some k' ∧
      v' = ⟨v.entries, k'.pages, v.asked⟩ := by
  obtain ⟨s, s', hentries, hpages, hs, hfits, rfl⟩ := h
  obtain ⟨k', hk, rfl⟩ := Sys.step_inline.mp hs
  have hgranted : a.granted (.inline c) r = none := by
    cases a with
    | evict address => rfl
    | serve q => cases q <;> rfl
  refine ⟨hfits, s.kern, k', hpages, hk, ?_⟩
  rw [hentries, hgranted]
  rfl

/-- The pages of the range have got a protection, and nothing else with an entry
has changed. -/
structure View.Closed (start size : Nat) (prot : Prot) (v v' : View) : Prop where
  entries : v'.entries = v.entries
  asked : v'.asked = v.asked
  inside : ∀ p, inPages start size p = true → ∃ key, v'.pages p = some { prot, key }
  outside : ∀ u ∈ v.entries, ¬ inPages start size (u.address / 4096) = true →
    v'.pages (u.address / 4096) = v.pages (u.address / 4096)

theorem Kern.protect_closed {k k' : Kern} {key : Option Nat} {r : Int} (l : List UnsafePage)
    (asked : Nat → Option Prot) (hk : k.apply r (.mprotect start size prot key) = some k')
    (hr : ¬ IsError r) :
    InUserSpace start size ∧
      View.Closed start size prot ⟨l, k.pages, asked⟩ ⟨l, k'.pages, asked⟩ := by
  rcases Kern.apply_mprotect_cases hk with ⟨herr, _⟩ | ⟨_, hspace, hmapped, rfl⟩
  · exact absurd herr hr
  refine ⟨hspace, rfl, rfl, fun p hp => ?_, fun u _ hu => if_neg hu⟩
  rw [inPages_iff] at hp
  have hsome := hmapped p
    (List.mem_map.mpr ⟨p - start / 4096, List.mem_range.mpr (by omega), by omega⟩)
  obtain ⟨g, hg⟩ := Option.isSome_iff_exists.mp hsome
  refine ⟨key.getD g.key, ?_⟩
  show (if inPages start size p then _ else _) = _
  rw [if_pos (inPages_iff.mpr hp), hg]
  rfl

theorem View.Closed.then_alike {v₁ : View} (h : v.Closed start size prot v₁) (h₁ : v₁.Alike v') :
    v.Closed start size prot v' := by
  refine ⟨h₁.entries.trans h.entries, h₁.asked.trans h.asked, fun p hp => ?_, fun u hu hn => ?_⟩
  · obtain ⟨key, hkey⟩ := h.inside p hp
    exact ⟨key, h₁.mapped p _ hkey⟩
  · exact (h₁.atEntries u (h.entries ▸ hu)).trans (h.outside u hu hn)

theorem View.Alike.then_closed {v₁ : View} (h₁ : v.Alike v₁) (h : v₁.Closed start size prot v') :
    v.Closed start size prot v' := by
  refine ⟨h.entries.trans h₁.entries, h.asked.trans h₁.asked, h.inside, fun u hu hn => ?_⟩
  exact (h.outside u (h₁.entries ▸ hu) hn).trans (h₁.atEntries u hu)

theorem View.Sound.alike (h : v.Sound R) (h₁ : v.Alike v') : v'.Sound R :=
  h.repage h₁.entries h₁.asked fun u hu _ => h₁.atEntries u hu

/-- The entries of the range are perhaps wrong now. -/
theorem View.Sound.touched (h : v.Sound R) (hc : v.Closed start size prot v') :
    v'.Sound fun p => R p ∨ inPages start size p = true := by
  refine (h.weaken fun p hp => .inl hp).repage hc.entries hc.asked fun u hu hn => ?_
  exact hc.outside u hu fun hin => hn (.inr hin)

/-- The entries of the range have the protection it was given. -/
theorem View.Sound.closed (h : v.Sound R) (hc : v.Closed start size prot v')
    (hcur : ∀ u ∈ v.entries, inPages start size (u.address / 4096) = true → u.currentPerm = prot) :
    v'.Sound fun p => R p ∧ ¬ inPages start size p = true := by
  refine (h.touched hc).settle fun u hu hr hn g hg => ?_
  have hin : inPages start size (u.address / 4096) = true := by
    rcases hr with hr | hr
    · exact Decidable.not_not.mp fun hout => hn ⟨hr, hout⟩
    · exact hr
  obtain ⟨key, hkey⟩ := hc.inside (u.address / 4096) hin
  cases hkey.symm.trans hg
  exact (hcur u (hc.entries ▸ hu) hin).symm

/-! ## Groups -/

/-- What has been asked for is not changed by the re-protection of a part. -/
def View.Steady (a : TableAct) (v : View) : Prop :=
  ∀ start size prot cid r,
    note v.asked (a.granted (.wrapper (.mprotect start size prot none) cid) r) = v.asked

theorem View.Steady.of_asked (h : v.Steady a) (hasked : v'.asked = v.asked) : v'.Steady a := by
  unfold View.Steady
  rw [hasked]
  exact h

theorem post_quiet {e : Op} {Q : Resp e → View → Prop} (he : e.Quiet = true)
    (h : ∀ r, ViewStep a v e r v → Q r v) : Prog.Post (ViewStep a) (perform e) Q v := by
  refine Prog.post_call fun r v' hs => ?_
  obtain rfl := viewStep_quiet he hs
  exact h r hs

theorem post_tracker {e : Op} {Q : Resp e → View → Prop} (he : e.OnTracker = true)
    (h : ∀ r v', v.Alike v' → Q r v') : Prog.Post (ViewStep a) (perform e) Q v :=
  Prog.post_call fun r v' hs => h r v' (viewStep_tracker he hs)

/-- The program gives a range its protection, as far as the kernel and the entries
are concerned. -/
def Closes (a : TableAct) (close : Nat → Nat → Prot → M Unit) : Prop :=
  ∀ start size prot (v : View), v.Steady a →
    Prog.Post (ViewStep a) (close start size prot) (fun _ v' => v.Closed start size prot v') v

theorem addGroup_closes {flags : Int} {mapFixed : Bool} {key : Nat} :
    Closes a fun start size prot => addGroup start size prot flags cid mapFixed key := by
  intro start size prot v _
  unfold addGroup
  rw [Prog.post_seq]
  refine post_expectZero.mpr (post_tracker rfl fun _ v₁ h₁ _ => ?_)
  refine post_expectZero.mpr (Prog.post_call fun r v₂ hs _ => ?_)
  obtain ⟨hr, k, k', hpages, hk, rfl⟩ := viewStep_inline hs
  refine h₁.then_closed ?_
  have hclosed := (Kern.protect_closed v₁.entries v₁.asked hk hr).2
  rw [hpages] at hclosed
  exact hclosed

theorem protectGroup_closes : Closes a fun start size prot => protectGroup start size prot cid := by
  intro start size prot v hsteady
  unfold protectGroup
  rw [Prog.post_seq]
  refine post_expectZero.mpr (Prog.post_call fun r v₁ hs hr => ?_)
  obtain ⟨k, k', hpages, hk, rfl⟩ := viewStep_wrapper hs
  refine post_expectZero.mpr (post_tracker rfl fun _ v₂ h₂ _ => ?_)
  refine View.Closed.then_alike ?_ h₂
  have hclosed := (Kern.protect_closed v.entries v.asked hk (hr ▸ not_isError_zero)).2
  rw [hpages] at hclosed
  rw [hsteady]
  exact hclosed

theorem secpolineMprotect_closed :
    Prog.Post (ViewStep a) (secpolineMprotect address size prot cid)
      (fun _ v' => v.Closed address size prot v') v := by
  unfold secpolineMprotect
  rw [Prog.post_seq]
  refine Prog.post_call fun r v₁ hs => ?_
  obtain ⟨hr, k, k', hpages, hk, rfl⟩ := viewStep_inline hs
  have hclosed := (Kern.protect_closed v.entries v.asked hk hr).2
  rw [hpages] at hclosed
  refine Prog.post_whenever.mpr ⟨fun _ => ?_, fun _ => hclosed⟩
  exact post_expectZero.mpr (post_tracker rfl fun _ v₂ h₂ _ => hclosed.then_alike h₂)

/-! ## Entries -/

theorem viewStep_list {e : Op} {r : Resp e} (he : e.listFree = false) (hhb : e.Quiet = false)
    (h : ViewStep a v e r v') :
    ∃ s s' : Sys, s.unsafePages = v.entries ∧ s.Step e r s' ∧
      v' = ⟨s'.unsafePages, v.pages, v.asked⟩ := by
  obtain ⟨s, s', hentries, hpages, hs, _, rfl⟩ := h
  have hgranted : a.granted e r = none := by
    cases a with
    | evict address => rfl
    | serve q => cases q <;> cases e <;> first | rfl | cases he
  have hkern : s'.kern = s.kern := by
    cases e with
    | addUnsafePage =>
        obtain ⟨_, _, rfl⟩ := Sys.step_addUnsafePage.mp hs
        rfl
    | updateUnsafePage =>
        obtain ⟨_, _, _, rfl⟩ := Sys.step_updateUnsafePage.mp hs
        rfl
    | updateUnsafeInstruction =>
        obtain ⟨_, _, _, _, rfl⟩ := Sys.step_updateUnsafeInstruction.mp hs
        rfl
    | setCurrentPerm =>
        obtain rfl := Sys.step_setCurrentPerm.mp hs
        rfl
    | setHardwareBreakpoints => cases hhb
    | _ => cases he
  exact ⟨s, s', hentries, hs, by rw [hgranted, hkern, hpages]; rfl⟩

theorem View.Sound.replaced {l : List UnsafePage} {new : UnsafePage} (h : v.Sound R)
    (hr : Replaced v.entries l address new) (ha : new.address % 4096 = 0)
    (hasked : new.desiredPerm.isExec = true → v.AsksExec (new.address / 4096))
    (hcur : ¬ R (new.address / 4096) →
      ∀ g, v.pages (new.address / 4096) = some g → g.prot = new.currentPerm) :
    ({ v with entries := l } : View).Sound R := by
  refine ⟨hr.nodup, fun u hu => ?_, fun u hu => ?_, fun u hu => ?_⟩
  · rcases hr.mem u hu with ⟨hu, _⟩ | rfl
    · exact h.aligned u hu
    · exact ha
  · rcases hr.mem u hu with ⟨hu, _⟩ | rfl
    · exact h.asked u hu
    · exact hasked
  · rcases hr.mem u hu with ⟨hu, _⟩ | rfl
    · exact h.current u hu
    · exact hcur

/-- The entry of the page, if there is one now, wants `perm` and has `cur`. -/
structure View.Recorded (start : Nat) (perm cur : Prot) (v v' : View) : Prop where
  pages : v'.pages = v.pages
  asked : v'.asked = v.asked
  list : ∃ new : UnsafePage, Replaced v.entries v'.entries start new ∧ new.address = start ∧
    new.desiredPerm = perm ∧ new.currentPerm = cur

theorem View.Recorded.sound {perm cur : Prot} (h : v.Sound R) (hr : v.Recorded start perm cur v')
    (ha : start % 4096 = 0) (hasked : perm.isExec = true → v.AsksExec (start / 4096))
    (hR : R (start / 4096)) : v'.Sound R := by
  obtain ⟨hpages, hsame, new, hnew, rfl, rfl, rfl⟩ := hr
  have heq : v' = { v with entries := v'.entries } := by
    cases v'
    cases hpages
    cases hsame
    rfl
  rw [heq]
  exact h.replaced hnew ha hasked fun hn => absurd hR hn

/-- The other entries are the ones that were there. -/
theorem View.Recorded.mem {perm cur : Prot} {u : UnsafePage} (hr : v.Recorded start perm cur v')
    (hu : u ∈ v'.entries) :
    (u ∈ v.entries ∧ u.address ≠ start) ∨ (u.address = start ∧ u.currentPerm = cur) := by
  obtain ⟨_, _, new, hnew, ha, _, hcur⟩ := hr
  rcases hnew.mem u hu with h | rfl
  · exact .inl h
  · exact .inr ⟨ha, hcur⟩

theorem addUnsafePage_recorded {perm cur : Prot} {trustedPage : Bool} {vector : Option (List Nat)}
    (h : v.Sound R) :
    Prog.Post (ViewStep a) (perform (.addUnsafePage start cur perm trustedPage vector))
      (fun _ v' => v.Recorded start perm cur v') v := by
  refine Prog.post_call fun r v' hv => ?_
  obtain ⟨s, s', hentries, hs, rfl⟩ := viewStep_list rfl rfl hv
  obtain ⟨l, hl, rfl⟩ := Sys.step_addUnsafePage.mp hs
  rw [hentries] at hl
  exact ⟨rfl, rfl, _, addUnsafePage_replaced h.nodup hl, rfl, rfl, rfl⟩

theorem updateUnsafePage_recorded {perm cur : Prot} {trustedPage : Bool} {vector : List Nat}
    (h : v.Sound R) :
    Prog.Post (ViewStep a) (perform (.updateUnsafePage start cur perm trustedPage vector))
      (fun _ v' => v.Recorded start perm cur v') v := by
  refine Prog.post_call fun r v' hv => ?_
  obtain ⟨s, s', hentries, hs, rfl⟩ := viewStep_list rfl rfl hv
  obtain ⟨b, l, hl, rfl⟩ := Sys.step_updateUnsafePage.mp hs
  rw [hentries] at hl
  exact ⟨rfl, rfl, _, updateUnsafePage_replaced h.nodup hl, rfl, rfl, rfl⟩

/-! ## The scanner -/

theorem erimScanPrev_tidy {nb : Neighbour} {perm unsafePerm : Prot} {trustedPage : Bool}
    {prev : Prev} :
    Prog.Post (ViewStep a) (erimScanPrev start nb perm unsafePerm trustedPage prev)
      (fun prev' v' => prev' = prev ∧ v' = v) v := by
  unfold erimScanPrev
  split
  · refine Prog.post_fold (fun _ prev' v' => prev' = prev ∧ v' = v) (fun offset _ prev' v₁ hI => ?_)
      ⟨rfl, rfl⟩
    obtain ⟨rfl, rfl⟩ := hI
    unfold erimScanPrevByte
    rw [Prog.post_seq]
    refine post_quiet rfl fun m hs => ?_
    obtain ⟨_, _, _, _, _, hfits, _⟩ := hs
    exact Prog.post_ite (fun hin => absurd hin hfits) (fun _ => ⟨rfl, rfl⟩)
  · exact ⟨rfl, rfl⟩

theorem erimScanNext_tidy {nb : Neighbour} {perm unsafePerm : Prot} {trustedPage : Bool} :
    Prog.Post (ViewStep a) (erimScanNext nb perm unsafePerm trustedPage)
      (fun _ v' => v' = v) v := by
  unfold erimScanNext
  split
  · refine Prog.post_fold (fun _ _ v' => v' = v) (fun offset _ _ v₁ hI => ?_) rfl
    subst hI
    unfold erimScanNextByte
    rw [Prog.post_seq]
    refine post_quiet rfl fun m hs => ?_
    obtain ⟨_, _, _, _, _, hfits, _⟩ := hs
    exact Prog.post_whenever.mpr ⟨fun hin => absurd hin hfits, fun _ => rfl⟩
  · rfl

/-- A scan that finds nothing across the boundaries writes the entry of its page. -/
theorem erimMemScanRegion_recorded {whitelist : List Nat} {perm unsafePerm : Prot}
    {trustedPage : Bool} {prev : Prev} (h : v.Sound R) :
    Prog.Post (ViewStep a) (erimMemScanRegion start whitelist perm unsafePerm trustedPage prev)
      (fun r v' => r.2 = prev ∧
        v.Recorded start perm (if r.1 = true then unsafePerm else perm) v') v := by
  unfold erimMemScanRegion
  rw [Prog.post_seq]
  have hprev : Prog.Post (ViewStep a) (erimPrev start perm trustedPage prev)
      (fun _ v' => v' = v) v := by
    cases prev with
    | null =>
        refine Prog.post_ite (fun _ => ?_) (fun _ => rfl)
        rw [Prog.post_seq]
        refine post_quiet rfl fun g _ => ?_
        split <;> rfl
    | page address => rfl
    | flagged => trivial
  refine hprev.mono fun before v₁ h₁ => ?_
  subst h₁
  rw [Prog.post_seq]
  have hnext : Prog.Post (ViewStep a) (erimNext start before) (fun _ v' => v' = v₁) v₁ := by
    unfold erimNext
    rw [Prog.post_seq]
    refine post_quiet rfl fun g _ => ?_
    split <;> rfl
  refine hnext.mono fun nb v₂ h₂ => ?_
  subst h₂
  rw [Prog.post_seq]
  refine erimScanPrev_tidy.mono fun prev' v₃ h₃ => ?_
  obtain ⟨rfl, rfl⟩ := h₃
  rw [Prog.post_seq]
  refine erimScanNext_tidy.mono fun _ v₄ h₄ => ?_
  subst h₄
  rw [Prog.post_seq]
  refine post_quiet rfl fun m _ => ?_
  rw [Prog.post_seq]
  unfold erimRecord
  refine Prog.post_ite (fun _ => ?_) (fun _ => ?_)
  · rw [Prog.post_seq]
    exact (addUnsafePage_recorded h).mono fun _ _ hr => ⟨rfl, hr⟩
  · rw [Prog.post_seq]
    exact (updateUnsafePage_recorded h).mono fun _ _ hr => ⟨rfl, hr⟩

/-! ## Scanning a mapping -/

/-- Before page `i` of a loop that scans the `n` pages from `start` on. The last `k`
pages that were scanned are in the open group: their entries have the protection
that the group will get. The pages before it are done. -/
structure View.Open (a : TableAct) (start n : Nat) (prot : Prot) (i : Nat) (g : Group) (k : Nat)
    (v : View) : Prop where
  le : k ≤ i
  size : g.size = 4096 * k
  first : g.start = if k = 0 then 0 else start + 4096 * (i - k)
  sound : v.Sound fun p => start / 4096 + (i - k) ≤ p ∧ p < start / 4096 + n
  group : ∀ u ∈ v.entries, start / 4096 + (i - k) ≤ u.address / 4096 →
    u.address / 4096 < start / 4096 + i → u.currentPerm = prot
  asks : ∀ p, start / 4096 ≤ p → p < start / 4096 + n → v.AsksExec p
  steady : v.Steady a

theorem View.AsksExec.of_asked {p : Nat} (h : v.AsksExec p) (hasked : v'.asked = v.asked) :
    v'.AsksExec p := by
  unfold View.AsksExec
  rw [hasked]
  exact h

section
variable {n i k : Nat} {g : Group}

theorem View.Open.openAt {Q : Nat → View → Prop} (h : v.Open a start n prot i g k)
    (hQ : Q (start + 4096 * (i - k)) v) :
    Prog.Post (ViewStep a) (g.openAt (start + 4096 * i)) Q v := by
  refine Prog.post_ite (fun _ => ?_) (fun hopen => ?_)
  · rw [Prog.post_seq]
    refine Prog.post_require.mpr fun hempty => ?_
    have hk : k = 0 := by
      have := h.size
      omega
    rw [hk] at hQ
    exact hQ
  · have hk : k ≠ 0 := fun hk => hopen (by rw [h.first, if_pos hk])
    rw [h.first, if_neg hk]
    exact hQ

/-- The scan of page `i` has written its entry, if there is one. -/
theorem View.Open.scanned {cur : Prot} (h : v.Open a start n prot i g k) (hstart : start % 4096 = 0)
    (hi : i < n) (hr : v.Recorded (start + 4096 * i) prot cur v') :
    v'.Open a start n prot i g k ∧
      ∀ u ∈ v'.entries, u.address / 4096 = start / 4096 + i → u.currentPerm = cur := by
  have hpage : (start + 4096 * i) / 4096 = start / 4096 + i := by omega
  have hle := h.le
  have hsound : v'.Sound fun p => start / 4096 + (i - k) ≤ p ∧ p < start / 4096 + n := by
    refine hr.sound h.sound (by omega) (fun _ => ?_) ?_
    · exact h.asks _ (by omega) (by omega)
    · omega
  refine ⟨⟨h.le, h.size, h.first, hsound, fun u hu hlo hhi => ?_, fun p hlo hhi => ?_,
    h.steady.of_asked hr.asked⟩, fun u hu hp => ?_⟩
  · rcases hr.mem hu with ⟨hu, _⟩ | ⟨ha, _⟩
    · exact h.group u hu hlo hhi
    · omega
  · exact (h.asks p hlo hhi).of_asked hr.asked
  · rcases hr.mem hu with ⟨hu', hne⟩ | ⟨_, hcur⟩
    · have ha := h.sound.aligned u hu'
      exact absurd (by omega) hne
    · exact hcur

/-- Page `i` joins the open group. -/
theorem View.Open.join (h : v.Open a start n prot i g k)
    (hcur : ∀ u ∈ v.entries, u.address / 4096 = start / 4096 + i → u.currentPerm = prot) :
    v.Open a start n prot (i + 1)
      { start := start + 4096 * (i - k), size := g.size + 4096, prev := .page (start + 4096 * i) }
      (k + 1) := by
  have hle := h.le
  have hsub : i + 1 - (k + 1) = i - k := by omega
  refine ⟨by omega, ?_, ?_, ?_, fun u hu hlo hhi => ?_, h.asks, h.steady⟩
  · show g.size + 4096 = _
    rw [h.size]
    omega
  · rw [hsub, if_neg (by omega)]
  · rw [hsub]
    exact h.sound
  · by_cases hp : u.address / 4096 = start / 4096 + i
    · exact hcur u hu hp
    · exact h.group u hu (by omega) (by omega)

/-- The open group has been closed. -/
theorem View.Open.close (h : v.Open a start n prot i g k) (hstart : start % 4096 = 0)
    (hc : v.Closed (start + 4096 * (i - k)) (4096 * k) prot v') :
    v'.Sound fun p => start / 4096 + i ≤ p ∧ p < start / 4096 + n := by
  have hle := h.le
  have hsound := h.sound.closed hc fun u hu hin => by
    obtain ⟨hlo, hhi⟩ := (inPages_group hstart).mp hin
    exact h.group u hu hlo (by omega)
  refine hsound.weaken fun p hp => ⟨?_, hp.1.2⟩
  have hout : ¬ (start / 4096 + (i - k) ≤ p ∧ p < start / 4096 + (i - k) + k) :=
    fun hin => hp.2 ((inPages_group hstart).mpr hin)
  have hlow := hp.1.1
  omega

/-- With an empty group there is nothing to close. -/
theorem View.Open.empty (h : v.Open a start n prot i g k) (hk : g.size = 0) :
    v.Sound fun p => start / 4096 + i ≤ p ∧ p < start / 4096 + n := by
  have hle := h.le
  have hsize := h.size
  exact h.sound.weaken fun p hp => ⟨by omega, hp.2⟩

/-- Page `i` has been closed by itself. -/
theorem View.Open.separate {v₂ : View} {cur : Prot} (h : v.Open a start n prot i g k)
    (hstart : start % 4096 = 0) (hentries : v₂.entries = v.entries) (hasked : v₂.asked = v.asked)
    (hsound : v₂.Sound fun p => start / 4096 + i ≤ p ∧ p < start / 4096 + n)
    (hcur : ∀ u ∈ v.entries, u.address / 4096 = start / 4096 + i → u.currentPerm = cur)
    (hc : v₂.Closed (start + 4096 * i) 4096 cur v') :
    v'.Open a start n prot (i + 1)
      { start := 0, size := 0, prev := .page (start + 4096 * i) } 0 := by
  have hpages : ∀ p, inPages (start + 4096 * i) 4096 p = true ↔ p = start / 4096 + i := by
    intro p
    have hiff := inPages_group hstart (j := i) (m := 1) (p := p)
    rw [Nat.mul_one] at hiff
    rw [hiff]
    omega
  have hasked' : v'.asked = v.asked := hc.asked.trans hasked
  have hlast := hsound.closed hc fun u hu hin => hcur u (hentries ▸ hu) ((hpages _).mp hin)
  refine ⟨Nat.zero_le _, rfl, rfl, ?_, fun u _ hlo hhi => ?_, fun p hlo hhi => ?_,
    h.steady.of_asked hasked'⟩
  · refine hlast.weaken fun p hp => ⟨?_, hp.1.2⟩
    have hne : ¬ p = start / 4096 + i := fun heq => hp.2 ((hpages p).mpr heq)
    have hlow := hp.1.1
    omega
  · omega
  · exact (h.asks p hlo hhi).of_asked hasked'

/-- Before the loop. -/
theorem View.Sound.open (h : v.Sound fun p => inPages start size p = true)
    (hn : pageCount size = n) (hasks : ∀ p, inPages start size p = true → v.AsksExec p)
    (hsteady : v.Steady a) :
    v.Open a start n prot 0 { start := 0, size := 0, prev := .null } 0 := by
  refine ⟨Nat.le_refl _, rfl, rfl, ?_, fun u _ hlo hhi => ?_, fun p hlo hhi => ?_, hsteady⟩
  · refine h.weaken fun p hp => ?_
    rw [inPages_iff, hn] at hp
    exact ⟨by omega, hp.2⟩
  · omega
  · refine hasks p (inPages_iff.mpr ?_)
    rw [hn]
    exact ⟨hlo, hhi⟩

end

/-- The states between the turns of such a loop. -/
def Turns (a : TableAct) (start n : Nat) (prot : Prot) (i : Nat) (g : Group) (v : View) : Prop :=
  ∃ k, v.Open a start n prot i g k ∧ g.prev ≠ .flagged

section
variable {close : Nat → Nat → Prot → M Unit} {n i k : Nat} {g : Group}

/-- The end of a turn on a page with unsafe instructions. -/
theorem View.Open.closePage {v₁ : View} (hclose : Closes a close)
    (h : v.Open a start n prot i g k) (hstart : start % 4096 = 0)
    (hcur : ∀ u ∈ v.entries, u.address / 4096 = start / 4096 + i → u.currentPerm = prot.noExec)
    (hentries : v₁.entries = v.entries) (hasked : v₁.asked = v.asked)
    (hsound : v₁.Sound fun p => start / 4096 + i ≤ p ∧ p < start / 4096 + n) :
    Prog.Post (ViewStep a) (do
      close (start + 4096 * i) 4096 prot.noExec
      pure { start := 0, size := 0, prev := .page (start + 4096 * i) })
      (Turns a start n prot (i + 1)) v₁ := by
  rw [Prog.post_seq]
  refine (hclose _ _ _ _ (h.steady.of_asked hasked)).mono fun _ v₂ hc => ?_
  exact ⟨0, h.separate hstart hentries hasked hsound hcur hc, nofun⟩

/-- After the last turn. -/
theorem turns_close (hclose : Closes a close) (h : Turns a start n prot n g v)
    (hstart : start % 4096 = 0) :
    Prog.Post (ViewStep a) (Prog.whenever (g.size ≠ 0) (close g.start g.size prot))
      (fun _ v' => v'.Sound fun _ => False) v := by
  obtain ⟨k, hopen, _⟩ := h
  have hdone : ∀ {v' : View}, (v'.Sound fun p => start / 4096 + n ≤ p ∧ p < start / 4096 + n) →
      v'.Sound fun _ => False :=
    fun hsound => hsound.weaken fun p hp => by omega
  refine Prog.post_whenever.mpr ⟨fun hsize => ?_, fun hsize => ?_⟩
  · have hk : k ≠ 0 := fun hk => hsize (by rw [hopen.size, hk])
    rw [hopen.first, if_neg hk, hopen.size]
    exact (hclose _ _ _ _ hopen.steady).mono fun _ v' hc => hdone (hopen.close hstart hc)
  · exact hdone (hopen.empty (Decidable.not_not.mp hsize))

end

-- a range whose entries may all be wrong
section
variable (hspace : InUserSpace start size) (h : v.Sound fun p => inPages start size p = true)
  (hasks : ∀ p, inPages start size p = true → v.AsksExec p)
include hspace h hasks

theorem scanGroups_sound {close : Nat → Nat → Prot → M Unit} {restart : Bool}
    {allowList : List Nat} (hsteady : v.Steady a) (hclose : Closes a close) :
    Prog.Post (ViewStep a) (scanGroups close restart allowList prot prot.noExec start size)
      (fun _ v' => v'.Sound fun _ => False) v := by
  have hstart := hspace.1
  unfold scanGroups
  rw [Prog.post_seq, pageLoop_eq hspace]
  refine Prog.Post.mono (Prog.post_fold_range (Turns a start (pageCount size) prot)
    (fun i hi g v hI => ?_) ⟨0, h.open rfl hasks hsteady, by rintro ⟨⟩⟩)
    fun g v₁ hI => turns_close hclose hI hstart
  obtain ⟨k, hopen, hprev⟩ := hI
  unfold scanGroupsPage
  rw [Prog.post_seq]
  refine hopen.openAt ?_
  rw [Prog.post_seq]
  refine (erimMemScanRegion_recorded hopen.sound).mono fun r v₁ hr => ?_
  obtain ⟨found, prev⟩ := r
  obtain ⟨rfl, hrecorded⟩ := hr
  obtain ⟨hopen₁, hcur⟩ := hopen.scanned hstart hi hrecorded
  dsimp only
  rw [closeFlagged, if_neg fun hf => hprev hf.1, Prog.post_seq, Prog.post_pure, Prog.post_seq,
    closeOpenGroup]
  cases found with
  | false =>
      rw [if_neg (by simp [hprev]), Prog.post_pure, if_neg Bool.false_ne_true, Prog.post_pure]
      exact ⟨k + 1, hopen₁.join hcur, by rintro ⟨⟩⟩
  | true =>
      refine Prog.post_ite (fun hsize => ?_) (fun hsize => ?_)
      · rw [Prog.post_seq, hopen₁.size]
        refine (hclose _ _ _ _ hopen₁.steady).mono fun _ v₂ hc => ?_
        rw [Prog.post_pure, if_pos rfl]
        exact hopen₁.closePage hclose hstart hcur hc.entries hc.asked (hopen₁.close hstart hc)
      · rw [Prog.post_pure, if_pos rfl]
        have hempty := hopen₁.empty (Decidable.not_not.mp fun hne => hsize ⟨rfl, hne⟩)
        exact hopen₁.closePage hclose hstart hcur rfl rfl hempty

theorem scanExecMapping_sound {flags : Int} {mapFixed : Bool} {allowList : List Nat} {key : Nat}
    (hsteady : v.Steady a) (hkey : getPkey cid = some key) :
    Prog.Post (ViewStep a)
      (scanExecMapping start size prot prot.noExec flags mapFixed cid allowList)
      (fun _ v' => v'.Sound fun _ => False) v := by
  rw [scanExecMapping_eq, hkey]
  exact scanGroups_sound hspace h hasks hsteady addGroup_closes

theorem scanExecMappingMprotect_sound {allowList : List Nat} {key : Nat}
    (hsteady : v.Steady a) (hkey : getPkey cid = some key) :
    Prog.Post (ViewStep a)
      (scanExecMappingMprotect start size prot prot.noExec cid allowList)
      (fun _ v' => v'.Sound fun _ => False) v := by
  rw [scanExecMappingMprotect_eq, hkey]
  exact scanGroups_sound hspace h hasks hsteady protectGroup_closes

/-! ## Pages that are to be writable and executable -/

/-- Entries for pages that have their protection already. -/
theorem markUnsafe_sound {trustedPage : Bool}
    (hinside : ∀ p, inPages start size p = true → ∃ key, v.pages p = some { prot, key }) :
    Prog.Post (ViewStep a) (markUnsafe start size prot trustedPage)
      (fun _ v' => v'.Sound fun _ => False) v := by
  have hstart := hspace.1
  unfold markUnsafe
  rw [pageLoop_eq hspace]
  refine Prog.Post.mono (Prog.post_fold_range
    (fun i _ v' => v'.pages = v.pages ∧ v'.asked = v.asked ∧
      v'.Sound fun p => start / 4096 + i ≤ p ∧ p < start / 4096 + pageCount size)
    (fun i hi _ v₁ hI => ?_) ⟨rfl, rfl, ?_⟩) fun _ v₁ hI => ?_
  · obtain ⟨hpages, hasked, hsound⟩ := hI
    have hpage : (start + 4096 * i) / 4096 = start / 4096 + i := by omega
    have hin : inPages start size (start / 4096 + i) = true := inPages_iff.mpr (by omega)
    refine (addUnsafePage_recorded hsound).mono fun _ v₂ hr => ?_
    have hsound₂ := hr.sound hsound (by omega)
      (fun _ => (hasks _ (hpage ▸ hin)).of_asked hasked) (by omega)
    refine ⟨hr.pages.trans hpages, hr.asked.trans hasked, ?_⟩
    refine hsound₂.settle fun u hu hp hn g hg => ?_
    have hu' : u.address / 4096 = start / 4096 + i := by omega
    rcases hr.mem hu with ⟨hu₁, hne⟩ | ⟨_, hcur⟩
    · have ha := hsound.aligned u hu₁
      exact absurd (by omega) hne
    · obtain ⟨key, hkey⟩ := hinside _ hin
      rw [hr.pages, hpages, hu', hkey] at hg
      cases hg
      exact hcur.symm
  · exact h.weaken fun p hp => inPages_iff.mp hp
  · exact hI.2.2.weaken fun p hp => by omega

end

/-! ## Faults -/

/-- The entry of the page, if there is one, now has the protection. -/
structure View.Marked (address : Nat) (perm : Prot) (v v' : View) : Prop where
  pages : v'.pages = v.pages
  asked : v'.asked = v.asked
  entries : v'.entries = setCurrentPerm v.entries address perm

theorem setCurrentPerm_marked :
    Prog.Post (ViewStep a) (perform (.setCurrentPerm address prot))
      (fun _ v' => v.Marked address prot v') v := by
  refine Prog.post_call fun r v' hv => ?_
  obtain ⟨s, s', hentries, hs, rfl⟩ := viewStep_list rfl rfl hv
  obtain rfl := Sys.step_setCurrentPerm.mp hs
  refine ⟨rfl, rfl, ?_⟩
  rw [← hentries]

theorem View.Marked.sound (hm : v.Marked address prot v') (h : v.Sound R) :
    v'.Sound fun p => R p ∨ p = address / 4096 := by
  have hmem : ∀ u ∈ v'.entries, (u ∈ v.entries ∧ u.address ≠ address) ∨
      ∃ u₀ ∈ v.entries, u₀.address = address ∧ u = { u₀ with currentPerm := prot } :=
    fun u hu => mem_setCurrentPerm h.nodup (hm.entries ▸ hu)
  refine ⟨?_, fun u hu => ?_, fun u hu hd => ?_, fun u hu hn => ?_⟩
  · rw [hm.entries, map_setCurrentPerm]
    exact h.nodup
  · rcases hmem u hu with ⟨hu, _⟩ | ⟨u₀, hu₀, _, rfl⟩
    · exact h.aligned u hu
    · exact h.aligned u₀ hu₀
  · refine View.AsksExec.of_asked ?_ hm.asked
    rcases hmem u hu with ⟨hu, _⟩ | ⟨u₀, hu₀, _, rfl⟩
    · exact h.asked u hu hd
    · exact h.asked u₀ hu₀ hd
  · rw [hm.pages]
    rcases hmem u hu with ⟨hu, _⟩ | ⟨u₀, _, rfl, rfl⟩
    · exact h.current u hu fun hr => hn (.inl hr)
    · exact absurd (.inr rfl) hn

theorem View.Marked.current {u : UnsafePage} (hm : v.Marked address prot v') (h : v.Sound R)
    (ha : address % 4096 = 0) (hu : u ∈ v'.entries) (hp : u.address / 4096 = address / 4096) :
    u.currentPerm = prot := by
  rw [hm.entries] at hu
  rcases mem_setCurrentPerm h.nodup hu with ⟨hu, hne⟩ | ⟨_, _, _, rfl⟩
  · have hu' := h.aligned u hu
    exact absurd (by omega) hne
  · rfl

/-- First the entry, then the page. -/
theorem markFirst_sound (cid : Int) (h : v.Sound R) (ha : address % 4096 = 0) :
    Prog.Post (ViewStep a) (perform (.setCurrentPerm address prot))
      (fun _ v₁ => Prog.Post (ViewStep a) (secpolineMprotect address 4096 prot cid)
        (fun _ v' => v'.Sound R) v₁) v := by
  refine setCurrentPerm_marked.mono fun _ v₁ hm => ?_
  refine secpolineMprotect_closed.mono fun _ v₂ hc => ?_
  have hclosed := (hm.sound h).closed hc fun u hu hin =>
    hm.current h ha hu (inPages_page.mp hin)
  exact hclosed.weaken fun p hp => hp.1.resolve_right fun heq => hp.2 (inPages_page.mpr heq)

/-- First the page, then the entry. -/
theorem markLast_sound (h : v.Sound fun p => R p ∨ p = address / 4096) (ha : address % 4096 = 0) :
    Prog.Post (ViewStep a) (secpolineMprotect address 4096 prot cid)
      (fun _ v₁ => Prog.Post (ViewStep a) (perform (.setCurrentPerm address prot))
        (fun _ v' => v'.Sound R) v₁) v := by
  refine secpolineMprotect_closed.mono fun _ v₁ hc => ?_
  refine setCurrentPerm_marked.mono fun _ v₂ hm => ?_
  refine (hm.sound (h.touched hc)).settle fun u hu hp hn g hg => ?_
  have hpage : u.address / 4096 = address / 4096 := by
    rcases hp with (hp | hp) | hp
    · exact hp.resolve_left hn
    · exact inPages_page.mp hp
    · exact hp
  obtain ⟨key, hkey⟩ := hc.inside _ (inPages_page.mpr hpage)
  rw [hm.pages, hkey] at hg
  cases hg
  exact (hm.current (h.touched hc) ha hu hpage).symm

theorem viewStep_findUnsafePage {r : Option UnsafePage}
    (h : ViewStep a v (.findUnsafePage address) r v') : r = findUnsafePage v.entries address := by
  obtain ⟨s, s', hentries, _, hs, _, _⟩ := h
  rw [← hentries]
  exact (Sys.step_findUnsafePage.mp hs).1

theorem setPageNonExecutable_sound (h : v.Sound R) :
    Prog.Post (ViewStep a) (setPageNonExecutable address) (fun _ v' => v'.Sound R) v := by
  unfold setPageNonExecutable
  rw [Prog.post_seq]
  refine post_quiet rfl fun pmPage _ => ?_
  rw [Prog.post_seq]
  refine post_quiet rfl fun page hpage => ?_
  cases pmPage with
  | none => trivial
  | some pmPage =>
      cases page with
      | none => trivial
      | some page =>
          obtain ⟨hu, _⟩ := findUnsafePage_some (viewStep_findUnsafePage hpage).symm
          have ha := h.aligned page hu
          dsimp only
          rw [Prog.post_seq]
          refine Prog.post_require.mpr fun _ => Prog.post_ite (fun _ => h) (fun _ => ?_)
          rw [Prog.post_seq]
          refine post_quiet rfl fun _ _ => Prog.post_ite (fun _ => ?_) (fun _ => ?_)
          · rw [Prog.post_seq]
            exact markFirst_sound pmPage.cid h ha
          · rw [Prog.post_seq]
            refine (markFirst_sound pmPage.cid h ha).mono fun _ v₁ hprot => ?_
            rw [Prog.post_seq]
            exact hprot.mono fun _ v₂ h₂ => post_quiet rfl fun _ _ => h₂

theorem addBreakpointWrapper_sound {isStatic : Bool} (h : v.Sound R) :
    Prog.Post (ViewStep a) (addBreakpointWrapper address isStatic) (fun _ v' => v'.Sound R) v := by
  unfold addBreakpointWrapper
  rw [Prog.post_seq]
  refine post_quiet rfl fun page _ => ?_
  cases page with
  | none => trivial
  | some page =>
      refine Prog.post_ite (fun _ => h) (fun _ => ?_)
      rw [Prog.post_seq]
      refine post_quiet rfl fun c _ => ?_
      split
      · trivial
      · rw [Prog.post_seq]
        refine Prog.Post.mono (Prog.post_fold (fun _ _ v' => v'.Sound R)
          (fun _ _ _ v₁ hI => setPageNonExecutable_sound hI) h) fun _ v₂ h₂ => ?_
        exact post_quiet rfl fun _ _ => h₂

theorem makeExecutable_sound (h : v.Sound fun p => R p ∨ p = address / 4096)
    (ha : address % 4096 = 0) :
    Prog.Post (ViewStep a) (makeExecutable address cid) (fun _ v' => v'.Sound R) v := by
  unfold makeExecutable
  rw [Prog.post_seq]
  refine (markLast_sound h ha).mono fun _ v₁ hprot => ?_
  rw [Prog.post_seq]
  exact hprot.mono fun _ v₂ h₂ => h₂

theorem secpolineSegfaultHandler_sound {code : SegvCode} (h : v.Sound fun _ => False) :
    Prog.Post (ViewStep a) (secpolineSegfaultHandler code address cid)
      (fun _ v' => v'.Sound fun _ => False) v := by
  unfold secpolineSegfaultHandler
  rw [Prog.post_seq]
  refine Prog.post_require.mpr fun _ => Prog.post_ite (fun _ => h) (fun _ => ?_)
  rw [Prog.post_seq]
  refine post_quiet rfl fun page hpage => ?_
  cases page with
  | none => exact h
  | some page =>
      obtain ⟨hu, _⟩ := findUnsafePage_some (viewStep_findUnsafePage hpage).symm
      have ha := h.aligned page hu
      have hbusy : v.Sound fun p => False ∨ p = page.address / 4096 := h.weaken fun _ => False.elim
      dsimp only
      rw [Prog.post_seq]
      refine post_quiet rfl fun tracked _ => Prog.post_ite (fun _ => h) (fun _ => ?_)
      refine Prog.post_ite (fun _ => Prog.post_ite (fun _ => h) (fun _ => ?_)) (fun _ => ?_)
      · rw [Prog.post_seq]
        refine (markLast_sound hbusy ha).mono fun _ v₁ hprot => ?_
        rw [Prog.post_seq]
        exact hprot.mono fun _ v₂ h₂ => h₂
      refine Prog.post_ite (fun _ => Prog.post_ite (fun _ => h) (fun _ => ?_)) (fun _ => ?_)
      · rw [Prog.post_seq]
        refine (erimMemScanRegion_recorded hbusy).mono fun r v₁ hr => ?_
        have h₁ := hr.2.sound hbusy ha (fun hd => h.asked page hu hd) (.inr rfl)
        rw [Prog.post_seq]
        refine Prog.post_whenever.mpr ⟨fun _ => ?_, fun _ => makeExecutable_sound h₁ ha⟩
        exact (addBreakpointWrapper_sound h₁).mono fun _ v₂ h₂ => makeExecutable_sound h₂ ha
      · refine Prog.post_ite (fun _ => Prog.post_ite (fun _ => h) (fun _ => ?_)) (fun _ => h)
        rw [Prog.post_seq]
        exact (addBreakpointWrapper_sound hbusy).mono fun _ v₂ h₂ => makeExecutable_sound h₂ ha

/-! ## Requests -/

/-- What has been asked for, once the request is granted. -/
def View.noted (v : View) (start size : Nat) (prot : Prot) : View :=
  { v with asked := note v.asked (some (start, size, prot)) }

theorem View.noted_asksExec (hp : prot.isExec = true) {p : Nat}
    (hin : inPages start size p = true) : (v.noted start size prot).AsksExec p :=
  ⟨prot, if_pos hin, hp⟩

theorem View.Sound.noted (h : v.Sound R)
    (hnew : prot.isExec = true ∨ NoEntry v.entries start size) :
    (v.noted start size prot).Sound R := by
  refine ⟨h.nodup, h.aligned, fun u hu hd => ?_, h.current⟩
  by_cases hin : inPages start size (u.address / 4096) = true
  · rcases hnew with hp | hnone
    · exact View.noted_asksExec hp hin
    · exact absurd hin (hnone u hu)
  · obtain ⟨q, hq, hexec⟩ := h.asked u hu hd
    exact ⟨q, (if_neg hin).trans hq, hexec⟩

/-- A call of the kernel with the range of an `mprotect` request. -/
theorem viewStep_mprotect {start size prot : UInt64} {q : Prot} {r : Int}
    (h : ViewStep (.serve (.mprotect start size prot)) v
      (.wrapper (.mprotect start.toNat size.toNat q none) cid) r v') :
    (r < 0 ∧ v' = v) ∨ (r = 0 ∧ InUserSpace start.toNat size.toNat ∧
      (Prot.isExec (.ofNat 32 prot.toNat) = false → NoEntry v.entries start.toNat size.toNat) ∧
      (v.noted start.toNat size.toNat (.ofNat 32 prot.toNat)).Closed start.toNat size.toNat q
        v') := by
  obtain ⟨s, s', hentries, hpages, hs, hfits, rfl⟩ := h
  obtain ⟨k', hk, rfl⟩ := Sys.step_wrapper.mp hs
  rcases Kern.apply_mprotect_cases hk with ⟨herr, rfl⟩ | ⟨hr, hspace, _, _⟩
  · have hgranted : TableAct.granted (.serve (.mprotect start size prot))
        (.wrapper (.mprotect start.toNat size.toNat q none) cid) r = none :=
      if_neg fun hc => Int.ne_of_lt herr.2 hc.2.2
    refine .inl ⟨herr.2, ?_⟩
    rw [hgranted, hentries, hpages]
    rfl
  · have hgranted : TableAct.granted (.serve (.mprotect start size prot))
        (.wrapper (.mprotect start.toNat size.toNat q none) cid) r =
          some (start.toNat, size.toNat, .ofNat 32 prot.toNat) :=
      if_pos ⟨rfl, rfl, hr⟩
    refine .inr ⟨hr, hspace, fun hexec => hentries ▸ hfits hr hexec, ?_⟩
    rw [hgranted, hentries]
    have hclosed := (Kern.protect_closed v.entries
      (note v.asked (some (start.toNat, size.toNat, .ofNat 32 prot.toNat))) hk
      (hr ▸ not_isError_zero)).2
    rw [hpages] at hclosed
    exact hclosed

theorem noted_steady {start size prot : UInt64} {v : View} :
    (v.noted start.toNat size.toNat (.ofNat 32 prot.toNat)).Steady
      (.serve (.mprotect start size prot)) := by
  intro start' size' q cid r
  unfold TableAct.granted
  dsimp only
  split
  · rename_i hc
    obtain ⟨rfl, rfl, _⟩ := hc
    funext p
    show (if _ then _ else if _ then _ else _) = if _ then _ else _
    split <;> rfl
  · rfl

theorem syscallHandlerMprotect_sound {start size prot : UInt64} (h : v.Sound fun _ => False) :
    Prog.Post (ViewStep (.serve (.mprotect start size prot)))
      (syscallHandlerMprotect start size prot) (fun _ v' => v'.Sound fun _ => False) v := by
  unfold syscallHandlerMprotect
  dsimp only
  rw [Prog.post_seq]
  refine post_quiet rfl fun owned _ => Prog.post_ite (fun _ => h) (fun _ => ?_)
  rw [Prog.post_seq]
  refine Prog.post_require.mpr fun _ => ?_
  -- what the handler knows after its first call of the kernel, if that was granted
  have hopen : ∀ {q : Prot} {v' : View}, Prot.isExec (.ofNat 32 prot.toNat) = true →
      (v.noted start.toNat size.toNat (.ofNat 32 prot.toNat)).Closed start.toNat size.toNat q v' →
      (v'.Sound fun p => inPages start.toNat size.toNat p = true) ∧
        ∀ p, inPages start.toNat size.toNat p = true → v'.AsksExec p := by
    intro q v' hexec hc
    refine ⟨((h.noted (.inl hexec)).touched hc).weaken fun p hp => hp.resolve_left id, ?_⟩
    exact fun p hp => (View.noted_asksExec hexec hp).of_asked hc.asked
  refine Prog.post_ite (fun hwx => ?_) (fun hwx => Prog.post_ite (fun hexec => ?_)
    (fun hexec => ?_))
  · rw [Prog.post_seq]
    refine Prog.post_call fun r v₁ hs => ?_
    refine Prog.post_whenever.mpr ⟨fun hr => ?_, fun hr => ?_⟩
    · rcases viewStep_mprotect hs with ⟨hneg, _⟩ | ⟨_, hspace, _, hc⟩
      · exact absurd hr (Int.ne_of_lt hneg)
      rw [Prog.post_seq]
      refine post_expectZero.mpr (post_tracker rfl fun _ v₂ h₂ _ => ?_)
      obtain ⟨hsound, hasks⟩ := hopen hwx.1 (hc.then_alike h₂)
      exact markUnsafe_sound hspace hsound hasks (hc.then_alike h₂).inside
    · rcases viewStep_mprotect hs with ⟨_, rfl⟩ | ⟨hzero, _⟩
      · exact h
      · exact absurd hzero hr
  · rw [Prog.post_seq]
    refine Prog.post_call fun r v₁ hs => ?_
    refine Prog.post_whenever.mpr ⟨fun hr => ?_, fun hr => ?_⟩
    · rcases viewStep_mprotect hs with ⟨hneg, _⟩ | ⟨_, hspace, _, hc⟩
      · exact absurd hr (Int.not_le.mpr hneg)
      obtain ⟨hsound, hasks⟩ := hopen hexec hc
      exact scanExecMappingMprotect_sound hspace hsound hasks (noted_steady.of_asked hc.asked) rfl
    · rcases viewStep_mprotect hs with ⟨_, rfl⟩ | ⟨hzero, _⟩
      · exact h
      · exact absurd (Int.le_of_eq hzero.symm) hr
  · rw [Prog.post_seq]
    refine Prog.post_call fun r v₁ hs => ?_
    refine post_expectZero.mpr (post_tracker rfl fun _ v₂ h₂ _ => View.Sound.alike ?_ h₂)
    rcases viewStep_mprotect hs with ⟨_, rfl⟩ | ⟨_, _, hnone, hc⟩
    · exact h
    · have hnone := hnone (Bool.not_eq_true _ ▸ hexec)
      have hclosed := (h.noted (.inr hnone)).closed hc fun u hu hin => absurd hin (hnone u hu)
      exact hclosed.weaken fun p hp => hp.1

/-- The answer of the kernel when it is to map memory for a request, and what is in
the view then. -/
def View.Placed (prot : Prot) (size : Nat) (v : View) (r : Int) (v' : View) : Prop :=
  (r < 0 ∧ v' = v) ∨ (0 ≤ r ∧ InUserSpace r.toNat size ∧
    (prot.isExec = false ∨ r = 0 → NoEntry v.entries r.toNat size) ∧
    ∃ q, (v.noted r.toNat size prot).Closed r.toNat size q v')

/-- A call of the kernel that maps the memory of an `mmap` request. -/
theorem viewStep_mmap {start size prot flags : UInt64} {fd : Int} {start' size' : Nat} {q : Prot}
    {fixed : Bool} {r : Int}
    (h : ViewStep (.serve (.mmap start size prot flags fd)) v
      (.wrapper (.mmap start' size' q fixed) cid) r v') :
    v.Placed (.ofNat 32 prot.toNat) size' r v' := by
  obtain ⟨s, s', hentries, hpages, hs, hfits, rfl⟩ := h
  obtain ⟨k', hk, rfl⟩ := Sys.step_wrapper.mp hs
  rcases Kern.apply_mmap_cases hk with ⟨herr, rfl⟩ | ⟨hr, hspace, _, _, _, rfl⟩
  · have hgranted : TableAct.granted (.serve (.mmap start size prot flags fd))
        (.wrapper (.mmap start' size' q fixed) cid) r = none :=
      if_pos herr
    refine .inl ⟨herr.2, ?_⟩
    rw [hgranted, hentries, hpages]
    rfl
  · have herr : ¬ IsError r := fun herr => absurd hr (Int.not_le.mpr herr.2)
    have hgranted : TableAct.granted (.serve (.mmap start size prot flags fd))
        (.wrapper (.mmap start' size' q fixed) cid) r =
          some (r.toNat, size', .ofNat 32 prot.toNat) :=
      if_neg herr
    refine .inr ⟨hr, hspace, fun hc => hentries ▸ hfits herr hc, q, ?_⟩
    rw [hgranted, hentries]
    refine ⟨rfl, rfl, fun p hp => ⟨0, if_pos hp⟩, fun u _ hn => ?_⟩
    show (if _ then _ else s.kern.pages _) = v.pages _
    rw [if_neg hn, hpages]

theorem mapPages_placed {start size prot flags : UInt64} {fd fd' : Int} {start' size' : Nat}
    {q : Prot} {fixed : Bool} :
    Prog.Post (ViewStep (.serve (.mmap start size prot flags fd)))
      (mapPages start' size' q fixed fd' cid) (v.Placed (.ofNat 32 prot.toNat) size') v := by
  unfold mapPages
  refine Prog.post_ite (fun _ => ?_) (fun _ => Prog.post_call fun _ _ hs => viewStep_mmap hs)
  unfold mapFileBaked
  rw [Prog.post_seq]
  refine Prog.post_call fun r v₁ hs => Prog.post_ite (fun _ => viewStep_mmap hs) (fun _ => ?_)
  rw [Prog.post_seq]
  exact post_quiet rfl fun _ _ => viewStep_mmap hs

theorem checkFixed_quiet {fixed : Bool} :
    Prog.Post (ViewStep a) (checkFixed start size cid fixed) (fun _ v' => v' = v) v := by
  cases fixed with
  | false => rfl
  | true =>
      unfold checkFixed
      rw [Prog.post_seq]
      refine post_quiet rfl fun multithreaded _ => Prog.post_ite (fun _ => ?_) (fun _ => ?_)
      · exact post_quiet rfl fun _ _ => rfl
      · rw [Prog.post_seq]
        exact post_quiet rfl fun _ _ => rfl

/-- The rest of `secpoline_mmap`, for a range whose entries may all be wrong. -/
theorem tagMapping_sound {flags key : Nat} {fixed : Bool} (hcid : (getPkey cid).isSome = true)
    (hspace : InUserSpace start size) (h : v.Sound fun p => inPages start size p = true)
    (hasks : prot.isExec = true → ∀ p, inPages start size p = true → v.AsksExec p)
    (hnone : prot.isExec = false → NoEntry v.entries start size) (hsteady : v.Steady a) :
    Prog.Post (ViewStep a) (tagMapping start size prot flags fixed cid key)
      (fun _ v' => v'.Sound fun _ => False) v := by
  obtain ⟨_, hkey⟩ := Option.isSome_iff_exists.mp hcid
  unfold tagMapping
  refine Prog.post_ite (fun hexec => ?_) (fun hexec => ?_)
  · exact scanExecMapping_sound hspace h (hasks hexec.1) hsteady hkey
  rw [Prog.post_seq]
  refine post_expectZero.mpr (post_tracker rfl fun _ v₁ h₁ _ => ?_)
  rw [Prog.post_seq]
  refine post_expectZero.mpr (Prog.post_call fun r v₂ hs hr => ?_)
  have hc : v.Closed start size (firstProt prot) v₂ := by
    obtain ⟨k, k', hpages, hk, rfl⟩ := viewStep_wrapper hs
    have hgranted : a.granted (.wrapper (.mprotect start size (firstProt prot) (some key)) cid) r =
        none := by
      cases a with
      | evict address => rfl
      | serve q => cases q <;> rfl
    rw [hgranted]
    have hclosed := (Kern.protect_closed v₁.entries v₁.asked hk (hr ▸ not_isError_zero)).2
    rw [hpages] at hclosed
    exact h₁.then_closed hclosed
  refine Prog.post_whenever.mpr ⟨fun hwx => ?_, fun hwx => ?_⟩
  · refine markUnsafe_sound hspace ((h.touched hc).weaken fun p hp => hp.elim id id) ?_ hc.inside
    exact fun p hp => (hasks hwx.1 p hp).of_asked hc.asked
  · have hno : prot.isExec = false := by
      cases hx : prot.isExec with
      | false => rfl
      | true => exact absurd ⟨hx, fun hw => hwx ⟨hx, hw⟩⟩ hexec
    have hclosed := h.closed hc fun u hu hin => absurd hin (hnone hno u hu)
    exact hclosed.weaken fun p hp => hp.2 hp.1

theorem syscallHandlerMmap_sound {start size prot flags : UInt64} {fd : Int}
    (h : v.Sound fun _ => False) :
    Prog.Post (ViewStep (.serve (.mmap start size prot flags fd)))
      (syscallHandlerMmap start size prot flags fd) (fun _ v' => v'.Sound fun _ => False) v := by
  unfold syscallHandlerMmap secpolineMmap
  rw [Prog.post_seq]
  show Prog.Post _ (do
    Prog.require _
    _) _ _
  rw [Prog.post_seq]
  refine Prog.post_require.mpr fun _ => Prog.post_ite (fun _ => h) (fun _ => ?_)
  rw [Prog.post_seq]
  refine checkFixed_quiet.mono fun allowed v₁ h₁ => ?_
  subst h₁
  refine Prog.post_ite (fun _ => h) (fun _ => ?_)
  rw [Prog.post_seq]
  refine mapPages_placed.mono fun r v₂ hr => ?_
  rcases hr with ⟨hneg, rfl⟩ | ⟨hnonneg, hspace, hnone, q, hc⟩
  · rw [if_pos (Int.le_of_lt hneg)]
    exact h
  refine Prog.post_ite (fun hle => ?_) (fun hpos => ?_)
  · have hnone := hnone (.inr (Int.le_antisymm hle hnonneg))
    have hclosed := (h.noted (.inr hnone)).closed hc fun u hu hin => absurd hin (hnone u hu)
    exact hclosed.weaken fun p hp => hp.1
  · rw [toWord_of_nonneg hnonneg hspace.lt, Prog.post_seq]
    have hnew : Prot.isExec (.ofNat 32 prot.toNat) = true ∨
        NoEntry v₁.entries r.toNat (roundUp size.toNat) := by
      cases hexec : Prot.isExec (.ofNat 32 prot.toNat) with
      | true => exact .inl rfl
      | false => exact .inr (hnone (.inl hexec))
    have hsound := ((h.noted hnew).touched hc).weaken fun p hp => hp.resolve_left id
    refine (tagMapping_sound rfl hspace hsound ?_ ?_ (fun _ _ _ _ _ => rfl)).mono
      fun _ _ h => h
    · exact fun hexec p hp => (View.noted_asksExec hexec hp).of_asked hc.asked
    · intro hexec
      rw [hc.entries]
      exact hnone (.inl hexec)

theorem syscallHandlerMunmap_sound {start size : UInt64} (h : v.Sound fun _ => False) :
    Prog.Post (ViewStep (.serve (.munmap start size))) (syscallHandlerMunmap start size)
      (fun _ v' => v'.Sound fun _ => False) v := by
  unfold syscallHandlerMunmap
  rw [Prog.post_seq]
  refine post_tracker rfl fun r v₁ h₁ => ?_
  refine Prog.post_whenever.mpr ⟨fun _ => ?_, fun _ => h.alike h₁⟩
  rw [Prog.post_seq]
  refine Prog.post_call fun r v₂ hs => ?_
  have hsound := h.alike h₁
  obtain ⟨k, k', hpages, hk, rfl⟩ := viewStep_wrapper hs
  rcases Kern.apply_munmap_cases hk with ⟨_, rfl⟩ | ⟨_, _, _, rfl⟩
  · rw [hpages]
    exact hsound
  · -- entries stay, but a page that is not mapped may have any
    refine ⟨hsound.nodup, hsound.aligned, hsound.asked, fun u hu hn g hg => ?_⟩
    have hg : (if inPages start.toNat size.toNat (u.address / 4096) then none
        else k.pages (u.address / 4096)) = some g := hg
    split at hg
    · cases hg
    · rw [hpages] at hg
      exact hsound.current u hu hn g hg

theorem TableAct.program_sound {a : TableAct} (hc : a.Concerns) (h : v.Sound fun _ => False) :
    Prog.Post (ViewStep a) a.program (fun _ v' => v'.Sound fun _ => False) v := by
  cases a with
  | evict address => exact setPageNonExecutable_sound h
  | serve r =>
      cases r with
      | mmap => exact syscallHandlerMmap_sound h
      | munmap => exact syscallHandlerMunmap_sound h
      | mprotect => exact syscallHandlerMprotect_sound h
      | clone => exact post_quiet rfl fun _ _ => h
      | segv code address cid =>
          show Prog.Post _ (secpolineSegfaultHandler code address cid >>= fun _ => pure ()) _ _
          rw [Prog.post_seq]
          exact (secpolineSegfaultHandler_sound h).mono fun _ _ h => h
      | mremap | rewriteSyscall | initPageGroup => exact hc.elim

end

/-! ## Whole runs -/

theorem TableRun.sound {t₀ t : Ledger} (run : TableRun TableAct.Fits t₀ t)
    (h₀ : t₀.view.Sound fun _ => False) : t.view.Sound fun _ => False := by
  induction run with
  | start => exact h₀
  | store _ hs ih =>
      obtain ⟨_, _, _, rfl⟩ := hs
      exact ih
  | act _ hc hruns ih =>
      exact (hruns.map Ledger.view fun _ _ _ _ => TableAct.Step.view).post
        (TableAct.program_sound hc ih)

/-- An operation of an act, with the choices of the environment. -/
def TableAct.perform (P : TableAct → Sys → (e : Op) → Resp e → Sys → Prop)
    [∀ a s e r s', Decidable (P a s e r s')] (a : TableAct) (t : Ledger) (o : Oracle) (e : Op) :
    Option (Resp e × Ledger) :=
  match t.sys.perform o e with
  | none => none
  | some (r, s') =>
      if P a t.sys e r s' then some (r, { sys := s', asked := note t.asked (a.granted e r) })
      else none

section
variable {P : TableAct → Sys → (e : Op) → Resp e → Sys → Prop}
  [∀ a s e r s', Decidable (P a s e r s')]

end

/-- Nothing is mapped and nothing has been asked for. -/
def Ledger.empty : Ledger := { sys := Sys.start fun _ => 0, asked := fun _ => none }

end Secpoline
