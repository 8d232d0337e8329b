import Mathlib.Algebra.Ring.Nat
import Secpoline.Model.Eviction
import Secpoline.Proofs.Neighbours

/-!
# The registers of a controller

A controller counts the registers that are in use and those that dynamic pages may have,
and gives up its oldest dynamic pages when a page needs more than are free. The counters
agree with the lists in every run. What is not kept is that a call returns: a page without
instructions takes a place in a list but no register, so places run out first, and the page
cannot be evicted; and the eviction of a page that is writable and executable leaves
`unsafe_page_mutex` locked.

Which pages a call has to evict can be read off the controller (`evictions`), so the calls
that do not return, or not with the mutex free, are named exactly.
-/

namespace Secpoline

open Lib

namespace HbController

variable {n used : Int} {pages : List (List Nat)} {c : HbController} {page : UnsafePage}
  {isStatic : Bool}

/-! ## The pages to be evicted -/

/-- The registers that pages have: the sum of their `page_used_hbreakpoints`. -/
def held (pages : List (List Nat)) : Nat := (pages.map List.length).sum

@[simp] theorem held_nil : held [] = 0 := rfl

@[simp] theorem held_cons {r : List Nat} : held (r :: pages) = r.length + held pages := by
  simp [held]

@[simp] theorem held_append {pages' : List (List Nat)} :
    held (pages ++ pages') = held pages + held pages' := by
  simp [held]

/-- The oldest pages, as many as it takes to have `n` registers free. -/
def evictions (n : Int) : List (List Nat) → Int → List (List Nat)
  | [], _ => []
  | oldest :: rest, used =>
      if (maxHbreakpoints : Int) - used < n then
        oldest :: evictions n rest (used - oldest.length)
      else []

theorem evictions_append_drop :
    evictions n pages used ++ pages.drop (evictions n pages used).length = pages := by
  induction pages generalizing used with
  | nil => rfl
  | cons oldest rest ih =>
      rw [evictions]
      split
      · simp [ih]
      · rfl

/-- Enough registers are free afterwards, if there are enough in all. -/
theorem le_free_evictions (h : n ≤ maxHbreakpoints - (used - held pages)) :
    n ≤ maxHbreakpoints - (used - held (evictions n pages used)) := by
  induction pages generalizing used with
  | nil => exact h
  | cons oldest rest ih =>
      rw [evictions]
      split
      · rw [held_cons, Int.natCast_add, ← Int.sub_sub] at h ⊢
        exact ih h
      · rw [held_nil]
        omega

/-- What the counters should be, and the bounds of the arrays. -/
structure Accounted (c : HbController) : Prop where
  used : c.usedBreakpoints = held c.staticHbreakpoints + held c.dynamicHbreakpoints
  used_le : c.usedBreakpoints ≤ maxHbreakpoints
  share : c.maxDynamicBreakpoints = maxHbreakpoints - held c.staticHbreakpoints
  static_le : c.staticHbreakpoints.length ≤ maxHbreakpoints
  dynamic_le : c.dynamicHbreakpoints.length ≤ maxHbreakpoints

/-- The pages that a page with `n` instructions makes it give up. -/
def toEvict (c : HbController) (n : Nat) : List (List Nat) :=
  evictions n c.dynamicHbreakpoints c.usedBreakpoints

/-- The controller without them. -/
def evict (c : HbController) (n : Nat) : HbController :=
  { c with
    dynamicHbreakpoints := c.dynamicHbreakpoints.drop (c.toEvict n).length
    usedBreakpoints := c.usedBreakpoints - held (c.toEvict n) }

/-- The list that the page goes to. -/
def target (c : HbController) (isStatic : Bool) : List (List Nat) :=
  if isStatic then c.staticHbreakpoints else c.dynamicHbreakpoints

theorem Accounted.free {n : Nat} (h : c.Accounted) (hn : (n : Int) ≤ c.maxDynamicBreakpoints) :
    (n : Int) ≤ maxHbreakpoints - (c.usedBreakpoints - held c.dynamicHbreakpoints) := by
  have hused := h.used
  have hshare := h.share
  omega

theorem Accounted.evict {n : Nat} (h : c.Accounted) : (c.evict n).Accounted := by
  have hsplit : c.toEvict n ++ c.dynamicHbreakpoints.drop (c.toEvict n).length =
      c.dynamicHbreakpoints := evictions_append_drop
  have hheld := congrArg held hsplit
  rw [held_append] at hheld
  have hused := h.used
  refine ⟨?_, ?_, h.share, h.static_le, ?_⟩
  · simp only [HbController.evict]
    omega
  · have hle := h.used_le
    simp only [HbController.evict]
    omega
  · rw [HbController.evict, List.length_drop]
    have hle := h.dynamic_le
    omega

theorem usedBreakpoints_evict_le {n : Nat} (h : c.Accounted)
    (hn : (n : Int) ≤ c.maxDynamicBreakpoints) :
    (n : Int) + (c.evict n).usedBreakpoints ≤ maxHbreakpoints := by
  have hfree := le_free_evictions (h.free hn)
  simp only [HbController.evict, toEvict]
  omega

theorem Accounted.addWatchedPage {c' : HbController} (h : c.Accounted)
    (hadd : c.addWatchedPage page isStatic = some c') : c'.Accounted := by
  simp only [HbController.addWatchedPage] at hadd
  split at hadd
  · next hfits =>
      have hlen := List.length_take_of_le hfits.2
      have hused := h.used
      have hshare := h.share
      split at hadd
      · split at hadd
        · next hroom =>
            cases hadd
            refine ⟨?_, ?_, ?_, ?_, h.dynamic_le⟩
            · simp only [held_append, held_cons, held_nil, hlen]
              omega
            · show c.usedBreakpoints + _ ≤ _
              omega
            · simp only [held_append, held_cons, held_nil, hlen]
              omega
            · simp only [List.length_append, List.length_singleton]
              omega
        · cases hadd
      · split at hadd
        · next hroom =>
            cases hadd
            refine ⟨?_, ?_, h.share, h.static_le, ?_⟩
            · simp only [held_append, held_cons, held_nil, hlen]
              omega
            · show c.usedBreakpoints + _ ≤ _
              omega
            · simp only [List.length_append, List.length_singleton]
              omega
        · cases hadd
  · cases hadd

end HbController

/-! ## The mutex -/

section
variable {answers : PageAnswers} {entries : List UnsafePage} {address : Nat}

/-- The page at an address can be made non-executable, and the mutex released. -/
def Evictable (answers : PageAnswers) (entries : List UnsafePage) (address : Nat) : Prop :=
  ∃ cid page, answers.cid address = some cid ∧ findUnsafePage entries address = some page ∧
    (page.trustedPage = true → cid = TS_MONITOR) ∧
    (page.currentPerm.isExec = true →
      page.desiredPerm.isWrite = false ∧ answers.mprotect page.address = true)

namespace UnsafeState

end UnsafeState

end

/-! ## Runs -/

namespace BreakpointState

variable {s s' : BreakpointState} {call : BreakpointCall}

instance : Decidable (s.WithinLimits call) := inferInstanceAs (Decidable (_ ∧ _))

/-- What is asked of a state between calls. -/
structure Sound (s : BreakpointState) : Prop where
  accounted : s.hb.Accounted
  released : s.mutex = false

/-- What is asked of a run: every state is sound, and every call returns that the limits
allow. A call beyond the limits ends the run. -/
def AddsSoundly : BreakpointState → List BreakpointCall → Prop
  | s, [] => s.Sound
  | s, call :: rest =>
      s.Sound ∧ (s.WithinLimits call → ∃ s', s.add call = some s' ∧ AddsSoundly s' rest)

/-- The call evicts no page without instructions, it finds a place for its own page, and
the pages it evicts can be made non-executable and are not to be writable. -/
structure Fits (s : BreakpointState) (call : BreakpointCall) : Prop where
  counted : [] ∉ s.hb.toEvict call.page.unsafeInstructionsSize
  room : ((s.hb.evict call.page.unsafeInstructionsSize).target call.isStatic).length <
    maxHbreakpoints
  evictable : ∀ r ∈ s.hb.toEvict call.page.unsafeInstructionsSize, ∀ a, r.head? = some a →
    Evictable call.answers call.entries a

theorem AddsSoundly.sound {calls : List BreakpointCall} (h : s.AddsSoundly calls) : s.Sound := by
  cases calls with
  | nil => exact h
  | cons call rest => exact h.1

/-- Every page that can be evicted has an instruction, and all of them are in `P`. -/
def Filled (P : Nat → Prop) (s : BreakpointState) : Prop :=
  ∀ r ∈ s.hb.dynamicHbreakpoints, r ≠ [] ∧ ∀ a ∈ r, P a

theorem length_le_held {pages : List (List Nat)} (h : ∀ r ∈ pages, r ≠ []) :
    pages.length ≤ HbController.held pages := by
  induction pages with
  | nil => exact Nat.le_refl _
  | cons r rest ih =>
      rw [List.forall_mem_cons] at h
      have hr := List.length_pos_iff.mpr h.1
      have hrest := ih h.2
      rw [List.length_cons, HbController.held_cons]
      omega

theorem Filled.fits {P : Nat → Prop} (h : s.Filled P) (hs : s.Sound)
    (hlimits : s.WithinLimits call) (hcount : 0 < call.page.unsafeInstructionsSize)
    (hevict : ∀ a, P a → Evictable call.answers call.entries a) : s.Fits call := by
  have hsplit : s.hb.toEvict call.page.unsafeInstructionsSize ++ _ = _ :=
    HbController.evictions_append_drop
  have hold : ∀ r ∈ s.hb.toEvict call.page.unsafeInstructionsSize, r ≠ [] ∧ ∀ a ∈ r, P a :=
    fun r hr => h r (hsplit ▸ List.mem_append_left _ hr)
  refine ⟨fun hempty => (hold _ hempty).1 rfl, ?_,
    fun r hr a ha => hevict a ((hold r hr).2 a (List.mem_of_mem_head? ha))⟩
  rw [HbController.target]
  split
  · next hstatic =>
      have hle := hlimits.2 hstatic
      show s.hb.staticHbreakpoints.length < _
      omega
  · have hle := HbController.usedBreakpoints_evict_le hs.accounted hlimits.1
    have hused := (hs.accounted.evict (n := call.page.unsafeInstructionsSize)).used
    have hlen : (s.hb.evict call.page.unsafeInstructionsSize).dynamicHbreakpoints.length ≤ _ :=
      length_le_held fun r hr => (h r (List.mem_of_mem_drop hr)).1
    omega

theorem Filled.add {P : Nat → Prop} (h : s.Filled P) (hadd : s.add call = some s')
    (hcount : 0 < call.page.unsafeInstructionsSize)
    (hP : ∀ a ∈ call.page.instructions, P a) : s'.Filled P := by
  rw [BreakpointState.add] at hadd
  split at hadd
  · cases hadd
  · next hb evicted hbp =>
      obtain ⟨u, -, rfl⟩ := Option.map_eq_some_iff.mp hadd
      obtain ⟨-, -, hrecords⟩ := HbController.addBreakpoints_cases hbp
      intro r hr
      rcases hrecords r hr with hr | rfl
      · exact h r hr
      · refine ⟨fun hnil => ?_, fun a ha => hP a (List.mem_of_mem_take ha)⟩
        have hlen := congrArg List.length hnil
        have hrec := call.recorded
        rw [List.length_take, List.length_nil] at hlen
        omega

end BreakpointState

/-! ## The program of the SIGSEGV handler -/

section
variable {s : Sys} {address : Nat}

/-- What the page manager knows. -/
def Sys.pageAnswers (s : Sys) : PageAnswers where
  cid := fun a => (lookupAddr s.pm a (-1)).map (·.cid)
  mprotect := fun _ => true

def Sys.unsafeState (s : Sys) : UnsafeState := ⟨s.unsafePages, s.unsafePageMutex⟩

theorem secpolineMprotect_frame {addr size : Nat} {prot : Prot} {cid : Int} :
    Prog.Post Sys.Step (secpolineMprotect addr size prot cid)
      (fun _ s' => s'.unsafeState = s.unsafeState ∧ s'.hb = s.hb) s := by
  rw [secpolineMprotect, Prog.post_seq]
  refine Prog.post_call fun r s₁ hs => ?_
  obtain ⟨k, -, rfl⟩ := Sys.step_inline.mp hs
  refine Prog.post_whenever.mpr ⟨fun _ => ?_, fun _ => ⟨rfl, rfl⟩⟩
  rw [expectZero, Prog.post_seq]
  refine Prog.post_call fun r s₂ hs => Prog.post_require.mpr fun _ => ?_
  obtain ⟨mm, pm, -, ⟨-, rfl⟩ | ⟨-, k', -, rfl⟩⟩ := Sys.step_updateMprotect.mp hs <;>
    exact ⟨rfl, rfl⟩

theorem step_lockUnsafePages {s' : Sys} {r : Unit} (h : s.Step .lockUnsafePages r s') :
    s.unsafePageMutex = false ∧ s' = { s with unsafePageMutex := true } := by
  obtain ⟨o, ho⟩ := h
  rw [Sys.perform] at ho
  split at ho
  · cases ho
  · next hfree =>
      cases ho
      exact ⟨Bool.eq_false_iff.mpr hfree, rfl⟩

/-- A run of `set_page_non_executable` that returns is one of the model here. -/
theorem setPageNonExecutable_runs :
    Prog.Post Sys.Step (setPageNonExecutable address)
      (fun _ s' => s.unsafeState.setPageNonExecutable s.pageAnswers address = some s'.unsafeState ∧
        s'.hb = s.hb) s := by
  rw [setPageNonExecutable, Prog.post_seq]
  refine Prog.post_call fun pmPage s₁ hs => ?_
  obtain ⟨hpm, rfl⟩ := Sys.step_lookupAddr.mp hs
  rw [Prog.post_seq]
  refine Prog.post_call fun page s₁ hs => ?_
  obtain ⟨hpage, rfl⟩ := Sys.step_findUnsafePage.mp hs
  split
  · rename_i pmPage page _
    rw [Prog.post_seq]
    refine Prog.post_require.mpr fun htrusted => ?_
    have hmonitor : ¬ (page.trustedPage = true ∧ pmPage.cid ≠ TS_MONITOR) := fun ⟨ht, hne⟩ =>
      hne (htrusted ht)
    have hmodel : s₁.unsafeState.setPageNonExecutable s₁.pageAnswers address =
        if ¬ page.currentPerm.isExec then some s₁.unsafeState
        else if s₁.unsafePageMutex then none
        else if page.desiredPerm.isWrite then
          some ⟨setCurrentPerm s₁.unsafePages page.address (PROT_READ ||| PROT_WRITE), true⟩
        else some ⟨setCurrentPerm s₁.unsafePages page.address PROT_READ, false⟩ := by
      simp [UnsafeState.setPageNonExecutable, Sys.pageAnswers, Sys.unsafeState, ← hpm, ← hpage,
        hmonitor]
    rw [hmodel]
    refine Prog.post_ite (fun hexec => ?_) (fun hexec => ?_)
    · rw [if_pos hexec]
      exact ⟨rfl, rfl⟩
    rw [if_neg hexec, Prog.post_seq]
    refine Prog.post_call fun _ s₂ hs => ?_
    obtain ⟨hfree, rfl⟩ := step_lockUnsafePages hs
    rw [hfree, if_neg Bool.false_ne_true]
    refine Prog.post_ite (fun hwrite => ?_) (fun hwrite => ?_)
    · rw [if_pos hwrite, Prog.post_seq]
      refine Prog.post_call fun _ s₃ hs => ?_
      cases Sys.step_setCurrentPerm.mp hs
      exact secpolineMprotect_frame.mono fun _ s₄ ⟨hsame, hhb⟩ => ⟨by rw [hsame]; rfl, hhb⟩
    · rw [if_neg hwrite, Prog.post_seq]
      refine Prog.post_call fun _ s₃ hs => ?_
      cases Sys.step_setCurrentPerm.mp hs
      rw [Prog.post_seq]
      refine secpolineMprotect_frame.mono fun _ s₄ ⟨hsame, hhb⟩ => Prog.post_call fun _ s₅ hs => ?_
      obtain ⟨o, ho⟩ := hs
      cases ho
      have hentries : s₄.unsafePages = setCurrentPerm s₁.unsafePages page.address PROT_READ :=
        congrArg UnsafeState.entries hsame
      exact ⟨by rw [← hentries]; rfl, hhb⟩
  · trivial

end

end Secpoline
