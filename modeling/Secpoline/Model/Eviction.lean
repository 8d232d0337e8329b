import Secpoline.Model.UnsafePages

/-!
# Calls of add_breakpoints

A controller that runs out of registers takes them from its oldest dynamic pages, and
`set_page_non_executable` makes each of these pages non-executable first. It does so
under `unsafe_page_mutex`, which cannot be locked twice.

A call finds `unsafe_pages` as the scanner, the application and other threads have left it;
what is kept from one call to the next is the controller and the mutex. `none` is an
assertion that fails, an index past the end of an array, a null pointer that is
dereferenced, or a lock that is waited for in vain.
-/

namespace Secpoline

/-- What `set_page_non_executable` is told about pages. -/
structure PageAnswers where
  /-- `page_manager.lookup_addr(address, -1)`, of which it reads the compartment. -/
  cid : Nat → Option Int
  /-- `secpoline_mprotect` of the page returns 0. -/
  mprotect : Nat → Bool

/-- `unsafe_pages` and `unsafe_page_mutex`. -/
structure UnsafeState where
  entries : List UnsafePage
  mutex : Bool
deriving DecidableEq, Repr

/-- `set_page_non_executable`. -/
def UnsafeState.setPageNonExecutable (answers : PageAnswers) (s : UnsafeState) (address : Nat) :
    Option UnsafeState :=
  match answers.cid address, findUnsafePage s.entries address with
  | some cid, some page =>
      if page.trustedPage ∧ cid ≠ TS_MONITOR then none
      else if ¬ page.currentPerm.isExec then some s
      else if s.mutex then none
      else if ¬ answers.mprotect page.address then none
      else if page.desiredPerm.isWrite then
        -- this return leaves the mutex locked
        some ⟨setCurrentPerm s.entries page.address (PROT_READ ||| PROT_WRITE), true⟩
      else some ⟨setCurrentPerm s.entries page.address PROT_READ, false⟩
  | _, _ => none

/-- A call of `add_breakpoints`, and what it meets. -/
structure BreakpointCall where
  page : UnsafePage
  isStatic : Bool
  entries : List UnsafePage
  answers : PageAnswers
  /-- What is counted is there; an instruction may be there without being counted. -/
  recorded : page.unsafeInstructionsSize ≤ page.instructions.length

structure BreakpointState where
  hb : HbController
  mutex : Bool
deriving DecidableEq, Repr

namespace BreakpointState

def init : BreakpointState := ⟨.init, false⟩

/-- `add_breakpoints`. -/
def add (s : BreakpointState) (call : BreakpointCall) : Option BreakpointState :=
  match s.hb.addBreakpoints call.page call.isStatic with
  | none => none
  | some (hb, evicted) =>
      (evicted.foldlM (UnsafeState.setPageNonExecutable call.answers)
        ⟨call.entries, s.mutex⟩).map fun u => ⟨hb, u.mutex⟩

/-- The assertions about the number of instructions of the page hold: in
`add_breakpoints`, for a static page also in `add_watched_page`, and in
`remove_dynamic_hbreakpoints`. -/
def WithinLimits (s : BreakpointState) (call : BreakpointCall) : Prop :=
  (call.page.unsafeInstructionsSize : Int) ≤ s.hb.maxDynamicBreakpoints ∧
    (call.isStatic = true →
      s.hb.staticHbreakpoints.length + call.page.unsafeInstructionsSize ≤ maxHbreakpoints)

end BreakpointState

end Secpoline
