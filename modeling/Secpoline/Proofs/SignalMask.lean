import Secpoline.Lib.Machine
import Secpoline.Model.SignalMask

/-!
# The monitor's signals stay deliverable

A context accepts the masks it can go on with: application code accepts those
that leave SIGSYS, SIGSEGV and SIGTRAP deliverable, and so does monitor code that
is about to return to it; the entry of a signal accepts any mask, because it will
empty it. A thread is in order if the current mask is accepted by what is on top
of its stack, and the mask in the frame of every signal by what lies below it.

The one thing that can break this is the copy of a frame on the application's
stack. The copy is written back as it is, so the invariant has to be assumed of
it: no write to a `uc_sigmask` adds one of the three signals to it.
-/

namespace Secpoline

open Lib

/-! ## Masks -/

theorem Deliverable.of_subset {m m' : BitVec 64} (h : m' &&& guardMask &&& ~~~m = 0)
    (hm : Deliverable m) : Deliverable m' := by
  rw [Deliverable] at hm ⊢
  apply BitVec.eq_of_getLsbD_eq
  intro i hi
  have hbit := congrArg (fun v => v.getLsbD i) h
  have hbit' := congrArg (fun v => v.getLsbD i) hm
  simp only [BitVec.getLsbD_and, BitVec.getLsbD_not, decide_eq_true hi,
    Bool.true_and] at hbit hbit' ⊢
  grind

theorem Deliverable.and {m m' : BitVec 64} (h : Deliverable m) : Deliverable (m &&& m') := by
  rw [Deliverable, BitVec.and_assoc, BitVec.and_comm m' guardMask, ← BitVec.and_assoc]
  rw [Deliverable] at h
  rw [h, BitVec.ofNat_eq_ofNat, BitVec.zero_and]

theorem Deliverable.or {m m' : BitVec 64} (h : Deliverable m) (h' : Deliverable m') :
    Deliverable (m ||| m') := by
  rw [Deliverable] at h h' ⊢
  rw [BitVec.and_comm, BitVec.and_or_distrib_left, BitVec.and_comm _ m, BitVec.and_comm _ m', h, h']
  rfl

theorem deliverable_zero : Deliverable 0 := by decide

theorem deliverable_modifiableMask (set : BitVec 64) : Deliverable (modifiableMask set) := by
  have hguard : ~~~sigBit sigsys &&& ~~~sigBit sigsegv &&& ~~~sigBit sigtrap = ~~~guardMask := by
    decide
  rw [Deliverable, modifiableMask, BitVec.and_assoc set, BitVec.and_assoc set, hguard,
    BitVec.and_assoc, BitVec.and_comm (~~~guardMask), BitVec.and_not_self]
  simp

/-- Whatever the application asks for, a deliverable mask stays one. -/
theorem deliverable_kernelSigprocmask {mask : BitVec 64} {how : How} {set : Option (BitVec 64)}
    (hmask : Deliverable mask) (hset : ∀ m, set = some m → Deliverable m) :
    Deliverable (kernelSigprocmask mask how set) := by
  cases set with
  | none => exact hmask
  | some m =>
      have hm := hset m rfl
      cases how with
      | block => exact (hmask.or hm).and
      | unblock => exact hmask.and
      | setmask => exact hm.and
      | invalid => exact hmask

/-! ## The invariant -/

/-- The masks that what is on top of the stack can go on with. -/
def Accepts (mask : BitVec 64) : List MaskCtx → Prop
  | .signal ⟨_, _, .entered⟩ :: _ | .signal ⟨_, _, .handled⟩ :: _ => True
  | _ => Deliverable mask

/-- Every context leaves a mask that the one below it accepts. -/
def Nested : List MaskCtx → Prop
  | [] => True
  | .procmask _ set :: rest =>
      (∀ m, set = some m → Deliverable m) ∧ (∀ m, Deliverable m → Accepts m rest) ∧ Nested rest
  | .signal a :: rest =>
      Accepts a.ucSigmask rest ∧ (∀ m, (MaskCtx.signal a).copy = some m → Accepts m rest) ∧
        Nested rest

structure MaskThread.InOrder (s : MaskThread) : Prop where
  top : Accepts s.mask s.stack
  nested : Nested s.stack

theorem Accepts.of_deliverable {m : BitVec 64} (stack : List MaskCtx) (h : Deliverable m) :
    Accepts m stack := by
  rw [Accepts.eq_def]
  split
  · trivial
  · trivial
  · exact h

theorem Accepts.mono {m m' : BitVec 64} {stack : List MaskCtx} (h : Accepts m stack)
    (hm : Deliverable m → Deliverable m') : Accepts m' stack := by
  rw [Accepts.eq_def] at h ⊢
  split at h
  · trivial
  · trivial
  · exact hm h

theorem MaskThread.InOrder.runsApp {s : MaskThread} (h : s.InOrder) (happ : s.runsApp = true) :
    Deliverable s.mask := by
  have htop := h.top
  rw [MaskThread.runsApp] at happ
  split at happ
  · rename_i hstack
    rw [hstack] at htop
    exact htop
  · rename_i hstack
    rw [hstack] at htop
    exact htop
  · cases happ

/-! ## Writes to a copy -/

/-- The `uc_sigmask` in the copy of the context at a depth. -/
def copyAt : Nat → List MaskCtx → Option (BitVec 64)
  | _, [] => none
  | 0, ctx :: _ => ctx.copy
  | depth + 1, _ :: rest => copyAt depth rest

/-- A write to a copy does not add SIGSYS, SIGSEGV or SIGTRAP to it. -/
def MaskEvent.AddsNoGuard (s : MaskThread) : MaskEvent → Prop
  | .edit depth ucSigmask =>
      ∀ copy ∈ copyAt depth s.stack, ucSigmask &&& guardMask &&& ~~~copy = 0
  | _ => True

instance (s : MaskThread) (e : MaskEvent) : Decidable (e.AddsNoGuard s) :=
  match e with
  | .edit depth _ =>
      match h : copyAt depth s.stack with
      | none => isTrue (by simp [MaskEvent.AddsNoGuard, h])
      | some copy => decidable_of_iff _ (by simp [MaskEvent.AddsNoGuard, h]; exact Iff.rfl)
  | .call .. | .procmask | .deliver .. | .unblock | .invoke | .skip | .finish | .sigreturn =>
      isTrue trivial

theorem MaskCtx.edit_some {m : BitVec 64} {ctx ctx' : MaskCtx} (h : ctx.edit m = some ctx') :
    ∃ saved copy, ctx = .signal ⟨saved, true, .handler copy⟩ ∧
      ctx' = .signal ⟨saved, true, .handler m⟩ := by
  rw [MaskCtx.edit.eq_def] at h
  split at h
  · cases h
    exact ⟨_, _, rfl, rfl⟩
  · cases h

/-- A write to a copy at some depth changes nothing about which masks the top of the
stack accepts. -/
theorem accepts_editAt {m mask : BitVec 64} {depth : Nat} {stack stack' : List MaskCtx}
    (h : editAt m depth stack = some stack') : Accepts mask stack' ↔ Accepts mask stack := by
  cases stack with
  | nil =>
      rw [editAt] at h
      cases h
  | cons ctx rest =>
      cases depth with
      | zero =>
          obtain ⟨ctx', hedit, hstack'⟩ := Option.map_eq_some_iff.mp h
          obtain ⟨saved, copy, hctx, hctx'⟩ := MaskCtx.edit_some hedit
          rw [← hstack', hctx, hctx']
          exact Iff.rfl
      | succ depth =>
          obtain ⟨rest', -, hstack'⟩ := Option.map_eq_some_iff.mp h
          rw [← hstack']
          cases ctx with
          | procmask how set => exact Iff.rfl
          | signal a =>
              obtain ⟨saved, fromApp, phase⟩ := a
              cases phase <;> exact Iff.rfl

theorem Nested.editAt {m : BitVec 64} {depth : Nat} {stack stack' : List MaskCtx}
    (h : editAt m depth stack = some stack') (hnested : Nested stack)
    (hadds : ∀ copy ∈ copyAt depth stack, m &&& guardMask &&& ~~~copy = 0) : Nested stack' := by
  induction stack generalizing depth stack' with
  | nil =>
      rw [Secpoline.editAt] at h
      cases h
  | cons ctx rest ih =>
      cases depth with
      | zero =>
          obtain ⟨ctx', hedit, hstack'⟩ := Option.map_eq_some_iff.mp h
          obtain ⟨saved, copy, hctx, hctx'⟩ := MaskCtx.edit_some hedit
          rw [← hstack', hctx']
          rw [hctx] at hnested hadds
          obtain ⟨hsaved, hcopy, hrest⟩ := hnested
          refine ⟨hsaved, fun m' hm' => ?_, hrest⟩
          cases hm'
          exact (hcopy copy rfl).mono (Deliverable.of_subset (hadds copy rfl))
      | succ depth =>
          obtain ⟨rest', hrest', hstack'⟩ := Option.map_eq_some_iff.mp h
          rw [← hstack']
          cases ctx with
          | procmask how set =>
              obtain ⟨hset, hbelow, hrest⟩ := hnested
              exact ⟨hset, fun m' hm' => (accepts_editAt hrest').mpr (hbelow m' hm'),
                ih hrest' hrest hadds⟩
          | signal a =>
              obtain ⟨hsaved, hcopy, hrest⟩ := hnested
              exact ⟨(accepts_editAt hrest').mpr hsaved,
                fun m' hm' => (accepts_editAt hrest').mpr (hcopy m' hm'), ih hrest' hrest hadds⟩

/-! ## Every event keeps a thread in order -/

theorem MaskThread.InOrder.call {s s' : MaskThread} {how : How} {set : Option (BitVec 64)}
    {sigsetsize : Nat} (h : s.InOrder) (hnext : s.next (.call how set sigsetsize) = some s') :
    s'.InOrder := by
  rw [MaskThread.next] at hnext
  split at hnext
  · cases hnext
  · rename_i hruns
    have hmask := h.runsApp (Bool.not_eq_false _ |>.mp hruns)
    split at hnext
    · cases hnext
    · split at hnext
      · cases hnext
        exact h
      · cases hnext
        refine ⟨hmask, fun m hm => ?_, fun m hm => Accepts.of_deliverable _ hm, h.nested⟩
        obtain ⟨m', -, hm'⟩ := Option.map_eq_some_iff.mp hm
        rw [← hm']
        exact deliverable_modifiableMask m'

theorem MaskThread.InOrder.deliver {s s' : MaskThread} {signo : Nat} {saMask : BitVec 64}
    {fromApp : Bool} (h : s.InOrder) (hnext : s.next (.deliver signo saMask fromApp) = some s') :
    s'.InOrder := by
  rw [MaskThread.next] at hnext
  split at hnext
  · cases hnext
    refine ⟨trivial, h.top, fun m hm => ?_, h.nested⟩
    cases fromApp <;> cases hm
  · cases hnext

theorem MaskThread.InOrder.step {s s' : MaskThread} {e : MaskEvent} (h : s.InOrder)
    (hadds : e.AddsNoGuard s) (hnext : s.next e = some s') : s'.InOrder := by
  cases e with
  | call how set sigsetsize => exact h.call hnext
  | deliver signo saMask fromApp => exact h.deliver hnext
  | edit depth ucSigmask =>
      obtain ⟨stack', hedit, hs'⟩ := Option.map_eq_some_iff.mp hnext
      rw [← hs']
      exact ⟨(accepts_editAt hedit).mpr h.top, h.nested.editAt hedit hadds⟩
  | procmask =>
      obtain ⟨mask, stack⟩ := s
      rw [MaskThread.next] at hnext
      split at hnext
      · rename_i hstack
        cases hnext
        cases hstack
        obtain ⟨hset, hbelow, hrest⟩ := h.nested
        exact ⟨hbelow _ (deliverable_kernelSigprocmask h.top hset), hrest⟩
      · cases hnext
  | unblock =>
      obtain ⟨mask, stack⟩ := s
      rw [MaskThread.next] at hnext
      split at hnext
      · rename_i saved fromApp rest hstack
        cases hnext
        cases hstack
        obtain ⟨hsaved, -, hrest⟩ := h.nested
        refine ⟨deliverable_zero, hsaved, fun m hm => ?_, hrest⟩
        cases fromApp <;> cases hm
      · cases hnext
  | invoke =>
      obtain ⟨mask, stack⟩ := s
      rw [MaskThread.next] at hnext
      split at hnext
      · rename_i saved fromApp rest hstack
        cases hnext
        cases hstack
        obtain ⟨hsaved, -, hrest⟩ := h.nested
        refine ⟨h.top, hsaved, fun m hm => ?_, hrest⟩
        cases fromApp with
        | false => cases hm
        | true =>
            cases hm
            exact hsaved
      · cases hnext
  | skip =>
      obtain ⟨mask, stack⟩ := s
      rw [MaskThread.next] at hnext
      split at hnext
      · rename_i saved fromApp rest hstack
        cases hnext
        cases hstack
        obtain ⟨hsaved, -, hrest⟩ := h.nested
        refine ⟨trivial, hsaved, fun m hm => ?_, hrest⟩
        cases fromApp <;> cases hm
      · cases hnext
  | finish =>
      obtain ⟨mask, stack⟩ := s
      rw [MaskThread.next] at hnext
      split at hnext
      · rename_i saved fromApp copy rest hstack
        cases hnext
        cases hstack
        obtain ⟨hsaved, hcopy, hrest⟩ := h.nested
        cases fromApp with
        | false => exact ⟨trivial, hsaved, (fun m hm => nomatch hm), hrest⟩
        | true => exact ⟨trivial, hcopy copy rfl, (fun m hm => nomatch hm), hrest⟩
      · cases hnext
  | sigreturn =>
      obtain ⟨mask, stack⟩ := s
      rw [MaskThread.next] at hnext
      split at hnext
      · rename_i saved fromApp rest hstack
        cases hnext
        cases hstack
        obtain ⟨hsaved, -, hrest⟩ := h.nested
        exact ⟨hsaved.mono Deliverable.and, hrest⟩
      · cases hnext

/-! ## Runs -/

/-- Application code, with the three signals deliverable. -/
def MaskThread.Start (s : MaskThread) : Prop := s.stack = [] ∧ Deliverable s.mask

/-- In every run in which no write to a copied frame adds SIGSYS, SIGSEGV or SIGTRAP
to its mask, the three are deliverable whenever application code runs. -/
theorem maskRun_deliverable {s : MaskThread}
    (run : Reach MaskThread.next (fun s e => e.AddsNoGuard s) MaskThread.Start s)
    (happ : s.runsApp = true) : Deliverable s.mask := by
  have horder : s.InOrder := by
    refine run.inv (fun s hs => ?_) fun s e s' h hadds hnext => h.step hadds hnext
    obtain ⟨mask, stack⟩ := s
    cases hs.1
    exact ⟨hs.2, trivial⟩
  exact horder.runsApp happ

/-- The application blocks everything it can; a signal arrives, its handler empties
the mask of its copy and blocks everything again, and returns. -/
theorem maskRun_deliverable_nested :
    ∃ s, Reach MaskThread.next (fun s e => e.AddsNoGuard s) MaskThread.Start s ∧
      s.runsApp = true ∧ s.stack = [] ∧ Deliverable s.mask := by
  have h : runEvents MaskThread.next (fun s e => e.AddsNoGuard s) ⟨0, []⟩
      [.call .setmask (some (BitVec.allOnes 64 &&& ~~~sigBit 10)) 8, .procmask,
        .deliver 10 (BitVec.allOnes 64) true, .unblock, .invoke, .edit 0 0,
        .call .block (some (BitVec.allOnes 64)) 8, .procmask, .finish, .sigreturn] =
      some ⟨0, []⟩ := by
    decide
  have hrun : Reach MaskThread.next (fun s e => e.AddsNoGuard s) MaskThread.Start ⟨0, []⟩ :=
    .runEvents (.start ⟨rfl, deliverable_zero⟩) h
  exact ⟨_, hrun, rfl, rfl, maskRun_deliverable hrun rfl⟩

/-- A handler that sets SIGSEGV in the `uc_sigmask` of its copy returns to
application code with SIGSEGV masked. -/
theorem maskRun_masked :
    ∃ s, Reach MaskThread.next (fun _ _ => True) MaskThread.Start s ∧
      s.runsApp = true ∧ ¬ Deliverable s.mask := by
  have h : runEvents MaskThread.next (fun _ _ => True) ⟨0, []⟩
      [.deliver 10 0 true, .unblock, .invoke, .edit 0 (sigBit sigsegv), .finish, .sigreturn] =
      some ⟨sigBit sigsegv, []⟩ := by
    decide
  have hrun : Reach MaskThread.next (fun _ _ => True) MaskThread.Start ⟨sigBit sigsegv, []⟩ :=
    .runEvents (.start ⟨rfl, deliverable_zero⟩) h
  exact ⟨_, hrun, rfl, by decide⟩

end Secpoline
