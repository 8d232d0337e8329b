import Secpoline.Lib.Machine
import Secpoline.Model.SignalLocks

/-!
# Waiting for a lock that the thread itself holds

An activation of the monitor gets into its own way only through an activation below
it on the stack, which keeps its locks until everything above it is finished. So it is
enough to look at an activation when it is put on the stack: no lock that it will
acquire may be held below. The dispatch of a signal acquires `mut` right away, and
the handler it calls may call `rt_sigaction`; so a signal for the application must
not come while `mut` is held. A signal that comes while `mtx` is held is harmless as
long as its handler keeps away from descriptors.
-/

namespace Secpoline

open Lib

variable {holds below : List MonitorLock} {todo : List LockOp}

/-! ## The handlers by themselves -/

/-- Done from where `holds` are held, the operations never ask for a lock that is
held and leave none. -/
def LocksNest : List MonitorLock → List LockOp → Prop
  | holds, [] => holds = []
  | holds, .acquire l :: todo => l ∉ holds ∧ LocksNest (l :: holds) todo
  | holds, .release l :: todo => LocksNest (holds.erase l) todo
  | holds, .work :: todo => LocksNest holds todo
  | holds, .lookup :: todo => LocksNest holds todo

theorem LocksNest.append {todo' : List LockOp} (h : LocksNest holds todo)
    (h' : LocksNest [] todo') :
    LocksNest holds (todo ++ todo') := by
  induction todo generalizing holds with
  | nil =>
      cases (h : holds = [])
      exact h'
  | cons op todo ih =>
      cases op with
      | acquire l => exact ⟨h.1, ih h.2⟩
      | release l => exact ih h
      | work => exact ih h
      | lookup => exact ih h

theorem locksNest_withLock (l : MonitorLock) : LocksNest [] (withLock l [.work]) := by
  simp [LocksNest, withLock]

theorem LocksNest.ite {p : Prop} [Decidable p] (h : LocksNest [] todo) :
    LocksNest [] (if p then todo else []) := by
  split
  · exact h
  · rfl

section
variable {n : Nat} {gprs : GpFrame} {rax : Quad}

theorem locksNest_syscallLocks (h : syscallLocks n gprs rax = some todo) : LocksNest [] todo := by
  have hbit : LocksNest [] readBitLocks := locksNest_withLock .bitmapMtx
  have hset : LocksNest [] setBitLocks := locksNest_withLock .bitmapMtx
  have hpre : LocksNest [] (prehandlerLocks n gprs) :=
    ((hbit.ite.append hbit.ite).append (hbit.append hbit).ite).append (hbit.append hbit).ite
  have hmain : LocksNest [] (mainHandlerLocks n rax) := by
    unfold mainHandlerLocks
    split
    · exact locksNest_withLock .bitmapMtx
    · split
      · exact locksNest_withLock .handlersMut
      · split
        · split
          · rfl
          · exact hset.append hset
        · rfl
  have hpost : LocksNest [] (posthandlerLocks n rax) := hset.ite
  unfold syscallLocks at h
  split at h
  · cases h
  · cases h
    exact (hpre.append hmain).append hpost

/-- A handler of the call looks at the bitmap of descriptors. -/
def usesBitmap (n : Nat) (gprs : GpFrame) (rax : Quad) : Prop :=
  (n ∈ fdUsers ∧ 0 ≤ asInt (gprs .rdi)) ∨ n ∈ fdUsersSecondArgument ∨
    n ∈ fdUsersFirstSecondArgument ∨ n ∈ fdUsersFirstThirdArgument ∨ n = nrClose ∨
    (n ∈ pairCalls ∧ 0 ≤ rax.toInt) ∨ (n ∈ fdCreators ∧ 0 ≤ asInt rax)

theorem usesBitmap_of_acquire (h : syscallLocks n gprs rax = some todo)
    (hmtx : .acquire .bitmapMtx ∈ todo) : usesBitmap n gprs rax := by
  unfold syscallLocks at h
  split at h
  · cases h
  · cases h
    unfold usesBitmap
    rcases List.mem_append.mp hmtx with hmtx | hpost
    · rcases List.mem_append.mp hmtx with hpre | hmain
      · simp only [prehandlerLocks, List.mem_append, List.mem_ite_nil_right] at hpre
        grind
      · unfold mainHandlerLocks at hmain
        split at hmain
        · grind
        · split at hmain
          · exact absurd hmain (by decide)
          · split at hmain
            · grind
            · exact absurd hmain (by decide)
    · simp only [posthandlerLocks, List.mem_ite_nil_right] at hpost
      grind

end

/-! ## Activations on the stack -/

namespace LockCtx

/-- What an activation has still to do. -/
def ahead (ctx : LockCtx) : List LockOp :=
  match ctx.code with
  | .syscall todo => todo
  | .dispatch todo => todo
  | _ => []

/-- It was begun by a signal for the application. -/
def ForApp (ctx : LockCtx) : Prop :=
  match ctx.code with
  | .syscall _ => False
  | .served => False
  | _ => True

/-- An activation above others, which hold the locks `below`. -/
structure Fits (ctx : LockCtx) (below : List MonitorLock) : Prop where
  nested : ctx.code ≠ .trapped → LocksNest ctx.holds ctx.ahead
  disjoint : ∀ l, .acquire l ∈ ctx.ahead → l ∉ below
  app : ctx.ForApp → .handlersMut ∉ below

end LockCtx

def StackFits : List LockCtx → Prop
  | [] => True
  | ctx :: rest => ctx.Fits (rest.flatMap LockCtx.holds) ∧ StackFits rest

theorem LocksNest.perform {op : LockOp} {taken holds' : List MonitorLock} {found : Bool}
    (h : LocksNest holds (op :: todo)) (hop : op.perform taken holds found = some holds') :
    LocksNest holds' todo := by
  cases op with
  | acquire l =>
      simp only [LockOp.perform] at hop
      split at hop
      · cases hop
      · cases hop
        exact h.2
  | release l =>
      cases hop
      exact h
  | work =>
      cases hop
      exact h
  | lookup =>
      simp only [LockOp.perform] at hop
      split at hop
      · cases hop
        exact h
      · cases hop

theorem LockCtx.Fits.step {ctx ctx' : LockCtx} {taken : List MonitorLock} {found : Bool}
    (h : ctx.Fits below) (hs : ctx.step taken found = some (some ctx')) : ctx'.Fits below := by
  obtain ⟨code, holds⟩ := ctx
  obtain ⟨hnested, hahead, hmut⟩ := h
  cases code with
  | syscall todo =>
      cases todo with
      | nil => cases hs
      | cons op todo =>
          simp only [LockCtx.step, Option.map_eq_some_iff] at hs
          obtain ⟨holds', hop, hctx⟩ := hs
          cases hctx
          exact ⟨fun _ => (hnested nofun).perform hop,
            fun l hl => hahead l (List.mem_cons_of_mem _ hl), nofun⟩
  | dispatch todo =>
      cases todo with
      | nil =>
          cases hs
          exact ⟨fun _ => hnested nofun, nofun, hmut⟩
      | cons op todo =>
          simp only [LockCtx.step] at hs
          split at hs
          · cases hs
            exact ⟨fun h => absurd rfl h, nofun, hmut⟩
          · simp only [Option.map_eq_some_iff] at hs
            obtain ⟨holds', hop, hctx⟩ := hs
            cases hctx
            exact ⟨fun _ => (hnested nofun).perform hop,
              fun l hl => hahead l (List.mem_cons_of_mem _ hl), hmut⟩
  | handler => cases hs
  | served => cases hs
  | trapped => cases hs

theorem LockCtx.Fits.not_held {ctx : LockCtx} {l : MonitorLock} (h : ctx.Fits below)
    (hcode : ctx.code ≠ .trapped) (hahead : ctx.ahead = .acquire l :: todo) :
    l ∉ ctx.holds ++ below := by
  have hnested := h.nested hcode
  rw [hahead] at hnested
  rw [List.mem_append, not_or]
  exact ⟨hnested.1, h.disjoint l (hahead ▸ List.mem_cons_self)⟩

/-! ## Runs -/

/-- No signal for the application comes while the thread holds `mut`, and no system
call that uses the bitmap while it holds `mtx`. -/
def LockEvent.Tame (s : LockThread) : LockEvent → Prop
  | .syscall n gprs rax => usesBitmap n gprs rax → .bitmapMtx ∉ s.held
  | .deliver served => served = false → .handlersMut ∉ s.held
  | .step _ => True

instance (s : LockThread) : DecidablePred (LockEvent.Tame s)
  | .syscall _ _ _ =>
      inferInstanceAs (Decidable ((_ ∨ _ ∨ _ ∨ _ ∨ _ ∨ _ ∨ _) → _))
  | .deliver _ => inferInstanceAs (Decidable (_ → _))
  | .step _ => inferInstanceAs (Decidable True)

namespace LockThread

variable {s s' : LockThread}

/-- The application never runs on top of something that holds `mut`. -/
theorem handlersMut_free (h : StackFits s.stack) (happ : s.runsApp) : .handlersMut ∉ s.held := by
  obtain ⟨stack⟩ := s
  cases stack with
  | nil => exact nofun
  | cons ctx rest =>
      obtain ⟨code, holds⟩ := ctx
      cases of_decide_eq_true happ
      have hnone : holds = [] := h.1.nested nofun
      have hbelow : .handlersMut ∉ rest.flatMap LockCtx.holds := h.1.app trivial
      rw [held, List.flatMap_cons, hnone]
      exact hbelow

theorem fits_next {e : LockEvent} (h : StackFits s.stack) (ht : e.Tame s)
    (hs : s.next e = some s') : StackFits s'.stack := by
  cases e with
  | syscall n gprs rax =>
      rw [next] at hs
      split at hs
      · rename_i happ
        obtain ⟨todo, htodo, rfl⟩ := Option.map_eq_some_iff.mp hs
        refine ⟨⟨fun _ => locksNest_syscallLocks htodo, fun l hl => ?_, nofun⟩, h⟩
        cases l with
        | handlersMut => exact handlersMut_free h happ
        | bitmapMtx => exact ht (usesBitmap_of_acquire htodo hl)
      · cases hs
  | deliver served =>
      cases hs
      cases served with
      | false =>
          refine ⟨⟨fun _ => by simp [LocksNest, LockCtx.ahead, dispatchLocks, withLock],
            fun l hl => ?_, fun _ => ht rfl⟩, h⟩
          cases l with
          | handlersMut => exact ht rfl
          | bitmapMtx => exact absurd hl (by decide)
      | true => exact ⟨⟨fun _ => rfl, nofun, nofun⟩, h⟩
  | step found =>
      obtain ⟨stack⟩ := s
      cases stack with
      | nil => cases hs
      | cons ctx rest =>
          simp only [next, Option.map_eq_some_iff] at hs
          obtain ⟨ctx', hctx, rfl⟩ := hs
          cases ctx' with
          | none => exact h.2
          | some ctx' => exact ⟨h.1.step hctx, h.2⟩

theorem not_selfDeadlock (h : StackFits s.stack) : ¬ s.SelfDeadlock := by
  rintro ⟨l, hacq, hheld⟩
  obtain ⟨stack⟩ := s
  unfold acquires at hacq
  split at hacq
  · cases hacq
    rename_i hstack
    cases hstack
    exact h.1.not_held nofun rfl hheld
  · cases hacq
    rename_i hstack
    cases hstack
    exact h.1.not_held nofun rfl hheld
  · cases hacq

/-- In every such run, whatever its depth, the thread never waits for itself. -/
theorem selfDeadlock_free (run : Reach next (fun s e => e.Tame s) (· = start) s) :
    ¬ s.SelfDeadlock := by
  refine not_selfDeadlock (run.inv (I := fun s => StackFits s.stack) ?_ ?_)
  · rintro s rfl
    trivial
  · exact fun s e s' h ht hs => fits_next h ht hs

/-- A signal while `close` is in its kernel call, with a handler that changes a signal action. -/
theorem selfDeadlock_free_close :
    ∃ s, Reach next (fun s e => e.Tame s) (· = start) s ∧ s.acquires = some .handlersMut ∧
      s.held = [.bitmapMtx] ∧ ¬ s.SelfDeadlock := by
  obtain ⟨s, hs, h⟩ : ∃ s, runEvents next (fun s e => e.Tame s) start
      (.syscall nrClose (fun _ => 5) 0 :: List.replicate 4 (.step true) ++ [.deliver false] ++
        List.replicate 4 (.step true) ++ [.syscall nrRtSigaction (fun _ => 10) 0]) = some s ∧
      s.acquires = some .handlersMut ∧ s.held = [.bitmapMtx] :=
    ⟨_, rfl, by decide⟩
  have run : Reach next (fun s e => e.Tame s) (· = start) s := .runEvents (.start rfl) hs
  exact ⟨s, run, h.1, h.2, selfDeadlock_free run⟩

/-- A signal while `rt_sigaction` holds its lock, and one whose handler calls `close`
while `close` holds its. -/
theorem not_selfDeadlock_free :
    (∃ s, Reach next (fun _ _ => True) (· = start) s ∧ s.acquires = some .handlersMut ∧
      s.SelfDeadlock) ∧
    ∃ s, Reach next (fun _ _ => True) (· = start) s ∧ s.acquires = some .bitmapMtx ∧
      s.SelfDeadlock := by
  constructor
  · obtain ⟨s, hs, hacq, hheld⟩ : ∃ s, runEvents next (fun _ _ => True) start
        [.syscall nrRtSigaction (fun _ => 10) 0, .step true, .deliver false] = some s ∧
        s.acquires = some .handlersMut ∧ .handlersMut ∈ s.held :=
      ⟨_, rfl, by decide⟩
    exact ⟨s, .runEvents (.start rfl) hs, hacq, _, hacq, hheld⟩
  · obtain ⟨s, hs, hacq, hheld⟩ : ∃ s, runEvents next (fun _ _ => True) start
        (.syscall nrClose (fun _ => 5) 0 :: List.replicate 4 (.step true) ++ [.deliver false] ++
          List.replicate 4 (.step true) ++ [.syscall nrClose (fun _ => 6) 0]) = some s ∧
        s.acquires = some .bitmapMtx ∧ .bitmapMtx ∈ s.held :=
      ⟨_, rfl, by decide⟩
    exact ⟨s, .runEvents (.start rfl) hs, hacq, _, hacq, hheld⟩

end LockThread

end Secpoline
