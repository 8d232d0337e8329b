import Secpoline.Lib.Machine
import Secpoline.Model.MonitorStacks
import Secpoline.Proofs.SigreturnStack

/-!
# How deep the monitor's stacks get

Neither stack checks a limit, so what bounds them is how many system calls and
signals a thread is in the middle of. A system call has at most one area, and
`current` is behind those of the system calls that have theirs. What an `xsave` writes
runs into the next area, so the sixth area is not one that can be used. A signal has at most nine
words, and the words of the sigreturn stack are those of the signals in progress,
as long as no signal comes between the two halves of a push or a pop: after one
that does, the trampoline may pop more or fewer words than were pushed.
-/

namespace Secpoline

open Lib

/-! ## What is asked -/

/-- The next step writes inside the array it writes to: an `xsave` bytes of the six
areas, a push one of the 0x1000 words. -/
def StackState.WritesInBounds (s : StackState) : Prop :=
  match s.contexts with
  | .syscall (.save rsi) :: _ => 0 ≤ rsi ∧ rsi + xsaveWritten ≤ xsaveAreaBytes
  | .signal :: _ =>
      (∀ a ∈ s.sig.activations.head?, a.phase.stores = true →
        0 ≤ s.sig.current ∧ s.sig.current < sigreturnWords)
  | _ => True

/-- The system calls in progress. -/
def syscallsOf : List StackCtx → Nat
  | [] => 0
  | .syscall _ :: rest => syscallsOf rest + 1
  | .signal :: rest => syscallsOf rest

/-- The signals in progress. -/
def signalsOf : List StackCtx → Nat
  | [] => 0
  | .syscall _ :: rest => signalsOf rest
  | .signal :: rest => signalsOf rest + 1

/-- No more than five system calls and 455 signals are in progress at any time, and
no signal comes between the two halves of a push or a pop. -/
def StackEvent.Shallow (s : StackState) : StackEvent → Prop
  | .enter => syscallsOf s.contexts < 5
  | .deliver _ => signalsOf s.contexts < 455 ∧ s.sig.activations.head?.all fun a => !a.phase.half
  | .step => True

instance (s : StackState) : DecidablePred (StackEvent.Shallow s) := fun e =>
  match e with
  | .enter => inferInstanceAs (Decidable (_ < _))
  | .deliver _ => inferInstanceAs (Decidable (_ ∧ _))
  | .step => inferInstanceAs (Decidable True)

/-! ## The area stack -/

/-- The bytes below `current` for a system call. -/
def XsavePhase.areas : XsavePhase → Int
  | .inside | .restore _ | .drop _ => xsaveSlot
  | .load | .save _ | .bump _ => 0

/-- The bytes below `current` that belong to these contexts. -/
def areasOf : List StackCtx → Int
  | [] => 0
  | .syscall phase :: rest => phase.areas + areasOf rest
  | .signal :: rest => areasOf rest

/-- What a system call has in `%rsi` is the position right above those of the contexts
below it. -/
def XsavePhase.Aligned (below : List StackCtx) : XsavePhase → Prop
  | .save rsi | .bump rsi | .restore rsi | .drop rsi => rsi = areasOf below
  | .load | .inside => True

def AllAligned : List StackCtx → Prop
  | [] => True
  | .syscall phase :: rest => phase.Aligned rest ∧ AllAligned rest
  | .signal :: rest => AllAligned rest

theorem XsavePhase.areas_bounds (phase : XsavePhase) :
    0 ≤ phase.areas ∧ phase.areas ≤ xsaveSlot := by
  rw [XsavePhase.areas.eq_def]
  split <;> decide

theorem areasOf_bounds (contexts : List StackCtx) :
    0 ≤ areasOf contexts ∧ areasOf contexts ≤ xsaveSlot * syscallsOf contexts := by
  induction contexts with
  | nil => exact ⟨Int.le_refl 0, Int.le_refl 0⟩
  | cons c rest ih =>
      cases c with
      | signal => exact ih
      | syscall phase =>
          have hphase := phase.areas_bounds
          rw [areasOf, syscallsOf]
          rw [xsaveSlot] at hphase ih ⊢
          push_cast
          omega

structure StackState.XsaveInv (s : StackState) : Prop where
  current : s.xsave = areasOf s.contexts
  aligned : AllAligned s.contexts
  few : syscallsOf s.contexts ≤ 5

/-- A step of the innermost system call. -/
theorem StackState.XsaveInv.syscallStep {s s' : StackState} {phase : XsavePhase}
    {rest : List StackCtx} (h : s.XsaveInv) (hctx : s.contexts = .syscall phase :: rest)
    (hnext : s.next .step = some s') : s'.XsaveInv := by
  obtain ⟨sig, xsave, contexts⟩ := s
  cases hctx
  obtain ⟨hcurrent, ⟨haligned, hrest⟩, hfew⟩ := h
  have hsum : xsave = phase.areas + areasOf rest := hcurrent
  cases phase with
  | load =>
      cases hnext
      exact ⟨hcurrent, ⟨hsum.trans (Int.zero_add _), hrest⟩, hfew⟩
  | save rsi =>
      cases hnext
      exact ⟨hcurrent, ⟨haligned, hrest⟩, hfew⟩
  | bump rsi =>
      cases hnext
      have hrsi : rsi = areasOf rest := haligned
      refine ⟨?_, ⟨trivial, hrest⟩, hfew⟩
      show rsi + xsaveSlot = xsaveSlot + areasOf rest
      omega
  | inside =>
      cases hnext
      refine ⟨hcurrent, ⟨?_, hrest⟩, hfew⟩
      have hone : xsave = xsaveSlot + areasOf rest := hsum
      show xsave - xsaveSlot = areasOf rest
      omega
  | restore rsi =>
      cases hnext
      exact ⟨hcurrent, ⟨haligned, hrest⟩, hfew⟩
  | drop rsi =>
      cases hnext
      exact ⟨haligned, hrest, Nat.le_of_succ_le hfew⟩

/-! ## The sigreturn stack -/

theorem SigFrame.pushes_length_le (f : SigFrame) : f.pushes.length ≤ 9 := by
  by_cases hcid : f.cid = 0
  · rw [f.pushes_monitor hcid]
    exact Nat.le_succ 8
  · rw [f.pushes_app hcid]
    exact Nat.le_refl 9

theorem SigActivation.Live.length_le {a : SigActivation} {live : List UInt64} {top : Option UInt64}
    (h : a.Live live top) : live.length ≤ 9 := by
  have hle := a.frame.pushes_length_le
  obtain ⟨f, phase⟩ := a
  cases phase with
  | store rest =>
      rw [h.1, List.length_append] at hle
      omega
  | increment rest =>
      obtain ⟨v, hv, -⟩ := h
      rw [hv, List.length_append] at hle
      omega
  | decrement popped =>
      rw [← h.1, List.length_append] at hle
      omega
  | load popped =>
      obtain ⟨v, hv, -⟩ := h
      rw [← hv, List.length_append] at hle
      omega

theorem Suspended.length_le {acts : List SigActivation} {base : List UInt64}
    (h : Suspended acts base) : base.length ≤ 9 * acts.length := by
  induction h with
  | nil => exact Nat.le_refl 0
  | cons hlive _ ih =>
      have hle := hlive.length_le
      rw [List.length_append, List.length_cons]
      omega

/-- A push that is about to be made still has its own word to come, so `current` is
below nine words for each signal in progress. -/
theorem SigInv.current_lt {s : SigState} (h : SigInv s) {a : SigActivation}
    (ha : s.activations.head? = some a) (hstores : a.phase.stores = true) :
    0 ≤ s.current ∧ s.current < 9 * s.activations.length := by
  cases h with
  | idle hnil _ =>
      rw [hnil] at ha
      cases ha
  | @active a' outer live base top hacts hsusp hlive hholds _ =>
      rw [hacts] at ha
      cases ha
      have hbase := hsusp.length_le
      have hpushes := a.frame.pushes_length_le
      have hcur := hholds.current
      obtain ⟨f, phase⟩ := a
      cases phase with
      | store rest =>
          obtain ⟨hsplit, hne, -⟩ := hlive
          have hpos : 0 < rest.length := List.length_pos_iff.mpr hne
          rw [hsplit, List.length_append] at hpushes
          rw [List.length_append] at hcur
          rw [hacts, List.length_cons]
          push_cast at hcur ⊢
          omega
      | increment rest => cases hstores
      | decrement popped => cases hstores
      | load popped => cases hstores

structure StackState.SigreturnInv (s : StackState) : Prop where
  words : SigInv s.sig
  count : s.sig.activations.length = signalsOf s.contexts
  few : signalsOf s.contexts ≤ 455

theorem StackState.SigreturnInv.current_lt {s : StackState} (h : s.SigreturnInv) {a : SigActivation}
    (ha : s.sig.activations.head? = some a) (hstores : a.phase.stores = true) :
    0 ≤ s.sig.current ∧ s.sig.current < sigreturnWords := by
  obtain ⟨hpos, hlt⟩ := h.words.current_lt ha hstores
  have hcount := h.count
  have hfew := h.few
  rw [sigreturnWords]
  omega

/-- So the stack never leaves its array, and the steps are those the words of every
frame survive. -/
theorem StackState.SigreturnInv.tame {s : StackState} (h : s.SigreturnInv) :
    SigEvent.Tame s.sig .step := by
  rw [SigEvent.Tame]
  cases hhead : s.sig.activations.head? with
  | none => exact .inr rfl
  | some a =>
      cases hstores : a.phase.stores with
      | true => exact .inl (h.current_lt hhead hstores).2
      | false =>
          refine .inr ?_
          rw [Option.all_some, hstores]
          rfl

/-- A micro-step keeps the number of activations, or ends the innermost. -/
theorem SigState.micro_length {s s' : SigState} (h : s.micro = some s') :
    s'.activations.length = s.activations.length ∨
      s'.activations.length + 1 = s.activations.length := by
  rw [SigState.micro] at h
  split at h
  · cases h
  · rename_i hacts
    cases h
    rw [hacts]
    exact .inl rfl
  · cases h
  · rename_i hacts
    cases h
    rw [hacts]
    exact .inl rfl
  · rename_i hacts
    split at h
    · cases h
      rw [hacts]
      exact .inr rfl
    · cases h
      rw [hacts]
      exact .inl rfl
  · rename_i hacts
    cases h
    rw [hacts]
    exact .inl rfl

/-! ## Runs -/

structure StackState.Inv (s : StackState) : Prop where
  areas : s.XsaveInv
  words : s.SigreturnInv

theorem StackState.Inv.enter {s s' : StackState} (h : s.Inv) (hshallow : syscallsOf s.contexts < 5)
    (hnext : s.next .enter = some s') : s'.Inv := by
  rw [StackState.next] at hnext
  split at hnext
  · cases hnext
    exact ⟨⟨h.areas.current.trans (Int.zero_add _).symm, ⟨trivial, h.areas.aligned⟩, hshallow⟩,
      h.words.words, h.words.count, h.words.few⟩
  · cases hnext

theorem StackState.Inv.deliver {s s' : StackState} {f : SigFrame} (h : s.Inv)
    (hshallow : StackEvent.Shallow s (.deliver f)) (hnext : s.next (.deliver f) = some s') :
    s'.Inv := by
  cases hnext
  obtain ⟨hfew, htame⟩ := hshallow
  exact ⟨⟨h.areas.current, h.areas.aligned, h.areas.few⟩, h.words.words.deliver f htame,
    congrArg (· + 1) h.words.count, hfew⟩

theorem StackState.Inv.signalStep {s s' : StackState} {rest : List StackCtx} (h : s.Inv)
    (hctx : s.contexts = .signal :: rest) (hnext : s.next .step = some s') : s'.Inv := by
  obtain ⟨sig, xsave, contexts⟩ := s
  cases hctx
  obtain ⟨sig', hmicro, hs'⟩ := Option.map_eq_some_iff.mp hnext
  have hwords := h.words.words.event h.words.tame hmicro
  have hcount : sig.activations.length = signalsOf rest + 1 := h.words.count
  have hfew : signalsOf rest + 1 ≤ 455 := h.words.few
  rw [← hs']
  have hlen : sig'.activations.length = sig.activations.length ∨
      sig'.activations.length + 1 = sig.activations.length := SigState.micro_length hmicro
  obtain hlen | hlen := hlen
  · dsimp only
    rw [hlen, if_neg (Nat.lt_irrefl _)]
    exact ⟨⟨h.areas.current, h.areas.aligned, h.areas.few⟩, hwords, hlen.trans hcount, hfew⟩
  · have hlt : sig'.activations.length < sig.activations.length := by omega
    dsimp only
    rw [if_pos hlt]
    have hcount' : sig'.activations.length = signalsOf rest := by omega
    exact ⟨⟨h.areas.current, h.areas.aligned, h.areas.few⟩, hwords, hcount',
      Nat.le_of_succ_le hfew⟩

theorem StackState.Inv.syscallStep {s s' : StackState} {phase : XsavePhase} {rest : List StackCtx}
    (h : s.Inv) (hctx : s.contexts = .syscall phase :: rest) (hnext : s.next .step = some s') :
    s'.Inv := by
  refine ⟨h.areas.syscallStep hctx hnext, ?_⟩
  obtain ⟨sig, xsave, contexts⟩ := s
  cases hctx
  cases hnext
  obtain ⟨-, hwords, hcount, hfew⟩ := h
  have hsignals : ∀ phase' : Option XsavePhase,
      signalsOf (phase'.toList.map StackCtx.syscall ++ rest) =
        signalsOf (.syscall phase :: rest) := by
    intro phase'
    cases phase' <;> rfl
  exact ⟨hwords, hcount.trans (hsignals _).symm, Nat.le_trans (Nat.le_of_eq (hsignals _)) hfew⟩

theorem StackState.Inv.step {s s' : StackState} {e : StackEvent} (h : s.Inv)
    (hshallow : e.Shallow s) (hnext : s.next e = some s') : s'.Inv := by
  cases e with
  | enter => exact h.enter hshallow hnext
  | deliver f => exact h.deliver hshallow hnext
  | step =>
      cases hctx : s.contexts with
      | nil =>
          rw [StackState.next, hctx] at hnext
          cases hnext
      | cons c rest =>
          cases c with
          | syscall phase => exact h.syscallStep hctx hnext
          | signal => exact h.signalStep hctx hnext

theorem StackState.Inv.writesInBounds {s : StackState} (h : s.Inv) : s.WritesInBounds := by
  obtain ⟨sig, xsave, contexts⟩ := s
  cases contexts with
  | nil => trivial
  | cons c rest =>
      cases c with
      | signal =>
          intro a ha hstores
          exact h.words.current_lt ha hstores
      | syscall phase =>
          cases phase with
          | save rsi =>
              have hrsi : rsi = areasOf rest := h.areas.aligned.1
              have hbounds := areasOf_bounds rest
              have hfew : syscallsOf rest + 1 ≤ 5 := h.areas.few
              show 0 ≤ rsi ∧ rsi + xsaveWritten ≤ xsaveAreaBytes
              rw [xsaveAreaBytes, xsaveWritten]
              rw [xsaveSlot] at hbounds ⊢
              omega
          | load => trivial
          | bump rsi => trivial
          | inside => trivial
          | restore rsi => trivial
          | drop rsi => trivial

/-- In every run in which at most five system calls and 455 signals are in progress at
a time, and no signal comes between the halves of a push or a pop, both stacks are
written inside their arrays. -/
theorem stackRun_inBounds {s : StackState}
    (run : Reach StackState.next (fun s e => e.Shallow s) (· = StackState.init) s) :
    s.WritesInBounds := by
  have hinv : s.Inv := by
    refine run.inv (fun s hs => ?_) fun s e s' h hshallow hnext => h.step hshallow hnext
    rw [hs]
    exact ⟨⟨rfl, trivial, by decide⟩, .idle rfl ⟨rfl, by simp, by simp⟩, rfl, by decide⟩
  exact hinv.writesInBounds

/-- One more system call inside the handler of a signal that interrupts the monitor. -/
def nestedSyscall : List StackEvent := [.enter, .step, .step, .step, .deliver nestedSignal]

theorem stackRun_inBounds_nested :
    ∃ s, Reach StackState.next (fun s e => e.Shallow s) (· = StackState.init) s ∧
      s.contexts.head? = some (.syscall (.save 3072)) ∧ s.WritesInBounds := by
  have h : (runEvents StackState.next (fun s e => e.Shallow s) StackState.init
      ((List.replicate 4 nestedSyscall).flatten ++ [.enter, .step])).map
        (·.contexts.head?) = some (some (.syscall (.save 3072))) := by
    decide +kernel
  obtain ⟨s, hs, hhead⟩ := Option.map_eq_some_iff.mp h
  have hrun : Reach StackState.next (fun s e => e.Shallow s) (· = StackState.init) s :=
    .runEvents (.start rfl) hs
  exact ⟨s, hrun, hhead, stackRun_inBounds hrun⟩

/-- The sixth nested system call saves its registers in the last area and in the 64
bytes behind it, where the pointer to the breakpoint controller is. -/
theorem stackRun_overflow :
    ∃ s, Reach StackState.next (fun _ _ => True) (· = StackState.init) s ∧
      ¬ s.WritesInBounds := by
  have h : (runEvents StackState.next (fun _ _ => True) StackState.init
      ((List.replicate 5 nestedSyscall).flatten ++ [.enter, .step])).map
        (·.contexts.head?) = some (some (.syscall (.save 3840))) := by
    decide +kernel
  obtain ⟨s, hs, hhead⟩ := Option.map_eq_some_iff.mp h
  refine ⟨s, .runEvents (.start rfl) hs, fun hbounds => ?_⟩
  obtain ⟨sig, xsave, contexts⟩ := s
  cases contexts with
  | nil => cases hhead
  | cons c rest =>
      cases hhead
      exact absurd hbounds.2 (by decide)

end Secpoline
