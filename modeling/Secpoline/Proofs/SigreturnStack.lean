import Secpoline.Model.SigreturnStack

/-!
# What the trampoline pops is what was pushed

The invariant gives every activation the words it has on the stack, and says that
the stack is these words one after the other, outermost activation at the
bottom. It survives a delivery only between complete pushes and pops: between a
store and its increment the stored word is above `current`, and the frame of the
next signal is written over it; between a decrement and its load the word to be
loaded is above `current` in the same way. So the theorem is about runs that
deliver signals at the other points, at any nesting depth, and that keep the stack
inside its array.
-/

namespace Secpoline

/-- The trampoline got the words of its own frame: so far, and all of them at the
jump back. -/
def SigActivation.Restored (a : SigActivation) : Prop :=
  ∀ popped, (a.phase = .decrement popped ∨ a.phase = .load popped) →
    popped <+: a.frame.pushes.reverse ∧
      (allPopped popped = true → popped = a.frame.pushes.reverse)

/-- Every activation, finished or not, got the words of its own frame. -/
def SigState.Restored (s : SigState) : Prop := ∀ a ∈ s.activations, a.Restored

/-- The event does not come between the two halves of a push or a pop, and does not
push past the end of the array. -/
def SigEvent.Tame (s : SigState) : SigEvent → Prop
  | .deliver _ => s.activations.head?.all fun a => !a.phase.half
  | .step => s.current < 0x1000 ∨ s.activations.head?.all fun a => !a.phase.stores
  | .writeField _ _ => True

instance (s : SigState) : DecidablePred (SigEvent.Tame s) := fun e =>
  match e with
  | .deliver _ => inferInstanceAs (Decidable (_ = true))
  | .step => inferInstanceAs (Decidable (_ ∨ _))
  | .writeField _ _ => inferInstanceAs (Decidable True)

/-- Runs in which every event satisfies `P` in the state it happens in. -/
inductive SigRun (P : SigState → SigEvent → Prop) : SigState → Prop
  | start : SigRun P .init
  | event {s s' : SigState} {e : SigEvent} :
      SigRun P s → P s e → s.next e = some s' → SigRun P s'

/-! ## The invariant -/

/-- The activation has `live` on the stack; `top` is the word just above `current`
that it still counts on, if it is between the halves of a push or a pop. -/
def SigActivation.Live (a : SigActivation) (live : List UInt64) (top : Option UInt64) : Prop :=
  match a.phase with
  | .store rest => a.frame.pushes = live ++ rest ∧ rest ≠ [] ∧ top = none
  | .increment rest => ∃ v, a.frame.pushes = live ++ v :: rest ∧ top = some v
  | .decrement popped => live ++ popped.reverse = a.frame.pushes ∧ top = none
  | .load popped => ∃ v, live ++ v :: popped.reverse = a.frame.pushes ∧ top = some v

/-- The words of the suspended activations, outermost first. -/
inductive Suspended : List SigActivation → List UInt64 → Prop
  | nil : Suspended [] []
  | cons {a : SigActivation} {outer : List SigActivation} {live base : List UInt64} :
      a.Live live none → Suspended outer base → Suspended (a :: outer) (base ++ live)

/-- The stack holds exactly these words. -/
structure Holds (s : SigState) (words : List UInt64) : Prop where
  current : s.current = words.length
  fits : words.length ≤ 0x1000
  word : ∀ i (h : i < words.length), s.word i = words[i]

inductive SigInv (s : SigState) : Prop
  | idle : s.activations = [] → Holds s [] → SigInv s
  | active {a : SigActivation} {outer : List SigActivation} {live base : List UInt64}
      {top : Option UInt64} :
      s.activations = a :: outer → Suspended outer base → a.Live live top →
      Holds s (base ++ live) →
      (∀ v ∈ top, s.current < 0x1000 ∧ s.word s.current = v) → SigInv s

/-! ## When the trampoline stops -/

theorem SigFrame.pushes_monitor {f : SigFrame} (h : f.cid = 0) :
    f.pushes = [f.cid, f.selector, f.rip, f.flags, f.rsp, f.rax, f.rdx, f.rcx] := by
  simp [pushes, h]

theorem SigFrame.pushes_app {f : SigFrame} (h : f.cid ≠ 0) :
    f.pushes =
      [f.trustedSp, f.cid, f.selector, f.rip, f.flags, f.rsp, f.rax, f.rdx, f.rcx] := by
  simp [pushes, h]

/-- The trampoline stops exactly when nothing of the frame is left on the stack. -/
theorem allPopped_iff {f : SigFrame} {live popped : List UInt64}
    (h : live ++ popped.reverse = f.pushes) : allPopped popped = true ↔ live = [] := by
  have hlen := congrArg List.length h
  rw [List.length_append, List.length_reverse] at hlen
  have hlast : popped.getLast? = popped.reverse.head? := by simp
  unfold allPopped
  simp only [Bool.or_eq_true, Bool.and_eq_true, beq_iff_eq]
  by_cases hcid : f.cid = 0
  · rw [f.pushes_monitor hcid] at h hlen
    simp only [List.length_cons, List.length_nil] at hlen
    constructor
    · rintro (h9 | ⟨h8, -⟩)
      · omega
      · exact List.length_eq_zero_iff.mp (by omega)
    · rintro rfl
      rw [List.nil_append] at h
      refine .inr ⟨by simpa using hlen, ?_⟩
      rw [hlast, h, List.head?_cons, hcid]
  · rw [f.pushes_app hcid] at h hlen
    simp only [List.length_cons, List.length_nil] at hlen
    constructor
    · rintro (h9 | ⟨h8, hzero⟩)
      · exact List.length_eq_zero_iff.mp (by omega)
      -- eight words and one left: the last word popped is the compartment
      · obtain ⟨sp, rfl⟩ := List.length_eq_one_iff.mp (show live.length = 1 by omega)
        rw [List.singleton_append, List.cons.injEq] at h
        rw [hlast, h.2, List.head?_cons, Option.some.injEq] at hzero
        exact absurd hzero hcid
    · rintro rfl
      exact .inl (by simpa using hlen)

theorem SigActivation.Live.restored {a : SigActivation} {live : List UInt64}
    {top : Option UInt64} (h : a.Live live top) : a.Restored := by
  intro popped hphase
  rcases hphase with hphase | hphase
  · simp only [Live, hphase] at h
    have hrev := congrArg List.reverse h.1
    rw [List.reverse_append, List.reverse_reverse] at hrev
    refine ⟨⟨live.reverse, hrev⟩, fun hall => ?_⟩
    rw [(allPopped_iff h.1).mp hall, List.reverse_nil, List.append_nil] at hrev
    exact hrev
  · simp only [Live, hphase] at h
    obtain ⟨v, hv, -⟩ := h
    have hv' : (live ++ [v]) ++ popped.reverse = a.frame.pushes := by simpa using hv
    have hrev := congrArg List.reverse hv'
    rw [List.reverse_append, List.reverse_reverse] at hrev
    refine ⟨⟨(live ++ [v]).reverse, hrev⟩, fun hall => ?_⟩
    exact absurd ((allPopped_iff hv').mp hall) (by simp)

theorem Suspended.restored {acts : List SigActivation} {base : List UInt64}
    (h : Suspended acts base) : ∀ a ∈ acts, a.Restored := by
  induction h with
  | nil => simp
  | cons hlive _ ih =>
      intro a ha
      rcases List.mem_cons.mp ha with rfl | ha
      · exact hlive.restored
      · exact ih a ha

theorem SigInv.restored {s : SigState} (h : SigInv s) : s.Restored := by
  cases h with
  | idle hnil _ => simp [SigState.Restored, hnil]
  | active hacts hsusp hlive _ _ =>
      intro a ha
      rw [hacts] at ha
      rcases List.mem_cons.mp ha with rfl | ha
      · exact hlive.restored
      · exact hsusp.restored a ha

/-! ## One event -/

section Event

variable {s : SigState} {words : List UInt64} {v : UInt64}

/-- Writing above the stack does not change it. -/
theorem Holds.write_above (h : Holds s words) {i : Int} (hi : i < 0 ∨ (words.length : Int) ≤ i)
    (acts : List SigActivation) :
    Holds { s with word := Function.update s.word i v, activations := acts } words := by
  refine ⟨h.current, h.fits, fun j hj => ?_⟩
  rw [← h.word j hj]
  exact Function.update_of_ne (by omega) _ _

theorem Holds.activations (h : Holds s words) (acts : List SigActivation) :
    Holds { s with activations := acts } words := ⟨h.current, h.fits, h.word⟩

/-- The increment takes in the word that was stored above the stack. -/
theorem Holds.push (h : Holds s words) (hfits : s.current < 0x1000) (hv : s.word s.current = v)
    (acts : List SigActivation) :
    Holds { s with current := s.current + 1, activations := acts } (words ++ [v]) := by
  have hcur := h.current
  refine ⟨by simp [hcur], by simp; omega, fun i hi => ?_⟩
  rw [List.length_append, List.length_singleton] at hi
  by_cases hlt : i < words.length
  · rw [List.getElem_append_left hlt]
    exact h.word i hlt
  · obtain rfl : i = words.length := by omega
    simp only [List.getElem_concat_length]
    rw [← hcur]
    exact hv

/-- The decrement leaves the last word above the stack. -/
theorem Holds.pop (h : Holds s (words ++ [v])) (acts : List SigActivation) :
    Holds { s with current := s.current - 1, activations := acts } words ∧
      s.current - 1 < 0x1000 ∧ s.word (s.current - 1) = v := by
  have hcur := h.current
  have hfits := h.fits
  have htop := h.word words.length (by simp)
  rw [List.length_append, List.length_singleton] at hcur hfits
  have hpred : s.current - 1 = (words.length : Int) := by omega
  refine ⟨⟨hpred, by omega, fun i hi => ?_⟩, by omega, ?_⟩
  · have := h.word i (by rw [List.length_append]; omega)
    rwa [List.getElem_append_left hi] at this
  · rw [hpred, htop, List.getElem_concat_length rfl]

/-- A micro-step of the innermost activation. -/
theorem SigInv.micro {s' : SigState} (h : SigInv s) (htame : SigEvent.Tame s .step)
    (hstep : s.micro = some s') : SigInv s' := by
  cases h with
  | idle hnil _ => simp [SigState.micro, hnil] at hstep
  | @active a outer live base top hacts hsusp hlive hholds htop =>
      obtain ⟨f, phase⟩ := a
      simp only [SigState.micro, hacts] at hstep
      cases phase with
      | store rest =>
          obtain ⟨hpushes, hne, rfl⟩ := hlive
          match rest with
          | [] => exact absurd rfl hne
          | v :: rest =>
              cases hstep
              have hfits : s.current < 0x1000 :=
                htame.resolve_right (by simp [hacts, SigPhase.stores])
              refine .active rfl hsusp ⟨v, hpushes, rfl⟩
                (hholds.write_above (.inr (Int.le_of_eq hholds.current.symm)) _) ?_
              rintro w hw
              cases hw
              exact ⟨hfits, Function.update_self ..⟩
      | increment rest =>
          obtain ⟨v, hpushes, rfl⟩ := hlive
          obtain ⟨hfits, hv⟩ := htop v rfl
          cases hstep
          have hholds' := hholds.push hfits hv
            (⟨f, if rest = [] then .decrement [] else .store rest⟩ :: outer)
          rw [List.append_assoc] at hholds'
          have hlive' : SigActivation.Live
              ⟨f, if rest = [] then .decrement [] else .store rest⟩ (live ++ [v]) none := by
            unfold SigActivation.Live
            by_cases hrest : rest = [] <;> simp [hrest, hpushes]
          exact .active rfl hsusp hlive' hholds' (by simp)
      | decrement popped =>
          obtain ⟨hpushes, rfl⟩ := hlive
          dsimp only at hstep
          split at hstep
          -- the jump back: nothing of the frame is left
          · rename_i hall
            cases hstep
            rw [(allPopped_iff hpushes).mp hall, List.append_nil] at hholds
            cases hsusp with
            | nil => exact .idle rfl (hholds.activations _)
            | cons hlive' hsusp' =>
                exact .active rfl hsusp' hlive' (hholds.activations _) (by simp)
          · rename_i hall
            cases hstep
            have hne : live ≠ [] := fun hnil => hall ((allPopped_iff hpushes).mpr hnil)
            obtain ⟨live', v, rfl⟩ : ∃ live' v, live = live' ++ [v] :=
              ⟨live.dropLast, live.getLast hne, (List.dropLast_concat_getLast hne).symm⟩
            rw [← List.append_assoc] at hholds
            obtain ⟨hholds', hfits, hv⟩ := hholds.pop (⟨f, .load popped⟩ :: outer)
            have hlive' : SigActivation.Live ⟨f, .load popped⟩ live' (some v) :=
              ⟨v, by simpa using hpushes, rfl⟩
            refine .active rfl hsusp hlive' hholds' ?_
            rintro w hw
            cases hw
            exact ⟨hfits, hv⟩
      | load popped =>
          obtain ⟨v, hpushes, rfl⟩ := hlive
          obtain ⟨-, hv⟩ := htop v rfl
          cases hstep
          have hlive' : SigActivation.Live
              ⟨f, .decrement (popped ++ [s.word s.current])⟩ live none := by
            refine ⟨?_, rfl⟩
            rw [hv, List.reverse_append]
            exact hpushes
          exact .active rfl hsusp hlive' (hholds.activations _) (by simp)

/-- A signal between complete pushes and pops. -/
theorem SigInv.deliver (h : SigInv s) (f : SigFrame) (htame : SigEvent.Tame s (.deliver f)) :
    SigInv { s with activations := ⟨f, .store f.pushes⟩ :: s.activations } := by
  have hfresh : SigActivation.Live ⟨f, .store f.pushes⟩ [] none :=
    ⟨rfl, by simp [SigFrame.pushes], rfl⟩
  cases h with
  | idle hnil hholds =>
      rw [hnil]
      exact .active rfl .nil hfresh (hholds.activations _) (by simp)
  | @active a outer live base top hacts hsusp hlive hholds htop =>
      have hphase : a.phase.half = false := by simpa [SigEvent.Tame, hacts] using htame
      have hlive' : a.Live live none := by
        obtain ⟨f', phase⟩ := a
        cases phase with
        | store rest => exact ⟨hlive.1, hlive.2.1, rfl⟩
        | increment rest => exact absurd hphase (by simp [SigPhase.half])
        | decrement popped => exact ⟨hlive.1, rfl⟩
        | load popped => exact absurd hphase (by simp [SigPhase.half])
      rw [hacts]
      refine .active rfl (.cons hlive' hsusp) hfresh ?_ (by simp)
      rw [List.append_nil]
      exact hholds.activations _

end Event

/-! ## Runs -/

theorem SigInv.event {s s' : SigState} {e : SigEvent} (h : SigInv s) (htame : e.Tame s)
    (hnext : s.next e = some s') : SigInv s' := by
  cases e with
  | deliver f =>
      cases hnext
      exact h.deliver f htame
  | step => exact h.micro htame hnext
  | writeField i v =>
      simp only [SigState.next] at hnext
      split at hnext
      · rename_i hout
        cases hnext
        cases h with
        | idle hnil hholds => exact .idle hnil (hholds.write_above (by simp; omega) _)
        | active hacts hsusp hlive hholds htop =>
            have hfits := hholds.fits
            have hcur := hholds.current
            refine .active hacts hsusp hlive (hholds.write_above (by omega) _) ?_
            intro w hw
            obtain ⟨hlt, hv⟩ := htop w hw
            refine ⟨hlt, ?_⟩
            rw [← hv]
            exact Function.update_of_ne (show s.current ≠ i by omega) _ _
      · cases hnext

theorem SigRun.inv {s : SigState} (h : SigRun (fun s e => e.Tame s) s) : SigInv s := by
  induction h with
  | start => exact .idle rfl ⟨rfl, by simp, by simp⟩
  | event _ htame hnext ih => exact ih.event htame hnext

/-- Let the events happen one after the other, as long as `P` permits them. -/
def SigState.run (P : SigState → SigEvent → Prop) [∀ s, DecidablePred (P s)] (s : SigState) :
    List SigEvent → Option SigState
  | [] => some s
  | e :: es =>
      if P s e then
        match s.next e with
        | none => none
        | some s' => s'.run P es
      else none

theorem SigState.run_sigRun {P : SigState → SigEvent → Prop} [∀ s, DecidablePred (P s)]
    {s s' : SigState} {es : List SigEvent} (hs : SigRun P s) (h : s.run P es = some s') :
    SigRun P s' := by
  induction es generalizing s with
  | nil =>
      cases h
      exact hs
  | cons e es ih =>
      simp only [SigState.run] at h
      split at h
      · rename_i hp
        split at h
        · cases h
        · rename_i s₁ hnext
          exact ih (hs.event hp hnext) h
      · cases h

/-- In a run that delivers signals only between complete pushes and pops and keeps
the stack inside its array, the trampoline restores every frame. -/
theorem sigRun_restored {s : SigState} (h : SigRun (fun s e => e.Tame s) s) : s.Restored :=
  h.inv.restored

/-- A signal that interrupts the application. -/
def appSignal : SigFrame :=
  { trustedSp := 0x7fff00000000, cid := 1, selector := 1, rip := 0x401000, flags := 0x202,
    rsp := 0x7ffe00000000, rax := 10, rdx := 11, rcx := 12 }

/-- A signal that interrupts the monitor while it handles the first one. -/
def nestedSignal : SigFrame :=
  { trustedSp := 0, cid := 0, selector := 0, rip := 0x555500001000, flags := 0x246,
    rsp := 0x7ffefffff000, rax := 20, rdx := 21, rcx := 22 }

theorem sigRun_restored_nested :
    ∃ s, SigRun (fun s e => e.Tame s) s ∧
      s.activations = [⟨appSignal, .decrement [12, 11, 10, 0x7ffe00000000, 0x202, 0x401000, 1, 1,
        0x7fff00000000]⟩] ∧ s.Restored := by
  have h : (SigState.init.run (fun s e => e.Tame s)
      (.deliver appSignal :: List.replicate 6 .step ++ .deliver nestedSignal ::
        List.replicate (33 + 12 + 18) .step)).map SigState.activations =
      some [⟨appSignal, .decrement [12, 11, 10, 0x7ffe00000000, 0x202, 0x401000, 1, 1,
        0x7fff00000000]⟩] := by
    decide +kernel
  obtain ⟨s, hs, hacts⟩ := Option.map_eq_some_iff.mp h
  have hrun := SigState.run_sigRun .start hs
  exact ⟨s, hrun, hacts, sigRun_restored hrun⟩

/-- The nested signal comes between the store of the instruction pointer and the
increment. Its frame overwrites the slot, and the trampoline of the outer signal
pops the nested signal's compartment as the instruction pointer. -/
theorem sigRun_clobbered :
    ∃ s, SigRun (fun _ _ => True) s ∧ ¬ s.Restored := by
  have h : (SigState.init.run (fun _ _ => True)
      (.deliver appSignal :: List.replicate 7 .step ++ .deliver nestedSignal ::
        List.replicate (33 + 11 + 12) .step)).map SigState.activations =
      some [⟨appSignal, .decrement [12, 11, 10, 0x7ffe00000000, 0x202, 0]⟩] := by
    decide +kernel
  obtain ⟨s, hs, hacts⟩ := Option.map_eq_some_iff.mp h
  refine ⟨s, SigState.run_sigRun .start hs, fun hrest => ?_⟩
  obtain ⟨hpre, -⟩ := hrest _ (by rw [hacts]; exact List.mem_singleton_self _) _ (.inl rfl)
  exact absurd hpre (by decide +kernel)

end Secpoline
