import Mathlib.Data.List.Basic

/-!
# Machines driven by events

A machine is a partial function that says which state an event leads to, and
`none` if it cannot happen. `Reach next P start` holds of the states that can be
reached from one in `start` by events that each satisfy `P` in the state they
happen in; `runEvents` computes such a run.
-/

namespace Secpoline.Lib

variable {S E : Type}

inductive Reach (next : S → E → Option S) (P : S → E → Prop) (start : S → Prop) : S → Prop where
  | start {s : S} (h : start s) : Reach next P start s
  | event {s s' : S} {e : E} (run : Reach next P start s) (h : P s e) (hnext : next s e = some s') :
      Reach next P start s'

variable {next : S → E → Option S} {P Q : S → E → Prop} {start I : S → Prop} {s s' : S}

/-- What holds at the start and is kept by every event holds in every state. -/
theorem Reach.inv (run : Reach next P start s) (hstart : ∀ s, start s → I s)
    (hstep : ∀ s e s', I s → P s e → next s e = some s' → I s') : I s := by
  induction run with
  | start h => exact hstart _ h
  | event _ h hnext ih => exact hstep _ _ _ ih h hnext

/-- Let the events happen one after the other, as long as `P` permits them. -/
def runEvents (next : S → E → Option S) (P : S → E → Prop) [∀ s, DecidablePred (P s)] (s : S) :
    List E → Option S
  | [] => some s
  | e :: es =>
      if P s e then
        match next s e with
        | none => none
        | some s' => runEvents next P s' es
      else none

theorem Reach.runEvents [∀ s, DecidablePred (P s)] {es : List E} (run : Reach next P start s)
    (h : runEvents next P s es = some s') : Reach next P start s' := by
  induction es generalizing s with
  | nil =>
      cases h
      exact run
  | cons e es ih =>
      simp only [Lib.runEvents] at h
      split at h
      · rename_i hp
        split at h
        · cases h
        · rename_i s₁ hnext
          exact ih (run.event hp hnext) h
      · cases h

end Secpoline.Lib
