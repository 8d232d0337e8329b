import Secpoline.Lib.Prog
import Mathlib.Logic.Function.Basic

/-!
# Threads with jobs

A pool of threads on a shared state. An idle thread may take up a job, if the jobs
that the others are at permit it; it then performs the operations of the job's
program, in any interleaving with the others, and is idle again when the program
has returned. A lock that a program holds from its beginning to its end is a matter
of which jobs permit each other.

A program is verified by itself, without the shared state: `K` is what its thread
may know, and every operation tells it something and may ask for something. What a
thread knows has to stay true whatever the jobs beside it do.
-/

namespace Secpoline.Lib.Prog

variable {E : Type} {R : E → Type} {S L ι K : Type} [DecidableEq ι]

/-- The reachable states of such a pool: the shared state, the job of every thread
that has one, and what is left of its program. -/
inductive JobRun (step : L → S → (e : E) → R e → S → Prop) (env : S → S → Prop)
    (starts : (ι → Option L) → L → Prog E R Unit → Prop) (s₀ : S) :
    S → (ι → Option L) → (ι → Prog E R Unit) → Prop where
  | init : JobRun step env starts s₀ s₀ (fun _ => none) fun _ => .ret ()
  | begin {s : S} {jobs : ι → Option L} {rest : ι → Prog E R Unit} {l : L} {p : Prog E R Unit}
      (i : ι) (run : JobRun step env starts s₀ s jobs rest) (idle : jobs i = none)
      (h : starts jobs l p) :
      JobRun step env starts s₀ s (Function.update jobs i (some l)) (Function.update rest i p)
  | op {s s' : S} {jobs : ι → Option L} {rest : ι → Prog E R Unit} {l : L} {e : E}
      {k : R e → Prog E R Unit} {r : R e} (i : ι) (run : JobRun step env starts s₀ s jobs rest)
      (job : jobs i = some l) (next : rest i = .op e k) (h : step l s e r s') :
      JobRun step env starts s₀ s' jobs (Function.update rest i (k r))
  | finish {s : S} {jobs : ι → Option L} {rest : ι → Prog E R Unit} {l : L} (i : ι)
      (run : JobRun step env starts s₀ s jobs rest) (job : jobs i = some l)
      (done : rest i = .ret ()) : JobRun step env starts s₀ s (Function.update jobs i none) rest
  | env {s s' : S} {jobs : ι → Option L} {rest : ι → Prog E R Unit}
      (run : JobRun step env starts s₀ s jobs rest) (h : env s s') :
      JobRun step env starts s₀ s' jobs rest

section
variable (step : L → S → (e : E) → R e → S → Prop) (env : S → S → Prop)
  (starts : (ι → Option L) → L → Prog E R Unit → Prop) (I : S → Prop)
  (good : L → S → (e : E) → R e → S → Prop) (Beside : L → L → Prop) (holds : L → K → S → Prop)
  (learns asks : L → K → (e : E) → R e → K → Prop)

/-- What has to be shown: programs ask only for what they know; what an operation
tells is true, and it keeps the invariant and is good if what it asks for is known;
and good operations do not make what is known beside them untrue. -/
structure Verified : Prop where
  start : ∀ jobs l p s, starts jobs l p → I s →
    ∃ κ, holds l κ s ∧ p.wp (learns l) (asks l) (fun _ _ => True) κ
  beside : ∀ jobs l p i l', starts jobs l p → jobs i = some l' → Beside l l' ∧ Beside l' l
  step : ∀ l κ s e r s', I s → holds l κ s → step l s e r s' →
    ∃ κ', learns l κ e r κ' ∧ (asks l κ e r κ' → I s' ∧ good l s e r s' ∧ holds l κ' s')
  stable : ∀ l l' κ s e r s', Beside l l' → good l s e r s' → holds l' κ s → holds l' κ s'
  env : ∀ s s', I s → env s s' → I s' ∧ ∀ l κ, holds l κ s → holds l κ s'

variable {step env starts I good Beside holds learns asks} {s₀ s : S} {jobs : ι → Option L}
  {rest : ι → Prog E R Unit}

/-- The invariant, and what every thread knows, in every state of the pool. -/
structure Known (I : S → Prop) (Beside : L → L → Prop) (holds : L → K → S → Prop)
    (learns asks : L → K → (e : E) → R e → K → Prop) (s : S) (jobs : ι → Option L)
    (rest : ι → Prog E R Unit) : Prop where
  inv : I s
  beside : ∀ i j l l', i ≠ j → jobs i = some l → jobs j = some l' → Beside l l'
  knows : ∀ i l, jobs i = some l →
    ∃ κ, holds l κ s ∧ (rest i).wp (learns l) (asks l) (fun _ _ => True) κ

theorem JobRun.known (v : Verified step env starts I good Beside holds learns asks)
    (run : JobRun step env starts s₀ s jobs rest) (h₀ : I s₀) :
    Known I Beside holds learns asks s jobs rest := by
  induction run with
  | init => exact ⟨h₀, fun _ _ _ _ _ h => (nomatch h), fun _ _ h => (nomatch h)⟩
  | @begin s jobs rest l p i _ idle h ih =>
      refine ⟨ih.inv, fun j j' l₁ l₂ hne h₁ h₂ => ?_, fun j l₁ h₁ => ?_⟩
      · rw [Function.update_apply] at h₁ h₂
        split at h₁
        · cases h₁
          rw [if_neg fun hj => hne (by rw [‹j = i›, hj])] at h₂
          exact (v.beside _ _ _ _ _ h h₂).1
        · split at h₂
          · cases h₂
            exact (v.beside _ _ _ _ _ h h₁).2
          · exact ih.beside j j' l₁ l₂ hne h₁ h₂
      · rw [Function.update_apply] at h₁ ⊢
        split at h₁
        · cases h₁
          rw [if_pos ‹_›]
          exact v.start _ _ _ _ h ih.inv
        · rw [if_neg ‹_›]
          exact ih.knows j l₁ h₁
  | @op s s' jobs rest l e k r i _ job next h ih =>
      obtain ⟨κ, hκ, hwp⟩ := ih.knows i l job
      rw [next] at hwp
      obtain ⟨κ', hlearn, hdone⟩ := v.step l κ s e r s' ih.inv hκ h
      obtain ⟨hasks, hrest⟩ := hwp r κ' hlearn
      obtain ⟨hinv, hgood, hκ'⟩ := hdone hasks
      refine ⟨hinv, ih.beside, fun j l₁ h₁ => ?_⟩
      by_cases hj : j = i
      · subst hj
        cases job.symm.trans h₁
        rw [Function.update_self]
        exact ⟨κ', hκ', hrest⟩
      · obtain ⟨κ₁, hκ₁, hwp₁⟩ := ih.knows j l₁ h₁
        rw [Function.update_of_ne hj]
        exact ⟨κ₁, v.stable _ _ _ _ _ _ _ (ih.beside i j l l₁ (Ne.symm hj) job h₁) hgood hκ₁, hwp₁⟩
  | @finish s jobs rest l i _ job done ih =>
      refine ⟨ih.inv, fun j j' l₁ l₂ hne h₁ h₂ => ?_, fun j l₁ h₁ => ?_⟩
      · rw [Function.update_apply] at h₁ h₂
        split at h₁
        · cases h₁
        · split at h₂
          · cases h₂
          · exact ih.beside j j' l₁ l₂ hne h₁ h₂
      · rw [Function.update_apply] at h₁
        split at h₁
        · cases h₁
        · exact ih.knows j l₁ h₁
  | env _ h ih =>
      obtain ⟨hinv, hholds⟩ := v.env _ _ ih.inv h
      refine ⟨hinv, ih.beside, fun j l₁ h₁ => ?_⟩
      obtain ⟨κ, hκ, hwp⟩ := ih.knows j l₁ h₁
      exact ⟨κ, hholds _ _ hκ, hwp⟩

/-- Every operation of every thread is good. -/
theorem JobRun.each_good (v : Verified step env starts I good Beside holds learns asks)
    (run : JobRun step env starts s₀ s jobs rest) (h₀ : I s₀) {i : ι} {l : L} {e : E} {r : R e}
    {k : R e → Prog E R Unit} {s' : S} (job : jobs i = some l) (next : rest i = .op e k)
    (h : step l s e r s') : good l s e r s' := by
  have hknown := run.known v h₀
  obtain ⟨κ, hκ, hwp⟩ := hknown.knows i l job
  rw [next] at hwp
  obtain ⟨κ', hlearn, hdone⟩ := v.step l κ s e r s' hknown.inv hκ h
  exact (hdone (hwp r κ' hlearn).1).2.1

end

/-! ## Schedules

Runs that can be computed. -/

/-- What a thread does next: take up a job, perform operations with these choices of
the environment, or be done with its job. -/
inductive Event (L O : Type) where
  | begin (l : L)
  | go (choices : List O)
  | finish

/-- The shared state, the jobs, and what is left of them. -/
structure Pool (E : Type) (R : E → Type) (S L ι : Type) where
  state : S
  jobs : ι → Option L
  rest : ι → Prog E R Unit

/-- Perform as many operations as there are choices. -/
def advance {O : Type} (perform : S → O → (e : E) → Option (R e × S)) :
    List O → Prog E R Unit → S → Option (Prog E R Unit × S)
  | [], p, s => some (p, s)
  | o :: os, .op e k, s =>
      match perform s o e with
      | none => none
      | some (r, s') => advance perform os (k r) s'
  | _ :: _, .ret _, _ => none
  | _ :: _, .abort, _ => none

def isRet : Prog E R Unit → Bool
  | .ret _ => true
  | .abort => false
  | .op _ _ => false

/-- One entry of a schedule. -/
def Pool.play {O : Type} (perform : S → O → (e : E) → Option (R e × S))
    (program : L → Prog E R Unit)
    (may : (ι → Option L) → L → Bool) (pool : Pool E R S L ι) (i : ι) :
    Event L O → Option (Pool E R S L ι)
  | .begin l =>
      if (pool.jobs i).isNone && may pool.jobs l then
        some { pool with
          jobs := Function.update pool.jobs i (some l)
          rest := Function.update pool.rest i (program l) }
      else none
  | .go choices =>
      if (pool.jobs i).isSome then
        match advance perform choices (pool.rest i) pool.state with
        | none => none
        | some (p, s) => some { pool with state := s, rest := Function.update pool.rest i p }
      else none
  | .finish =>
      if (pool.jobs i).isSome && isRet (pool.rest i) then
        some { pool with jobs := Function.update pool.jobs i none }
      else none

def Pool.schedule {O : Type} (perform : S → O → (e : E) → Option (R e × S))
    (program : L → Prog E R Unit) (may : (ι → Option L) → L → Bool) :
    List (ι × Event L O) → Pool E R S L ι → Option (Pool E R S L ι)
  | [], pool => some pool
  | (i, event) :: rest, pool =>
      match pool.play perform program may i event with
      | none => none
      | some pool' => schedule perform program may rest pool'

def Pool.idle (s : S) : Pool E R S L ι :=
  { state := s, jobs := fun _ => none, rest := fun _ => .ret () }

section
variable {step : L → S → (e : E) → R e → S → Prop} {env : S → S → Prop}
  {starts : (ι → Option L) → L → Prog E R Unit → Prop} {s₀ : S} {O : Type}
  {perform : S → O → (e : E) → Option (R e × S)} {program : L → Prog E R Unit}
  {may : (ι → Option L) → L → Bool}

theorem JobRun.advance {s s' : S} {jobs : ι → Option L} {rest : ι → Prog E R Unit} {l : L} {i : ι}
    {os : List O} {p p' : Prog E R Unit}
    (hstep : ∀ s o e r s', perform s o e = some (r, s') → step l s e r s')
    (run : JobRun step env starts s₀ s jobs rest) (job : jobs i = some l) (hp : rest i = p)
    (h : advance perform os p s = some (p', s')) :
    JobRun step env starts s₀ s' jobs (Function.update rest i p') := by
  induction os generalizing p s rest with
  | nil =>
      cases h
      rw [Function.update_eq_self_iff.mpr hp.symm]
      exact run
  | cons o os ih =>
      cases p with
      | ret b => cases h
      | abort => cases h
      | op e k =>
          rw [Prog.advance] at h
          split at h
          · cases h
          · rename_i r s₁ ho
            have next := ih (.op i run job hp (hstep _ _ _ _ _ ho)) (Function.update_self ..) h
            rw [Function.update_idem] at next
            exact next

theorem JobRun.play {pool pool' : Pool E R S L ι} {i : ι} {event : Event L O}
    (hstep : ∀ l s o e r s', perform s o e = some (r, s') → step l s e r s')
    (hmay : ∀ jobs l, may jobs l = true → starts jobs l (program l))
    (run : JobRun step env starts s₀ pool.state pool.jobs pool.rest)
    (h : pool.play perform program may i event = some pool') :
    JobRun step env starts s₀ pool'.state pool'.jobs pool'.rest := by
  cases event with
  | begin l =>
      rw [Pool.play] at h
      split at h
      · rename_i hc
        cases h
        obtain ⟨hidle, hok⟩ := Bool.and_eq_true_iff.mp hc
        exact .begin i run (Option.isNone_iff_eq_none.mp hidle) (hmay _ _ hok)
      · cases h
  | go choices =>
      rw [Pool.play] at h
      split at h
      · rename_i hjob
        obtain ⟨l, hl⟩ := Option.isSome_iff_exists.mp hjob
        split at h
        · cases h
        · rename_i p s hadvance
          cases h
          exact run.advance (hstep l) hl rfl hadvance
      · cases h
  | finish =>
      rw [Pool.play] at h
      split at h
      · rename_i hc
        cases h
        obtain ⟨hjob, hret⟩ := Bool.and_eq_true_iff.mp hc
        obtain ⟨l, hl⟩ := Option.isSome_iff_exists.mp hjob
        refine .finish i run hl ?_
        cases hp : pool.rest i with
        | ret b => rfl
        | abort =>
            rw [hp] at hret
            cases hret
        | op e k =>
            rw [hp] at hret
            cases hret
      · cases h

/-- What a schedule computes can be reached. -/
theorem JobRun.schedule {pool pool' : Pool E R S L ι} {events : List (ι × Event L O)}
    (hstep : ∀ l s o e r s', perform s o e = some (r, s') → step l s e r s')
    (hmay : ∀ jobs l, may jobs l = true → starts jobs l (program l))
    (run : JobRun step env starts s₀ pool.state pool.jobs pool.rest)
    (h : pool.schedule perform program may events = some pool') :
    JobRun step env starts s₀ pool'.state pool'.jobs pool'.rest := by
  induction events generalizing pool with
  | nil =>
      cases h
      exact run
  | cons event rest ih =>
      obtain ⟨i, event⟩ := event
      rw [Pool.schedule] at h
      split at h
      · cases h
      · exact ih (run.play hstep hmay ‹_›) h

end

end Secpoline.Lib.Prog
