import Mathlib.Data.List.Basic
import Mathlib.Logic.Relation

/-!
# Programs that act on a shared state

A program is a tree: it has returned, it has given up, or it performs an
operation and goes on with what the operation answers. Nothing is said about
the state an operation acts on, so the same program can be run alone, in a pool
of threads that interleave at every operation, or against answers that are only
constrained by a predicate.

`wp step ok p Q s` says that however `p` is run from `s` by the relation `step`,
each of its operations satisfies `ok`, and if it returns it does so in `Q`. It is
a weakest precondition for partial correctness with an obligation on every
transition; giving up satisfies it.
-/

namespace Secpoline.Lib

/-- A program over operations `E`, where operation `e` is answered by an `R e`. -/
inductive Prog (E : Type) (R : E → Type) (α : Type) where
  | ret (a : α)
  | abort
  | op (e : E) (k : R e → Prog E R α)

namespace Prog

variable {E : Type} {R : E → Type} {α β σ ι : Type}

def bind : Prog E R α → (α → Prog E R β) → Prog E R β
  | .ret a, f => f a
  | .abort, _ => .abort
  | .op e k, f => .op e fun r => (k r).bind f

instance : Monad (Prog E R) where
  pure := .ret
  bind := .bind

theorem seq_assoc {γ : Type} {p : Prog E R α} {f : α → Prog E R β} {g : β → Prog E R γ} :
    p >>= f >>= g = p >>= fun a => f a >>= g := by
  induction p with
  | ret a => rfl
  | abort => rfl
  | op e k ih => exact congrArg (op e) (funext ih)

/-- Perform one operation. -/
def call (e : E) : Prog E R (R e) := .op e .ret

/-- Give up unless the condition holds. -/
def require (c : Prop) [Decidable c] : Prog E R Unit := if c then .ret () else .abort

/-- Run a program only if the condition holds. -/
def whenever (c : Prop) [Decidable c] (p : Prog E R Unit) : Prog E R Unit :=
  if c then p else .ret ()

/-- Run the body for each element in turn, threading a loop state. -/
def fold (body : σ → ι → Prog E R σ) : List ι → σ → Prog E R σ
  | [], a => .ret a
  | i :: rest, a => (body a i).bind (fold body rest)

/-- Run a program by a function that performs its operations, each with the next
choice of the environment. -/
def exec {S O : Type} (perform : S → O → (e : E) → Option (R e × S)) :
    Prog E R α → List O → S → Option (α × S)
  | .ret a, _, s => some (a, s)
  | .abort, _, _ => none
  | .op _ _, [], _ => none
  | .op e k, o :: os, s =>
      match perform s o e with
      | none => none
      | some (r, s') => exec perform (k r) os s'

/-- What a program returns if it does so before an operation in `stop`, and nothing
if it comes to one. -/
def before {S : Type} (stop : E → Bool) (perform : S → (e : E) → Option (R e × S)) :
    Prog E R α → S → Option (Option α)
  | .ret a, _ => some (some a)
  | .abort, _ => none
  | .op e k, s =>
      if stop e then some none
      else
        match perform s e with
        | none => none
        | some (r, s') => before stop perform (k r) s'

/-- One turn of a machine that runs one program at a time: a program with the
choices of the environment, or an action of the environment. -/
inductive Turn (O L A : Type) where
  | serve (l : L) (choices : List O)
  | act (a : A)

/-- The program of the turn, if it is one, is in `P`. -/
def Turn.Serves {O L A : Type} (P : L → Prop) : Turn O L A → Prop
  | .serve l _ => P l
  | .act _ => True

/-- Take turns. -/
def play {S O L A : Type} (perform : S → O → (e : E) → Option (R e × S))
    (program : L → Prog E R Unit) (act : A → S → Option S) : List (Turn O L A) → S → Option S
  | [], s => some s
  | .serve l choices :: rest, s =>
      match exec perform (program l) choices s with
      | none => none
      | some (_, s') => play perform program act rest s'
  | .act a :: rest, s =>
      match act a s with
      | none => none
      | some s' => play perform program act rest s'

/-! ## Weakest preconditions -/

section
variable {S : Type} (step : S → (e : E) → R e → S → Prop) (ok : S → (e : E) → R e → S → Prop)

def wp : Prog E R α → (α → S → Prop) → S → Prop
  | .ret a, Q, s => Q a s
  | .abort, _, _ => True
  | .op e k, Q, s => ∀ r s', step s e r s' → ok s e r s' ∧ wp (k r) Q s'

variable {step ok} {p : Prog E R α} {Q Q' : α → S → Prop} {s : S}

@[simp] theorem wp_ret {a : α} : wp step ok (.ret a) Q s ↔ Q a s := Iff.rfl

theorem wp_op {e : E} {k : R e → Prog E R α} :
    wp step ok (.op e k) Q s ↔ ∀ r s', step s e r s' → ok s e r s' ∧ wp step ok (k r) Q s' :=
  Iff.rfl

@[simp] theorem wp_bind {f : α → Prog E R β} {Q : β → S → Prop} :
    wp step ok (p.bind f) Q s ↔ wp step ok p (fun a => wp step ok (f a) Q) s := by
  induction p generalizing s with
  | ret a => exact Iff.rfl
  | abort => exact Iff.rfl
  | op e k ih =>
      rw [bind, wp_op, wp_op]
      refine forall_congr' fun r => forall_congr' fun s' => imp_congr_right fun _ => ?_
      rw [ih]

@[simp] theorem wp_seq {f : α → Prog E R β} {Q : β → S → Prop} :
    wp step ok (p >>= f) Q s ↔ wp step ok p (fun a => wp step ok (f a) Q) s :=
  wp_bind

@[simp] theorem wp_require {c : Prop} [Decidable c] {Q : Unit → S → Prop} :
    wp step ok (require c : Prog E R Unit) Q s ↔ (c → Q () s) := by
  unfold require
  split
  · rename_i hc
    exact ⟨fun h _ => h, fun h => h hc⟩
  · rename_i hc
    exact ⟨fun _ h => absurd h hc, fun _ => trivial⟩

@[simp] theorem wp_whenever {c : Prop} [Decidable c] {p : Prog E R Unit} {Q : Unit → S → Prop} :
    wp step ok (whenever c p) Q s ↔ (c → wp step ok p Q s) ∧ (¬ c → Q () s) := by
  unfold whenever
  split
  · rename_i hc
    exact ⟨fun h => ⟨fun _ => h, fun hn => absurd hc hn⟩, fun h => h.1 hc⟩
  · rename_i hc
    exact ⟨fun h => ⟨fun hp => absurd hp hc, fun _ => h⟩, fun h => h.2 hc⟩

theorem wp_mono (h : wp step ok p Q s) (hQ : ∀ a s', Q a s' → Q' a s') : wp step ok p Q' s := by
  induction p generalizing s with
  | ret a => exact hQ a s h
  | abort => trivial
  | op e k ih =>
      intro r s' hstep
      obtain ⟨hok, hk⟩ := h r s' hstep
      exact ⟨hok, ih r hk⟩

/-- What holds for more transitions holds for fewer. -/
theorem wp_step {step' : S → (e : E) → R e → S → Prop}
    (hstep : ∀ s e r s', step' s e r s' → step s e r s') (h : wp step ok p Q s) :
    wp step' ok p Q s := by
  induction p generalizing s with
  | ret a => exact h
  | abort => trivial
  | op e k ih =>
      intro r s' hs
      obtain ⟨hok, hk⟩ := h r s' (hstep _ _ _ _ hs)
      exact ⟨hok, ih r hk⟩

/-- What holds by one step relation holds by another, if every step of the second is
one of the first between related states. -/
theorem wp_simulate {T : Type} {step' ok' : T → (e : E) → R e → T → Prop} (rel : S → T → Prop)
    (hstep : ∀ s t e r t', rel s t → step' t e r t' →
      ∃ s', step s e r s' ∧ (ok s e r s' → ok' t e r t' ∧ rel s' t'))
    {t : T} (hrel : rel s t) (h : wp step ok p Q s) :
    wp step' ok' p (fun a t' => ∃ s', rel s' t' ∧ Q a s') t := by
  induction p generalizing s t with
  | ret a => exact ⟨s, hrel, h⟩
  | abort => trivial
  | op e k ih =>
      intro r t' ht
      obtain ⟨s', hs, himp⟩ := hstep _ _ _ _ _ hrel ht
      obtain ⟨hok, hk⟩ := h r s' hs
      exact ⟨(himp hok).1, ih r (himp hok).2 hk⟩

/-- A loop keeps an invariant that may speak of the elements still to come. -/
theorem wp_fold {body : σ → ι → Prog E R σ} (I : List ι → σ → S → Prop)
    (hbody : ∀ i rest a s, I (i :: rest) a s → wp step ok (body a i) (I rest) s)
    {l : List ι} {a : σ} (h : I l a s) : wp step ok (fold body l a) (I []) s := by
  induction l generalizing a s with
  | nil => exact h
  | cons i rest ih =>
      rw [fold, wp_bind]
      exact wp_mono (hbody i rest a s h) fun a' s' h' => ih h'

theorem wp_fold_range' {body : σ → ι → Prog E R σ} {f : Nat → ι} {n : Nat} (I : Nat → σ → S → Prop)
    (first : Nat)
    (hbody : ∀ i < first + n, ∀ a s, I i a s → wp step ok (body a (f i)) (I (i + 1)) s)
    {a : σ} (h : I first a s) :
    wp step ok (fold body ((List.range' first n).map f) a) (I (first + n)) s := by
  induction n generalizing first a s with
  | zero => exact h
  | succ n ih =>
      rw [List.range'_succ, List.map_cons, fold, wp_bind]
      refine wp_mono (hbody first (by omega) a s h) fun a' s' h' => ?_
      have hrest := ih (first + 1) (fun i hi => hbody i (by omega)) h'
      rw [show first + 1 + n = first + (n + 1) by omega] at hrest
      exact hrest

/-- A loop over the numbers below `n`, with an invariant for each of them. -/
theorem wp_fold_range {body : σ → ι → Prog E R σ} {f : Nat → ι} {n : Nat} (I : Nat → σ → S → Prop)
    (hbody : ∀ i < n, ∀ a s, I i a s → wp step ok (body a (f i)) (I (i + 1)) s) {a : σ}
    (h : I 0 a s) : wp step ok (fold body ((List.range n).map f) a) (I n) s := by
  have hrange := wp_fold_range' I 0 (by simpa using hbody) h
  rw [Nat.zero_add, ← List.range_eq_range'] at hrange
  exact hrange

end

/-! ## Postconditions

The same without an obligation on the transitions. -/

section
variable {S : Type} (step : S → (e : E) → R e → S → Prop)

/-- If the program returns, it does so in `Q`. -/
def Post (p : Prog E R α) (Q : α → S → Prop) (s : S) : Prop :=
  p.wp step (fun _ _ _ _ => True) Q s

variable {step} {p : Prog E R α} {Q Q' : α → S → Prop} {s : S}

@[simp] theorem post_pure {a : α} : Post step (Pure.pure a) Q s ↔ Q a s := Iff.rfl

@[simp] theorem post_seq {f : α → Prog E R β} {Q : β → S → Prop} :
    Post step (p >>= f) Q s ↔ Post step p (fun a => Post step (f a) Q) s :=
  wp_seq

@[simp] theorem post_require {c : Prop} [Decidable c] {Q : Unit → S → Prop} :
    Post step (require c : Prog E R Unit) Q s ↔ (c → Q () s) :=
  wp_require

@[simp] theorem post_whenever {c : Prop} [Decidable c] {p : Prog E R Unit} {Q : Unit → S → Prop} :
    Post step (whenever c p) Q s ↔ (c → Post step p Q s) ∧ (¬ c → Q () s) :=
  wp_whenever

theorem post_call {e : E} {Q : R e → S → Prop} (h : ∀ r s', step s e r s' → Q r s') :
    Post step (call e) Q s :=
  fun r s' hs => ⟨trivial, h r s' hs⟩

theorem Post.mono (h : Post step p Q s) (hQ : ∀ a s', Q a s' → Q' a s') : Post step p Q' s :=
  wp_mono h hQ

theorem post_ite {c : Prop} [Decidable c] {q : Prog E R α} (ht : c → Post step p Q s)
    (hf : ¬ c → Post step q Q s) : Post step (if c then p else q) Q s := by
  split
  · exact ht ‹_›
  · exact hf ‹_›

theorem post_fold {body : σ → ι → Prog E R σ} (I : List ι → σ → S → Prop)
    (hbody : ∀ i rest a s, I (i :: rest) a s → Post step (body a i) (I rest) s) {l : List ι} {a : σ}
    (h : I l a s) : Post step (fold body l a) (I []) s :=
  wp_fold I hbody h

theorem post_fold_range {body : σ → ι → Prog E R σ} {f : Nat → ι} {n : Nat}
    (I : Nat → σ → S → Prop)
    (hbody : ∀ i < n, ∀ a s, I i a s → Post step (body a (f i)) (I (i + 1)) s) {a : σ}
    (h : I 0 a s) : Post step (fold body ((List.range n).map f) a) (I n) s :=
  wp_fold_range I hbody h

/-- What a program returns before an operation in `stop`. -/
theorem Post.before {stop : E → Bool} {perform : S → (e : E) → Option (R e × S)} {a : α}
    {P : α → Prop}
    (h : Post (fun s e r s' => stop e = false ∧ perform s e = some (r, s')) p (fun a _ => P a) s)
    (ha : p.before stop perform s = some (some a)) : P a := by
  induction p generalizing s with
  | ret b =>
      cases ha
      exact h
  | abort => cases ha
  | op e k ih =>
      rw [Prog.before] at ha
      split at ha
      · cases ha
      · rename_i he
        split at ha
        · cases ha
        · rename_i r s' hs
          exact ih r (h r s' ⟨Bool.eq_false_iff.mpr he, hs⟩).2 ha

/-- What every step keeps, a program keeps. -/
theorem post_invariant {I : S → Prop} (hstep : ∀ s e r s', I s → step s e r s' → I s') (h : I s) :
    Post step p (fun _ => I) s := by
  induction p generalizing s with
  | ret a => exact h
  | abort => trivial
  | op e k ih => exact fun r s' hs => ⟨trivial, ih r (hstep _ _ _ _ h hs)⟩

end

/-! ## One program alone -/

section
variable {S : Type} (step : S → (e : E) → R e → S → Prop)

/-- The program can go from the first state to the second and return the value. -/
inductive Runs : Prog E R α → S → α → S → Prop where
  | ret {a : α} {s : S} : Runs (.ret a) s a s
  | op {e : E} {k : R e → Prog E R α} {s s' s'' : S} {r : R e} {a : α} (h : step s e r s')
      (rest : Runs (k r) s' a s'') : Runs (.op e k) s a s''

variable {step} {p : Prog E R α} {s s' : S} {a : α}

theorem Runs.post {Q : α → S → Prop} (run : Runs step p s a s') (h : Post step p Q s) : Q a s' := by
  induction run with
  | ret => exact h
  | op hstep _ ih => exact ih (h _ _ hstep).2

theorem Runs.seq {f : α → Prog E R β} {b : β} {s'' : S} (run : Runs step p s a s')
    (rest : Runs step (f a) s' b s'') : Runs step (p >>= f) s b s'' := by
  induction run with
  | ret => exact rest
  | op hstep _ ih => exact .op hstep (ih rest)

/-- A function that takes steps to steps takes runs to runs. -/
theorem Runs.map {S' : Type} {step' : S' → (e : E) → R e → S' → Prop} (f : S → S')
    (h : ∀ s e r s', step s e r s' → step' (f s) e r (f s')) (run : Runs step p s a s') :
    Runs step' p (f s) a (f s') := by
  induction run with
  | ret => exact .ret
  | op hstep _ ih => exact .op (h _ _ _ _ hstep) ih

theorem Runs.exec {O : Type} {perform : S → O → (e : E) → Option (R e × S)} {choices : List O}
    (hstep : ∀ s o e r s', perform s o e = some (r, s') → step s e r s')
    (h : exec perform p choices s = some (a, s')) : Runs step p s a s' := by
  induction p generalizing choices s with
  | ret b =>
      cases h
      exact .ret
  | abort => cases h
  | op e k ih =>
      cases choices with
      | nil => cases h
      | cons o choices =>
          rw [Prog.exec] at h
          split at h
          · cases h
          · exact .op (hstep _ _ _ _ _ ‹_›) (ih _ h)

end

/-! ## Running one program after another -/

section
variable {S L : Type} (step : S → (e : E) → R e → S → Prop) (env : Option L → S → S → Prop)
  (starts : S → L → Prog E R Unit → Prop)

/-- What a machine that runs one program at a time can reach from `s₀`: a state,
the label of the current program if there is one, and what is left of it. The
environment may act at any time, and what it may do can depend on the program. -/
inductive SeqRun (s₀ : S) : S → Option L → Prog E R Unit → Prop where
  | init : SeqRun s₀ s₀ none (.ret ())
  | begin {s : S} {l : L} {p : Prog E R Unit} (run : SeqRun s₀ s none (.ret ()))
      (h : starts s l p) : SeqRun s₀ s (some l) p
  | op {s s' : S} {l : Option L} {e : E} {k : R e → Prog E R Unit} {r : R e}
      (run : SeqRun s₀ s l (.op e k)) (h : step s e r s') : SeqRun s₀ s' l (k r)
  | finish {s : S} {l : L} (run : SeqRun s₀ s (some l) (.ret ())) : SeqRun s₀ s none (.ret ())
  | env {s s' : S} {l : Option L} {p : Prog E R Unit} (run : SeqRun s₀ s l p) (h : env l s s') :
      SeqRun s₀ s' l p

/-- An operation after any number of actions of the environment. -/
def Interfered (env : S → S → Prop) (s : S) (e : E) (r : R e) (s' : S) : Prop :=
  ∃ s₁, Relation.ReflTransGen env s s₁ ∧ step s₁ e r s'

variable {step env starts} {ok : S → (e : E) → R e → S → Prop} {J : S → Prop} {s₀ s : S}
  {l : Option L} {p : Prog E R Unit}

/-- The environment may act before a program whose operations allow for it. -/
theorem wp_env {E' : S → S → Prop} {Q : Unit → S → Prop} {s' : S}
    (hQ : ∀ s s', Q () s → E' s s' → Q () s')
    (hok : ∀ s s' e r s'', E' s s' → ok s e r s'' → ok s' e r s'') (he : E' s s')
    (h : p.wp (Interfered step E') ok Q s) : p.wp (Interfered step E') ok Q s' := by
  cases p with
  | ret a => exact hQ _ _ h he
  | abort => trivial
  | op e k =>
      intro r s'' hs
      obtain ⟨s₁, hs₁, hstep⟩ := hs
      obtain ⟨h₁, h₂⟩ := h r s'' ⟨s₁, .head he hs₁, hstep⟩
      exact ⟨hok _ _ _ _ _ he h₁, h₂⟩

/-- If every program started in `J` is correct with `J` for its postcondition,
then so is whatever is left of the current one. -/
theorem SeqRun.wp (run : SeqRun step env starts s₀ s l p) (h₀ : J s₀)
    (hJ : ∀ l s s', J s → env l s s' → J s')
    (hok : ∀ l s s' e r s'', env l s s' → ok s e r s'' → ok s' e r s'')
    (hstart : ∀ s l p, J s → starts s l p →
      p.wp (Interfered step (env (some l))) ok (fun _ => J) s) :
    p.wp (Interfered step (env l)) ok (fun _ => J) s := by
  induction run with
  | init => exact h₀
  | begin _ h ih => exact hstart _ _ _ ih h
  | op _ h ih => exact (ih _ _ ⟨_, .refl, h⟩).2
  | finish _ ih => exact ih
  | env _ h ih => exact wp_env (fun _ _ => hJ _ _ _) (hok _) h ih

theorem SeqRun.exec {O : Type} {perform : S → O → (e : E) → Option (R e × S)} {l : L}
    {choices : List O} {s' : S} {a : Unit}
    (hstep : ∀ s o e r s', perform s o e = some (r, s') → step s e r s')
    (run : SeqRun step env starts s₀ s (some l) p) (h : exec perform p choices s = some (a, s')) :
    SeqRun step env starts s₀ s' none (.ret ()) := by
  induction p generalizing choices s with
  | ret b =>
      cases h
      exact .finish run
  | abort => cases h
  | op e k ih =>
      cases choices with
      | nil => cases h
      | cons o choices =>
          rw [Prog.exec] at h
          split at h
          · cases h
          · exact ih _ (.op run (hstep _ _ _ _ _ ‹_›)) h

/-- What can be played can be reached. -/
theorem SeqRun.play {O A : Type} {perform : S → O → (e : E) → Option (R e × S)}
    {program : L → Prog E R Unit} {act : A → S → Option S} {turns : List (Turn O L A)} {s' : S}
    (hstep : ∀ s o e r s', perform s o e = some (r, s') → step s e r s')
    (hact : ∀ a s s', act a s = some s' → env none s s')
    (hstart : turns.Forall (Turn.Serves fun l => ∀ s, starts s l (program l)))
    (run : SeqRun step env starts s₀ s none (.ret ()))
    (h : play perform program act turns s = some s') :
    SeqRun step env starts s₀ s' none (.ret ()) := by
  induction turns generalizing s with
  | nil =>
      cases h
      exact run
  | cons turn rest ih =>
      obtain ⟨hturn, hrest⟩ := List.forall_cons _ _ _ |>.mp hstart
      cases turn with
      | serve l choices =>
          rw [Prog.play] at h
          split at h
          · cases h
          · exact ih hrest (.exec hstep (.begin run (hturn s)) ‹_›) h
      | act a =>
          rw [Prog.play] at h
          split at h
          · cases h
          · exact ih hrest (.env run (hact _ _ _ ‹_›)) h

end

/-! ## Programs against constrained answers -/

section
variable {A : (e : E) → R e → Prop} {B : E → Prop} {p : Prog E R α} {Q Q' : α → Prop}

/-- Whatever answers satisfying `A` a program gets, its operations satisfy `B`,
and what it returns satisfies `Q`. -/
def Respects (A : (e : E) → R e → Prop) (B : E → Prop) (p : Prog E R α) (Q : α → Prop) : Prop :=
  p.wp (fun (_ : Unit) e r _ => A e r) (fun _ e _ _ => B e) (fun a _ => Q a) ()

@[simp] theorem respects_pure {a : α} : Respects A B (Pure.pure a) Q ↔ Q a := Iff.rfl

@[simp] theorem respects_seq {f : α → Prog E R β} {Q : β → Prop} :
    Respects A B (p >>= f) Q ↔ Respects A B p fun a => Respects A B (f a) Q :=
  wp_seq

@[simp] theorem respects_call {e : E} {Q : R e → Prop} :
    Respects A B (call e) Q ↔ ∀ r, A e r → B e ∧ Q r :=
  ⟨fun h r hr => h r () hr, fun h r _ hr => h r hr⟩

@[simp] theorem respects_require {c : Prop} [Decidable c] {Q : Unit → Prop} :
    Respects A B (require c : Prog E R Unit) Q ↔ (c → Q ()) :=
  wp_require

@[simp] theorem respects_whenever {c : Prop} [Decidable c] {p : Prog E R Unit} {Q : Unit → Prop} :
    Respects A B (whenever c p) Q ↔ (c → Respects A B p Q) ∧ (¬ c → Q ()) :=
  wp_whenever

theorem Respects.mono (h : Respects A B p Q) (hQ : ∀ a, Q a → Q' a) : Respects A B p Q' :=
  wp_mono h fun a _ => hQ a

theorem Respects.imp {B' : E → Prop} (h : Respects A B p Q) (hB : ∀ e, B e → B' e) :
    Respects A B' p Q := by
  induction p with
  | ret a => exact h
  | abort => trivial
  | op e k ih =>
      intro r s' hr
      exact ⟨hB e (h r s' hr).1, ih r (h r s' hr).2⟩

theorem respects_fold {body : σ → ι → Prog E R σ} {I : σ → Prop} {l : List ι} {a : σ}
    (hbody : ∀ a i, I a → Respects A B (body a i) I) (h : I a) :
    Respects A B (fold body l a) I :=
  wp_fold (fun _ a _ => I a) (fun i _ a _ ha => hbody a i ha) h

end

/-! ## A pool of threads -/

section
variable {S : Type} [DecidableEq ι] (step : S → (e : E) → R e → S → Prop)
  (env : S → S → Prop) (starts : Prog E R Unit → Prop)

/-- The reachable states of a pool of threads that interleave at every operation,
in an environment that may act at any time. -/
inductive PoolRun (s₀ : S) : S → (ι → Prog E R Unit) → Prop where
  | init : PoolRun s₀ s₀ fun _ => .ret ()
  | act {s s' : S} {pool : ι → Prog E R Unit} (run : PoolRun s₀ s pool) (h : env s s') :
      PoolRun s₀ s' pool
  | begin {s : S} {pool : ι → Prog E R Unit} {p : Prog E R Unit} (i : ι)
      (run : PoolRun s₀ s pool) (idle : pool i = .ret ()) (h : starts p) :
      PoolRun s₀ s fun j => if j = i then p else pool j
  | op {s s' : S} {pool : ι → Prog E R Unit} {e : E} {k : R e → Prog E R Unit} {r : R e} (i : ι)
      (run : PoolRun s₀ s pool) (next : pool i = .op e k) (h : step s e r s') :
      PoolRun s₀ s' fun j => if j = i then k r else pool j

variable {step env starts} {A : (e : E) → R e → Prop} {B : E → Prop} {I : S → Prop} {s₀ s : S}
  {pool : ι → Prog E R Unit}

/-- If the invariant constrains the answers by `A`, and the environment and
operations within `B` keep it, then a pool of programs that respect both keeps it, however its
threads interleave. -/
theorem PoolRun.inv (run : PoolRun step env starts s₀ s pool) (h₀ : I s₀)
    (henv : ∀ s s', I s → env s s' → I s')
    (hanswer : ∀ s e r s', I s → step s e r s' → A e r)
    (hkeep : ∀ s e r s', I s → B e → step s e r s' → I s')
    (hstart : ∀ p, starts p → p.Respects A B fun _ => True) :
    I s ∧ ∀ i, (pool i).Respects A B fun _ => True := by
  induction run with
  | init => exact ⟨h₀, fun _ => trivial⟩
  | act _ h ih => exact ⟨henv _ _ ih.1 h, ih.2⟩
  | begin i _ _ h ih =>
      refine ⟨ih.1, fun j => ?_⟩
      dsimp only
      split
      · exact hstart _ h
      · exact ih.2 j
  | op i _ next h ih =>
      have hi := ih.2 i
      rw [next] at hi
      obtain ⟨hB, hk⟩ := hi _ () (hanswer _ _ _ _ ih.1 h)
      refine ⟨hkeep _ _ _ _ ih.1 hB h, fun j => ?_⟩
      dsimp only
      split
      · exact hk
      · exact ih.2 j

theorem PoolRun.exec_from {O : Type} {perform : S → O → (e : E) → Option (R e × S)}
    (hstep : ∀ s o e r s', perform s o e = some (r, s') → step s e r s') (i : ι) {os : List O}
    {p : Prog E R Unit} {a : Unit} {s' : S}
    (run : PoolRun step env starts s₀ s fun j => if j = i then p else .ret ())
    (h : exec perform p os s = some (a, s')) :
    PoolRun step env starts s₀ s' fun _ : ι => .ret () := by
  induction p generalizing os s with
  | ret b =>
      cases h
      simpa using run
  | abort => cases h
  | op e k ih =>
      cases os with
      | nil => cases h
      | cons o os =>
          rw [exec] at h
          split at h
          · cases h
          · rename_i r s₁ hp
            have next := PoolRun.op i run (if_pos rfl) (hstep _ _ _ _ _ hp)
            have hpool : (fun j => if j = i then k r else if j = i then Prog.op e k else .ret ()) =
                fun j => if j = i then k r else .ret () := by
              funext j
              split <;> rfl
            rw [hpool] at next
            exact ih r next h

/-- A program that runs to its end while the others are idle. -/
theorem PoolRun.exec {O : Type} {perform : S → O → (e : E) → Option (R e × S)}
    (hstep : ∀ s o e r s', perform s o e = some (r, s') → step s e r s') (i : ι) {os : List O}
    {p : Prog E R Unit} {a : Unit} {s' : S}
    (run : PoolRun step env starts s₀ s fun _ : ι => .ret ())
    (h : starts p) (hexec : exec perform p os s = some (a, s')) :
    PoolRun step env starts s₀ s' fun _ : ι => .ret () :=
  PoolRun.exec_from hstep i (PoolRun.begin i run rfl h) hexec

/-- What one thread can play alone can be reached. -/
theorem PoolRun.play {O L A : Type} {perform : S → O → (e : E) → Option (R e × S)}
    {program : L → Prog E R Unit} {act : A → S → Option S} {turns : List (Turn O L A)}
    {s' : S} (hstep : ∀ s o e r s', perform s o e = some (r, s') → step s e r s')
    (hact : ∀ a s s', act a s = some s' → env s s')
    (hstart : ∀ l, starts (program l)) (i : ι)
    (run : PoolRun step env starts s₀ s fun _ : ι => .ret ())
    (h : play perform program act turns s = some s') :
    PoolRun step env starts s₀ s' fun _ : ι => .ret () := by
  induction turns generalizing s with
  | nil =>
      cases h
      exact run
  | cons turn rest ih =>
      cases turn with
      | serve l choices =>
          rw [Prog.play] at h
          split at h
          · cases h
          · exact ih (run.exec hstep i (hstart l) ‹_›) h
      | act a =>
          rw [Prog.play] at h
          split at h
          · cases h
          · exact ih (.act run (hact _ _ _ ‹_›)) h

end

end Prog

end Secpoline.Lib
