import Secpoline.Lib.Prog

/-!
# The operations that a program performs

A program runs by itself once it is known how its operations are answered. An answer may
depend on what has been performed before, so it is given the operations so far: what a
table answers to a question changes with what is put into it. `Logs` says which operations
a program performs then, in their order, and that it returns a value; its lemmas put the
log of a program together from those of its parts.
-/

namespace Secpoline.Lib.Prog

variable {E : Type} {R : E → Type} {α β σ ι : Type}

/-- The operations that a program performs after `before` when `answer` answers them, and
what it returns, if it does. -/
def log (answer : List E → (e : E) → R e) : List E → Prog E R α → List E × Option α
  | _, .ret a => ([], some a)
  | _, .abort => ([], none)
  | before, .op e k =>
      let rest := (k (answer before e)).log answer (before ++ [e])
      (e :: rest.1, rest.2)

/-- The program performs these operations and returns this value. -/
def Logs (answer : List E → (e : E) → R e) (before : List E) (p : Prog E R α) (l : List E)
    (a : α) : Prop :=
  p.log answer before = (l, some a)

variable {answer : List E → (e : E) → R e} {before : List E} {p : Prog E R α} {l l' : List E}
  {a : α}

theorem logs_ret : Logs answer before (.ret a) [] a := rfl

theorem logs_pure : Logs answer before (Pure.pure a : Prog E R α) [] a := rfl

theorem logs_call {e : E} : Logs answer before (call e) [e] (answer before e) := rfl

theorem Logs.bind {f : α → Prog E R β} {b : β} (h : Logs answer before p l a)
    (hf : Logs answer (before ++ l) (f a) l' b) : Logs answer before (p.bind f) (l ++ l') b := by
  unfold Logs at h hf ⊢
  induction p generalizing before l with
  | ret c =>
      cases h
      rw [List.append_nil] at hf
      exact hf
  | abort => cases h
  | op e k ih =>
      rw [log] at h
      obtain ⟨rfl, h₂⟩ := Prod.mk.inj h
      rw [List.append_cons] at hf
      have hrest := ih (answer before e) (Prod.ext rfl h₂) hf
      rw [Prog.bind, log]
      rw [hrest]
      rfl

theorem Logs.seq {f : α → Prog E R β} {b : β} (h : Logs answer before p l a)
    (hf : Logs answer (before ++ l) (f a) l' b) : Logs answer before (p >>= f) (l ++ l') b :=
  h.bind hf

theorem Logs.seq_nil {f : α → Prog E R β} {b : β} (h : Logs answer before p [] a)
    (hf : Logs answer before (f a) l b) : Logs answer before (p >>= f) l b := by
  rw [← List.append_nil before] at hf
  exact h.seq hf

/-- The log of a sequence is that of its parts. -/
theorem Logs.of_bind {f : α → Prog E R β} {b : β} (h : Logs answer before (p.bind f) l b) :
    ∃ l₁ a l₂, Logs answer before p l₁ a ∧ Logs answer (before ++ l₁) (f a) l₂ b ∧
      l = l₁ ++ l₂ := by
  unfold Logs at h ⊢
  induction p generalizing before l with
  | ret a => exact ⟨[], a, l, rfl, by rwa [List.append_nil], rfl⟩
  | abort => cases h
  | op e k ih =>
      rw [Prog.bind, log] at h
      obtain ⟨rfl, h₂⟩ := Prod.mk.inj h
      obtain ⟨l₁, a, l₂, hk, hf, hl⟩ := ih (answer before e) (Prod.ext rfl h₂)
      refine ⟨e :: l₁, a, l₂, ?_, ?_, congrArg (e :: ·) hl⟩
      · rw [log, hk]
      · rwa [List.append_cons]

theorem Logs.of_seq {f : α → Prog E R β} {b : β} (h : Logs answer before (p >>= f) l b) :
    ∃ l₁ a l₂, Logs answer before p l₁ a ∧ Logs answer (before ++ l₁) (f a) l₂ b ∧
      l = l₁ ++ l₂ :=
  h.of_bind

theorem Logs.of_require {c : Prop} [Decidable c] (h : Logs answer before (require c) l ()) :
    c ∧ l = [] := by
  unfold require at h
  split at h
  · cases h
    exact ⟨‹_›, rfl⟩
  · cases h

/-- One log for every turn of a loop without a state, each after those before it. -/
inductive LogsEach (answer : List E → (e : E) → R e) (body : ι → Prog E R Unit) :
    List E → List ι → List (List E) → Prop where
  | nil {before : List E} : LogsEach answer body before [] []
  | cons {before l : List E} {x : ι} {xs : List ι} {ls : List (List E)}
      (h : Logs answer before (body x) l ()) (hrest : LogsEach answer body (before ++ l) xs ls) :
      LogsEach answer body before (x :: xs) (l :: ls)

theorem Logs.of_fold {body : ι → Prog E R Unit} {xs : List ι}
    (h : Logs answer before (fold (fun _ => body) xs ()) l ()) :
    ∃ ls, LogsEach answer body before xs ls ∧ l = ls.flatten := by
  induction xs generalizing before l with
  | nil =>
      cases h
      exact ⟨[], .nil, rfl⟩
  | cons x xs ih =>
      obtain ⟨l₁, _, l₂, h₁, h₂, rfl⟩ := h.of_bind
      obtain ⟨ls, hls, rfl⟩ := ih h₂
      exact ⟨l₁ :: ls, .cons h₁ hls, rfl⟩

theorem log_seq_snd {f : α → Prog E R β} (h : (p.log answer before).2 = some a) :
    ((p >>= f).log answer before).2 =
      ((f a).log answer (before ++ (p.log answer before).1)).2 := by
  induction p generalizing before with
  | ret b =>
      cases h
      rw [log, List.append_nil]
      rfl
  | abort => cases h
  | op e k ih =>
      rw [log, List.append_cons]
      exact ih (answer before e) h

theorem logs_require {c : Prop} [Decidable c] (hc : c) :
    Logs answer before (require c : Prog E R Unit) [] () := by
  unfold require
  rw [if_pos hc]
  rfl

theorem Logs.fold_append {body : σ → ι → Prog E R σ} {xs ys : List ι} {a b c : σ}
    (h : Logs answer before (fold body xs a) l b)
    (h' : Logs answer (before ++ l) (fold body ys b) l' c) :
    Logs answer before (fold body (xs ++ ys) a) (l ++ l') c := by
  induction xs generalizing before l a with
  | nil =>
      cases h
      rw [List.append_nil] at h'
      exact h'
  | cons x xs ih =>
      obtain ⟨l₁, _, l₂, h₁, h₂, rfl⟩ := h.of_bind
      rw [← List.append_assoc] at h'
      rw [List.append_assoc]
      exact h₁.bind (ih h₂ h')

/-- One more turn of a loop over numbered elements. -/
theorem Logs.fold_succ {body : σ → ι → Prog E R σ} {f : Nat → ι} {n : Nat} {a b c : σ}
    (h : Logs answer before (fold body ((List.range n).map f) a) l b)
    (hturn : Logs answer (before ++ l) (body b (f n)) l' c) :
    Logs answer before (fold body ((List.range (n + 1)).map f) a) (l ++ l') c := by
  rw [List.range_succ, List.map_append]
  refine h.fold_append ?_
  have hlast := hturn.bind (logs_ret : Logs answer _ (.ret c : Prog E R σ) [] c)
  rw [List.append_nil] at hlast
  exact hlast

theorem Logs.unique {a' : α} (h : Logs answer before p l a) (h' : Logs answer before p l' a') :
    l' = l ∧ a' = a := by
  unfold Logs at h h'
  rw [h] at h'
  cases h'
  exact ⟨rfl, rfl⟩

theorem Logs.exists_iff {P : List E → Prop} (h : Logs answer before p l a) :
    (∃ l', Logs answer before p l' a ∧ P l') ↔ P l := by
  refine ⟨fun ⟨l', h', hP⟩ => ?_, fun hP => ⟨l, h, hP⟩⟩
  obtain ⟨rfl, _⟩ := h.unique h'
  exact hP

/-- What a program does whatever the answers, it does with these. -/
theorem Logs.respects {A : (e : E) → R e → Prop} {B : E → Prop} {Q : α → Prop}
    (h : Logs answer before p l a) (hp : p.Respects A B Q)
    (hA : ∀ before e, A e (answer before e)) :
    (∀ e ∈ l, B e) ∧ Q a := by
  unfold Logs at h
  induction p generalizing before l with
  | ret b =>
      cases h
      exact ⟨nofun, hp⟩
  | abort => cases h
  | op e k ih =>
      rw [log] at h
      obtain ⟨rfl, h₂⟩ := Prod.mk.inj h
      obtain ⟨hB, hk⟩ := hp (answer before e) () (hA before e)
      obtain ⟨hrest, hQ⟩ := ih (answer before e) (Prod.ext rfl h₂) hk
      refine ⟨fun e' he' => ?_, hQ⟩
      rcases List.mem_cons.mp he' with rfl | he'
      · exact hB
      · exact hrest e' he'

end Secpoline.Lib.Prog
