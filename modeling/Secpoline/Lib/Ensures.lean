import Secpoline.Lib.Prog

/-!
# Total correctness

`Ensures step p Q s` says that however the operations of `p` are answered, it returns from
`s`, and in `Q`. Unlike `wp` it is not satisfied by giving up, nor by an operation that has
no answer: that is one which the program does not survive.

What a program ensures, it also comes to if only some of the answers are given, as long as
an operation that had an answer still has one (`Ensures.reaches`). So to see that it does
not ensure something, one environment is enough, and for that `Post` will do.
-/

namespace Secpoline.Lib.Prog

variable {E : Type} {R : E → Type} {α β S : Type}

def Ensures (step : S → (e : E) → R e → S → Prop) : Prog E R α → (α → S → Prop) → S → Prop
  | .ret a, Q, s => Q a s
  | .abort, _, _ => False
  | .op e k, Q, s => (∃ r s', step s e r s') ∧ ∀ r s', step s e r s' → Ensures step (k r) Q s'

variable {step : S → (e : E) → R e → S → Prop} {p : Prog E R α} {Q : α → S → Prop} {s : S}

theorem Ensures.reaches {step' : S → (e : E) → R e → S → Prop} {Q' : α → S → Prop}
    (hsome : ∀ s e r s', step s e r s' → ∃ r s', step' s e r s' ∧ step s e r s')
    (h : Ensures step p Q s) (hpost : Post step' p Q' s) : ∃ a s', Q a s' ∧ Q' a s' := by
  induction p generalizing s with
  | ret a => exact ⟨a, s, h, hpost⟩
  | abort => exact h.elim
  | op e k ih =>
      obtain ⟨⟨r, s', hs⟩, hall⟩ := h
      obtain ⟨r, s', hs', hs⟩ := hsome s e r s' hs
      exact ih r (hall r s' hs) (hpost r s' hs').2

end Secpoline.Lib.Prog
