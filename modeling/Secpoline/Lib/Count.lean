import Mathlib.Data.List.Nodup

/-!
# Counting the members of a list that satisfy a predicate

A barrier counts how many of a fixed set of participants have yet to arrive.
These lemmas say how such a count moves when one participant changes its state.
-/

namespace Secpoline.Lib

variable {α : Type} {l : List α} {p q : α → Bool} {a : α}

/-- When two predicates agree off one member, their counts differ by what they
say about that member. -/
theorem countP_of_agree_off (hn : l.Nodup) (ha : a ∈ l) (h : ∀ b ∈ l, b ≠ a → p b = q b) :
    l.countP p + (if q a then 1 else 0) = l.countP q + (if p a then 1 else 0) := by
  induction l with
  | nil => cases ha
  | cons x xs ih =>
      obtain ⟨hx, hn⟩ := List.nodup_cons.mp hn
      rw [List.countP_cons, List.countP_cons]
      by_cases hxa : x = a
      · subst hxa
        have hrest : xs.countP p = xs.countP q := by
          refine List.countP_congr ?_
          intro b hb
          rw [h b (List.mem_cons_of_mem _ hb) (fun e => hx (e ▸ hb))]
        rw [hrest]
        omega
      · have hmem : a ∈ xs := (List.mem_cons.mp ha).resolve_left (Ne.symm hxa)
        have := ih hn hmem (fun b hb => h b (List.mem_cons_of_mem _ hb))
        rw [h x (List.mem_cons_self ..) hxa]
        omega

/-- All members but one. -/
theorem countP_ne [DecidableEq α] (hn : l.Nodup) (ha : a ∈ l) :
    l.countP (fun b => decide (b ≠ a)) + 1 = l.length := by
  have hoff := countP_of_agree_off (p := fun b => decide (b ≠ a)) (q := fun _ => true) hn ha
    (by intro b _ hb; simp [hb])
  simpa using hoff

end Secpoline.Lib
