import Mathlib.Data.List.Basic
import Mathlib.Data.List.Nodup

/-!
# Lists of half-open intervals, in order

An element stands for the interval `[lo a, hi a)`. `Ordered` says that every
interval is non-empty and that each one ends before the next begins, which is
the shape every sorted, disjoint interval list has. The lemmas below read it
at a `cons`, at an `append` and around one element in the middle; the last form
is the one that list surgery needs, because it names exactly what has to be
known of the two halves: everything on the left stops at or before the element
(`Below`) and everything on the right starts at or after it (`Above`).
-/

namespace Secpoline.Lib

variable {α : Type}

/-- Non-empty intervals, each ending before the next one starts. -/
def Ordered (lo hi : α → Nat) (l : List α) : Prop :=
  (∀ a ∈ l, lo a < hi a) ∧ l.Pairwise (fun a b => hi a ≤ lo b)

/-- Every interval of the list ends at or before `x`. -/
def Below (hi : α → Nat) (l : List α) (x : Nat) : Prop := ∀ a ∈ l, hi a ≤ x

/-- Every interval of the list starts at or after `x`. -/
def Above (lo : α → Nat) (l : List α) (x : Nat) : Prop := ∀ a ∈ l, x ≤ lo a

variable {lo hi : α → Nat} {l l₁ l₂ : List α} {a b : α} {x y : Nat}

@[simp] theorem below_nil : Below hi [] x := by simp [Below]

@[simp] theorem above_nil : Above lo [] x := by simp [Above]

@[simp] theorem below_cons : Below hi (a :: l) x ↔ hi a ≤ x ∧ Below hi l x := by
  simp [Below]

@[simp] theorem above_cons : Above lo (a :: l) x ↔ x ≤ lo a ∧ Above lo l x := by
  simp [Above]

@[simp] theorem below_append :
    Below hi (l₁ ++ l₂) x ↔ Below hi l₁ x ∧ Below hi l₂ x := by
  simp only [Below, List.mem_append, or_imp, forall_and]

@[simp] theorem above_append :
    Above lo (l₁ ++ l₂) x ↔ Above lo l₁ x ∧ Above lo l₂ x := by
  simp only [Above, List.mem_append, or_imp, forall_and]

theorem Below.mono (h : Below hi l x) (hxy : x ≤ y) : Below hi l y :=
  fun a ha => Nat.le_trans (h a ha) hxy

theorem Above.mono (h : Above lo l x) (hxy : y ≤ x) : Above lo l y :=
  fun a ha => Nat.le_trans hxy (h a ha)

@[simp] theorem ordered_nil : Ordered lo hi [] := by simp [Ordered]

@[simp] theorem ordered_cons :
    Ordered lo hi (a :: l) ↔ lo a < hi a ∧ Above lo l (hi a) ∧ Ordered lo hi l := by
  simp only [Ordered, Above, List.mem_cons, forall_eq_or_imp, List.pairwise_cons]
  grind

theorem ordered_append : Ordered lo hi (l₁ ++ l₂) ↔
    Ordered lo hi l₁ ∧ Ordered lo hi l₂ ∧ ∀ a ∈ l₁, ∀ b ∈ l₂, hi a ≤ lo b := by
  simp only [Ordered, List.mem_append, or_imp, forall_and, List.pairwise_append]
  grind

/-- The middle form: what the two halves must know about one element. -/
theorem ordered_mid : Ordered lo hi (l₁ ++ a :: l₂) ↔
    Ordered lo hi l₁ ∧ Ordered lo hi l₂ ∧ lo a < hi a ∧
      Below hi l₁ (lo a) ∧ Above lo l₂ (hi a) := by
  rw [ordered_append, ordered_cons]
  constructor
  · rintro ⟨h₁, ⟨ha, habove, h₂⟩, hcross⟩
    exact ⟨h₁, h₂, ha, fun b hb => hcross b hb a (by simp), habove⟩
  · rintro ⟨h₁, h₂, ha, hbelow, habove⟩
    refine ⟨h₁, ⟨ha, habove, h₂⟩, fun b hb c hc => ?_⟩
    rcases List.mem_cons.mp hc with rfl | hc
    · exact hbelow b hb
    · have := hbelow b hb
      have := habove c hc
      omega

/-- Two intervals of an ordered list that share a point are the same one. -/
theorem Ordered.eq_of_mem (h : Ordered lo hi l) (ha : a ∈ l) (hb : b ∈ l)
    (hax : lo a ≤ x) (hxa : x < hi a) (hbx : lo b ≤ x) (hxb : x < hi b) : a = b := by
  induction l with
  | nil => cases ha
  | cons c l ih =>
      obtain ⟨-, habove, hl⟩ := ordered_cons.mp h
      rcases List.mem_cons.mp ha with rfl | ha' <;> rcases List.mem_cons.mp hb with rfl | hb'
      · rfl
      · have := habove b hb'
        omega
      · have := habove a ha'
        omega
      · exact ih hl ha' hb'

/-- Replace a stretch of an ordered list by one that stays inside its bounds. -/
theorem Ordered.replace {pre old new post : List α}
    (h : Ordered lo hi (pre ++ old ++ post)) (hnew : Ordered lo hi new)
    (hlo : ∀ c ∈ new, ∃ a ∈ old, lo a ≤ lo c) (hhi : ∀ c ∈ new, ∃ b ∈ old, hi c ≤ hi b) :
    Ordered lo hi (pre ++ new ++ post) := by
  obtain ⟨hpo, hpost, hcross⟩ := ordered_append.mp h
  obtain ⟨hpre, -, hpreold⟩ := ordered_append.mp hpo
  refine ordered_append.mpr ⟨ordered_append.mpr ⟨hpre, hnew, fun a ha c hc => ?_⟩, hpost,
    fun c hc b hb => ?_⟩
  · obtain ⟨d, hd, hle⟩ := hlo c hc
    exact Nat.le_trans (hpreold a ha d hd) hle
  · rcases List.mem_append.mp hc with hc | hc
    · exact hcross c (List.mem_append_left _ hc) b hb
    · obtain ⟨d, hd, hle⟩ := hhi c hc
      exact Nat.le_trans hle (hcross d (List.mem_append_right _ hd) b hb)

theorem Ordered.left (h : Ordered lo hi (l₁ ++ l₂)) : Ordered lo hi l₁ :=
  (ordered_append.mp h).1

theorem Ordered.right (h : Ordered lo hi (l₁ ++ l₂)) : Ordered lo hi l₂ :=
  (ordered_append.mp h).2.1

/-! ## What a list says about a point -/

section At

variable {κ : Type} {key : α → κ} {k k' : κ}

/-- The point `x` lies in an interval of the list, and that interval carries `k`. -/
def At (lo hi : α → Nat) (key : α → κ) (l : List α) (x : Nat) (k : κ) : Prop :=
  ∃ a ∈ l, lo a ≤ x ∧ x < hi a ∧ key a = k

@[simp] theorem at_nil : ¬ At lo hi key [] x k := by simp [At]

@[simp] theorem at_cons : At lo hi key (a :: l) x k ↔
    (lo a ≤ x ∧ x < hi a ∧ key a = k) ∨ At lo hi key l x k := by
  simp [At]

@[simp] theorem at_append : At lo hi key (l₁ ++ l₂) x k ↔
    At lo hi key l₁ x k ∨ At lo hi key l₂ x k := by
  simp only [At, List.mem_append, or_and_right, exists_or]

theorem at_ite {c : Prop} [Decidable c] : At lo hi key (if c then l else []) x k ↔
    c ∧ At lo hi key l x k := by
  split <;> simp [*]

theorem Below.not_at (h : Below hi l y) (hxy : y ≤ x) : ¬ At lo hi key l x k := by
  rintro ⟨a, ha, -, hxa, -⟩
  have := h a ha
  omega

theorem Above.not_at (h : Above lo l y) (hxy : x < y) : ¬ At lo hi key l x k := by
  rintro ⟨a, ha, hax, -, -⟩
  have := h a ha
  omega

/-- An ordered list says one thing about a point. -/
theorem Ordered.at_unique (h : Ordered lo hi l) (hk : At lo hi key l x k)
    (hk' : At lo hi key l x k') : k = k' := by
  obtain ⟨a, ha, hax, hxa, rfl⟩ := hk
  obtain ⟨b, hb, hbx, hxb, rfl⟩ := hk'
  rw [h.eq_of_mem ha hb hax hxa hbx hxb]

end At

end Secpoline.Lib
