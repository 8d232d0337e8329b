import Secpoline.Lib.Ordered

/-!
# What a list of intervals says, as a function

A list of intervals that carry keys stands for a partial function on the points:
a point has the key of the interval it lies in. `look` reads the list that way. It
is well behaved as soon as no two intervals share a point (`Scattered`), in whatever
order they stand, because an operation may leave them out of order and still say
the right thing about every point.

The operations on the functions are the ones that editing a list of intervals is
for: give a stretch a key, take its points out, and change the keys on it.
-/

namespace Secpoline.Lib

variable {α κ : Type} {lo hi : α → Nat} {key : α → κ} {l : List α} {a b : α} {x : Nat} {k : κ}

/-! ## Intervals that share no point -/

/-- No two intervals of the list share a point. -/
def Scattered (lo hi : α → Nat) (l : List α) : Prop :=
  l.Pairwise fun a b => hi a ≤ lo b ∨ hi b ≤ lo a

theorem Ordered.scattered (h : Ordered lo hi l) : Scattered lo hi l := h.2.imp .inl

theorem scattered_cons :
    Scattered lo hi (a :: l) ↔ (∀ b ∈ l, hi a ≤ lo b ∨ hi b ≤ lo a) ∧ Scattered lo hi l :=
  List.pairwise_cons

/-- The order does not matter. -/
theorem Scattered.perm {l' : List α} (h : Scattered lo hi l) (hp : l.Perm l') :
    Scattered lo hi l' :=
  hp.pairwise h fun h => h.symm

theorem Scattered.eq_of_mem (h : Scattered lo hi l) (ha : a ∈ l) (hb : b ∈ l)
    (hax : lo a ≤ x) (hxa : x < hi a) (hbx : lo b ≤ x) (hxb : x < hi b) : a = b := by
  induction l with
  | nil => cases ha
  | cons c l ih =>
      obtain ⟨hc, hl⟩ := scattered_cons.mp h
      rcases List.mem_cons.mp ha with rfl | ha' <;> rcases List.mem_cons.mp hb with rfl | hb'
      · rfl
      · have := hc b hb'
        omega
      · have := hc a ha'
        omega
      · exact ih hl ha' hb'

/-! ## Reading the list -/

/-- The key of the interval that the point lies in. -/
def look (lo hi : α → Nat) (key : α → κ) (l : List α) (x : Nat) : Option κ :=
  (l.find? fun a => decide (lo a ≤ x) && decide (x < hi a)).map key

theorem look_eq_none : look lo hi key l x = none ↔ ∀ k, ¬ At lo hi key l x k := by
  simp only [look, Option.map_eq_none_iff, List.find?_eq_none, At]
  simp only [Bool.and_eq_true, decide_eq_true_eq]
  constructor
  · intro h k hk
    obtain ⟨a, ha, hax, hxa, -⟩ := hk
    exact h a ha ⟨hax, hxa⟩
  · intro h a ha hx
    exact h (key a) ⟨a, ha, hx.1, hx.2, rfl⟩

theorem at_of_look (h : look lo hi key l x = some k) : At lo hi key l x k := by
  obtain ⟨a, ha, rfl⟩ := Option.map_eq_some_iff.mp h
  have hx := List.find?_some ha
  simp only [Bool.and_eq_true, decide_eq_true_eq] at hx
  exact ⟨a, List.mem_of_find?_eq_some ha, hx.1, hx.2, rfl⟩

theorem Scattered.look_eq_some (h : Scattered lo hi l) :
    look lo hi key l x = some k ↔ At lo hi key l x k := by
  constructor
  · exact at_of_look
  · intro hk
    cases hlook : look lo hi key l x with
    | none => exact absurd hk (look_eq_none.mp hlook k)
    | some k' =>
        obtain ⟨a, ha, hax, hxa, rfl⟩ := at_of_look hlook
        obtain ⟨b, hb, hbx, hxb, rfl⟩ := hk
        rw [h.eq_of_mem ha hb hax hxa hbx hxb]

/-- To say what the list says it is enough to say where each key is. -/
theorem Scattered.look_eq (h : Scattered lo hi l) {m : Nat → Option κ}
    (hm : ∀ x k, At lo hi key l x k ↔ m x = some k) : look lo hi key l = m := by
  funext x
  refine Option.ext fun k => ?_
  rw [h.look_eq_some]
  exact hm x k

/-! ## Changing a function on a stretch -/

/-- Every point of the stretch has the key. -/
def setOn (start stop : Nat) (k : κ) (m : Nat → Option κ) : Nat → Option κ := fun x =>
  if start ≤ x ∧ x < stop then some k else m x

/-- No point of the stretch has a key. -/
def clearOn (start stop : Nat) (m : Nat → Option κ) : Nat → Option κ := fun x =>
  if start ≤ x ∧ x < stop then none else m x

/-- The keys of the stretch are changed. -/
def mapOn (start stop : Nat) (f : κ → κ) (m : Nat → Option κ) : Nat → Option κ := fun x =>
  if start ≤ x ∧ x < stop then (m x).map f else m x

variable {start stop : Nat} {f : κ → κ} {m : Nat → Option κ}

theorem setOn_eq_some {k' : κ} : setOn start stop k m x = some k' ↔
    (m x = some k' ∧ (x < start ∨ stop ≤ x)) ∨ (start ≤ x ∧ x < stop ∧ k = k') := by
  simp only [setOn]
  split
  · next h =>
      constructor
      · intro hk
        exact .inr ⟨h.1, h.2, Option.some.inj hk⟩
      · intro hk
        rcases hk with ⟨-, hout⟩ | ⟨-, -, rfl⟩
        · omega
        · rfl
  · next h =>
      constructor
      · intro hk
        exact .inl ⟨hk, by omega⟩
      · intro hk
        rcases hk with ⟨hk, -⟩ | ⟨h₁, h₂, -⟩
        · exact hk
        · exact absurd ⟨h₁, h₂⟩ h

theorem clearOn_eq_some :
    clearOn start stop m x = some k ↔ m x = some k ∧ (x < start ∨ stop ≤ x) := by
  simp only [clearOn]
  split
  · next h =>
      constructor
      · intro hk
        cases hk
      · intro hk
        omega
  · next h =>
      constructor
      · intro hk
        exact ⟨hk, by omega⟩
      · intro hk
        exact hk.1

/-- Setting a key is a change of keys exactly if the change gives every point that key. -/
theorem setOn_eq_mapOn : setOn start stop k m = mapOn start stop f m ↔
    ∀ x, start ≤ x → x < stop → (m x).map f = some k := by
  constructor
  · intro h x hx hxs
    have hat := congrFun h x
    simp only [setOn, mapOn, hx, hxs, and_self, if_true] at hat
    exact hat.symm
  · intro h
    funext x
    simp only [setOn, mapOn]
    split
    · next hx => exact (h x hx.1 hx.2).symm
    · rfl

end Secpoline.Lib
