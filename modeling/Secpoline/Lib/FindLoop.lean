import Mathlib.Data.List.Basic

/-!
# A search that is called again after each match

`firstMatch` looks at a number of positions one after the other and reports how
far away the first match is. `findLoop` calls it over and over, each time a fixed
number of positions after the last match, and takes a distance of 0 for "nothing
found".

If no two matches are closer together than what the loop skips, it cannot step
over one. What it can do is stop too early: at the very position it starts from,
or at a position that it reaches by skipping. `Stops` names these positions, and
`mem_findLoop` says that they are the only thing that goes wrong. `mem_lookedAt` says
which positions are looked at on the way.
-/

namespace Secpoline.Lib

variable {α : Type}

/-- The first match among `n` positions from `start` on, and how far it is away. -/
def firstMatch (f : Nat → Option α) (start n : Nat) : Option (Nat × α) :=
  (List.range n).findSome? fun i => (f (start + i)).map fun a => (i, a)

/-- The matches the loop goes through. -/
def findLoop (f : Nat → Option α) (skip : Nat) : Nat → Nat → Nat → List (Nat × α)
  | 0, _, _ => []
  | fuel + 1, start, n =>
      match firstMatch f start n with
      | none => []
      | some (i, a) =>
          if i = 0 then []
          else (start + i, a) :: findLoop f skip fuel (start + i + skip) (n - (i + skip))

/-- The positions that the searches of the loop look at. -/
def lookedAt (f : Nat → Option α) (skip : Nat) : Nat → Nat → Nat → List Nat
  | 0, _, _ => []
  | fuel + 1, start, n =>
      match firstMatch f start n with
      | none => (List.range n).map (start + ·)
      | some (i, _) =>
          (List.range (i + 1)).map (start + ·) ++
            if i = 0 then [] else lookedAt f skip fuel (start + i + skip) (n - (i + skip))

/-- There is a match at `q`, and a search that begins there: it is where the loop
started, or where the skip after another match leads to. -/
def Stops (f : Nat → Option α) (skip start q : Nat) : Prop :=
  (f q).isSome = true ∧ (q = start ∨ ∃ p, start ≤ p ∧ p + skip = q ∧ (f p).isSome = true)

section
variable {f : Nat → Option α} {skip start n : Nat}

theorem firstMatch_succ :
    firstMatch f start (n + 1) =
      (firstMatch f start n).or ((f (start + n)).map fun a => (n, a)) := by
  unfold firstMatch
  rw [List.range_succ, List.findSome?_append, List.findSome?_singleton]

theorem firstMatch_none (h : firstMatch f start n = none) {i : Nat} (hi : i < n) :
    f (start + i) = none := by
  have hmap := List.findSome?_eq_none_iff.mp h i (List.mem_range.mpr hi)
  exact Option.map_eq_none_iff.mp hmap

theorem firstMatch_some {i : Nat} {a : α} (h : firstMatch f start n = some (i, a)) :
    i < n ∧ f (start + i) = some a ∧ ∀ j < i, f (start + j) = none := by
  induction n with
  | zero => cases h
  | succ n ih =>
      rw [firstMatch_succ] at h
      rcases Option.or_eq_some_iff.mp h with h | ⟨hnone, h⟩
      · obtain ⟨hi, hf, hbefore⟩ := ih h
        exact ⟨by omega, hf, hbefore⟩
      · obtain ⟨b, hb, he⟩ := Option.map_eq_some_iff.mp h
        cases he
        exact ⟨by omega, hb, fun j hj => firstMatch_none hnone hj⟩

/-- There is no other match before the place where the loop goes on. -/
theorem firstMatch_gap {i : Nat} {a : α} (h : firstMatch f start n = some (i, a))
    (hapart : ∀ q r, (f q).isSome = true → q < r → r < q + skip → f r = none) {r : Nat}
    (hr : start ≤ r) (hlt : r < start + i + skip) (hne : r ≠ start + i) : f r = none := by
  obtain ⟨-, ha, hbefore⟩ := firstMatch_some h
  by_cases hri : r < start + i
  · have hnone := hbefore (r - start) (by omega)
    rwa [Nat.add_sub_cancel' hr] at hnone
  · exact hapart (start + i) r (by rw [ha]; rfl) (by omega) hlt

/-- After the first match `p` the positions at which the loop can stop are those
of the loop that begins behind it. -/
theorem stops_after {p q : Nat} (hp : (f p).isSome = true) (hstart : start < p)
    (hgap : ∀ r, start ≤ r → r < p + skip → r ≠ p → f r = none) (hq : p + skip ≤ q) :
    Stops f skip start q ↔ Stops f skip (p + skip) q := by
  refine and_congr_right fun _ => ⟨fun h => ?_, fun h => ?_⟩
  · rcases h with rfl | ⟨r, hr, hrq, hmatch⟩
    · omega
    · by_cases hrp : r = p
      · exact .inl (by omega)
      · refine .inr ⟨r, Nat.not_lt.mp fun hlt => ?_, hrq, hmatch⟩
        rw [hgap r hr hlt hrp] at hmatch
        cases hmatch
  · rcases h with rfl | ⟨r, hr, hrq, hmatch⟩
    · exact .inr ⟨p, by omega, rfl, hp⟩
    · exact .inr ⟨r, by omega, hrq, hmatch⟩

/-- The loop does not stop before it has gone through the first match. -/
theorem not_stops_before {p q : Nat} (hstart : start < p)
    (hgap : ∀ r, start ≤ r → r < p + skip → r ≠ p → f r = none) (hskip : 0 < skip)
    (hq : q < p + skip) : ¬ Stops f skip start q := by
  rintro ⟨hmatch, h⟩
  have hqp : q = p := by
    by_contra hne
    have hge : start ≤ q := by
      rcases h with rfl | ⟨r, hr, hrq, _⟩ <;> omega
    rw [hgap q hge hq hne] at hmatch
    cases hmatch
  subst hqp
  rcases h with rfl | ⟨r, hr, hrq, hmatch⟩
  · omega
  · rw [hgap r hr (by omega) (by omega)] at hmatch
    cases hmatch

/-- The loop goes through the matches before the first position at which it stops. -/
theorem mem_findLoop {fuel p : Nat} {a : α} (hskip : 0 < skip)
    (hapart : ∀ q r, (f q).isSome = true → q < r → r < q + skip → f r = none) (hfuel : n ≤ fuel) :
    (p, a) ∈ findLoop f skip fuel start n ↔
      start ≤ p ∧ p < start + n ∧ f p = some a ∧ ∀ q ≤ p, ¬ Stops f skip start q := by
  induction fuel generalizing start n with
  | zero =>
      rw [findLoop]
      exact ⟨fun h => (nomatch h), fun h => by omega⟩
  | succ fuel ih =>
      rw [findLoop]
      split
      · rename_i hnone
        refine ⟨fun h => (nomatch h), fun ⟨h₁, h₂, hf, _⟩ => ?_⟩
        have hp := firstMatch_none hnone (show p - start < n by omega)
        rw [Nat.add_sub_cancel' h₁, hf] at hp
        cases hp
      rename_i i b hfirst
      obtain ⟨hi, hb, -⟩ := firstMatch_some hfirst
      have hsome : (f (start + i)).isSome = true := by rw [hb]; rfl
      split
      · rename_i hzero
        refine ⟨fun h => (nomatch h), fun ⟨h₁, _, _, hstop⟩ => absurd ?_ (hstop start h₁)⟩
        rw [hzero, Nat.add_zero] at hsome
        exact ⟨hsome, .inl rfl⟩
      have hgap := fun r => firstMatch_gap hfirst hapart (r := r)
      have hearly : ∀ q < start + i + skip, ¬ Stops f skip start q :=
        fun q => not_stops_before (by omega) hgap hskip
      rw [List.mem_cons, ih (by omega)]
      constructor
      · rintro (he | ⟨h₁, h₂, hf, hstop⟩)
        · cases he
          exact ⟨by omega, by omega, hb, fun q hq => hearly q (by omega)⟩
        · refine ⟨by omega, by omega, hf, fun q hq => ?_⟩
          by_cases hlt : q < start + i + skip
          · exact hearly q hlt
          · rw [stops_after hsome (by omega) hgap (by omega)]
            exact hstop q hq
      · rintro ⟨h₁, h₂, hf, hstop⟩
        by_cases hpi : p = start + i
        · subst hpi
          rw [hb] at hf
          cases hf
          exact .inl rfl
        · refine .inr ⟨Nat.not_lt.mp fun hlt => ?_, by omega, hf, fun q hq hs => ?_⟩
          · rw [hgap p h₁ hlt hpi] at hf
            cases hf
          · -- a loop never stops before the place it starts from
            have hge : start + i + skip ≤ q := by
              rcases hs.2 with rfl | ⟨r, hr, hrq, _⟩ <;> omega
            exact hstop q hq ((stops_after hsome (by omega) hgap hge).mpr hs)

theorem mem_map_range_add {p : Nat} :
    p ∈ (List.range n).map (start + ·) ↔ start ≤ p ∧ p < start + n := by
  rw [List.mem_map]
  constructor
  · rintro ⟨i, hi, rfl⟩
    have := List.mem_range.mp hi
    omega
  · exact fun h => ⟨p - start, List.mem_range.mpr (by omega), by omega⟩

/-- The loop looks at everything up to the first position at which it stops, but for
what it skips. -/
theorem mem_lookedAt {fuel p : Nat} (hskip : 0 < skip)
    (hapart : ∀ q r, (f q).isSome = true → q < r → r < q + skip → f r = none) (hfuel : n ≤ fuel) :
    p ∈ lookedAt f skip fuel start n ↔
      start ≤ p ∧ p < start + n ∧ (∀ q < p, ¬ Stops f skip start q) ∧
        ∀ q, start ≤ q → q < p → p < q + skip → f q = none := by
  induction fuel generalizing start n with
  | zero =>
      rw [lookedAt]
      exact ⟨fun h => (nomatch h), fun h => by omega⟩
  | succ fuel ih =>
      rw [lookedAt]
      split
      · rename_i hnone
        have hf (q : Nat) (h₁ : start ≤ q) (h₂ : q < start + n) : f q = none := by
          have hq := firstMatch_none hnone (show q - start < n by omega)
          rwa [Nat.add_sub_cancel' h₁] at hq
        rw [mem_map_range_add]
        refine ⟨fun ⟨h₁, h₂⟩ => ⟨h₁, h₂, fun q hq hs => ?_, fun q h hq _ => hf q h (by omega)⟩,
          fun h => ⟨h.1, h.2.1⟩⟩
        have hge : start ≤ q := by
          rcases hs.2 with rfl | ⟨r, hr, hrq, _⟩ <;> omega
        have hmatch := hs.1
        rw [hf q hge (by omega)] at hmatch
        cases hmatch
      rename_i i b hfirst
      obtain ⟨hi, hb, -⟩ := firstMatch_some hfirst
      have hsome : (f (start + i)).isSome = true := by rw [hb]; rfl
      have hgap := fun r => firstMatch_gap hfirst hapart (r := r)
      rw [List.mem_append, mem_map_range_add]
      by_cases hzero : i = 0
      · subst hzero
        rw [if_pos rfl]
        constructor
        · rintro (h | h)
          · obtain rfl : p = start := by omega
            refine ⟨by omega, by omega, fun q hq hs => ?_, fun q _ _ _ => by omega⟩
            rcases hs.2 with rfl | ⟨r, hr, hrq, _⟩ <;> omega
          · cases h
        · rintro ⟨h₁, -, hstop, -⟩
          refine .inl ⟨h₁, Nat.not_le.mp fun hlt => hstop start (by omega) ⟨hsome, .inl rfl⟩⟩
      have hearly : ∀ q < start + i + skip, ¬ Stops f skip start q :=
        fun q => not_stops_before (by omega) hgap hskip
      rw [if_neg hzero, ih (by omega)]
      constructor
      · rintro (h | ⟨h₁, h₂, hstop, hnone⟩)
        · exact ⟨h.1, by omega, fun q hq => hearly q (by omega),
            fun q hge hq _ => hgap q hge (by omega) (by omega)⟩
        · refine ⟨by omega, by omega, fun q hq => ?_, fun q hge hq hnear => ?_⟩
          · by_cases hlt : q < start + i + skip
            · exact hearly q hlt
            · rw [stops_after hsome (by omega) hgap (by omega)]
              exact hstop q hq
          · by_cases hlt : q < start + i + skip
            · exact hgap q hge hlt (by omega)
            · exact hnone q (by omega) hq hnear
      · rintro ⟨h₁, h₂, hstop, hnone⟩
        by_cases hle : p ≤ start + i
        · exact .inl ⟨h₁, by omega⟩
        have hge : start + i + skip ≤ p := by
          by_contra hlt
          rw [hnone (start + i) (by omega) (by omega) (by omega)] at hb
          cases hb
        refine .inr ⟨hge, by omega, fun q hq hs => ?_, fun q hq => hnone q (by omega)⟩
        have hge : start + i + skip ≤ q := by
          rcases hs.2 with rfl | ⟨r, hr, hrq, _⟩ <;> omega
        exact hstop q hq ((stops_after hsome (by omega) hgap hge).mpr hs)

end

end Secpoline.Lib
