import Mathlib.Data.List.Basic

/-!
# Arrays that end at a null pointer

An array of pointers that has no length of its own: its elements are what stands
in front of the first null pointer, and what is behind that is not looked at.
-/

namespace Secpoline.Lib

variable {α : Type}

/-- `xs` and a null pointer, in front of `rest`. -/
def terminated (xs : List α) (rest : List (Option α)) : List (Option α) :=
  xs.map some ++ none :: rest

/-- The elements in front of the first null pointer. -/
def upToNull : List (Option α) → List α
  | some a :: rest => a :: upToNull rest
  | _ => []

@[simp] theorem upToNull_terminated (xs : List α) (rest : List (Option α)) :
    upToNull (terminated xs rest) = xs := by
  induction xs with
  | nil => rfl
  | cons x xs ih =>
      show x :: upToNull (terminated xs rest) = x :: xs
      rw [ih]

@[simp] theorem findIdx?_terminated (xs : List α) (rest : List (Option α)) :
    (terminated xs rest).findIdx? Option.isNone = some xs.length := by
  induction xs with
  | nil => simp [terminated, List.findIdx?_cons]
  | cons x xs ih => simpa [terminated, List.findIdx?_cons] using ih

/-- Writing to the place of the null pointer, if another one follows. -/
theorem set_terminated (xs : List α) (a : α) (rest : List (Option α)) :
    (terminated xs (none :: rest)).set xs.length (some a) = terminated (xs ++ [a]) rest := by
  induction xs with
  | nil => rfl
  | cons x xs ih =>
      show some x :: (terminated xs (none :: rest)).set xs.length (some a) =
        some x :: terminated (xs ++ [a]) rest
      rw [ih]

theorem eq_map_some_iff {ps : List (Option α)} {xs : List α} :
    ps = xs.map some ↔ xs = ps.filterMap id ∧ none ∉ ps := by
  constructor
  · intro h
    simp [h]
  · intro ⟨hxs, hnone⟩
    induction ps generalizing xs with
    | nil => simp [hxs]
    | cons p ps ih =>
        cases p with
        | none => exact absurd List.mem_cons_self hnone
        | some a =>
            rw [hxs, ih rfl (fun h => hnone (List.mem_cons_of_mem _ h))]
            simp

/-- An array that ends at its last place and not before. -/
theorem append_singleton_eq_terminated {ps : List (Option α)} {p : Option α} {xs : List α} :
    ps ++ [p] = terminated xs [] ↔ (xs = ps.filterMap id ∧ none ∉ ps) ∧ p = none := by
  rw [terminated, List.append_singleton_inj, eq_map_some_iff]

end Secpoline.Lib
