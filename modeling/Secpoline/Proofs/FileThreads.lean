import Secpoline.Lib.Machine
import Secpoline.Model.FileThreads
import Secpoline.Proofs.Files

/-!
# The bitmap while descriptors are created and closed at the same time

The bit of a descriptor may be wrong only while a thread is about to put it right:
set while the thread that closed the descriptor is still to clear it, and clear
while one that created it is still to set it. The lock makes the two meet in the
right order: whoever creates the number again while it is being closed sets the bit
after it has been cleared.

What is not ordered is the check of the prehandler and the kernel call of `close`.
A thread can close a descriptor that is not the one it looked up, and if the thread
that created it has not set the bit yet, it sets it afterwards.

The invariant is about one descriptor, and about one thread and what the others are
at, so that a step is a matter of the thread that takes it.
-/

namespace Secpoline

open Lib

/-! ## What a thread is about to do -/

namespace FdPhase

/-- The descriptors it has created and whose bits it has not set yet. -/
def pending : FdPhase → List Nat
  | .opened n | .denying n => [n]
  | .saving ns => ns
  | _ => []

/-- Those of them that it may still close again. -/
def unchecked : FdPhase → List Nat
  | .opened n | .denying n => [n]
  | _ => []

/-- It has the lock. -/
def Holds : FdPhase → Prop
  | .closing _ | .clearing _ | .unlocking => True
  | _ => False

end FdPhase

/-- The bit of a descriptor is what it should be. -/
def FdRight (table : FdTable) (bitmap : FdBitmap) (n : Nat) : Prop :=
  (table.owner n = none → bitmap.readBit n = false) ∧
    (table.owner n = some .application → bitmap.readBit n = true)

/-! ## The invariant -/

/-- The descriptor `n` as a thread in phase `p` sees it. Of the others, `C` says that one
is about to clear its bit, `W` that one is about to set it, `U` that one may close it
again, and `H` that one has the lock. -/
structure FdView (n : Nat) (s : FdShared) (p : FdPhase) (C W U H : Prop) : Prop where
  free : s.table.owner n = none → s.bitmap.readBit n = false ∨ p = .clearing n ∨ C
  owned : s.table.owner n = some .application →
    (s.bitmap.readBit n = true ∧ p ≠ .clearing n ∧ ¬ C) ∨ n ∈ p.pending ∨ W
  pending : n ∈ p.pending ∨ W → s.table.owner n ≠ none
  unset : n ∈ p.unchecked ∨ U → s.bitmap.readBit n = false ∨ p = .clearing n ∨ C
  alone : n ∈ p.unchecked → ¬ W
  others : U → n ∉ p.pending
  lock : p.Holds ∨ H → s.mtx = true
  mutex : p.Holds → ¬ H
  clears : C → H
  waits : U → W

/-- No thread is about to set the bit of the descriptor that is closed, or may still
close the one that is replaced; and `close` fails only if it leaves the descriptor
open. -/
def FdPhase.Tame (n : Nat) (a : FdAnswer) (W U : Prop) : FdPhase → Prop
  | .closing fd => (fd.toNat = n → ¬ W) ∧ a ≠ .released
  | .checking (.dup2 _ fd₂) [] _ => fd₂.toNat = n → ¬ U
  | _ => True

section
variable {n m : Nat} {s s' : FdShared} {p p' : FdPhase} {C W U H : Prop} {a : FdAnswer}

/-- A step that only changes where the thread is. -/
theorem FdView.moved (h : FdView n s p C W U H) (hp : p'.pending = p.pending)
    (hu : p'.unchecked ⊆ p.unchecked) (hc : p' = .clearing n ↔ p = .clearing n)
    (hh : p'.Holds ↔ p.Holds) : FdView n s p' C W U H := by
  have hsub : n ∈ p'.unchecked → n ∈ p.unchecked := fun h => hu h
  obtain ⟨h₁, h₂, h₃, h₄, h₅, h₆, h₇, h₈, h₉, h₁₀⟩ := h
  constructor <;> grind

/-- A descriptor that was free has been created. -/
theorem FdView.created (h : FdView n s p C W U H) (hm : s.table.owner m = none)
    (hp₀ : p.unchecked = []) (hh₀ : ¬ p.Holds) (hh : ¬ p'.Holds)
    (hp : ∀ k, k ∈ p'.pending ↔ k = m ∨ k ∈ p.pending)
    (hu : ∀ k, k ∈ p'.unchecked → k = m) :
    FdView n (s.put m (some .application)) p' C W U H := by
  have howner : (s.put m (some .application)).table.owner n = _ := FdTable.owner_put
  have hc : p ≠ .clearing n ∧ p' ≠ .clearing n :=
    ⟨fun h => hh₀ (h ▸ trivial), fun h => hh (h ▸ trivial)⟩
  obtain ⟨h₁, h₂, h₃, h₄, h₅, h₆, h₇, h₈, h₉, h₁₀⟩ := h
  constructor <;> grind [FdShared.put]

/-- A descriptor has been replaced, or was found to be there. -/
theorem FdView.replaced (h : FdView n s p C W U H) (hp₀ : p.pending = []) (hh₀ : ¬ p.Holds)
    (ht : m = n → ¬ U) : FdView n (s.put m (some .application)) (.saving [m]) C W U H := by
  have howner : (s.put m (some .application)).table.owner n = _ := FdTable.owner_put
  have hc : p ≠ .clearing n := fun h => hh₀ (h ▸ trivial)
  obtain ⟨h₁, h₂, h₃, h₄, h₅, h₆, h₇, h₈, h₉, h₁₀⟩ := h
  constructor <;> grind [FdShared.put, FdPhase.pending, FdPhase.unchecked, FdPhase.Holds]

theorem FdView.kept (h : FdView n s p C W U H) (hm : s.table.owner m ≠ none)
    (hp₀ : p.pending = []) (hh₀ : ¬ p.Holds) (ht : m = n → ¬ U) :
    FdView n s (.saving [m]) C W U H := by
  have hc : p ≠ .clearing n := fun h => hh₀ (h ▸ trivial)
  obtain ⟨h₁, h₂, h₃, h₄, h₅, h₆, h₇, h₈, h₉, h₁₀⟩ := h
  constructor <;> grind [FdPhase.pending, FdPhase.unchecked, FdPhase.Holds]

/-- A descriptor that must not be opened is closed again: nobody else has seen it. -/
theorem FdView.denied (h : FdView n s (.denying m) C W U H) :
    FdView n (s.put m none) .idle C W U H := by
  have howner : (s.put m none).table.owner n = _ := FdTable.owner_put
  obtain ⟨h₁, h₂, h₃, h₄, h₅, h₆, h₇, h₈, h₉, h₁₀⟩ := h
  constructor <;> grind [FdShared.put, FdPhase.pending, FdPhase.unchecked, FdPhase.Holds]

/-- The bit is set. The lock is free, so nobody is about to clear it. -/
theorem FdView.saved {ms : List Nat} (h : FdView n s (.saving (m :: ms)) C W U H)
    (hmtx : s.mtx = false) :
    FdView n { s with bitmap := s.bitmap.setBit m } (.saving ms) C W U H := by
  have hbit : (s.bitmap.setBit m).readBit n = _ := FdBitmap.readBit_setBit
  obtain ⟨h₁, h₂, h₃, h₄, h₅, h₆, h₇, h₈, h₉, h₁₀⟩ := h
  constructor <;> grind [FdPhase.pending, FdPhase.unchecked, FdPhase.Holds]

theorem FdView.closed {fd : Int} (h : FdView n s (.closing fd) C W U H) (ht : m = n → ¬ W) :
    FdView n (s.put m none) (.clearing m) C W U H := by
  have howner : (s.put m none).table.owner n = _ := FdTable.owner_put
  obtain ⟨h₁, h₂, h₃, h₄, h₅, h₆, h₇, h₈, h₉, h₁₀⟩ := h
  constructor <;> grind [FdShared.put, FdPhase.pending, FdPhase.unchecked, FdPhase.Holds]

/-- The bit is cleared. If the descriptor has been created again meanwhile, the thread
that did it is still to set the bit. -/
theorem FdView.cleared (h : FdView n s (.clearing m) C W U H) :
    FdView n { s with bitmap := s.bitmap.unsetBit m } .unlocking C W U H := by
  have hbit : (s.bitmap.unsetBit m).readBit n = _ := FdBitmap.readBit_unsetBit
  obtain ⟨h₁, h₂, h₃, h₄, h₅, h₆, h₇, h₈, h₉, h₁₀⟩ := h
  constructor <;> grind [FdPhase.pending, FdPhase.unchecked, FdPhase.Holds]

theorem FdView.locked {fd : Int} (h : FdView n s p C W U H) (hmtx : s.mtx = false)
    (hp₀ : p.pending = []) (hu₀ : p.unchecked = []) (hh₀ : ¬ p.Holds) :
    FdView n { s with mtx := true } (.closing fd) C W U H := by
  have hc : p ≠ .clearing n := fun h => hh₀ (h ▸ trivial)
  obtain ⟨h₁, h₂, h₃, h₄, h₅, h₆, h₇, h₈, h₉, h₁₀⟩ := h
  constructor <;> grind [FdPhase.pending, FdPhase.unchecked, FdPhase.Holds]

theorem FdView.unlocked (h : FdView n s .unlocking C W U H) :
    FdView n { s with mtx := false } .idle C W U H := by
  obtain ⟨h₁, h₂, h₃, h₄, h₅, h₆, h₇, h₈, h₉, h₁₀⟩ := h
  constructor <;> grind [FdPhase.pending, FdPhase.unchecked, FdPhase.Holds]

theorem FdView.enter {c : FdCall} {ok : Bool} (h : FdView n s (.checking c [] ok) C W U H)
    (ht : FdPhase.Tame n a W U (.checking c [] ok)) (hs : c.enter s ok a = some (s', p')) :
    FdView n s' p' C W U H := by
  have hidle : FdView n s .idle C W U H := h.moved rfl (fun _ h => h) (by simp) Iff.rfl
  cases c with
  | create fd =>
      rw [FdCall.enter] at hs
      split at hs <;> cases hs
      · exact h.created FdTable.owner_lowestFree rfl id id (by simp [FdPhase.pending]) nofun
      · exact hidle
  | openFile fd =>
      rw [FdCall.enter] at hs
      split at hs <;> cases hs
      · exact h.created FdTable.owner_lowestFree rfl id id (by simp [FdPhase.pending])
          (by simp [FdPhase.unchecked])
      · exact hidle
  | pipe =>
      rw [FdCall.enter] at hs
      split at hs <;> cases hs
      · have hfirst : FdView n _ (.saving [s.table.lowestFree]) C W U H :=
          h.created FdTable.owner_lowestFree rfl id id (by simp [FdPhase.pending]) nofun
        exact hfirst.created FdTable.owner_lowestFree rfl id id
          (by simp [FdPhase.pending, or_comm]) nofun
      · exact hidle
  | dup2 fd₁ fd₂ =>
      simp only [FdCall.enter] at hs
      generalize (if ok = true then fd₁ else -1) = rdi at hs
      split at hs
      · rename_i hok
        split at hs <;> cases hs
        · rename_i heq
          exact h.kept (heq ▸ hok.2.2.2) rfl id ht
        · exact h.replaced rfl id ht
      · cases hs
        exact hidle
  | close fd =>
      rw [FdCall.enter] at hs
      split at hs <;> cases hs
      exact h.locked (Bool.eq_false_iff.mpr ‹_›) rfl rfl id

theorem FdView.step (h : FdView n s p C W U H) (ht : p.Tame n a W U)
    (hs : p.step s a = some (s', p')) : FdView n s' p' C W U H := by
  cases p with
  | idle => cases hs
  | checking c fds ok =>
      cases fds with
      | nil => exact h.enter ht hs
      | cons fd fds =>
          rw [FdPhase.step] at hs
          split at hs <;> cases hs
          exact h.moved rfl (fun _ h => h) (by simp) Iff.rfl
  | opened m =>
      rw [FdPhase.step] at hs
      split at hs <;> cases hs
      · exact h.moved rfl nofun (by simp) Iff.rfl
      · exact h.moved rfl (fun _ h => h) (by simp) Iff.rfl
  | denying m =>
      cases hs
      exact h.denied
  | saving ms =>
      cases ms with
      | nil =>
          cases hs
          exact h.moved rfl (fun _ h => h) (by simp) Iff.rfl
      | cons m ms =>
          rw [FdPhase.step] at hs
          split at hs <;> cases hs
          exact h.saved (Bool.eq_false_iff.mpr ‹_›)
  | closing fd =>
      have hleft : FdView n s .unlocking C W U H := h.moved rfl (fun _ h => h) (by simp) Iff.rfl
      simp only [FdPhase.step] at hs
      split at hs
      · cases hs
        exact hleft
      · split at hs <;> cases hs
        · exact h.closed ht.1
        · exact hleft
        · exact absurd rfl ht.2
  | clearing m =>
      cases hs
      exact h.cleared
  | unlocking =>
      cases hs
      exact h.unlocked

end

/-! ## All threads -/

section
variable {ι : Type} {n : Nat} {s s' : FdShared} {f : ι → FdPhase}

/-- A thread other than `i` is in such a phase. -/
def Beside (f : ι → FdPhase) (i : ι) (P : FdPhase → Prop) : Prop := ∃ j, j ≠ i ∧ P (f j)

/-- The descriptor as thread `i` sees it. -/
def FdViewOf (n : Nat) (s : FdShared) (f : ι → FdPhase) (i : ι) : Prop :=
  FdView n s (f i) (Beside f i (· = .clearing n)) (Beside f i (n ∈ ·.pending))
    (Beside f i (n ∈ ·.unchecked)) (Beside f i FdPhase.Holds)

/-- What holds of a descriptor in every state: what somebody who has no call sees, and
that at most one thread may close it again, and at most one has the lock. -/
structure FdSound (n : Nat) (s : FdShared) (f : ι → FdPhase) : Prop where
  view : FdView n s .idle (∃ j, f j = .clearing n) (∃ j, n ∈ (f j).pending)
    (∃ j, n ∈ (f j).unchecked) (∃ j, (f j).Holds)
  alone : ∀ i j, n ∈ (f i).unchecked → n ∈ (f j).pending → i = j
  mutex : ∀ i j, (f i).Holds → (f j).Holds → i = j

theorem exists_eq_beside (i : ι) (P : FdPhase → Prop) :
    (∃ j, P (f j)) = (P (f i) ∨ Beside f i P) := by
  refine propext ⟨?_, ?_⟩
  · rintro ⟨j, hj⟩
    by_cases h : j = i
    · exact .inl (h ▸ hj)
    · exact .inr ⟨j, h, hj⟩
  · rintro (h | ⟨j, -, hj⟩)
    · exact ⟨i, h⟩
    · exact ⟨j, hj⟩

theorem unchecked_pending {p : FdPhase} (h : n ∈ p.unchecked) : n ∈ p.pending := by
  cases p with
  | opened m => exact h
  | denying m => exact h
  | _ => cases h

section
variable {p : FdPhase} {C W U H : Prop}

/-- Somebody who has no call sees the thread as one of the others. -/
theorem FdView.outside (h : FdView n s p C W U H) :
    FdView n s .idle (p = .clearing n ∨ C) (n ∈ p.pending ∨ W) (n ∈ p.unchecked ∨ U)
      (p.Holds ∨ H) := by
  obtain ⟨h₁, h₂, h₃, h₄, h₅, h₆, h₇, h₈, h₉, h₁₀⟩ := h
  refine ⟨fun ho => ?_, fun ho => ?_, ?_, ?_, nofun, fun _ => nofun, ?_, nofun, ?_, ?_⟩
  · exact (h₁ ho).imp_right .inr
  · rcases h₂ ho with ⟨hb, hp, hc⟩ | h
    · exact .inl ⟨hb, nofun, not_or.mpr ⟨hp, hc⟩⟩
    · exact .inr (.inr h)
  · exact fun h => h₃ (h.resolve_left nofun)
  · exact fun h => (h₄ (h.resolve_left nofun)).imp_right .inr
  · exact fun h => h₇ (h.resolve_left id)
  · exact Or.imp (fun h => h ▸ trivial) h₉
  · exact Or.imp unchecked_pending h₁₀

/-- And the other way round. -/
theorem FdView.inside (h : FdView n s .idle (p = .clearing n ∨ C) (n ∈ p.pending ∨ W)
      (n ∈ p.unchecked ∨ U) (p.Holds ∨ H)) (halone : n ∈ p.unchecked → ¬ W)
    (hothers : U → n ∉ p.pending) (hmutex : p.Holds → ¬ H) (hclears : C → H) (hwaits : U → W) :
    FdView n s p C W U H := by
  obtain ⟨h₁, h₂, h₃, h₄, -, -, h₇, -, -, -⟩ := h
  refine ⟨fun ho => ?_, fun ho => ?_, fun h => h₃ (.inr h), fun h => ?_, halone, hothers,
    fun h => h₇ (.inr h), hmutex, hclears, hwaits⟩
  · exact (h₁ ho).imp_right fun h => h.resolve_left nofun
  · rcases h₂ ho with ⟨hb, -, hc⟩ | h
    · exact .inl ⟨hb, not_or.mp hc⟩
    · exact .inr (h.resolve_left nofun)
  · exact (h₄ (.inr h)).imp_right fun h => h.resolve_left nofun

end

theorem FdSound.viewOf (h : FdSound n s f) (i : ι) : FdViewOf n s f i := by
  have hview := h.view
  rw [exists_eq_beside i (· = .clearing n), exists_eq_beside i (n ∈ ·.pending),
    exists_eq_beside i (n ∈ ·.unchecked), exists_eq_beside i FdPhase.Holds] at hview
  refine hview.inside ?_ ?_ ?_ ?_ ?_
  · rintro hi ⟨j, hj, hw⟩
    exact hj (h.alone i j hi hw).symm
  · rintro ⟨j, hj, hw⟩ hi
    exact hj (h.alone j i hw hi)
  · rintro hi ⟨j, hj, hw⟩
    exact hj (h.mutex j i hw hi)
  · rintro ⟨j, hj, hw⟩
    exact ⟨j, hj, hw ▸ trivial⟩
  · rintro ⟨j, hj, hw⟩
    exact ⟨j, hj, unchecked_pending hw⟩

/-- What thread `i` sees says everything but what the others are to each other. -/
theorem FdViewOf.sound {i : ι} (h : FdViewOf n s f i)
    (halone : ∀ j k, j ≠ i → k ≠ i → n ∈ (f j).unchecked → n ∈ (f k).pending → j = k)
    (hmutex : ∀ j k, j ≠ i → k ≠ i → (f j).Holds → (f k).Holds → j = k) : FdSound n s f := by
  refine ⟨?_, fun j k hj hk => ?_, fun j k hj hk => ?_⟩
  · rw [exists_eq_beside i (· = .clearing n), exists_eq_beside i (n ∈ ·.pending),
      exists_eq_beside i (n ∈ ·.unchecked), exists_eq_beside i FdPhase.Holds]
    exact h.outside
  · by_cases hji : j = i
    · by_cases hki : k = i
      · rw [hji, hki]
      · exact absurd ⟨k, hki, hk⟩ (h.alone (hji ▸ hj))
    · by_cases hki : k = i
      · exact absurd (hki ▸ hk) (h.others ⟨j, hji, hj⟩)
      · exact halone j k hji hki hj hk
  · by_cases hji : j = i
    · by_cases hki : k = i
      · rw [hji, hki]
      · exact absurd ⟨k, hki, hk⟩ (h.mutex (hji ▸ hj))
    · by_cases hki : k = i
      · exact absurd ⟨j, hji, hj⟩ (h.mutex (hki ▸ hk))
      · exact hmutex j k hji hki hj hk

variable [DecidableEq ι]

theorem beside_update {i : ι} {p : FdPhase} {P : FdPhase → Prop} :
    Beside (Function.update f i p) i P = Beside f i P := by
  refine propext (exists_congr fun j => and_congr_right fun hj => ?_)
  rw [Function.update_of_ne hj]

/-- A thread that goes on keeps the invariant if it does as far as it can see. -/
theorem FdSound.update (h : FdSound n s f) (i : ι) {p : FdPhase}
    (hview : FdView n s' p (Beside f i (· = .clearing n)) (Beside f i (n ∈ ·.pending))
      (Beside f i (n ∈ ·.unchecked)) (Beside f i FdPhase.Holds)) :
    FdSound n s' (Function.update f i p) := by
  have hof : FdViewOf n s' (Function.update f i p) i := by
    unfold FdViewOf
    rw [Function.update_self, beside_update, beside_update, beside_update, beside_update]
    exact hview
  refine hof.sound (fun j k hj hk => ?_) (fun j k hj hk => ?_)
  · rw [Function.update_of_ne hj, Function.update_of_ne hk]
    exact h.alone j k
  · rw [Function.update_of_ne hj, Function.update_of_ne hk]
    exact h.mutex j k

end

/-! ## Runs -/

section
variable {ι : Type}

/-- A thread closes a descriptor only if nobody is about to set its bit, and replaces
one only if nobody may still close it; and the kernel does not release a descriptor
and report an error. -/
def FdMove.Tame (s : FdThreads ι) : FdMove ι → Prop
  | .call _ _ => True
  | .step i a =>
      match s.phase i with
      | .closing fd => (∀ j, fd.toNat ∉ (s.phase j).pending) ∧ a ≠ .released
      | .checking (.dup2 _ fd₂) [] _ => ∀ j, fd₂.toNat ∉ (s.phase j).unchecked
      | _ => True

instance {k : Nat} (s : FdThreads (Fin k)) : DecidablePred (FdMove.Tame s)
  | .call _ _ => .isTrue trivial
  | .step i a => by
      unfold FdMove.Tame
      dsimp only
      split <;> infer_instance

variable {s s' : FdThreads ι} {n : Nat}

theorem FdMove.Tame.phase {i : ι} {a : FdAnswer} (h : (FdMove.step i a).Tame s) :
    (s.phase i).Tame n a (Beside s.phase i (n ∈ ·.pending))
      (Beside s.phase i (n ∈ ·.unchecked)) := by
  unfold FdMove.Tame at h
  dsimp only at h
  split at h
  · rename_i fd hp
    rw [hp]
    exact ⟨fun hn ⟨j, _, hj⟩ => h.1 j (hn ▸ hj), h.2⟩
  · rename_i fd₁ fd₂ ok hp
    rw [hp]
    exact fun hn ⟨j, _, hj⟩ => h j (hn ▸ hj)
  · rename_i hclosing hdup
    unfold FdPhase.Tame
    split
    · exact absurd ‹_› (hclosing _)
    · exact absurd ‹_› (hdup _ _ _)
    · trivial

variable [DecidableEq ι]

theorem FdSound.next {e : FdMove ι} (h : FdSound n s.shared s.phase) (ht : e.Tame s)
    (hs : s.next e = some s') : FdSound n s'.shared s'.phase := by
  cases e with
  | call i c =>
      rw [FdThreads.next] at hs
      split at hs
      · rename_i hidle
        cases hs
        have hview := h.viewOf i
        unfold FdViewOf at hview
        rw [hidle] at hview
        exact h.update i (hview.moved rfl (fun _ h => h) (by simp) Iff.rfl)
      · cases hs
  | step i a =>
      rw [FdThreads.next] at hs
      split at hs
      · cases hs
      · rename_i shared p hstep
        cases hs
        exact h.update i ((h.viewOf i).step ht.phase hstep)

/-- The bit of a descriptor that was right before is right again when all handlers
have finished. -/
theorem fdThreads_right {f : Files} (h₀ : FdRight f.table f.bitmap n)
    (run : Reach FdThreads.next (fun s e => FdMove.Tame s e) (· = FdThreads.start f) s)
    (hdone : ∀ i : ι, s.phase i = .idle) : FdRight s.shared.table s.shared.bitmap n := by
  have hsound : FdSound n s.shared s.phase := by
    refine run.inv (I := fun s => FdSound n s.shared s.phase) (fun s hs => ?_)
      (fun s e s' h ht hs => h.next ht hs)
    subst hs
    refine ⟨⟨fun h => .inl (h₀.1 h), fun h => .inl ⟨h₀.2 h, nofun, nofun⟩, ?_, ?_, nofun,
      fun _ => nofun, ?_, nofun, ?_, ?_⟩, nofun, nofun⟩
    · rintro (h | ⟨j, h⟩) <;> cases h
    · rintro (h | ⟨j, h⟩) <;> cases h
    · rintro (h | ⟨j, h⟩) <;> exact h.elim
    · exact nofun
    · exact nofun
  have hnone (P : FdPhase → Prop) (hP : ¬ P .idle) : ¬ ∃ j, P (s.phase j) := by
    rintro ⟨j, hj⟩
    exact hP (hdone j ▸ hj)
  refine ⟨fun h => ?_, fun h => ?_⟩
  · rcases hsound.view.free h with h | h | h
    · exact h
    · cases h
    · exact absurd h (hnone (· = .clearing n) nofun)
  · rcases hsound.view.owned h with h | h | h
    · exact h.1
    · cases h
    · exact absurd h (hnone (n ∈ ·.pending) nofun)

end

-- Both threads are in their handlers from the first event on. One creates descriptor 2
-- again when the other has closed it and has not cleared its bit.
theorem fdThreads_right_close :
    ∃ s : FdThreads (Fin 2),
      s.shared.table.owner 2 = some .application ∧
        FdRight s.shared.table s.shared.bitmap 2 := by
  obtain ⟨s, hs, h, hidle⟩ : ∃ s : FdThreads (Fin 2),
      runEvents FdThreads.next (fun s e => FdMove.Tame s e)
        (FdThreads.start (Files.start (List.replicate 3 (some .application))))
        [.call 0 (.close 2), .call 1 (.create none), .step 0 .succeeds, .step 0 .succeeds,
          .step 0 .succeeds, .step 1 .succeeds, .step 0 .succeeds, .step 0 .succeeds,
          .step 1 .succeeds, .step 1 .succeeds] = some s ∧
      s.shared.table.owner 2 = some .application ∧ ∀ i, s.phase i = .idle :=
    ⟨_, rfl, by decide⟩
  exact ⟨s, h, fdThreads_right (by unfold FdRight; decide) (.runEvents (.start rfl) hs) hidle⟩

-- Descriptor 2 is closed and created again between the other thread's check and its
-- kernel call, and closed a second time before its bit is set.
theorem fdThreads_not_right :
    FdRight (Files.start (List.replicate 3 (some .application))).table
      (Files.start (List.replicate 3 (some .application))).bitmap 2 ∧
    ∃ s : FdThreads (Fin 2),
      Reach FdThreads.next (fun _ _ => True)
        (· = FdThreads.start (Files.start (List.replicate 3 (some .application)))) s ∧
      (∀ i, s.phase i = .idle) ∧ ¬ FdRight s.shared.table s.shared.bitmap 2 := by
  refine ⟨by unfold FdRight; decide, ?_⟩
  obtain ⟨s, hs, h⟩ : ∃ s : FdThreads (Fin 2),
      runEvents FdThreads.next (fun _ _ => True)
        (FdThreads.start (Files.start (List.replicate 3 (some .application))))
        ([.call 0 (.close 2), .step 0 .succeeds, .call 1 (.close 2)] ++
          List.replicate 5 (.step 1 .succeeds) ++
          [.call 1 (.create none), .step 1 .succeeds] ++
          List.replicate 4 (.step 0 .succeeds) ++ List.replicate 2 (.step 1 .succeeds)) = some s ∧
      (∀ i, s.phase i = .idle) ∧ ¬ FdRight s.shared.table s.shared.bitmap 2 := by
    refine ⟨_, rfl, ?_⟩
    unfold FdRight
    decide
  exact ⟨s, .runEvents (.start rfl) hs, h⟩

end Secpoline
