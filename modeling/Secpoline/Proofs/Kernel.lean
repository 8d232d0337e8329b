import Secpoline.Model.Kernel

/-!
# What a kernel call can do

One lemma for each call of `Kern.apply`: the kernel refused it and nothing has
changed, or it was possible and this is the state afterwards.
-/

namespace Secpoline

theorem Prot.noExec_isExec (p : Prot) : p.noExec.isExec = false := by
  unfold Prot.noExec Prot.isExec
  rw [BitVec.and_assoc]
  simp

theorem Prot.noWrite_isExec (p : Prot) : p.noWrite.isExec = p.isExec := by
  unfold Prot.noWrite Prot.isExec
  rw [BitVec.and_assoc]
  rfl

variable {k k' : Kern} {r : Int} {start size oldSize newSize newStart : Nat} {prot : Prot}
  {fixed mayMove dontUnmap : Bool} {key : Option Nat}

@[simp] theorem inPages_iff {p : Nat} :
    inPages start size p = true ↔ start / 4096 ≤ p ∧ p < start / 4096 + pageCount size := by
  simp [inPages]

theorem inPages_page {p : Nat} : inPages start 4096 p = true ↔ p = start / 4096 := by
  rw [inPages_iff]
  show _ ≤ p ∧ p < _ + 1 ↔ _
  omega

/-- A part of a range, counted in pages. -/
theorem inPages_group (hstart : start % 4096 = 0) {j m p : Nat} :
    inPages (start + 4096 * j) (4096 * m) p = true ↔
      start / 4096 + j ≤ p ∧ p < start / 4096 + j + m := by
  rw [inPages_iff]
  unfold pageCount
  omega

theorem Kern.apply_mmap_cases (h : k.apply r (.mmap start size prot fixed) = some k') :
    (IsError r ∧ k' = k) ∨
      (0 ≤ r ∧ InUserSpace r.toNat size ∧ 0 < size ∧ (fixed → r.toNat = start) ∧
        (¬ fixed → k.Unmapped r.toNat size) ∧
        k' = k.map r.toNat size (some { prot, key := 0 })) := by
  rw [Kern.apply] at h
  split at h
  · rename_i hr
    cases h
    exact .inl ⟨hr, rfl⟩
  split at h
  · rename_i _ hc
    cases h
    obtain ⟨h₁, h₂, h₃, h₄, h₅⟩ := hc
    exact .inr ⟨h₁, h₂, h₃, h₄, h₅, rfl⟩
  · cases h

theorem not_isError_zero : ¬ IsError 0 := by decide

theorem Kern.apply_mprotect_cases (h : k.apply r (.mprotect start size prot key) = some k') :
    (IsError r ∧ k' = k) ∨
      (r = 0 ∧ InUserSpace start size ∧ k.Mapped start size ∧
        k' = k.protect start size prot key) := by
  rw [Kern.apply] at h
  split at h
  · rename_i hr
    cases h
    exact .inl ⟨hr, rfl⟩
  split at h
  · rename_i _ hc
    cases h
    exact .inr ⟨hc.1, hc.2.1, hc.2.2, rfl⟩
  · cases h

theorem Kern.apply_munmap_cases (h : k.apply r (.munmap start size) = some k') :
    (IsError r ∧ k' = k) ∨
      (r = 0 ∧ InUserSpace start size ∧ 0 < size ∧ k' = k.unmap start size) := by
  rw [Kern.apply] at h
  split at h
  · rename_i hr
    cases h
    exact .inl ⟨hr, rfl⟩
  split at h
  · rename_i _ hc
    cases h
    exact .inr ⟨hc.1, hc.2.1, hc.2.2, rfl⟩
  · cases h

/-- The mapping shrinks or grows where it is. -/
structure Kern.ResizedInPlace (k k' : Kern) (start oldSize newSize : Nat) : Prop where
  space : InUserSpace start newSize
  room : k.Unmapped (start + 4096 * pageCount oldSize) (newSize - 4096 * pageCount oldSize)
  shrink : pageCount newSize ≤ pageCount oldSize →
    k' = k.unmap (start + 4096 * pageCount newSize) (4096 * (pageCount oldSize - pageCount newSize))
  grow : ¬ pageCount newSize ≤ pageCount oldSize →
    k' = k.map (start + 4096 * pageCount oldSize) (newSize - 4096 * pageCount oldSize)
      (k.pages (start / 4096))

/-- The mapping goes to another place. -/
structure Kern.Moved (k k' : Kern) (start oldSize newSize target : Nat)
    (mayMove fixed dontUnmap : Bool) (newStart : Nat) : Prop where
  moves : mayMove
  space : InUserSpace target newSize
  atTarget : fixed → target = newStart
  free : ¬ fixed → k.Unmapped target newSize
  whole : dontUnmap → pageCount oldSize = pageCount newSize
  apart : target + 4096 * pageCount newSize ≤ start ∨ start + 4096 * pageCount oldSize ≤ target
  eq : k' = k.move start oldSize target newSize dontUnmap

theorem Kern.apply_mremap_cases
    (h : k.apply r (.mremap start oldSize newSize mayMove fixed dontUnmap newStart) = some k') :
    (IsError r ∧ k' = k) ∨
      (0 ≤ r ∧ InUserSpace start oldSize ∧ 0 < oldSize ∧ 0 < newSize ∧ k.Mapped start oldSize ∧
        k.Uniform start oldSize ∧
        ((r.toNat = start ∧ ¬ fixed ∧ ¬ dontUnmap ∧ k.ResizedInPlace k' start oldSize newSize) ∨
          k.Moved k' start oldSize newSize r.toNat mayMove fixed dontUnmap newStart)) := by
  rw [Kern.apply] at h
  split at h
  · rename_i hr
    cases h
    exact .inl ⟨hr, rfl⟩
  split at h
  · cases h
  rename_i _ hc
  obtain ⟨hr, hold, hpos, hnew, hmapped, huniform⟩ := Decidable.not_not.mp hc
  refine .inr ⟨hr, hold, hpos, hnew, hmapped, huniform, ?_⟩
  split at h
  · rename_i hplace
    refine .inl ⟨hplace.1, hplace.2.1, hplace.2.2, ?_⟩
    split at h
    · rename_i hroom
      split at h
      · rename_i hle
        cases h
        exact ⟨hroom.1, hroom.2, fun _ => rfl, fun hn => absurd hle hn⟩
      · rename_i hle
        cases h
        exact ⟨hroom.1, hroom.2, fun hp => absurd hp hle, fun _ => rfl⟩
    · cases h
  split at h
  · rename_i _ hm
    obtain ⟨h₁, h₂, h₃, h₄, h₅, h₆⟩ := hm
    cases h
    exact .inr ⟨h₁, h₂, h₃, h₄, h₅, h₆, rfl⟩
  · cases h

end Secpoline
