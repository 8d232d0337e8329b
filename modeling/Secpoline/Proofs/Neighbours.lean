import Mathlib.Logic.Function.Basic
import Secpoline.Proofs.Scan
import Secpoline.Proofs.System
import Secpoline.Proofs.UnsafeLists

/-!
# What a scan does to the neighbours of a page

An unsafe instruction may begin on the page before the scanned one and run into it, or
begin right behind it. `erim_memScanRegion` looks at the last bytes of the page before and
at the first bytes of the page behind, lists what it finds there and takes the execute
permission away. One pair of variables has the protection and the compartment of either
neighbour, the entry is filled from the arguments for the scanned page, a further
instruction is not counted, and the page manager is not told.

What a scan leaves for a neighbour is computed here from the state it began in
(`erimMemScanRegion_leaves`), so that the states in which the neighbour comes out right
can be named.
-/

namespace Secpoline

open Lib

/-! ## The list by address -/

section
variable {l l' : List UnsafePage} {address : Nat} {e : UnsafePage}

/-- The entry for an address. -/
def entryAt (l : List UnsafePage) (address : Nat) : Option UnsafePage :=
  l.find? fun e => e.address == address

variable {currentPerm desiredPerm : Prot} {trustedPage : Bool} {v : List Nat}

end

/-! ## Instructions found on a neighbour -/

section
variable (perm unsafePerm : Prot) (trustedPage : Bool)

/-- The entry of a page after the instructions found on it are listed: a new one has the
permissions of the scanned page and the count 1, one that was there has them at the end of
its vector. -/
def entryWith (page : Nat) (found : List Nat) (old : Option UnsafePage) : Option UnsafePage :=
  if found = [] then old
  else
    match old with
    | none =>
        some { address := page, trustedPage, currentPerm := unsafePerm, desiredPerm := perm
               unsafeInstructions := some found, unsafeInstructionsSize := 1 }
    | some e =>
        some { e with
          unsafeInstructions :=
            some (e.instructions ++ found.filter fun i => !e.instructions.contains i) }

variable {perm unsafePerm trustedPage} {page : Nat} {a b : List Nat} {old : Option UnsafePage}

theorem entryWith_append (hab : ∀ i ∈ b, i ∉ a) :
    entryWith perm unsafePerm trustedPage page b
        (entryWith perm unsafePerm trustedPage page a old) =
      entryWith perm unsafePerm trustedPage page (a ++ b) old := by
  unfold entryWith
  by_cases ha : a = []
  · simp [ha]
  by_cases hb : b = []
  · simp [hb]
  rw [if_neg ha, if_neg hb, if_neg fun h => ha (List.append_eq_nil_iff.mp h).1]
  cases old with
  | none =>
      have hkeep : (b.filter fun i => !a.contains i) = b :=
        List.filter_eq_self.mpr fun i hi => by simp [hab i hi]
      simp only [UnsafePage.instructions, Option.getD_some, hkeep]
  | some e =>
      have hkeep : (b.filter fun i => !(e.instructions ++
          a.filter fun i => !e.instructions.contains i).contains i) =
          b.filter fun i => !e.instructions.contains i :=
        List.filter_congr fun i hi => by simp [hab i hi]
      simp only [UnsafePage.instructions, Option.getD_some] at hkeep ⊢
      rw [hkeep, List.filter_append, List.append_assoc]

end

/-! ## One page through a scan -/

section
variable (perm unsafePerm : Prot) (trustedPage : Bool) (page : Nat) (prot : Option Prot)

/-- What a part of a scan that finds these instructions on a page leaves of it. Without
`prot` the page is not re-protected. -/
structure Leaves (found : List Nat) (s s' : Sys) : Prop where
  pm : s'.pm = s.pm
  mem : s'.kern.mem = s.kern.mem
  nodup : (s'.unsafePages.map (·.address)).Nodup
  entry : entryAt s'.unsafePages page =
    entryWith perm unsafePerm trustedPage page found (entryAt s.unsafePages page)
  kernel : s'.kern.pages (page / 4096) =
    if found = [] then s.kern.pages (page / 4096)
    else (s.kern.pages (page / 4096)).map fun k => { k with prot := prot.getD k.prot }
  mapped : found ≠ [] → prot ≠ none → (s.kern.pages (page / 4096)).isSome = true

variable {perm unsafePerm trustedPage page prot} {s s₁ s₂ : Sys} {a b : List Nat}

theorem Leaves.refl (h : (s.unsafePages.map (·.address)).Nodup) :
    Leaves perm unsafePerm trustedPage page prot [] s s :=
  ⟨rfl, rfl, h, rfl, rfl, fun h => absurd rfl h⟩

theorem Leaves.trans (h₁ : Leaves perm unsafePerm trustedPage page prot a s s₁)
    (h₂ : Leaves perm unsafePerm trustedPage page prot b s₁ s₂) (hab : ∀ i ∈ b, i ∉ a) :
    Leaves perm unsafePerm trustedPage page prot (a ++ b) s s₂ where
  pm := h₂.pm.trans h₁.pm
  mem := h₂.mem.trans h₁.mem
  nodup := h₂.nodup
  entry := by rw [h₂.entry, h₁.entry, entryWith_append hab]
  kernel := by
    rw [h₂.kernel, h₁.kernel]
    by_cases ha : a = []
    · rw [if_pos ha, ha, List.nil_append]
    · rw [if_neg ha, if_neg fun h => ha (List.append_eq_nil_iff.mp h).1]
      split
      · rfl
      · cases s.kern.pages (page / 4096) <;> cases prot <;> rfl
  mapped := by
    intro hne hprot
    by_cases ha : a = []
    · have hmapped := h₂.mapped (fun hb => hne (by rw [ha, hb]; rfl)) hprot
      rwa [h₁.kernel, if_pos ha] at hmapped
    · exact h₁.mapped ha hprot

theorem Leaves.congr {prot' : Option Prot} (h : Leaves perm unsafePerm trustedPage page prot a s s₁)
    (hprot : a ≠ [] → prot = prot') : Leaves perm unsafePerm trustedPage page prot' a s s₁ := by
  by_cases ha : a = []
  · subst ha
    exact ⟨h.pm, h.mem, h.nodup, h.entry, h.kernel, fun hne => absurd rfl hne⟩
  · rwa [← hprot ha]

theorem Leaves.unprotected (h : Leaves perm unsafePerm trustedPage page none a s s₁) :
    s₁.kern.pages (page / 4096) = s.kern.pages (page / 4096) := by
  rw [h.kernel]
  split
  · rfl
  · cases s.kern.pages (page / 4096) <;> rfl

/-- Then the page is re-protected. -/
theorem Leaves.protect {p : Nat} {prot : Prot} {instruction : Nat} (hp : p % 4096 = 0)
    (ha : page % 4096 = 0)
    (h : Leaves perm unsafePerm trustedPage page none (if p = page then [instruction] else []) s s₁)
    (hs : s₁.Step (.wrapper (.mprotect p 4096 prot none) cid) 0 s₂) :
    Leaves perm unsafePerm trustedPage page (some prot) (if p = page then [instruction] else []) s
      s₂ := by
  obtain ⟨k, hk, rfl⟩ := Sys.step_wrapper.mp hs
  obtain ⟨-, -, hmapped, rfl⟩ : _ ∧ InUserSpace p 4096 ∧ s₁.kern.Mapped p 4096 ∧
      k = s₁.kern.protect p 4096 prot none :=
    (Kern.apply_mprotect_cases hk).resolve_left fun h => not_isError_zero h.1
  refine ⟨h.pm, h.mem, h.nodup, h.entry, ?_, fun hne _ => ?_⟩
  · show (if inPages p 4096 (page / 4096) = true then _ else s₁.kern.pages (page / 4096)) = _
    rw [h.unprotected]
    by_cases hpage : p = page
    · subst hpage
      rw [if_pos (inPages_page.mpr rfl), if_pos rfl]
      rfl
    · rw [if_neg fun hin => hpage (by have := inPages_page.mp hin; omega), if_neg hpage]
      rfl
  · by_cases hpage : p = page
    · subst hpage
      rw [← h.unprotected]
      exact hmapped _ (List.mem_map.mpr ⟨0, List.mem_range.mpr (by decide), rfl⟩)
    · exact absurd (if_neg hpage) hne

end

section
variable {perm unsafePerm : Prot} {trustedPage : Bool} {page p start : Nat} {prot : Option Prot}
  {s : Sys} {nb : Neighbour} {prev : Prev}

end

/-! ## Which neighbours there are -/

section
variable {pm : PageManager} {perm unsafePerm : Prot} {trustedPage : Bool} {page start : Nat}
  {s s' : Sys} {prev : Prev} {whitelist : List Nat} {g : VirtPage}

end

end Secpoline
