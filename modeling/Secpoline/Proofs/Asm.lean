import Mathlib.Algebra.Group.Nat.Defs
import Mathlib.Data.List.Nodup
import Secpoline.Model.Asm

/-!
# Executing straight-line code

A piece of code goes through if every instruction on the way is permitted, and
then it does what its instructions do one after the other. Which instructions are
permitted is a question about the few that can stop: the comparisons, and
`wrpkru`. What the code leaves in a register is then a computation.

Saving registers on the stack and loading them again is done once for any list of
registers.
-/

namespace Secpoline

namespace Machine

/-- What a piece of code does if nothing stops it. -/
def applyAll (code : List Instr) (m : Machine) : Machine := code.foldl apply m

/-- Nothing stops the code. -/
def Passes : List Instr → Machine → Prop
  | [], _ => True
  | i :: rest, m => m.permits i = true ∧ Passes rest (m.apply i)

theorem Passes.run {code : List Instr} {m : Machine} (h : Passes code m) :
    run code m = some (applyAll code m) := by
  induction code generalizing m with
  | nil => rfl
  | cons i rest ih =>
      show (if m.permits i then _ else _) = _
      rw [if_pos h.1]
      exact ih h.2

theorem run_append (c₁ c₂ : List Instr) (m : Machine) :
    run (c₁ ++ c₂) m = (run c₁ m).bind (run c₂) := by
  induction c₁ generalizing m with
  | nil => rfl
  | cons i rest ih =>
      show (if m.permits i then run (rest ++ c₂) _ else none) = _
      rw [ih]
      show _ = (if m.permits i then run rest _ else none).bind _
      split <;> rfl

theorem Passes.append {c₁ c₂ : List Instr} {m : Machine} (h₁ : Passes c₁ m)
    (h₂ : Passes c₂ (applyAll c₁ m)) : Passes (c₁ ++ c₂) m := by
  induction c₁ generalizing m with
  | nil => exact h₂
  | cons i rest ih => exact ⟨h₁.1, ih h₁.2 h₂⟩

theorem Passes.take {code : List Instr} {m : Machine} (h : Passes code m) (i : Nat) :
    Passes (code.take i) m := by
  induction code generalizing m i with
  | nil => rw [List.take_nil]; trivial
  | cons x rest ih =>
      cases i with
      | zero => trivial
      | succ i => exact ⟨h.1, ih h.2 i⟩

theorem applyAll_append (c₁ c₂ : List Instr) (m : Machine) :
    applyAll (c₁ ++ c₂) m = applyAll c₂ (applyAll c₁ m) := List.foldl_append

/-! ## Flags and halves of registers -/

theorem getLsbD_setFlag (f : BitVec 32) (b : Bool) :
    (if b then f ||| 0x40 else f &&& ~~~0x40).getLsbD 6 = b := by
  cases b <;> simp

theorem getLsbD_setCarry (f : BitVec 32) (b : Bool) :
    (if b then f ||| 0x1 else f &&& ~~~0x1).getLsbD 0 = b := by
  cases b <;> simp

/-- A byte loaded into the low byte of a register. -/
theorem setWidth_loadByte (x : Quad) (b : BitVec 8) :
    (x >>> 8 <<< 8 ||| b.setWidth 64).setWidth 8 = b := by
  ext i hi
  simp

theorem setWidth_shl (x : Quad) : (x <<< 32).setWidth 32 = 0#32 := by
  ext i hi
  simp

/-- The low half of a register whose upper half was put there by a shift. -/
theorem setWidth_shl_or (x : Quad) (c : BitVec 32) :
    (x <<< 32 ||| c.setWidth 64).setWidth 32 = c := by
  ext i hi
  simp

/-- Shifted up and down again: the low half. -/
theorem shl_shr (x : Quad) : x <<< 32 >>> 32 = (x.setWidth 32).setWidth 64 := by
  ext i hi
  simp
  grind

theorem shl_or_shr (x : Quad) (c : BitVec 32) :
    (x <<< 32 ||| c.setWidth 64) >>> 32 = (x.setWidth 32).setWidth 64 := by
  ext i hi
  simp
  grind

/-- The two halves of a register together again. -/
theorem halves_or (x : Quad) (c : BitVec 32) :
    (x <<< 32 ||| c.setWidth 64) >>> 32 ||| x >>> 32 <<< 32 = x := by
  ext i hi
  simp
  grind

theorem permits_wrpkru {m : Machine} (hc : (m.reg .rcx).setWidth 32 = 0#32)
    (hd : (m.reg .rdx).setWidth 32 = 0#32) : m.permits .wrpkru = true := by
  rw [permits, hc, hd]
  rfl

/-! ## Saving and loading registers -/

/-- Memory after the words were pushed. -/
def pushed (sp : Quad) : List Quad → (Quad → Quad) → Quad → Quad
  | [], mem => mem
  | v :: vs, mem => pushed (sp - 8) vs (Function.update mem (sp - 8) v)

theorem sub_push (sp : Quad) (k : Nat) :
    sp - 8 - BitVec.ofNat 64 (8 * (k + 1)) = sp - BitVec.ofNat 64 (8 * (k + 1 + 1)) := by
  bv_omega

theorem pushed_of_ne {vs : List Quad} {sp a : Quad} {mem : Quad → Quad}
    (h : ∀ k < vs.length, a ≠ sp - BitVec.ofNat 64 (8 * (k + 1))) :
    pushed sp vs mem a = mem a := by
  induction vs generalizing sp mem with
  | nil => rfl
  | cons v vs ih =>
      rw [pushed, ih fun k hk => sub_push sp k ▸ h (k + 1) (Nat.succ_lt_succ hk)]
      exact Function.update_of_ne (h 0 (Nat.succ_pos _)) _ _

/-- The words are found where they were pushed. -/
theorem pushed_at {vs : List Quad} (hlen : vs.length < 2 ^ 60) (sp : Quad) (mem : Quad → Quad)
    {k : Nat} {v : Quad} (hk : vs[k]? = some v) :
    pushed sp vs mem (sp - BitVec.ofNat 64 (8 * (k + 1))) = v := by
  induction vs generalizing sp mem k with
  | nil => cases hk
  | cons w vs ih =>
      rw [List.length_cons] at hlen
      cases k with
      | zero =>
          rw [pushed, pushed_of_ne]
          · rw [← Option.some.inj hk]
            exact Function.update_self _ _ _
          · intro k hk'
            rw [sub_push]
            bv_omega
      | succ k =>
          rw [pushed, ← sub_push]
          exact ih (by omega) _ _ hk

/-- The stack pointer itself can only be the first to be saved. -/
theorem applyAll_push {rs : List Reg} (h : .rsp ∉ rs.tail) (m : Machine) :
    m.applyAll (rs.map .push) =
      { m with
        reg := Function.update m.reg .rsp (m.reg .rsp - BitVec.ofNat 64 (8 * rs.length))
        mem := pushed (m.reg .rsp) (rs.map m.reg) m.mem } := by
  induction rs generalizing m with
  | nil => simp [applyAll, pushed]
  | cons r rs ih =>
      have hsame : rs.map (m.apply (.push r)).reg = rs.map m.reg :=
        List.map_congr_left fun x hx => Function.update_of_ne (fun e : x = .rsp => h (e ▸ hx)) _ _
      show (m.apply (.push r)).applyAll (rs.map .push) = _
      rw [ih fun hm => h (List.mem_of_mem_tail hm), hsame]
      have hsp : (m.apply (.push r)).reg .rsp = m.reg .rsp - 8 := by
        show Function.update m.reg .rsp _ .rsp = _
        exact Function.update_self _ _ _
      have hoff : m.reg .rsp - 8 - BitVec.ofNat 64 (8 * rs.length) =
          m.reg .rsp - BitVec.ofNat 64 (8 * (r :: rs).length) := by
        rw [List.length_cons]
        bv_omega
      rw [hsp, hoff]
      show { m with
        reg := Function.update (Function.update m.reg .rsp (m.reg .rsp - 8)) .rsp _
        mem := _ : Machine } = _
      rw [Function.update_idem]
      rfl

/-- What popping the registers `rs` leaves in each register. -/
def popped (m : Machine) (rs : List Reg) (r : Reg) : Quad :=
  if r = .rsp then m.reg .rsp + 8 * BitVec.ofNat 64 rs.length
  else if r ∈ rs then m.mem (m.reg .rsp + 8 * BitVec.ofNat 64 (rs.idxOf r))
  else m.reg r

theorem applyAll_pop {rs : List Reg} (h : .rsp ∉ rs) (hnd : rs.Nodup) (m : Machine) :
    m.applyAll (rs.map .pop) = { m with reg := popped m rs } := by
  induction rs generalizing m with
  | nil =>
      have : popped m [] = m.reg := by
        funext r
        simp only [popped, List.not_mem_nil, if_false, List.length_nil]
        split
        · subst r
          simp
        · rfl
      rw [this]
      rfl
  | cons r rs ih =>
      have hr : r ≠ .rsp := fun e => h (e ▸ List.mem_cons_self)
      have hrs : .rsp ∉ rs := fun hm => h (List.mem_cons_of_mem _ hm)
      obtain ⟨hnot, hnd'⟩ := List.nodup_cons.mp hnd
      show (m.apply (.pop r)).applyAll (rs.map .pop) = _
      rw [ih hrs hnd']
      have hsp : (m.apply (.pop r)).reg .rsp = m.reg .rsp + 8 := by
        show Function.update (Function.update m.reg .rsp _) r _ .rsp = _
        rw [Function.update_of_ne hr.symm]
        exact Function.update_self _ _ _
      have hregs : popped (m.apply (.pop r)) rs = popped m (r :: rs) := by
        funext x
        simp only [popped, hsp, List.length_cons]
        by_cases hx : x = .rsp
        · rw [if_pos hx, if_pos hx]
          bv_omega
        rw [if_neg hx, if_neg hx]
        by_cases hxr : x = r
        · subst x
          rw [if_neg hnot, if_pos List.mem_cons_self, List.idxOf_cons_self]
          show Function.update (Function.update m.reg .rsp _) r _ r = _
          rw [Function.update_self]
          simp
        · by_cases hmem : x ∈ rs
          · rw [if_pos hmem, if_pos (List.mem_cons_of_mem _ hmem),
              List.idxOf_cons_ne _ (Ne.symm hxr)]
            show m.mem _ = m.mem _
            congr 1
            bv_omega
          · rw [if_neg hmem, if_neg (by simp [hxr, hmem])]
            show Function.update (Function.update m.reg .rsp _) r _ x = _
            rw [Function.update_of_ne hxr, Function.update_of_ne hx]
      rw [hregs]
      rfl

/-- Pushes and pops stop nowhere. -/
theorem passes_push (rs : List Reg) (m : Machine) : Passes (rs.map .push) m := by
  induction rs generalizing m with
  | nil => trivial
  | cons r rs ih => exact ⟨rfl, ih _⟩

theorem passes_pop (rs : List Reg) (m : Machine) : Passes (rs.map .pop) m := by
  induction rs generalizing m with
  | nil => trivial
  | cons r rs ih => exact ⟨rfl, ih _⟩

/-- Code between the pushes and the pops of the registers it uses leaves all registers
as they were. -/
theorem applyAll_saving (rs : List Reg) (h : .rsp ∉ rs) (hnd : rs.Nodup)
    (hlen : rs.length < 2 ^ 60) (body : List Instr) (m : Machine) {b : Machine}
    (hb : (m.applyAll (rs.map .push)).applyAll body = b)
    (hreg : ∀ r, r ∉ rs → b.reg r = (m.applyAll (rs.map .push)).reg r)
    (hmem : b.mem = (m.applyAll (rs.map .push)).mem) :
    m.applyAll (rs.map .push ++ body ++ rs.reverse.map .pop) = { b with reg := m.reg } := by
  rw [applyAll_append, applyAll_append, hb,
    applyAll_pop (by rwa [List.mem_reverse]) (List.nodup_reverse.mpr hnd)]
  rw [applyAll_push fun hm => h (List.mem_of_mem_tail hm)] at hreg hmem
  have hsp : b.reg .rsp = m.reg .rsp - BitVec.ofNat 64 (8 * rs.length) := by
    rw [hreg .rsp h]
    show Function.update m.reg .rsp _ .rsp = _
    exact Function.update_self _ _ _
  congr 1
  funext r
  rw [popped]
  split
  next hr =>
    subst hr
    rw [hsp, List.length_reverse]
    bv_omega
  next hr =>
  split
  next hm =>
    -- The pops come in the opposite order, so the word is the one pushed for the register.
    have hj : rs.reverse.idxOf r < rs.length := by
      simpa using List.idxOf_lt_length_iff.mpr hm
    have hget : rs[rs.length - 1 - rs.reverse.idxOf r]? = some r := by
      rw [← List.getElem?_reverse hj, List.getElem?_idxOf hm]
    have hslot : b.reg .rsp + 8 * BitVec.ofNat 64 (rs.reverse.idxOf r) =
        m.reg .rsp - BitVec.ofNat 64 (8 * (rs.length - 1 - rs.reverse.idxOf r + 1)) := by
      rw [hsp]
      bv_omega
    rw [hslot, hmem]
    refine pushed_at (by rwa [List.length_map]) _ _ ?_
    rw [List.getElem?_map, hget]
    rfl
  next hm =>
    rw [List.mem_reverse] at hm
    exact (hreg r hm).trans (Function.update_of_ne hr _ _)

end Machine

end Secpoline
