import Secpoline.Model.Guards
import Secpoline.Proofs.Scan
import Mathlib.Logic.Relation

/-!
# Whether an accepted guard guards

For each of the three accepted sequences, where execution can be between its
bytes and what is known there. The two behind a WRPKRU do what they are meant to.
The one behind an XRSTOR is right for an XRSTOR of three bytes. With an operand
that is longer, the bytes that are meant as the guard belong to the XRSTOR in
part, and what is left of them decodes to something else.
-/

namespace Secpoline

variable {m : Mem} {a size : Nat} {Q : Cpu → Cpu → Prop}

/-- Whatever the processor and the memory hold when execution comes to `a`: it
meets known instructions only, and if it leaves the `size` bytes there it does so
in `Q`, which relates the state at `a` to the state behind. -/
def GuardHolds (m : Mem) (a size : Nat) (Q : Cpu → Cpu → Prop) : Prop :=
  ∀ c c' : Cpu, c.rip = a → Relation.ReflTransGen (Cpu.StepIn m a size) c c' →
    (a ≤ c'.rip ∧ c'.rip < a + size → decode m c'.rip ≠ none) ∧
      (¬ (a ≤ c'.rip ∧ c'.rip < a + size) → Q c c')

/-- What the accepted sequences promise. -/
structure Guards (m : Mem) (a : Nat) : Prop where
  wrpkru : isBenignWRPKRU m a = true →
    (bytesAt m a revokeSequence = true ∧
      GuardHolds m a 13 fun _ c' => c'.pkru = .ofNat 32 REVOKE_PERMISSIONS) ∨
    (bytesAt m a internalSequence = true ∧
      GuardHolds m a 19 fun _ c' => ((c'.gs COMPARTMENT_ID_OFFSET).toNat : Int) = TS_MONITOR)
  xrstor : isBenignXRSTOR m a = true → GuardHolds m a 14 fun c _ => c.eax.getLsbD 9 = false

/-- The operand of an XRSTOR is a register and nothing else, or it is so long that
only the `ud2` is left of the guard. -/
def PlainOperand (modrm : UInt8) : Prop :=
  (modrm &&& 0xC0 = 0 ∧ modrm &&& 7 ≠ 4 ∧ modrm &&& 7 ≠ 5) ∨ modrm = 0xac

instance (modrm : UInt8) : Decidable (PlainOperand modrm) := inferInstanceAs (Decidable (_ ∨ _))

/-! ## Steps -/

theorem Cpu.step_iff {c c' : Cpu} {i : GuardInstr} {n : Nat} (h : decode m c.rip = some (i, n)) :
    Cpu.Step m c c' ↔ ∃ o, i.exec o { c with rip := c.rip + n } = some c' := by
  constructor
  · rintro ⟨i', n', o, hd, he⟩
    cases h.symm.trans hd
    exact ⟨o, he⟩
  · rintro ⟨o, he⟩
    exact ⟨i, n, o, h, he⟩

/-- A place in a guard where execution can be, and what is known there. -/
abbrev Point := Nat × (Cpu → Cpu → Prop)

/-- Execution that began in the first state is now at one of the points. -/
def Reached (points : List Point) (a : Nat) (c c' : Cpu) : Prop :=
  ∃ p ∈ points, c'.rip = a + p.1 ∧ p.2 c c'

/-- A guard holds if execution gets from each point to another one, and the points
outside of it are in `Q`. -/
theorem GuardHolds.of_points (points : List Point)
    (hinit : ∀ c : Cpu, c.rip = a → Reached points a c c)
    (hstep : ∀ p ∈ points, p.1 < size → ∃ i n, decode m (a + p.1) = some (i, n) ∧
      ∀ o c c' c'', p.2 c c' → i.exec o { c' with rip := a + p.1 + n } = some c'' →
        Reached points a c c'')
    (hout : ∀ p ∈ points, size ≤ p.1 → ∀ c c', p.2 c c' → Q c c') : GuardHolds m a size Q := by
  intro c c' hrip run
  have hreached : Reached points a c c' := by
    induction run with
    | refl => exact hinit c hrip
    | tail _ h ih =>
        obtain ⟨p, hp, hpc, hc⟩ := ih
        obtain ⟨i, n, hd, hnext⟩ := hstep p hp (by have := h.1; omega)
        obtain ⟨o, he⟩ := (Cpu.step_iff (hpc ▸ hd)).mp h.2
        rw [hpc] at he
        exact hnext o _ _ _ hc he
  obtain ⟨p, hp, hpc, hc⟩ := hreached
  refine ⟨fun hin => ?_, fun hin => hout p hp (by omega) c c' hc⟩
  obtain ⟨i, n, hd, _⟩ := hstep p hp (by omega)
  rw [hpc, hd]
  exact nofun

theorem Cpu.jump_three {c : Cpu} {condition : Bool} :
    c.jump 3 condition = if condition then { c with rip := c.rip + 3 } else c := rfl

/-! ## The switch to the untrusted domain -/

section
variable (h : bytesAt m a revokeSequence = true)
include h

theorem decode_revoke :
    decode m a = some (.wrpkru, 3) ∧
      decode m (a + 3) = some (.cmpEax (.ofNat 32 REVOKE_PERMISSIONS), 5) ∧
      decode m (a + 8) = some (.je 3, 2) ∧ decode m (a + 10) = some (.ud2, 2) := by
  simp only [bytesAt, revokeSequence, Bool.and_eq_true, beq_iff_eq, Nat.add_assoc,
    Nat.reduceAdd] at h
  obtain ⟨h₀, h₁, h₂, h₃, h₄, h₅, h₆, h₇, h₈, h₉, h₁₀, h₁₁, _⟩ := h
  have hword : word32 m (a + 3 + 1) = REVOKE_PERMISSIONS :=
    (@word32_iff m (a + 3 + 1) 0xcb 0xff 0xff 0x7f).mpr ⟨h₄, h₅, h₆, h₇⟩
  refine ⟨?_, ?_, ?_, ?_⟩
  · simp [decode, h₀, h₁, h₂]
  · rw [← hword]
    simp [decode, h₃]
  · simp [decode, h₈, h₉]
  · simp [decode, h₁₀, h₁₁]

/-- Behind the comparison the zero flag says whether PKRU is the right one. -/
theorem revoke_holds :
    GuardHolds m a 13 fun _ c' => c'.pkru = .ofNat 32 REVOKE_PERMISSIONS := by
  obtain ⟨hd₀, hd₃, hd₈, hd₁₀⟩ := decode_revoke h
  refine .of_points
    [(0, fun _ _ => True), (3, fun _ c' => c'.pkru = c'.eax),
      (8, fun _ c' => c'.zf = true → c'.pkru = .ofNat 32 REVOKE_PERMISSIONS),
      (10, fun _ _ => True), (13, fun _ c' => c'.pkru = .ofNat 32 REVOKE_PERMISSIONS)]
    (fun c hc => ⟨_, List.mem_cons_self, hc, trivial⟩) ?_ ?_
  · simp only [List.forall_mem_cons, Reached, List.exists_mem_cons_iff]
    refine ⟨fun _ => ⟨_, _, hd₀, fun o c c' c'' _ he => ?_⟩,
      fun _ => ⟨_, _, hd₃, fun o c c' c'' hp he => ?_⟩,
      fun _ => ⟨_, _, hd₈, fun o c c' c'' hz he => ?_⟩,
      fun _ => ⟨_, _, hd₁₀, fun o c c' c'' _ he => ?_⟩, fun hlt => absurd hlt (by decide), nofun⟩
    · rw [GuardInstr.exec] at he
      split at he
      · cases he
        exact .inr (.inl ⟨rfl, rfl⟩)
      · cases he
    · cases he
      exact .inr (.inr (.inl ⟨rfl, fun hz => hp.trans (beq_iff_eq.mp hz)⟩))
    · rw [GuardInstr.exec, Cpu.jump_three] at he
      dsimp only at he
      split at he
      · rename_i hzf
        cases he
        exact .inr (.inr (.inr (.inr (.inl ⟨rfl, hz hzf⟩))))
      · cases he
        exact .inr (.inr (.inr (.inl ⟨rfl, trivial⟩)))
    · cases he
  · simp only [List.forall_mem_cons]
    exact ⟨by omega, by omega, by omega, by omega, fun _ _ _ hp => hp, nofun⟩

end

/-! ## The internal switch -/

theorem Cpu.dl_movGsDl {c : Cpu} {b : UInt8} :
    (c.set .rdx ((c.reg .rdx &&& ~~~0xff) ||| b.toBitVec.setWidth 64)).dl = b := by
  unfold Cpu.dl Cpu.set
  dsimp only
  rw [Function.update_self]
  congr 1
  ext i hi
  simp

section
variable (h : bytesAt m a internalSequence = true)
include h

theorem decode_internal :
    decode m a = some (.wrpkru, 3) ∧ decode m (a + 3) = some (.movGsDl COMPARTMENT_ID_OFFSET, 8) ∧
      decode m (a + 11) = some (.cmpDl 0, 3) ∧ decode m (a + 14) = some (.je 3, 2) ∧
      decode m (a + 16) = some (.ud2, 2) := by
  simp only [bytesAt, internalSequence, Bool.and_eq_true, beq_iff_eq, Nat.add_assoc,
    Nat.reduceAdd] at h
  obtain ⟨h₀, h₁, h₂, h₃, h₄, h₅, h₆, h₇, h₈, h₉, h₁₀, h₁₁, h₁₂, h₁₃, h₁₄, h₁₅, h₁₆, h₁₇, _⟩ := h
  have hword : word32 m (a + 3 + 4) = COMPARTMENT_ID_OFFSET :=
    (@word32_iff m (a + 3 + 4) 0x10 0 0 0).mpr ⟨h₇, h₈, h₉, h₁₀⟩
  refine ⟨?_, ?_, ?_, ?_, ?_⟩
  · simp [decode, h₀, h₁, h₂]
  · rw [← hword]
    simp [decode, h₃, h₄, h₅, h₆]
  · simp [decode, h₁₁, h₁₂, h₁₃]
  · simp [decode, h₁₄, h₁₅]
  · simp [decode, h₁₆, h₁₇]

/-- The byte that is compared is the one in memory, which nothing here writes to. -/
theorem internal_holds :
    GuardHolds m a 19 fun _ c' =>
      ((c'.gs COMPARTMENT_ID_OFFSET).toNat : Int) = TS_MONITOR := by
  obtain ⟨hd₀, hd₃, hd₁₁, hd₁₄, hd₁₆⟩ := decode_internal h
  refine .of_points
    [(0, fun _ _ => True), (3, fun _ _ => True),
      (11, fun _ c' => c'.dl = c'.gs COMPARTMENT_ID_OFFSET),
      (14, fun _ c' => c'.zf = true → c'.gs COMPARTMENT_ID_OFFSET = 0),
      (16, fun _ _ => True), (19, fun _ c' => c'.gs COMPARTMENT_ID_OFFSET = 0)]
    (fun c hc => ⟨_, List.mem_cons_self, hc, trivial⟩) ?_ ?_
  · simp only [List.forall_mem_cons, Reached, List.exists_mem_cons_iff]
    refine ⟨fun _ => ⟨_, _, hd₀, fun o c c' c'' _ he => ?_⟩,
      fun _ => ⟨_, _, hd₃, fun o c c' c'' _ he => ?_⟩,
      fun _ => ⟨_, _, hd₁₁, fun o c c' c'' hdl he => ?_⟩,
      fun _ => ⟨_, _, hd₁₄, fun o c c' c'' hz he => ?_⟩,
      fun _ => ⟨_, _, hd₁₆, fun o c c' c'' _ he => ?_⟩, fun hlt => absurd hlt (by decide), nofun⟩
    · rw [GuardInstr.exec] at he
      split at he
      · cases he
        exact .inr (.inl ⟨rfl, trivial⟩)
      · cases he
    · rw [GuardInstr.exec] at he
      split at he
      · cases he
      · cases he
        exact .inr (.inr (.inl ⟨rfl, Cpu.dl_movGsDl⟩))
    · cases he
      refine .inr (.inr (.inr (.inl ⟨rfl, fun hz => ?_⟩)))
      exact hdl.symm.trans (beq_iff_eq.mp hz)
    · rw [GuardInstr.exec, Cpu.jump_three] at he
      dsimp only at he
      split at he
      · rename_i hzf
        cases he
        exact .inr (.inr (.inr (.inr (.inr (.inl ⟨rfl, hz hzf⟩)))))
      · cases he
        exact .inr (.inr (.inr (.inr (.inl ⟨rfl, trivial⟩))))
    · cases he
  · simp only [List.forall_mem_cons]
    refine ⟨by omega, by omega, by omega, by omega, by omega, fun _ _ _ hgs => ?_, nofun⟩
    rw [hgs]
    rfl

end

/-! ## XRSTOR -/

/-- How long the operand of an XRSTOR is that is followed by the guard. -/
theorem xrstor_operand {modrm : UInt8} (h : modrm &&& 0xC0 ≠ 0xC0) (h' : modrm &&& 0x38 = 0x28) :
    operandLength modrm 0x89 ∈ [1, 2, 3, 5, 6] ∧
      (PlainOperand modrm ↔ operandLength modrm 0x89 ∈ [1, 6]) := by
  have hall : ∀ n < 256, UInt8.ofNat n &&& 0xC0 ≠ 0xC0 → UInt8.ofNat n &&& 0x38 = 0x28 →
      operandLength (.ofNat n) 0x89 ∈ [1, 2, 3, 5, 6] ∧
        (PlainOperand (.ofNat n) ↔ operandLength (.ofNat n) 0x89 ∈ [1, 6]) := by
    decide +kernel
  have hm := hall modrm.toNat modrm.toNat_lt
  rw [UInt8.ofNat_toNat] at hm
  exact hm h h'

section
variable (h : isBenignXRSTOR m a = true)
include h

theorem decode_xrstor :
    decode m a = some (.xrstor, 2 + operandLength (m (a + 2)) 0x89) ∧
      decode m (a + 3) = some (.movEaxEdx, 2) ∧ decode m (a + 4) = some (.ret, 3) ∧
      decode m (a + 5) = some (.btEdx 9, 4) ∧ decode m (a + 7) = some (.loop 9, 2) ∧
      decode m (a + 8) = some (.orMem, 3) ∧ decode m (a + 9) = some (.jnc 3, 2) ∧
      decode m (a + 11) = some (.ud2, 2) := by
  obtain ⟨hx, hb⟩ := isBenignXRSTOR_iff.mp h
  obtain ⟨h₀, h₁, h₂, h₂'⟩ := erimIsXRSTOR_iff.mp hx
  simp only [bytesAt, xrstorSequence, Bool.and_eq_true, beq_iff_eq, Nat.add_assoc,
    Nat.reduceAdd] at hb
  obtain ⟨h₃, h₄, h₅, h₆, h₇, h₈, h₉, h₁₀, h₁₁, h₁₂, _⟩ := hb
  refine ⟨?_, ?_, ?_, ?_, ?_, ?_, ?_, ?_⟩
  · simp [decode, h₀, h₁, h₂, h₂', h₃]
  · simp [decode, h₃, h₄]
  · simp [decode, h₄]
  · simp [decode, h₅, h₆, h₇, h₈]
  · simp [decode, h₇, h₈]
  · simp [decode, h₈, h₉, h₁₀]
    decide
  · simp [decode, h₉, h₁₀]
  · simp [decode, h₁₁, h₁₂]

/-- With an operand of one byte, the carry flag behind `bt` is the bit of the mask. -/
theorem xrstor_holds_short (hop : operandLength (m (a + 2)) 0x89 = 1) :
    GuardHolds m a 14 fun c _ => c.eax.getLsbD 9 = false := by
  obtain ⟨hd₀, hd₃, _, hd₅, _, _, hd₉, hd₁₁⟩ := decode_xrstor h
  rw [hop] at hd₀
  refine .of_points
    [(0, fun c c' => c'.eax = c.eax), (3, fun c c' => c'.eax = c.eax),
      (5, fun c c' => c'.edx = c.eax), (9, fun c c' => c'.cf = c.eax.getLsbD 9),
      (11, fun _ _ => True), (14, fun c _ => c.eax.getLsbD 9 = false)]
    (fun c hc => ⟨_, List.mem_cons_self, hc, rfl⟩) ?_ ?_
  · simp only [List.forall_mem_cons, Reached, List.exists_mem_cons_iff]
    refine ⟨fun _ => ⟨_, _, hd₀, fun o c c' c'' hc he => ?_⟩,
      fun _ => ⟨_, _, hd₃, fun o c c' c'' hc he => ?_⟩,
      fun _ => ⟨_, _, hd₅, fun o c c' c'' hc he => ?_⟩,
      fun _ => ⟨_, _, hd₉, fun o c c' c'' hc he => ?_⟩,
      fun _ => ⟨_, _, hd₁₁, fun o c c' c'' _ he => ?_⟩, fun hlt => absurd hlt (by decide), nofun⟩
    · rw [GuardInstr.exec] at he
      split at he
      · cases he
      · cases he
        exact .inr (.inl ⟨rfl, hc⟩)
    · cases he
      refine .inr (.inr (.inl ⟨rfl, ?_⟩))
      unfold Cpu.edx Cpu.set
      dsimp only
      rw [Function.update_self, BitVec.setWidth_setWidth_of_le _ (by omega), BitVec.setWidth_eq]
      exact hc
    · cases he
      refine .inr (.inr (.inr (.inl ⟨rfl, ?_⟩)))
      rw [← hc]
      rfl
    · rw [GuardInstr.exec, Cpu.jump_three] at he
      dsimp only at he
      split at he
      · rename_i hcf
        cases he
        rw [hc, Bool.not_eq_true'] at hcf
        exact .inr (.inr (.inr (.inr (.inr (.inl ⟨rfl, hcf⟩)))))
      · cases he
        exact .inr (.inr (.inr (.inr (.inl ⟨rfl, trivial⟩))))
    · cases he
  · simp only [List.forall_mem_cons]
    exact ⟨by omega, by omega, by omega, by omega, by omega, fun _ _ _ hc => hc, nofun⟩

/-- With an operand of six bytes, the next instruction but one is the `ud2`. -/
theorem xrstor_holds_long (hop : operandLength (m (a + 2)) 0x89 = 6) :
    GuardHolds m a 14 fun c _ => c.eax.getLsbD 9 = false := by
  obtain ⟨hd₀, _, _, _, _, hd₈, _, hd₁₁⟩ := decode_xrstor h
  rw [hop] at hd₀
  refine .of_points [(0, fun _ _ => True), (8, fun _ _ => True), (11, fun _ _ => True)]
    (fun c hc => ⟨_, List.mem_cons_self, hc, trivial⟩) ?_ ?_
  · simp only [List.forall_mem_cons, Reached, List.exists_mem_cons_iff]
    refine ⟨fun _ => ⟨_, _, hd₀, fun o c c' c'' _ he => ?_⟩,
      fun _ => ⟨_, _, hd₈, fun o c c' c'' _ he => ?_⟩,
      fun _ => ⟨_, _, hd₁₁, fun o c c' c'' _ he => ?_⟩, nofun⟩
    · rw [GuardInstr.exec] at he
      split at he
      · cases he
      · cases he
        exact .inr (.inl ⟨rfl, trivial⟩)
    · rw [GuardInstr.exec] at he
      split at he
      · cases he
      · cases he
        exact .inr (.inr (.inl ⟨rfl, trivial⟩))
    · cases he
  · simp only [List.forall_mem_cons]
    exact ⟨by omega, by omega, by omega, nofun⟩

end

/-! ## Getting past the guard of an XRSTOR -/

/-- A processor about to restore the protection keys, with a loop counter. -/
def attacker (a : Nat) : Cpu :=
  { reg := fun r => match r with
      | .rax => 0x200
      | .rcx => 5
      | _ => 0
    zf := false, cf := false, pkru := 0, gs := fun _ => 0, rip := a }

/-- Nothing faults, and the word on the stack is the end of the guard. -/
def quiet (a : Nat) : Outside := { faults := false, pkru := 0, stackTop := a + 14, zero := false }

theorem Cpu.stepIn_of {c d : Cpu} {i : GuardInstr} {n : Nat} {o : Outside}
    (hin : a ≤ c.rip ∧ c.rip < a + size) (hd : decode m c.rip = some (i, n))
    (he : i.exec o { c with rip := c.rip + n } = some d) : Cpu.StepIn m a size c d :=
  ⟨hin, i, n, o, hd, he⟩

/-- Execution that gets out of the guard has restored the protection keys. -/
theorem guard_not_holds {c : Cpu} (run : Relation.ReflTransGen (Cpu.StepIn m a 14) (attacker a) c)
    (hout : a + 14 ≤ c.rip) : ¬ GuardHolds m a 14 fun c _ => c.eax.getLsbD 9 = false := by
  intro hg
  have hbit : ((0x200 : Quad).setWidth 32).getLsbD 9 = false := (hg _ c rfl run).2 (by omega)
  exact absurd hbit (by decide)

section
variable (h : isBenignXRSTOR m a = true)
include h

/-- The XRSTOR itself, which takes `n` bytes. -/
theorem xrstor_step {n : Nat} (hop : 2 + operandLength (m (a + 2)) 0x89 = n) :
    Cpu.StepIn m a 14 (attacker a) { attacker a with rip := a + n } := by
  have hd := (decode_xrstor h).1
  rw [hop] at hd
  refine Cpu.stepIn_of (o := quiet a) ⟨Nat.le_refl a, Nat.lt_add_of_pos_right (by decide)⟩ hd ?_
  simp [GuardInstr.exec, quiet, attacker]

/-- With an operand of two bytes, what comes next is a return. -/
theorem xrstor_not_holds_two (hop : operandLength (m (a + 2)) 0x89 = 2) :
    ¬ GuardHolds m a 14 fun c _ => c.eax.getLsbD 9 = false := by
  obtain ⟨_, _, hd₄, _⟩ := decode_xrstor h
  refine guard_not_holds (c := { attacker a with rip := a + 14 })
    (.tail (.single (xrstor_step h (n := 4) (by omega)))
      (Cpu.stepIn_of (o := quiet a) (i := .ret) ⟨?_, ?_⟩ hd₄ rfl)) (Nat.le_refl _)
  · show a ≤ a + 4
    omega
  · show a + 4 < a + 14
    omega

/-- With an operand of three bytes, it is the test of a register that has not been
loaded. -/
theorem xrstor_not_holds_three (hop : operandLength (m (a + 2)) 0x89 = 3) :
    ¬ GuardHolds m a 14 fun c _ => c.eax.getLsbD 9 = false := by
  obtain ⟨_, _, _, hd₅, _, _, hd₉, _⟩ := decode_xrstor h
  refine guard_not_holds (c := { attacker a with rip := a + 9 + 2 + 3 })
    (.tail (.tail (.single (xrstor_step h (n := 5) (by omega)))
      (Cpu.stepIn_of (d := { attacker a with rip := a + 9 }) (o := quiet a) (i := .btEdx 9)
        ⟨?_, ?_⟩ hd₅ (by simp [GuardInstr.exec, Cpu.edx, attacker])))
      (Cpu.stepIn_of (o := quiet a) (i := .jnc 3) ⟨?_, ?_⟩ hd₉ rfl)) (Nat.le_refl _)
  · show a ≤ a + 5
    omega
  · show a + 5 < a + 14
    omega
  · show a ≤ a + 9
    omega
  · show a + 9 < a + 14
    omega

/-- With an operand of five bytes, it is a loop instruction, which jumps. -/
theorem xrstor_not_holds_five (hop : operandLength (m (a + 2)) 0x89 = 5) :
    ¬ GuardHolds m a 14 fun c _ => c.eax.getLsbD 9 = false := by
  obtain ⟨_, _, _, _, hd₇, _⟩ := decode_xrstor h
  refine guard_not_holds (c := { (attacker a).set .rcx 4 with rip := a + 7 + 2 + 9 })
    (.tail (.single (xrstor_step h (n := 7) (by omega)))
      (Cpu.stepIn_of (o := quiet a) (i := .loop 9) ⟨?_, ?_⟩ hd₇
        (by simp [GuardInstr.exec, Cpu.jump, Cpu.set, attacker]))) ?_
  · show a ≤ a + 7
    omega
  · show a + 7 < a + 14
    omega
  · show a + 14 ≤ a + 7 + 2 + 9
    omega

theorem xrstor_holds_iff :
    (GuardHolds m a 14 fun c _ => c.eax.getLsbD 9 = false) ↔ PlainOperand (m (a + 2)) := by
  obtain ⟨_, _, h₂, h₂'⟩ := erimIsXRSTOR_iff.mp (isBenignXRSTOR_iff.mp h).1
  obtain ⟨hlength, hplain⟩ := xrstor_operand h₂ h₂'
  rw [hplain]
  simp only [List.mem_cons, List.not_mem_nil, or_false] at hlength ⊢
  rcases hlength with hop | hop | hop | hop | hop
  · exact ⟨fun _ => .inl hop, fun _ => xrstor_holds_short h hop⟩
  · exact ⟨fun hg => absurd hg (xrstor_not_holds_two h hop), by omega⟩
  · exact ⟨fun hg => absurd hg (xrstor_not_holds_three h hop), by omega⟩
  · exact ⟨fun hg => absurd hg (xrstor_not_holds_five h hop), by omega⟩
  · exact ⟨fun _ => .inr hop, fun _ => xrstor_holds_long h hop⟩

end

/-- The accepted sequences do what they promise if and only if every XRSTOR among
them has a plain operand. -/
theorem guards_iff (m : Mem) (a : Nat) :
    Guards m a ↔ (isBenignXRSTOR m a = true → PlainOperand (m (a + 2))) := by
  refine ⟨fun hg h => (xrstor_holds_iff h).mp (hg.xrstor h), fun hp => ⟨fun h => ?_, fun h => ?_⟩⟩
  · rcases isBenignWRPKRU_iff.mp h with h | h
    · exact .inl ⟨h, revoke_holds h⟩
    · exact .inr ⟨h, internal_holds h⟩
  · exact (xrstor_holds_iff h).mpr (hp h)

/-- `xrstor 0x89(%rsi)`, followed by what is left of the guard: a return. -/
theorem not_guards :
    ¬ Guards
      (fun x => ([0x0f, 0xae, 0x6e] ++ xrstorSequence : List UInt8).getD (x - 0x10000) 0)
        0x10000 := by
  intro hg
  exact xrstor_not_holds_two (by decide) (by decide) (hg.xrstor (by decide))

end Secpoline
