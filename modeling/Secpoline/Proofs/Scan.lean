import Secpoline.Lib.FindLoop
import Secpoline.Model.Scan

/-!
# Where a scan finds instructions

The four patterns cannot overlap in their first three bytes, so a scan that goes
on three bytes after a match steps over none. It goes through every match up to
the first at which it stops.
-/

namespace Secpoline

open Lib

variable {m : Mem} {whitelist : List Nat} {start length a : Nat}

theorem erimScanMem_some {found : Nat} {ty : UnsafeType}
    (h : erimScanMemForWRPKRUXRSTOR m start length = some (found, ty)) :
    found < length - 3 ∧ unsafeType m (start + found) = some ty := by
  obtain ⟨it, hit, he⟩ := List.exists_of_findSome?_eq_some h
  obtain ⟨ty', hty, he⟩ := Option.map_eq_some_iff.mp he
  cases he
  exact ⟨List.mem_range.mp hit, hty⟩

theorem mem_scanLoop {fuel : Nat} (h : a ∈ scanLoop m whitelist fuel start length) :
    start ≤ a ∧ a < start + length := by
  induction fuel generalizing start length a with
  | zero =>
      rw [scanLoop] at h
      cases h
  | succ fuel ih =>
      rw [scanLoop] at h
      split at h
      · cases h
      rename_i found ty hfound
      have hlt := (erimScanMem_some hfound).1
      split at h
      · cases h
      have hrest : ∀ b ∈ scanLoop m whitelist fuel (start + found + 3) (length - (found + 3)),
          start ≤ b ∧ b < start + length := by
        intro b hb
        have := ih hb
        omega
      dsimp only at h
      split at h
      · rcases List.mem_cons.mp h with rfl | h
        · omega
        · exact hrest a h
      · exact hrest a h

theorem mem_scanPage (h : a ∈ scanPage m whitelist start) : start ≤ a ∧ a < start + 4096 := by
  unfold scanPage at h
  revert h
  -- the fuel must stay a variable: as a numeral it invites unfolding the loop
  generalize 4096 = n
  intro h
  exact mem_scanLoop h

/-! ## The patterns -/

theorem erimIsWRPKRU_iff :
    erimIsWRPKRU m a = true ↔ m a = 0x0f ∧ m (a + 1) = 0x01 ∧ m (a + 2) = 0xef := by
  simp [erimIsWRPKRU, and_assoc]

theorem erimIsXRSTOR_iff :
    erimIsXRSTOR m a = true ↔ m a = 0x0f ∧ m (a + 1) = 0xae ∧ m (a + 2) &&& 0xC0 ≠ 0xC0 ∧
      m (a + 2) &&& 0x38 = 0x28 := by
  simp [erimIsXRSTOR, and_assoc]

theorem erimIsWRGSBASE32_iff :
    erimIsWRGSBASE32 m a = true ↔ m a = 0xf3 ∧ m (a + 1) = 0x0f ∧ m (a + 2) = 0xae ∧
      m (a + 3) &&& 0xf8 = 0xd8 := by
  simp [erimIsWRGSBASE32, and_assoc]

theorem erimIsWRGSBASE64_iff :
    erimIsWRGSBASE64 m a = true ↔ m a = 0xf3 ∧ m (a + 1) &&& 0xf0 = 0x40 ∧ m (a + 2) = 0x0f ∧
      m (a + 3) = 0xae ∧ m (a + 4) &&& 0xf8 = 0xd8 := by
  simp [erimIsWRGSBASE64, and_assoc]

theorem isUnsafe_iff :
    isUnsafe m a = true ↔ erimIsWRPKRU m a = true ∨ erimIsXRSTOR m a = true ∨
      erimIsWRGSBASE32 m a = true ∨ erimIsWRGSBASE64 m a = true := by
  simp [isUnsafe, or_assoc]

theorem unsafeType_isSome : (unsafeType m a).isSome = isUnsafe m a := by
  unfold unsafeType isUnsafe
  cases erimIsWRPKRU m a <;> cases erimIsXRSTOR m a <;> cases erimIsWRGSBASE32 m a <;>
    cases erimIsWRGSBASE64 m a <;> rfl

theorem unsafeType_wrpkru : unsafeType m a = some .wrpkru ↔ erimIsWRPKRU m a = true := by
  unfold unsafeType
  cases erimIsWRPKRU m a <;> cases erimIsXRSTOR m a <;> cases erimIsWRGSBASE32 m a <;>
    cases erimIsWRGSBASE64 m a <;> decide

theorem unsafeType_xrstor : unsafeType m a = some .xrstor ↔ erimIsXRSTOR m a = true := by
  unfold unsafeType
  by_cases h : erimIsWRPKRU m a = true
  · have hx : ¬ erimIsXRSTOR m a = true := by
      intro hx
      have h₁ := (erimIsWRPKRU_iff.mp h).2.1
      rw [(erimIsXRSTOR_iff.mp hx).2.1] at h₁
      exact absurd h₁ (by decide)
    rw [if_pos h]
    exact ⟨fun he => (nomatch he), fun he => absurd he hx⟩
  · rw [if_neg h]
    cases erimIsXRSTOR m a <;> cases erimIsWRGSBASE32 m a <;> cases erimIsWRGSBASE64 m a <;> decide

theorem unsafeType_wrgsbase :
    unsafeType m a = some .wrgsbase ↔
      erimIsWRGSBASE32 m a = true ∨ erimIsWRGSBASE64 m a = true := by
  have hbyte : m a = 0x0f → ¬ (erimIsWRGSBASE32 m a = true ∨ erimIsWRGSBASE64 m a = true) := by
    rintro h₀ (h | h)
    · rw [(erimIsWRGSBASE32_iff.mp h).1] at h₀
      exact absurd h₀ (by decide)
    · rw [(erimIsWRGSBASE64_iff.mp h).1] at h₀
      exact absurd h₀ (by decide)
  unfold unsafeType
  by_cases h : erimIsWRPKRU m a = true
  · rw [if_pos h]
    exact ⟨fun he => (nomatch he), fun he => absurd he (hbyte (erimIsWRPKRU_iff.mp h).1)⟩
  by_cases hx : erimIsXRSTOR m a = true
  · rw [if_neg h, if_pos hx]
    exact ⟨fun he => (nomatch he), fun he => absurd he (hbyte (erimIsXRSTOR_iff.mp hx).1)⟩
  · rw [if_neg h, if_neg hx]
    cases erimIsWRGSBASE32 m a <;> cases erimIsWRGSBASE64 m a <;> decide

/-- What makes one of the patterns begin at an address, as far as its first three
bytes say. -/
theorem isUnsafe_begins (h : isUnsafe m a = true) :
    (m a = 0x0f ∧ (m (a + 1) = 0x01 ∨ (m (a + 1) = 0xae ∧ m (a + 2) &&& 0xC0 ≠ 0xC0))) ∨
      m a = 0xf3 := by
  rcases isUnsafe_iff.mp h with h | h | h | h
  · obtain ⟨h₀, h₁, _⟩ := erimIsWRPKRU_iff.mp h
    exact .inl ⟨h₀, .inl h₁⟩
  · obtain ⟨h₀, h₁, h₂, _⟩ := erimIsXRSTOR_iff.mp h
    exact .inl ⟨h₀, .inr ⟨h₁, h₂⟩⟩
  · exact .inr (erimIsWRGSBASE32_iff.mp h).1
  · exact .inr (erimIsWRGSBASE64_iff.mp h).1

theorem not_isUnsafe_of_byte {b : UInt8} (hb : m a = b) (h₁ : b ≠ 0x0f) (h₂ : b ≠ 0xf3) :
    ¬ isUnsafe m a = true := by
  intro h
  rcases isUnsafe_begins h with h | h
  · exact h₁ (hb.symm.trans h.1)
  · exact h₂ (hb.symm.trans h)

/-- The end of a WRGSBASE is not an XRSTOR, which is a matter of its last byte. -/
theorem not_isUnsafe_wrgsbase (h₀ : m a = 0x0f) (h₁ : m (a + 1) = 0xae)
    (h₂ : m (a + 2) &&& 0xf8 = 0xd8) : ¬ isUnsafe m a = true := by
  intro h
  rcases isUnsafe_begins h with ⟨_, h | ⟨_, h⟩⟩ | h
  · rw [h₁] at h
    exact absurd h (by decide)
  · refine h ?_
    have hmask : m (a + 2) &&& 0xC0 = (m (a + 2) &&& 0xf8) &&& 0xC0 := by
      rw [UInt8.and_assoc]
      rfl
    rw [hmask, h₂]
    rfl
  · rw [h₀] at h
    exact absurd h (by decide)

theorem masked_ne {x b mask : UInt8} {v : UInt8} (h : x &&& mask = v) (hb : b &&& mask ≠ v) :
    x ≠ b := by
  rintro rfl
  exact hb h

/-- Two matches are at least three bytes apart. -/
theorem isUnsafe_apart {b : Nat} (h : isUnsafe m a = true) (hlt : a < b) (hle : b < a + 3) :
    ¬ isUnsafe m b = true := by
  have hb : b = a + 1 ∨ b = a + 2 := by omega
  rcases isUnsafe_iff.mp h with h | h | h | h
  · obtain ⟨_, h₁, h₂⟩ := erimIsWRPKRU_iff.mp h
    rcases hb with rfl | rfl
    · exact not_isUnsafe_of_byte h₁ (by decide) (by decide)
    · exact not_isUnsafe_of_byte h₂ (by decide) (by decide)
  · obtain ⟨_, h₁, _, h₂⟩ := erimIsXRSTOR_iff.mp h
    rcases hb with rfl | rfl
    · exact not_isUnsafe_of_byte h₁ (by decide) (by decide)
    · exact not_isUnsafe_of_byte rfl (masked_ne h₂ (by decide)) (masked_ne h₂ (by decide))
  · obtain ⟨_, h₁, h₂, h₃⟩ := erimIsWRGSBASE32_iff.mp h
    rcases hb with rfl | rfl
    · exact not_isUnsafe_wrgsbase h₁ h₂ h₃
    · exact not_isUnsafe_of_byte h₂ (by decide) (by decide)
  · obtain ⟨_, h₁, h₂, h₃, h₄⟩ := erimIsWRGSBASE64_iff.mp h
    rcases hb with rfl | rfl
    · exact not_isUnsafe_of_byte rfl (masked_ne h₁ (by decide)) (masked_ne h₁ (by decide))
    · exact not_isUnsafe_wrgsbase h₂ h₃ h₄

/-! ## The harmless sequences -/

theorem bytesAt_iff {l : List UInt8} :
    bytesAt m a l = true ↔ ∀ i (_ : i < l.length), m (a + i) = l[i] := by
  induction l generalizing a with
  | nil => exact ⟨fun _ i hi => (nomatch hi), fun _ => rfl⟩
  | cons b rest ih =>
      rw [bytesAt, Bool.and_eq_true, beq_iff_eq, ih]
      constructor
      · rintro ⟨hb, h⟩ i hi
        cases i with
        | zero => exact hb
        | succ i =>
            rw [show a + (i + 1) = a + 1 + i by omega, h i (Nat.lt_of_succ_lt_succ hi)]
            rfl
      · intro h
        refine ⟨h 0 (Nat.succ_pos _), fun i hi => ?_⟩
        rw [show a + 1 + i = a + (i + 1) by omega, h (i + 1) (Nat.succ_lt_succ hi)]
        rfl

theorem word32_iff {b₀ b₁ b₂ b₃ : UInt8} :
    word32 m a = b₀.toNat + 0x100 * b₁.toNat + 0x10000 * b₂.toNat + 0x1000000 * b₃.toNat ↔
      m a = b₀ ∧ m (a + 1) = b₁ ∧ m (a + 2) = b₂ ∧ m (a + 3) = b₃ := by
  unfold word32
  have h := fun i => (m (a + i)).toNat_lt
  have h₀ := (m a).toNat_lt
  have h₁ := h 1
  have h₂ := h 2
  have h₃ := h 3
  have := b₀.toNat_lt
  have := b₁.toNat_lt
  have := b₂.toNat_lt
  have := b₃.toNat_lt
  simp only [← UInt8.toNat_inj]
  omega

/-- The switch to the untrusted domain: `wrpkru`, a comparison with
`REVOKE_PERMISSIONS`, and a jump over `ud2` and `int3`. -/
def revokeSequence : List UInt8 :=
  [0x0f, 0x01, 0xef, 0x3d, 0xcb, 0xff, 0xff, 0x7f, 0x74, 0x03, 0x0f, 0x0b, 0xcc]

/-- The internal switch: `wrpkru`, a load of the compartment, a comparison with
`TS_MONITOR`, and the same jump. -/
def internalSequence : List UInt8 :=
  [0x0f, 0x01, 0xef, 0x65, 0x8a, 0x14, 0x25, 0x10, 0x00, 0x00, 0x00, 0x80, 0xfa, 0x00, 0x74, 0x03,
    0x0f, 0x0b, 0xcc]

/-- What has to follow an XRSTOR. -/
def xrstorSequence : List UInt8 :=
  [0x89, 0xc2, 0x0f, 0xba, 0xe2, 0x09, 0x73, 0x03, 0x0f, 0x0b, 0xcc]

theorem isBenignXRSTOR_iff :
    isBenignXRSTOR m a = true ↔
      erimIsXRSTOR m a = true ∧ bytesAt m (a + 3) xrstorSequence = true := by
  rw [isBenignXRSTOR, Bool.and_eq_true]
  rfl

theorem isBenignWRPKRU_iff :
    isBenignWRPKRU m a = true ↔
      bytesAt m a revokeSequence = true ∨ bytesAt m a internalSequence = true := by
  have hrevoke : word32 m (a + 4) = REVOKE_PERMISSIONS ↔
      m (a + 4) = 0xcb ∧ m (a + 5) = 0xff ∧ m (a + 6) = 0xff ∧ m (a + 7) = 0x7f :=
    @word32_iff m (a + 4) 0xcb 0xff 0xff 0x7f
  have hoffset : word32 m (a + 7) = 0x10 ↔
      m (a + 7) = 0x10 ∧ m (a + 8) = 0 ∧ m (a + 9) = 0 ∧ m (a + 10) = 0 :=
    @word32_iff m (a + 7) 0x10 0 0 0
  simp only [isBenignWRPKRU, Bool.or_eq_true, Bool.and_eq_true, beq_iff_eq, erimIsWRPKRU_iff,
    hrevoke, hoffset, bytesAt, revokeSequence, internalSequence, Nat.add_assoc, Nat.reduceAdd]
  constructor
  · rintro (⟨⟨⟨h₁, h₂⟩, h₃⟩, h₄⟩ | ⟨⟨⟨h₁, h₂⟩, h₃⟩, h₄⟩)
    · exact .inl ⟨h₂.1, h₂.2.1, h₂.2.2, h₃, h₁.1, h₁.2.1, h₁.2.2.1, h₁.2.2.2, h₄⟩
    · exact .inr ⟨h₁.1, h₁.2.1, h₁.2.2, h₂.1, h₂.2.1, h₂.2.2.1, h₂.2.2.2.1, h₃.1, h₃.2.1, h₃.2.2.1,
        h₃.2.2.2, h₄⟩
  · rintro (⟨a₀, a₁, a₂, a₃, a₄, a₅, a₆, a₇, h⟩ | ⟨a₀, a₁, a₂, a₃, a₄, a₅, a₆, a₇, a₈, a₉, a₁₀, h⟩)
    · exact .inl ⟨⟨⟨⟨a₄, a₅, a₆, a₇⟩, a₀, a₁, a₂⟩, a₃⟩, h⟩
    · exact .inr ⟨⟨⟨⟨a₀, a₁, a₂⟩, a₃, a₄, a₅, a₆, trivial⟩, a₇, a₈, a₉, a₁₀⟩, h⟩

/-! ## The loop -/

/-- The loop of `erim_memScanRegion` stops at offset `q` of the page: there is a
match, at the beginning of the page or right behind another one. -/
def StopsAt (m : Mem) (start q : Nat) : Prop :=
  isUnsafe m (start + q) = true ∧ (q = 0 ∨ (3 ≤ q ∧ isUnsafe m (start + (q - 3)) = true))

/-- The loop goes through the match at offset `o`. -/
def Visited (m : Mem) (start o : Nat) (ty : UnsafeType) : Prop :=
  o < 4093 ∧ unsafeType m (start + o) = some ty ∧ ∀ q ≤ o, ¬ StopsAt m start q

theorem stops_iff {q : Nat} : Stops (unsafeType m) 3 start (start + q) ↔ StopsAt m start q := by
  unfold Stops StopsAt
  rw [unsafeType_isSome]
  refine and_congr_right fun _ => or_congr (by omega) ⟨?_, ?_⟩
  · rintro ⟨p, hp, hpq, h⟩
    rw [unsafeType_isSome] at h
    rw [show start + (q - 3) = p by omega]
    exact ⟨by omega, h⟩
  · rintro ⟨hq, h⟩
    rw [← unsafeType_isSome] at h
    exact ⟨_, by omega, by omega, h⟩

theorem erimScan_eq :
    erimScanMemForWRPKRUXRSTOR m start length = firstMatch (unsafeType m) start (length - 3) :=
  rfl

theorem scanLoop_eq {fuel : Nat} :
    scanLoop m whitelist fuel start length =
      ((findLoop (unsafeType m) 3 fuel start (length - 3)).filter
        fun x => nonBenign m whitelist x.1 x.2).map (·.1) := by
  induction fuel generalizing start length with
  | zero => rfl
  | succ fuel ih =>
      rw [scanLoop, findLoop, erimScan_eq]
      cases firstMatch (unsafeType m) start (length - 3) with
      | none => rfl
      | some x =>
          obtain ⟨found, ty⟩ := x
          dsimp only
          by_cases hzero : found = 0
          · rw [if_pos hzero, if_pos hzero]
            rfl
          · rw [if_neg hzero, if_neg hzero, ih, List.filter_cons, Nat.sub_right_comm]
            split <;> rfl

theorem unsafeType_apart (q r : Nat) (hq : (unsafeType m q).isSome = true) (hlt : q < r)
    (hle : r < q + 3) : unsafeType m r = none := by
  rw [unsafeType_isSome] at hq
  have hr := isUnsafe_apart hq hlt hle
  rw [← unsafeType_isSome] at hr
  exact Option.not_isSome_iff_eq_none.mp hr

theorem mem_visits {ty : UnsafeType} :
    (a, ty) ∈ findLoop (unsafeType m) 3 4096 start 4093 ↔
      ∃ o, a = start + o ∧ Visited m start o ty := by
  rw [mem_findLoop (by omega) unsafeType_apart (by omega)]
  constructor
  · rintro ⟨hge, hlt, hty, hstop⟩
    obtain ⟨o, rfl⟩ := Nat.exists_eq_add_of_le hge
    exact ⟨o, rfl, by omega, hty, fun q hq hs => hstop _ (by omega) (stops_iff.mpr hs)⟩
  · rintro ⟨o, rfl, hlt, hty, hstop⟩
    refine ⟨by omega, by omega, hty, fun q hq hs => ?_⟩
    have hge : start ≤ q := by
      rcases hs.2 with rfl | ⟨p, hp, hpq, _⟩ <;> omega
    obtain ⟨d, rfl⟩ := Nat.exists_eq_add_of_le hge
    exact hstop d (by omega) (stops_iff.mp hs)

theorem mem_visits_filter {P : Nat × UnsafeType → Bool} :
    a ∈ ((findLoop (unsafeType m) 3 4096 start 4093).filter P).map (·.1) ↔
      ∃ o ty, a = start + o ∧ Visited m start o ty ∧ P (a, ty) = true := by
  rw [List.mem_map]
  constructor
  · rintro ⟨⟨p, ty⟩, hx, rfl⟩
    obtain ⟨hin, hP⟩ := List.mem_filter.mp hx
    obtain ⟨o, rfl, hv⟩ := mem_visits.mp hin
    exact ⟨o, ty, rfl, hv, hP⟩
  · rintro ⟨o, ty, rfl, hv, hP⟩
    exact ⟨(start + o, ty), List.mem_filter.mpr ⟨mem_visits.mpr ⟨o, rfl, hv⟩, hP⟩, rfl⟩

/-- What a scan records. -/
theorem mem_scanPage_iff :
    a ∈ scanPage m whitelist start ↔
      ∃ o ty, a = start + o ∧ Visited m start o ty ∧ nonBenign m whitelist a ty = true := by
  unfold scanPage
  rw [scanLoop_eq]
  exact mem_visits_filter (P := fun x => nonBenign m whitelist x.1 x.2)

theorem scanPage_eq_nil (h : ∀ o < 4093, ¬ isUnsafe m (start + o) = true) :
    scanPage m whitelist start = [] := by
  refine List.eq_nil_iff_forall_not_mem.mpr fun a ha => ?_
  obtain ⟨o, ty, -, hv, -⟩ := mem_scanPage_iff.mp ha
  refine h o hv.1 ?_
  rw [← unsafeType_isSome, hv.2.1]
  rfl

end Secpoline
