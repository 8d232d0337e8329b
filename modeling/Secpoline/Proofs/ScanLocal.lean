import Mathlib.Data.Set.Basic
import Secpoline.Proofs.Scan

/-!
# When the verdict on a page depends on that page alone

A scan decides about an instruction near the end of a page by looking at bytes of
the next page as well: a harmless sequence is up to nineteen bytes long, and the
longest pattern is one byte too long for the last offset that is looked at. If there
is no next page, that is a fault.

Whether it does can be told from the page: if the page ends in the beginning of a
harmless sequence that the scan gets to, or in the beginning of a WRGSBASE of five
bytes, or in a WRPKRU so close to the end that the operand of a comparison would not
fit.
-/

namespace Secpoline

open Lib

variable {m m' : Mem} {whitelist : List Nat} {start o q : Nat} {ty : UnsafeType} {l : List UInt8}

/-- The checks of `erim_memScanRegion` that accept an instruction as harmless. An
allowed WRPKRU is not checked. -/
def benign (m : Mem) (whitelist : List Nat) (a : Nat) : UnsafeType → Bool
  | .wrpkru => !whitelist.contains a && isBenignWRPKRU m a
  | .xrstor => isBenignXRSTOR m a
  | .wrgsbase => false

/-- The instructions that a scan of the page at `start` accepts as harmless. -/
def benignPage (m : Mem) (whitelist : List Nat) (start : Nat) : List Nat :=
  ((findLoop (unsafeType m) 3 4096 start 4093).filter fun x => benign m whitelist x.1 x.2).map (·.1)

/-- The two memories agree on the page at `start`. -/
def AgreeOn (m m' : Mem) (start : Nat) : Prop := ∀ i < 4096, m (start + i) = m' (start + i)

/-- The instructions that a scan accepts and those that it records, with or without a
page behind the one at `start`; `none` is a fault. -/
def verdict (m : Mem) (nextMapped : Bool) (whitelist : List Nat) (start : Nat) :
    Option (Set Nat × Set Nat) :=
  (scanPageOrFault m nextMapped whitelist start).map fun recorded =>
    ({a | a ∈ benignPage m whitelist start}, {a | a ∈ recorded})

/-- The verdict is the same for every memory that agrees on the page, whether or not
there is a page behind it. -/
def PageLocal (m : Mem) (nextMapped : Bool) (whitelist : List Nat) (start : Nat) : Prop :=
  ∀ m' nextMapped', AgreeOn m m' start →
    verdict m nextMapped whitelist start = verdict m' nextMapped' whitelist start

/-- The bytes `l` begin at offset `o`, as far as the page goes, and it does not go
far enough. -/
def CutShort (m : Mem) (start o : Nat) (l : List UInt8) : Prop :=
  4096 < o + l.length ∧ bytesAt m (start + o) (l.take (4096 - o)) = true

/-- The page ends in the first four bytes of a WRGSBASE of five. -/
def EndsInWRGSBASE (m : Mem) (start : Nat) : Prop :=
  m (start + 4092) = 0xf3 ∧ m (start + 4093) &&& 0xf0 = 0x40 ∧ m (start + 4094) = 0x0f ∧
    m (start + 4095) = 0xae

/-- The check of a WRPKRU at offset `o` reads behind the page: in the operand of the
comparison, in that of the load if there is one, or in the rest of a sequence. -/
def WRPKRUCutShort (m : Mem) (start o : Nat) : Prop :=
  4089 ≤ o ∨ (4086 ≤ o ∧ bytesAt m (start + o + 3) [0x65, 0x8a, 0x14, 0x25] = true) ∨
    CutShort m start o revokeSequence ∨ CutShort m start o internalSequence

/-- Nothing that the scan gets to is cut short by the end of the page. -/
structure SelfContained (m : Mem) (whitelist : List Nat) (start : Nat) : Prop where
  wrpkru : ∀ o, Visited m start o .wrpkru → start + o ∉ whitelist → ¬ WRPKRUCutShort m start o
  xrstor : ∀ o, Visited m start o .xrstor → ¬ CutShort m start (o + 3) xrstorSequence
  wrgsbase : EndsInWRGSBASE m start → ∃ q < 4092, StopsAt m start q

theorem mem_benignPage_iff {a : Nat} :
    a ∈ benignPage m whitelist start ↔
      ∃ o ty, a = start + o ∧ Visited m start o ty ∧ benign m whitelist a ty = true :=
  mem_visits_filter (P := fun x => benign m whitelist x.1 x.2)

/-! ## What two memories that agree have in common -/

theorem AgreeOn.symm (h : AgreeOn m m' start) : AgreeOn m' m start := fun i hi => (h i hi).symm

theorem AgreeOn.at (h : AgreeOn m m' start) (i : Nat) (hi : o + i < 4096) :
    m (start + o + i) = m' (start + o + i) := by
  rw [Nat.add_assoc]
  exact h _ hi

/-- Patterns of three and four bytes. -/
theorem AgreeOn.patterns (h : AgreeOn m m' start) (ho : o < 4093) :
    erimIsWRPKRU m (start + o) = erimIsWRPKRU m' (start + o) ∧
      erimIsXRSTOR m (start + o) = erimIsXRSTOR m' (start + o) ∧
      erimIsWRGSBASE32 m (start + o) = erimIsWRGSBASE32 m' (start + o) := by
  have h₀ := h.at 0 (o := o) (by omega)
  unfold erimIsWRPKRU erimIsXRSTOR erimIsWRGSBASE32
  rw [h.at 1 (by omega), h.at 2 (by omega), h.at 3 (by omega), show m (start + o) = _ from h₀]
  exact ⟨rfl, rfl, rfl⟩

/-- The pattern of five bytes, before the last offset. -/
theorem AgreeOn.wrgsbase64 (h : AgreeOn m m' start) (ho : o < 4092) :
    erimIsWRGSBASE64 m (start + o) = erimIsWRGSBASE64 m' (start + o) := by
  have h₀ := h.at 0 (o := o) (by omega)
  unfold erimIsWRGSBASE64
  rw [h.at 1 (by omega), h.at 2 (by omega), h.at 3 (by omega), h.at 4 (by omega),
    show m (start + o) = _ from h₀]
  rfl

/-- At the last offset, if the page does not end in the beginning of that pattern. -/
theorem erimIsWRGSBASE64_last (h : erimIsWRGSBASE64 m (start + 4092) = true) :
    EndsInWRGSBASE m start := by
  obtain ⟨h₀, h₁, h₂, h₃, _⟩ := erimIsWRGSBASE64_iff.mp h
  exact ⟨h₀, h₁, h₂, h₃⟩

theorem AgreeOn.endsInWRGSBASE (h : AgreeOn m m' start) (he : EndsInWRGSBASE m start) :
    EndsInWRGSBASE m' start := by
  unfold EndsInWRGSBASE at he ⊢
  rw [← h 4092 (by omega), ← h 4093 (by omega), ← h 4094 (by omega), ← h 4095 (by omega)]
  exact he

theorem AgreeOn.wrgsbase64_last (h : AgreeOn m m' start) (he : ¬ EndsInWRGSBASE m start) :
    erimIsWRGSBASE64 m (start + 4092) = erimIsWRGSBASE64 m' (start + 4092) := by
  have h₁ : erimIsWRGSBASE64 m (start + 4092) = false :=
    Bool.eq_false_iff.mpr fun hw => he (erimIsWRGSBASE64_last hw)
  have h₂ : erimIsWRGSBASE64 m' (start + 4092) = false :=
    Bool.eq_false_iff.mpr fun hw => he (h.symm.endsInWRGSBASE (erimIsWRGSBASE64_last hw))
  rw [h₁, h₂]

theorem AgreeOn.unsafeType (h : AgreeOn m m' start) (ho : o < 4093)
    (hlast : o = 4092 → ¬ EndsInWRGSBASE m start) :
    unsafeType m (start + o) = unsafeType m' (start + o) := by
  have h64 : erimIsWRGSBASE64 m (start + o) = erimIsWRGSBASE64 m' (start + o) := by
    by_cases hlt : o < 4092
    · exact h.wrgsbase64 hlt
    · obtain rfl : o = 4092 := by omega
      exact h.wrgsbase64_last (hlast rfl)
  obtain ⟨h₁, h₂, h₃⟩ := h.patterns ho
  unfold Secpoline.unsafeType
  rw [h₁, h₂, h₃, h64]

theorem AgreeOn.isUnsafe (h : AgreeOn m m' start) (ho : o < 4093)
    (hlast : o = 4092 → ¬ EndsInWRGSBASE m start) :
    isUnsafe m (start + o) = isUnsafe m' (start + o) := by
  rw [← unsafeType_isSome, ← unsafeType_isSome, h.unsafeType ho hlast]

theorem AgreeOn.stopsAt (h : AgreeOn m m' start) (hq : q < 4093)
    (hlast : q = 4092 → ¬ EndsInWRGSBASE m start) (hs : StopsAt m start q) :
    StopsAt m' start q := by
  refine ⟨(h.isUnsafe hq hlast).symm.trans hs.1, hs.2.imp id fun ⟨hge, hs⟩ => ⟨hge, ?_⟩⟩
  exact (h.isUnsafe (by omega) (by omega)).symm.trans hs

theorem AgreeOn.visited (h : AgreeOn m m' start) (hlast : o = 4092 → ¬ EndsInWRGSBASE m start)
    (hv : Visited m start o ty) : Visited m' start o ty := by
  obtain ⟨hlt, hty, hstop⟩ := hv
  refine ⟨hlt, (h.unsafeType hlt hlast).symm.trans hty, fun q hq hs => hstop q hq ?_⟩
  refine h.symm.stopsAt (by omega) (fun hq he => ?_) hs
  exact hlast (by omega) (h.symm.endsInWRGSBASE he)

/-- A page that ends in the beginning of a WRGSBASE ends in no other pattern. -/
theorem not_endsInWRGSBASE (hty : unsafeType m (start + o) = some ty) (hne : ty ≠ .wrgsbase) :
    o = 4092 → ¬ EndsInWRGSBASE m start := by
  rintro rfl ⟨h₀, _⟩
  cases ty with
  | wrpkru =>
      rw [(erimIsWRPKRU_iff.mp (unsafeType_wrpkru.mp hty)).1] at h₀
      exact absurd h₀ (by decide)
  | xrstor =>
      rw [(erimIsXRSTOR_iff.mp (unsafeType_xrstor.mp hty)).1] at h₀
      exact absurd h₀ (by decide)
  | wrgsbase => exact hne rfl

theorem bytesAt_take_iff {k : Nat} :
    bytesAt m start (l.take k) = true ↔ ∀ i (_ : i < l.length), i < k → m (start + i) = l[i] := by
  rw [bytesAt_iff]
  constructor
  · intro h i hi hk
    have hi' : i < (l.take k).length := by
      rw [List.length_take]
      omega
    rw [h i hi', List.getElem_take]
  · intro h i hi
    rw [List.length_take] at hi
    rw [List.getElem_take]
    exact h i (by omega) (by omega)

/-- A sequence that is not cut short is there or not whatever follows the page. -/
theorem AgreeOn.bytesAt (h : AgreeOn m m' start) (hcut : ¬ CutShort m start o l)
    (hb : bytesAt m (start + o) l = true) : bytesAt m' (start + o) l = true := by
  rw [bytesAt_iff] at hb ⊢
  have hshort : o + l.length ≤ 4096 := by
    by_contra hlong
    refine hcut ⟨by omega, bytesAt_take_iff.mpr fun i hi _ => hb i hi⟩
  intro i hi
  rw [← h.at i (by omega)]
  exact hb i hi

theorem AgreeOn.cutShort (h : AgreeOn m m' start) (hcut : CutShort m start o l) :
    CutShort m' start o l := by
  refine ⟨hcut.1, bytesAt_take_iff.mpr fun i hi hk => ?_⟩
  rw [← h.at i (by omega)]
  exact bytesAt_take_iff.mp hcut.2 i hi hk

theorem AgreeOn.wrpkruCutShort (h : AgreeOn m m' start) (ho : o < 4093)
    (hcut : WRPKRUCutShort m start o) : WRPKRUCutShort m' start o := by
  by_cases hlast : 4089 ≤ o
  · exact .inl hlast
  rcases hcut with hcut | ⟨hnear, hbytes⟩ | hcut | hcut
  · exact .inl hcut
  · refine .inr (.inl ⟨hnear, ?_⟩)
    rw [Nat.add_assoc] at hbytes ⊢
    refine h.bytesAt (fun hlong => ?_) hbytes
    have hlen := hlong.1
    rw [List.length_cons, List.length_cons, List.length_cons, List.length_singleton] at hlen
    omega
  · exact .inr (.inr (.inl (h.cutShort hcut)))
  · exact .inr (.inr (.inr (h.cutShort hcut)))

/-! ## Self-contained pages -/

section
variable (h : AgreeOn m m' start)
include h

theorem SelfContained.of_agree (hc : SelfContained m whitelist start) :
    SelfContained m' whitelist start := by
  refine ⟨fun o hv hallowed => ?_, fun o hv hcut => ?_, fun he => ?_⟩
  · have hv' := h.symm.visited (not_endsInWRGSBASE hv.2.1 (by decide)) hv
    exact fun hcut => hc.wrpkru o hv' hallowed (h.symm.wrpkruCutShort hv.1 hcut)
  · have hv' := h.symm.visited (not_endsInWRGSBASE hv.2.1 (by decide)) hv
    exact hc.xrstor o hv' (h.symm.cutShort hcut)
  · obtain ⟨q, hq, hs⟩ := hc.wrgsbase (h.symm.endsInWRGSBASE he)
    exact ⟨q, hq, h.stopsAt (by omega) (by omega) hs⟩

/-- The scan goes through the same matches. -/
theorem SelfContained.visited (hc : SelfContained m whitelist start) (hv : Visited m start o ty) :
    Visited m' start o ty := by
  refine h.visited (fun ho he => ?_) hv
  subst ho
  obtain ⟨q, hq, hs⟩ := hc.wrgsbase he
  exact hv.2.2 q (by omega) hs

theorem SelfContained.isBenignWRPKRU (hc : SelfContained m whitelist start)
    (hv : Visited m start o .wrpkru) (hallowed : start + o ∉ whitelist)
    (hb : isBenignWRPKRU m (start + o) = true) : isBenignWRPKRU m' (start + o) = true := by
  have hcut := hc.wrpkru o hv hallowed
  exact isBenignWRPKRU_iff.mpr ((isBenignWRPKRU_iff.mp hb).imp
    (h.bytesAt fun h => hcut (.inr (.inr (.inl h))))
    (h.bytesAt fun h => hcut (.inr (.inr (.inr h)))))

theorem SelfContained.isBenignXRSTOR (hc : SelfContained m whitelist start)
    (hv : Visited m start o .xrstor) (hb : isBenignXRSTOR m (start + o) = true) :
    isBenignXRSTOR m' (start + o) = true := by
  obtain ⟨hx, hb⟩ := isBenignXRSTOR_iff.mp hb
  refine isBenignXRSTOR_iff.mpr ⟨(h.patterns hv.1).2.1.symm.trans hx, ?_⟩
  rw [Nat.add_assoc] at hb ⊢
  exact h.bytesAt (hc.xrstor o hv) hb

theorem SelfContained.benign (hc : SelfContained m whitelist start) (hv : Visited m start o ty)
    (hb : benign m whitelist (start + o) ty = true) :
    benign m' whitelist (start + o) ty = true := by
  cases ty with
  | wrpkru =>
      simp only [Secpoline.benign, Bool.and_eq_true, Bool.not_eq_true', List.contains_eq_mem,
        decide_eq_false_iff_not] at hb ⊢
      exact ⟨hb.1, hc.isBenignWRPKRU h hv hb.1 hb.2⟩
  | xrstor => exact hc.isBenignXRSTOR h hv hb
  | wrgsbase => cases hb

theorem SelfContained.mem_benignPage {a : Nat} (hc : SelfContained m whitelist start)
    (ha : a ∈ benignPage m whitelist start) : a ∈ benignPage m' whitelist start := by
  obtain ⟨o, ty, rfl, hv, hb⟩ := mem_benignPage_iff.mp ha
  exact mem_benignPage_iff.mpr ⟨o, ty, rfl, hc.visited h hv, hc.benign h hv hb⟩

end

/-- An instruction is recorded unless it is allowed or accepted. -/
theorem nonBenign_iff {a : Nat} :
    nonBenign m whitelist a ty = true ↔
      ¬ (ty = .wrpkru ∧ a ∈ whitelist) ∧ ¬ benign m whitelist a ty = true := by
  cases ty with
  | wrpkru =>
      by_cases ha : a ∈ whitelist <;> simp [nonBenign, benign, ha]
  | xrstor => simp [nonBenign, benign]
  | wrgsbase => simp [nonBenign, benign]

theorem SelfContained.mem_scanPage {a : Nat} (h : AgreeOn m m' start)
    (hc : SelfContained m whitelist start) (ha : a ∈ scanPage m whitelist start) :
    a ∈ scanPage m' whitelist start := by
  obtain ⟨o, ty, rfl, hv, hbad⟩ := mem_scanPage_iff.mp ha
  have hv' := hc.visited h hv
  refine mem_scanPage_iff.mpr ⟨o, ty, rfl, hv', ?_⟩
  rw [nonBenign_iff] at hbad ⊢
  exact ⟨hbad.1, fun hb => hbad.2 ((hc.of_agree h).benign h.symm hv' hb)⟩

/-! ## What is read behind the page -/

theorem bytesReach_iff (ho : o ≤ 4096) :
    bytesReach m (start + 4096) (start + o) l = true ↔ CutShort m start o l := by
  induction l generalizing o with
  | nil =>
      refine ⟨fun h => (by cases h), fun h => ?_⟩
      have hlong : 4096 < o + 0 := h.1
      omega
  | cons b rest ih =>
      rw [bytesReach, Bool.or_eq_true, decide_eq_true_iff]
      by_cases hend : o = 4096
      · subst hend
        exact ⟨fun _ => ⟨by simp, rfl⟩, fun _ => .inl (Nat.le_refl _)⟩
      · have hsub : 4096 - o = 4096 - (o + 1) + 1 := by omega
        have hshift : start + o + 1 = start + (o + 1) := by omega
        rw [Bool.and_eq_true, hshift, ih (by omega), CutShort, CutShort, hsub, List.take_succ_cons,
          bytesAt, Bool.and_eq_true, hshift, List.length_cons]
        constructor
        · rintro (h | ⟨hb, hlong, h⟩)
          · omega
          · exact ⟨by omega, hb, h⟩
        · rintro ⟨hlong, hb, h⟩
          exact .inr ⟨hb, by omega, h⟩

/-- The bytes before `stop` have to be there for the rest to be read. -/
theorem bytesReach_append {stop a : Nat} (front l : List UInt8) (h : a + front.length ≤ stop) :
    bytesReach m stop a (front ++ l) =
      (bytesAt m a front && bytesReach m stop (a + front.length) l) := by
  induction front generalizing a with
  | nil => rfl
  | cons b rest ih =>
      rw [List.length_cons] at h
      have hin : ¬ stop ≤ a := by omega
      rw [List.cons_append, bytesReach, decide_eq_false hin, Bool.false_or, ih (by omega), bytesAt,
        Bool.and_assoc, List.length_cons, Nat.add_assoc, Nat.add_comm 1]

theorem revoke_reaches_iff (m : Mem) (start : Nat) (ho : o < 4089) :
    (word32 m (start + o + 4) = REVOKE_PERMISSIONS ∧ erimIsWRPKRU m (start + o) = true ∧
        m (start + o + 3) = 0x3d ∧
        bytesReach m (start + 4096) (start + o + 8) [0x74, 0x03, 0x0f, 0x0b, 0xcc] = true) ↔
      CutShort m start o revokeSequence := by
  have hword : word32 m (start + o + 4) = REVOKE_PERMISSIONS ↔
      m (start + o + 4) = 0xcb ∧ m (start + o + 5) = 0xff ∧ m (start + o + 6) = 0xff ∧
        m (start + o + 7) = 0x7f :=
    @word32_iff m (start + o + 4) 0xcb 0xff 0xff 0x7f
  have hfront : bytesReach m (start + 4096) (start + o) revokeSequence = _ :=
    bytesReach_append (revokeSequence.take 8) (revokeSequence.drop 8)
      (by show start + o + 8 ≤ _; omega)
  rw [← bytesReach_iff (by omega), hfront, Bool.and_eq_true, hword, erimIsWRPKRU_iff]
  simp only [revokeSequence, List.take, List.drop, bytesAt, Bool.and_eq_true, beq_iff_eq,
    Nat.add_assoc, Nat.reduceAdd, List.length_cons, List.length_nil]
  tauto

theorem internal_reaches_iff (m : Mem) (start : Nat) (ho : o < 4089) :
    (erimIsWRPKRU m (start + o) = true ∧
        bytesAt m (start + o + 3) [0x65, 0x8a, 0x14, 0x25] = true ∧
        (start + 4096 ≤ start + o + 10 ∨ (word32 m (start + o + 7) = 0x10 ∧
          bytesReach m (start + 4096) (start + o + 11)
            [0x80, 0xfa, 0x00, 0x74, 0x03, 0x0f, 0x0b, 0xcc] = true))) ↔
      erimIsWRPKRU m (start + o) = true ∧
        ((4086 ≤ o ∧ bytesAt m (start + o + 3) [0x65, 0x8a, 0x14, 0x25] = true) ∨
          CutShort m start o internalSequence) := by
  have hword : word32 m (start + o + 7) = 0x10 ↔
      m (start + o + 7) = 0x10 ∧ m (start + o + 8) = 0 ∧ m (start + o + 9) = 0 ∧
        m (start + o + 10) = 0 :=
    @word32_iff m (start + o + 7) 0x10 0 0 0
  by_cases hnear : 4086 ≤ o
  · have hfront : bytesReach m (start + 4096) (start + o) internalSequence = _ :=
      bytesReach_append (internalSequence.take 7) (internalSequence.drop 7)
        (by show start + o + 7 ≤ _; omega)
    have hload : CutShort m start o internalSequence →
        bytesAt m (start + o + 3) [0x65, 0x8a, 0x14, 0x25] = true := by
      rw [← bytesReach_iff (by omega), hfront, Bool.and_eq_true]
      simp only [internalSequence, List.take, bytesAt, Bool.and_eq_true, beq_iff_eq, Nat.add_assoc,
        Nat.reduceAdd]
      tauto
    have hin : start + 4096 ≤ start + o + 10 := by omega
    tauto
  · have hfront : bytesReach m (start + 4096) (start + o) internalSequence = _ :=
      bytesReach_append (internalSequence.take 11) (internalSequence.drop 11)
        (by show start + o + 11 ≤ _; omega)
    have hout : ¬ start + 4096 ≤ start + o + 10 := by omega
    rw [← bytesReach_iff (by omega), hfront, Bool.and_eq_true, hword, erimIsWRPKRU_iff]
    simp only [internalSequence, List.take, List.drop, bytesAt, Bool.and_eq_true, beq_iff_eq,
      Nat.add_assoc, Nat.reduceAdd, List.length_cons, List.length_nil] at hout ⊢
    tauto

theorem isBenignWRPKRUReaches_iff (ho : o < 4093) (h : erimIsWRPKRU m (start + o) = true) :
    isBenignWRPKRUReaches m (start + 4096) (start + o) = true ↔ WRPKRUCutShort m start o := by
  by_cases hlast : 4089 ≤ o
  · rw [isBenignWRPKRUReaches, decide_eq_true (by omega), Bool.true_or, Bool.true_or]
    exact ⟨fun _ => .inl hlast, fun _ => rfl⟩
  · have hin : ¬ start + 4096 ≤ start + o + 7 := by omega
    have hrevoke := revoke_reaches_iff m start (show o < 4089 by omega)
    have hinternal := internal_reaches_iff m start (show o < 4089 by omega)
    simp only [isBenignWRPKRUReaches, Bool.or_eq_true, Bool.and_eq_true, beq_iff_eq,
      decide_eq_true_iff, and_assoc]
    rw [hrevoke, hinternal]
    constructor
    · rintro ((hend | hcut) | ⟨-, hload | hcut⟩)
      · exact absurd hend hin
      · exact .inr (.inr (.inl hcut))
      · exact .inr (.inl hload)
      · exact .inr (.inr (.inr hcut))
    · rintro (hend | hload | hcut | hcut)
      · exact absurd hend hlast
      · exact .inr ⟨h, .inl hload⟩
      · exact .inl (.inr hcut)
      · exact .inr ⟨h, .inr hcut⟩

theorem erimIsWRGSBASE64Reaches_iff (ho : o < 4093) :
    erimIsWRGSBASE64Reaches m (start + 4096) (start + o) = true ↔
      o = 4092 ∧ EndsInWRGSBASE m start := by
  simp only [erimIsWRGSBASE64Reaches, Bool.and_eq_true, beq_iff_eq, decide_eq_true_iff,
    EndsInWRGSBASE]
  constructor
  · rintro ⟨⟨⟨⟨h₀, h₁⟩, h₂⟩, h₃⟩, hend⟩
    obtain rfl : o = 4092 := by omega
    exact ⟨rfl, h₀, h₁, h₂, h₃⟩
  · rintro ⟨rfl, h₀, h₁, h₂, h₃⟩
    exact ⟨⟨⟨⟨h₀, h₁⟩, h₂⟩, h₃⟩, Nat.le_refl _⟩

theorem judgeReaches_iff (hv : Visited m start o ty) :
    judgeReaches m whitelist (start + 4096) (start + o) ty = true ↔
      (ty = .wrpkru ∧ start + o ∉ whitelist ∧ WRPKRUCutShort m start o) ∨
        (ty = .xrstor ∧ CutShort m start (o + 3) xrstorSequence) := by
  have ho := hv.1
  cases ty with
  | wrpkru =>
      simp only [judgeReaches, Bool.and_eq_true, Bool.not_eq_true', List.contains_eq_mem,
        decide_eq_false_iff_not, isBenignWRPKRUReaches_iff ho (unsafeType_wrpkru.mp hv.2.1)]
      simp
  | xrstor =>
      have hreach : bytesReach m (start + 4096) (start + (o + 3)) xrstorSequence = true ↔ _ :=
        bytesReach_iff (by omega)
      rw [judgeReaches, isBenignXRSTORReaches, unsafeType_xrstor.mp hv.2.1, Bool.true_and,
        Nat.add_assoc]
      simp only [reduceCtorEq, false_and, false_or, true_and]
      exact hreach
  | wrgsbase => simp [judgeReaches]

theorem scanLoopReaches_eq {fuel stop length : Nat} :
    scanLoopReaches m whitelist stop fuel start length =
      ((lookedAt (unsafeType m) 3 fuel start (length - 3)).any (erimIsWRGSBASE64Reaches m stop) ||
        (findLoop (unsafeType m) 3 fuel start (length - 3)).any
          fun x => judgeReaches m whitelist stop x.1 x.2) := by
  induction fuel generalizing start length with
  | zero => rfl
  | succ fuel ih =>
      rw [scanLoopReaches, lookedAt, findLoop, erimScan_eq]
      cases firstMatch (unsafeType m) start (length - 3) with
      | none => simp [List.any_map, Function.comp_def]
      | some x =>
          obtain ⟨found, ty⟩ := x
          dsimp only
          by_cases hzero : found = 0
          · simp [hzero]
          · rw [if_neg hzero, if_neg hzero, if_neg hzero, ih, Nat.sub_right_comm,
              List.any_append, List.any_cons, List.any_map, Function.comp_def]
            ac_rfl

/-- No match reaches into the byte with which a WRGSBASE begins. -/
theorem not_isUnsafe_before {a b : Nat} (hb : m b = 0xf3) (hlt : a < b) (hle : b < a + 3) :
    ¬ isUnsafe m a = true := by
  have hab : b = a + 1 ∨ b = a + 2 := by omega
  intro h
  rcases isUnsafe_iff.mp h with h | h | h | h
  · obtain ⟨_, h₁, h₂⟩ := erimIsWRPKRU_iff.mp h
    rcases hab with rfl | rfl
    · exact absurd (h₁.symm.trans hb) (by decide)
    · exact absurd (h₂.symm.trans hb) (by decide)
  · obtain ⟨_, h₁, h₂, _⟩ := erimIsXRSTOR_iff.mp h
    rcases hab with rfl | rfl
    · exact absurd (h₁.symm.trans hb) (by decide)
    · rw [hb] at h₂
      exact absurd rfl h₂
  · obtain ⟨_, h₁, h₂, _⟩ := erimIsWRGSBASE32_iff.mp h
    rcases hab with rfl | rfl
    · exact absurd (h₁.symm.trans hb) (by decide)
    · exact absurd (h₂.symm.trans hb) (by decide)
  · obtain ⟨_, h₁, h₂, _⟩ := erimIsWRGSBASE64_iff.mp h
    rcases hab with rfl | rfl
    · rw [hb] at h₁
      exact absurd h₁ (by decide)
    · exact absurd (h₂.symm.trans hb) (by decide)

/-- A scan reads behind the page exactly if something that it gets to is cut short. -/
theorem scanReaches_iff :
    scanReaches m whitelist start = true ↔ ¬ SelfContained m whitelist start := by
  have hlooked (hends : EndsInWRGSBASE m start) :
      start + 4092 ∈ lookedAt (unsafeType m) 3 4096 start 4093 ↔
        ∀ q < 4092, ¬ StopsAt m start q := by
    rw [mem_lookedAt (by omega) unsafeType_apart (by omega)]
    constructor
    · exact fun h q hq hs => h.2.2.1 _ (by omega) (stops_iff.mpr hs)
    · refine fun h => ⟨by omega, by omega, fun q hq hs => ?_, fun q hge hq hnear => ?_⟩
      · have hge : start ≤ q := by
          rcases hs.2 with rfl | ⟨p, hp, hpq, _⟩ <;> omega
        obtain ⟨d, rfl⟩ := Nat.exists_eq_add_of_le hge
        exact h d (by omega) (stops_iff.mp hs)
      · have hno := not_isUnsafe_before hends.1 hq hnear
        rw [← unsafeType_isSome] at hno
        exact Option.not_isSome_iff_eq_none.mp hno
  unfold scanReaches
  rw [scanLoopReaches_eq, Bool.or_eq_true, List.any_eq_true, List.any_eq_true]
  constructor
  · rintro (⟨a, ha, hreach⟩ | ⟨⟨a, ty⟩, ha, hreach⟩) hc
    · obtain ⟨hge, hlt, -⟩ := (mem_lookedAt (by omega) unsafeType_apart (by omega)).mp ha
      obtain ⟨o, rfl⟩ := Nat.exists_eq_add_of_le hge
      obtain ⟨rfl, hends⟩ := (erimIsWRGSBASE64Reaches_iff (by omega)).mp hreach
      obtain ⟨q, hq, hs⟩ := hc.wrgsbase hends
      exact (hlooked hends).mp ha q hq hs
    · obtain ⟨o, rfl, hv⟩ := mem_visits.mp ha
      rcases (judgeReaches_iff hv).mp hreach with ⟨rfl, hallowed, hcut⟩ | ⟨rfl, hcut⟩
      · exact hc.wrpkru o hv hallowed hcut
      · exact hc.xrstor o hv hcut
  · intro hc
    by_contra hnone
    obtain ⟨hlook, hjudge⟩ := not_or.mp hnone
    refine hc ⟨fun o hv hallowed hcut => ?_, fun o hv hcut => ?_, fun hends => ?_⟩
    · exact hjudge ⟨_, mem_visits.mpr ⟨o, rfl, hv⟩,
        (judgeReaches_iff hv).mpr (.inl ⟨rfl, hallowed, hcut⟩)⟩
    · exact hjudge ⟨_, mem_visits.mpr ⟨o, rfl, hv⟩, (judgeReaches_iff hv).mpr (.inr ⟨rfl, hcut⟩)⟩
    · by_contra hstop
      refine hlook ⟨start + 4092, (hlooked hends).mpr fun q hq hs => hstop ⟨q, hq, hs⟩, ?_⟩
      exact (erimIsWRGSBASE64Reaches_iff (by omega)).mpr ⟨rfl, hends⟩

theorem scanPageOrFault_eq_some {nextMapped : Bool} {l : List Nat} :
    scanPageOrFault m nextMapped whitelist start = some l ↔
      (nextMapped = true ∨ SelfContained m whitelist start) ∧ scanPage m whitelist start = l := by
  have hreach : (!scanReaches m whitelist start) = true ↔ SelfContained m whitelist start := by
    rw [Bool.not_eq_true', Bool.eq_false_iff, ne_eq, scanReaches_iff, not_not]
  unfold scanPageOrFault
  split
  · rename_i h
    rw [Bool.or_eq_true, hreach] at h
    exact ⟨fun he => ⟨h, Option.some.inj he⟩, fun he => congrArg some he.2⟩
  · rename_i h
    rw [Bool.or_eq_true, hreach] at h
    exact ⟨fun he => (nomatch he), fun he => absurd he.1 h⟩

/-! ## The verdict -/

theorem verdict_of_readable {nextMapped : Bool}
    (h : nextMapped = true ∨ SelfContained m whitelist start) :
    verdict m nextMapped whitelist start =
      some ({a | a ∈ benignPage m whitelist start}, {a | a ∈ scanPage m whitelist start}) := by
  rw [verdict, scanPageOrFault_eq_some.mpr ⟨h, rfl⟩, Option.map_some]

theorem verdict_of_fault (h : ¬ SelfContained m whitelist start) :
    verdict m false whitelist start = none := by
  cases hscan : scanPageOrFault m false whitelist start with
  | none => rw [verdict, hscan, Option.map_none]
  | some l => exact absurd ((scanPageOrFault_eq_some.mp hscan).1.resolve_left nofun) h

theorem SelfContained.pageLocal {nextMapped : Bool} (hc : SelfContained m whitelist start) :
    PageLocal m nextMapped whitelist start := by
  intro m' nextMapped' h
  have hc' := hc.of_agree h
  have hbenign : {a | a ∈ benignPage m whitelist start} = {a | a ∈ benignPage m' whitelist start} :=
    Set.ext fun a => by
      rw [Set.mem_ofPred_eq, Set.mem_ofPred_eq]
      exact ⟨hc.mem_benignPage h, hc'.mem_benignPage h.symm⟩
  have hscan : {a | a ∈ scanPage m whitelist start} = {a | a ∈ scanPage m' whitelist start} :=
    Set.ext fun a => by
      rw [Set.mem_ofPred_eq, Set.mem_ofPred_eq]
      exact ⟨hc.mem_scanPage h, hc'.mem_scanPage h.symm⟩
  rw [verdict_of_readable (.inr hc), verdict_of_readable (.inr hc'), hbenign, hscan]

/-- The verdict on a page depends on that page alone if and only if nothing that
the scan gets to is cut short by its end. -/
theorem pageLocal_iff (m : Mem) (nextMapped : Bool) (whitelist : List Nat) (start : Nat) :
    PageLocal m nextMapped whitelist start ↔ SelfContained m whitelist start := by
  refine ⟨fun h => ?_, fun h => h.pageLocal⟩
  by_contra hc
  have hsame := (h m true fun _ _ => rfl).symm.trans (h m false fun _ _ => rfl)
  rw [verdict_of_readable (.inl rfl), verdict_of_fault hc] at hsame
  cases hsame

/-- A page that ends in a WRPKRU and the first byte of a comparison. With the rest
of the harmless sequence on the next page the WRPKRU is accepted, without it is
recorded. -/
theorem page_not_local :
    ¬ PageLocal (fun x => if 0x10ffc ≤ x then revokeSequence.getD (x - 0x10ffc) 0 else 0) true []
      0x10000 := by
  generalize hm : (fun x => if 0x10ffc ≤ x then revokeSequence.getD (x - 0x10ffc) 0 else 0) = m
  have hzero : ∀ q < 4092, ¬ isUnsafe m (0x10000 + q) = true := by
    intro q hq
    refine not_isUnsafe_of_byte (b := 0) ?_ (by decide) (by decide)
    rw [← hm]
    exact if_neg (by omega)
  have hv : Visited m 0x10000 4092 .wrpkru := by
    refine ⟨by omega, by rw [← hm]; decide, fun q hq hs => ?_⟩
    by_cases hlast : q = 4092
    · subst hlast
      exact hs.2.elim (by omega) fun hs => hzero 4089 (by omega) hs.2
    · exact hzero q (by omega) hs.1
  have hagree : AgreeOn m (fun x => if x < 0x11000 then m x else 0) 0x10000 :=
    fun i hi => (if_pos (by omega)).symm
  have hends := not_endsInWRGSBASE hv.2.1 (by decide)
  intro h
  have hsame := h _ true hagree
  rw [verdict_of_readable (.inl rfl), verdict_of_readable (.inl rfl)] at hsame
  have hin : 0x10000 + 4092 ∈ benignPage m [] 0x10000 :=
    mem_benignPage_iff.mpr ⟨4092, .wrpkru, rfl, hv, by rw [← hm]; decide⟩
  have hset := Set.ext_iff.mp (congrArg Prod.fst (Option.some.inj hsame)) (0x10000 + 4092)
  rw [Set.mem_ofPred_eq, Set.mem_ofPred_eq] at hset
  obtain ⟨o, ty, he, hv', hb⟩ := mem_benignPage_iff.mp (hset.mp hin)
  cases Nat.add_left_cancel he
  have hty := hagree.unsafeType hv.1 hends
  rw [hv.2.1, hv'.2.1] at hty
  cases hty
  rw [← hm] at hb
  exact absurd hb (by decide)

end Secpoline
