import Secpoline.Proofs.ScanLocal

/-!
# When a page scan is exact

What `erim_memScanRegion` records for a page is compared with what it is meant to
record: the matches that lie in the page with all their bytes and are not known
to be harmless.

The loop misses a match in the last three bytes of the page, because its bound is
one too small for a pattern of three bytes, and it misses everything from the
first match at which it stops. It records one thing too many, a WRGSBASE of five
bytes that begins four bytes before the end of the page. And without a page behind
the one it scans it records nothing at all if it reads on there.
-/

namespace Secpoline

variable {m : Mem} {nextMapped : Bool} {whitelist : List Nat} {start o : Nat}

/-- An instruction at offset `o` that a scan of the page has to record. -/
def ToRecord (m : Mem) (whitelist : List Nat) (start o : Nat) : Prop :=
  (erimIsWRPKRU m (start + o) = true ∧ o + 3 ≤ 4096 ∧ start + o ∉ whitelist ∧
      ¬ isBenignWRPKRU m (start + o) = true) ∨
    (erimIsXRSTOR m (start + o) = true ∧ o + 3 ≤ 4096 ∧ ¬ isBenignXRSTOR m (start + o) = true) ∨
    (erimIsWRGSBASE32 m (start + o) = true ∧ o + 4 ≤ 4096) ∨
    (erimIsWRGSBASE64 m (start + o) = true ∧ o + 5 ≤ 4096)

/-- The scan comes to its end, records what it has to and nothing else, and reports
the page as safe only if there is nothing to record. -/
def ScanExact (m : Mem) (nextMapped : Bool) (whitelist : List Nat) (start : Nat) : Prop :=
  ∃ l, scanPageOrFault m nextMapped whitelist start = some l ∧
    (∀ a, a ∈ l ↔ ∃ o, a = start + o ∧ ToRecord m whitelist start o) ∧
    (l = [] → ∀ o, ¬ ToRecord m whitelist start o)

/-- There is a page behind this one, or nothing that the scan gets to is cut short by
the end of the page; nothing that has to be recorded is in the last three bytes, or at
or behind a match at which the loop stops; and if a WRGSBASE runs into the next page,
the loop stops before it gets there. -/
structure NothingHidden (m : Mem) (nextMapped : Bool) (whitelist : List Nat) (start : Nat) :
    Prop where
  readable : nextMapped = true ∨ SelfContained m whitelist start
  beforeEnd : ¬ ToRecord m whitelist start 4093
  reached : ∀ o q, ToRecord m whitelist start o → q ≤ o → ¬ StopsAt m start q
  inside : erimIsWRGSBASE64 m (start + 4092) = true → ∃ q ≤ 4092, StopsAt m start q

theorem ToRecord.match (h : ToRecord m whitelist start o) :
    ∃ ty, unsafeType m (start + o) = some ty ∧ nonBenign m whitelist (start + o) ty = true := by
  rcases h with ⟨h, _, hallowed, hbenign⟩ | ⟨h, _, hbenign⟩ | ⟨h, _⟩ | ⟨h, _⟩
  · refine ⟨.wrpkru, unsafeType_wrpkru.mpr h, ?_⟩
    simp [nonBenign, hallowed, hbenign]
  · refine ⟨.xrstor, unsafeType_xrstor.mpr h, ?_⟩
    simp [nonBenign, hbenign]
  · exact ⟨.wrgsbase, unsafeType_wrgsbase.mpr (.inl h), rfl⟩
  · exact ⟨.wrgsbase, unsafeType_wrgsbase.mpr (.inr h), rfl⟩

theorem toRecord_of_match {ty : UnsafeType} (hty : unsafeType m (start + o) = some ty)
    (hbad : nonBenign m whitelist (start + o) ty = true) (hlt : o < 4093)
    (hinside : o = 4092 → ¬ erimIsWRGSBASE64 m (start + o) = true) :
    ToRecord m whitelist start o := by
  cases ty with
  | wrpkru =>
      simp only [nonBenign, Bool.not_eq_true', Bool.or_eq_false_iff, List.contains_eq_mem,
        decide_eq_false_iff_not] at hbad
      exact .inl ⟨unsafeType_wrpkru.mp hty, by omega, hbad.1, by simp [hbad.2]⟩
  | xrstor =>
      simp only [nonBenign, Bool.not_eq_true'] at hbad
      exact .inr (.inl ⟨unsafeType_xrstor.mp hty, by omega, by simp [hbad]⟩)
  | wrgsbase =>
      rcases unsafeType_wrgsbase.mp hty with h | h
      · exact .inr (.inr (.inl ⟨h, by omega⟩))
      · have hne : o ≠ 4092 := fun ho => hinside ho h
        exact .inr (.inr (.inr ⟨h, by omega⟩))

theorem ToRecord.lt (h : ToRecord m whitelist start o) : o < 4094 := by
  rcases h with ⟨_, h, _⟩ | ⟨_, h, _⟩ | ⟨_, h⟩ | ⟨_, h⟩ <;> omega

theorem not_toRecord_wrgsbase64 (h : erimIsWRGSBASE64 m (start + 4092) = true) :
    ¬ ToRecord m whitelist start 4092 := by
  have hty := unsafeType_wrgsbase.mpr (.inr h)
  rintro (⟨h', _⟩ | ⟨h', _⟩ | ⟨h', _⟩ | ⟨_, h'⟩)
  · rw [unsafeType_wrpkru.mpr h'] at hty
    cases hty
  · rw [unsafeType_xrstor.mpr h'] at hty
    cases hty
  · have h₁ := (erimIsWRGSBASE64_iff.mp h).2.1
    rw [(erimIsWRGSBASE32_iff.mp h').2.1] at h₁
    exact absurd h₁ (by decide)
  · omega

/-- What is recorded is visited. -/
theorem visited_of_recorded (h : start + o ∈ scanPage m whitelist start) :
    ∃ ty, Visited m start o ty := by
  obtain ⟨o', ty, he, hv, -⟩ := mem_scanPage_iff.mp h
  cases Nat.add_left_cancel he
  exact ⟨ty, hv⟩

theorem ScanExact.nothingHidden (h : ScanExact m nextMapped whitelist start) :
    NothingHidden m nextMapped whitelist start := by
  obtain ⟨l, hscan, hrecorded, -⟩ := h
  obtain ⟨hreadable, rfl⟩ := scanPageOrFault_eq_some.mp hscan
  have hvisited (o : Nat) (hr : ToRecord m whitelist start o) : ∃ ty, Visited m start o ty :=
    visited_of_recorded ((hrecorded _).mpr ⟨o, rfl, hr⟩)
  refine ⟨hreadable, fun hr => ?_, fun o q hr hq => ?_, fun hw => ?_⟩
  · obtain ⟨_, hv⟩ := hvisited _ hr
    exact absurd hv.1 (by omega)
  · obtain ⟨_, hv⟩ := hvisited o hr
    exact hv.2.2 q hq
  · by_contra hstop
    have hv : Visited m start 4092 .wrgsbase :=
      ⟨by omega, unsafeType_wrgsbase.mpr (.inr hw), fun q hq hs => hstop ⟨q, hq, hs⟩⟩
    obtain ⟨o, he, hr⟩ := (hrecorded _).mp (mem_scanPage_iff.mpr ⟨_, _, rfl, hv, rfl⟩)
    cases Nat.add_left_cancel he
    exact not_toRecord_wrgsbase64 hw hr

theorem NothingHidden.mem_scanPage (h : NothingHidden m nextMapped whitelist start) {a : Nat} :
    a ∈ scanPage m whitelist start ↔ ∃ o, a = start + o ∧ ToRecord m whitelist start o := by
  rw [mem_scanPage_iff]
  constructor
  · rintro ⟨o, ty, rfl, ⟨hlt, hty, hstop⟩, hbad⟩
    refine ⟨o, rfl, toRecord_of_match hty hbad hlt fun ho hw => ?_⟩
    subst ho
    obtain ⟨q, hq, hs⟩ := h.inside hw
    exact hstop q hq hs
  · rintro ⟨o, rfl, hr⟩
    obtain ⟨ty, hty, hbad⟩ := hr.match
    have hne : o ≠ 4093 := by
      rintro rfl
      exact h.beforeEnd hr
    have hlt := hr.lt
    exact ⟨o, ty, rfl, ⟨by omega, hty, fun q => h.reached o q hr⟩, hbad⟩

/-- A scan of a page is exact if and only if nothing is hidden from it. -/
theorem scanExact_iff (m : Mem) (nextMapped : Bool) (whitelist : List Nat) (start : Nat) :
    ScanExact m nextMapped whitelist start ↔ NothingHidden m nextMapped whitelist start := by
  refine ⟨fun h => h.nothingHidden, fun h => ?_⟩
  refine ⟨_, scanPageOrFault_eq_some.mpr ⟨h.readable, rfl⟩, fun a => h.mem_scanPage,
    fun hnil o hr => ?_⟩
  have hin := h.mem_scanPage.mpr ⟨o, rfl, hr⟩
  rw [hnil] at hin
  cases hin

/-- A WRPKRU in the first bytes of a page is not recorded. -/
theorem scan_not_exact :
    ¬ ScanExact
      (fun x => if x = 0x10000 then 0x0f else if x = 0x10001 then 0x01 else
        if x = 0x10002 then 0xef else 0) true [] 0x10000 := by
  rintro ⟨l, hscan, hrecorded, -⟩
  obtain ⟨-, rfl⟩ := scanPageOrFault_eq_some.mp hscan
  have hin := (hrecorded 0x10000).mpr ⟨0, rfl, .inl (by decide)⟩
  obtain ⟨o, _, ho, hv, _⟩ := mem_scanPage_iff.mp hin
  exact hv.2.2 0 (Nat.zero_le o) ⟨by decide, .inl rfl⟩

end Secpoline
