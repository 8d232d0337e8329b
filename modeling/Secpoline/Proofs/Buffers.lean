import Secpoline.Model.Buffers

/-!
# Which pages a buffer is probed on

A probe at the beginning of a page stays in that page, and one at the beginning of the
buffer does unless it is among the last seven bytes of its page. The loop goes up to the
page of the byte behind the buffer, so it goes one page too far exactly if the buffer ends
at a border of a page, and it never ends if that page is the last one there is
(`probes_exact_iff`).
-/

namespace Secpoline

variable {k : Kern} {readonly : Bool} {pkru pkruAfter fuel address p q : Nat} {a : Access}

/-! ## One probe -/

theorem Kern.mem_attempt {accesses : List Access} (h : a ∈ (k.attempt pkru accesses).1) :
    a ∈ accesses := by
  induction accesses with
  | nil => exact h
  | cons b rest ih =>
      simp only [Kern.attempt] at h
      split at h
      · rcases List.mem_cons.mp h with rfl | h
        · exact List.mem_cons_self
        · exact List.mem_cons_of_mem b (ih h)
      · cases List.mem_singleton.mp h
        exact List.mem_cons_self

theorem Kern.attempt_first (b : Access) (rest : List Access) :
    b ∈ (k.attempt pkru (b :: rest)).1 := by
  simp only [Kern.attempt]
  split <;> exact List.mem_cons_self

theorem Kern.attempt_ok (accesses : List Access) :
    (k.attempt pkru accesses).2 = accesses.all (k.permits pkru) := by
  induction accesses with
  | nil => rfl
  | cons b rest ih =>
      simp only [Kern.attempt, List.all_cons]
      split
      · next hb => rw [hb, Bool.true_and, ← ih]
      · next hb => rw [Bool.eq_false_iff.mpr hb, Bool.false_and]

/-- The probe that `is_buffer_untrusted` makes at an address, in the monitor. -/
def bufferCheck (k : Kern) (readonly : Bool) (pkruAfter address : Nat) : List Access × Verdict :=
  mpkProbe k TS_MONITOR
    (if readonly then [.load address] else [.load address, .store address]) pkruAfter

/-- The page can be read, and unless `readonly` written, by the application. -/
def Kern.appPage (k : Kern) (readonly : Bool) (page : Nat) : Bool :=
  k.grants REVOKE_PERMISSIONS false page && (readonly || k.grants REVOKE_PERMISSIONS true page)

theorem bufferCheck_log :
    (bufferCheck k readonly pkruAfter address).1 =
      (k.attempt REVOKE_PERMISSIONS
        (if readonly then [.load address] else [.load address, .store address])).1 := by
  simp only [bufferCheck, mpkProbe]
  split <;> next h => rw [h]

theorem bufferCheck_address (h : a ∈ (bufferCheck k readonly pkruAfter address).1) :
    a.address = address := by
  rw [bufferCheck_log] at h
  have h := Kern.mem_attempt h
  split at h
  · cases List.mem_singleton.mp h
    rfl
  · rcases List.mem_pair.mp h with rfl | rfl <;> rfl

theorem bufferCheck_load : .load address ∈ (bufferCheck k readonly pkruAfter address).1 := by
  rw [bufferCheck_log]
  split <;> exact Kern.attempt_first _ _

theorem permits_bufferAccesses :
    (if readonly then [Access.load address] else [.load address, .store address]).all
        (k.permits REVOKE_PERMISSIONS) = true ↔
      ∀ p ∈ (Access.load address).pages, k.appPage readonly p = true := by
  cases readonly with
  | true => simp [Kern.permits, Kern.appPage, Access.isStore]
  | false =>
      have hpages : (Access.store address).pages = (Access.load address).pages := rfl
      simp [Kern.permits, Kern.appPage, Access.isStore, hpages, forall_and]

theorem bufferCheck_verdict :
    (bufferCheck k readonly pkruAfter address).2 =
      if ∀ p ∈ (Access.load address).pages, k.appPage readonly p = true then
        .accepted pkruAfter
      else .fault := by
  simp only [bufferCheck, mpkProbe, ← permits_bufferAccesses, ← Kern.attempt_ok]
  split <;> next h => rw [h]; rfl

/-- A probe that does not begin in the last seven bytes of a page. -/
theorem pages_eq (a : Access) (h : a.address < 2 ^ 64) (hin : a.address % 4096 ≤ 4088)
    (hp : p ∈ a.pages) :
    p = a.address / 4096 := by
  obtain ⟨i, hi, rfl⟩ := List.mem_map.mp hp
  have hi := List.mem_range.mp hi
  simp only [wadd]
  omega

theorem mem_pages (a : Access) (i : Nat) (hi : i < 8) : wadd a.address i / 4096 ∈ a.pages :=
  List.mem_map.mpr ⟨i, List.mem_range.mpr hi, rfl⟩

theorem mem_pages_self (h : address < 2 ^ 64) : address / 4096 ∈ (Access.load address).pages := by
  have hmem := mem_pages (.load address) 0 (by decide)
  simp only [Access.address, wadd, Nat.add_zero, Nat.mod_eq_of_lt h] at hmem
  exact hmem

/-! ## The loop -/

theorem probeLoop_end {check : Nat → List Access × Verdict} {endPage : Nat}
    (h : endPage < address) :
    probeLoop check endPage (fuel + 1) address pkru = ([], .accepted pkru) := by
  simp only [probeLoop, if_neg (Nat.not_le.mpr h)]

theorem probeLoop_step {endPage : Nat} (h : address ≤ endPage)
    (hverdict : (bufferCheck k readonly pkruAfter address).2 = .accepted pkruAfter) :
    probeLoop (bufferCheck k readonly pkruAfter) endPage (fuel + 1) address pkru =
      ((bufferCheck k readonly pkruAfter address).1 ++
          (probeLoop (bufferCheck k readonly pkruAfter) endPage fuel (wadd address 4096)
            pkruAfter).1,
        (probeLoop (bufferCheck k readonly pkruAfter) endPage fuel (wadd address 4096)
          pkruAfter).2) := by
  simp only [probeLoop, if_pos h]
  split
  · next log pkru' hcheck =>
      rw [hcheck] at hverdict ⊢
      cases hverdict
      rfl
  · next hne => exact (hne _ pkruAfter (Prod.ext rfl hverdict)).elim

theorem probeLoop_fault {endPage : Nat} (h : address ≤ endPage)
    (hverdict : (bufferCheck k readonly pkruAfter address).2 = .fault) :
    probeLoop (bufferCheck k readonly pkruAfter) endPage (fuel + 1) address pkru =
      bufferCheck k readonly pkruAfter address := by
  simp only [probeLoop, if_pos h]
  split
  · next hcheck =>
      rw [hcheck] at hverdict
      cases hverdict
  · rfl

theorem bufferCheck_cases (address : Nat) :
    (bufferCheck k readonly pkruAfter address).2 = .accepted pkruAfter ∨
      (bufferCheck k readonly pkruAfter address).2 = .fault := by
  rw [bufferCheck_verdict]
  split
  · exact .inl rfl
  · exact .inr rfl

theorem appPage_of_accepted (h : address < 2 ^ 64)
    (hv : (bufferCheck k readonly pkruAfter address).2 = .accepted pkruAfter) :
    k.appPage readonly (address / 4096) = true := by
  rw [bufferCheck_verdict] at hv
  split at hv
  · next happ => exact happ _ (mem_pages_self h)
  · cases hv

/-- The next page, if there is one. -/
theorem wadd_page (h : p + 1 < 2 ^ 52) : wadd (p * 4096) 4096 = (p + 1) * 4096 := by
  simp only [wadd]
  omega

section
variable (hq : q + 1 < 2 ^ 52)
include hq

/-- Every probe is at the beginning of a page up to the last one. -/
theorem probeLoop_mem (hp : p ≤ q + 1)
    (h : a ∈ (probeLoop (bufferCheck k readonly pkruAfter) (q * 4096) fuel (p * 4096) pkru).1) :
    ∃ p', p ≤ p' ∧ p' ≤ q ∧ a.address = p' * 4096 := by
  induction fuel generalizing p pkru with
  | zero => cases h
  | succ fuel ih =>
      by_cases hle : p * 4096 ≤ q * 4096
      · rcases bufferCheck_cases (p * 4096) with hv | hv
        · rw [probeLoop_step hle hv, wadd_page (by omega)] at h
          rcases List.mem_append.mp h with h | h
          · exact ⟨p, Nat.le_refl p, by omega, bufferCheck_address h⟩
          · obtain ⟨p', hlo, hhi, ha⟩ := ih (by omega) h
            exact ⟨p', by omega, hhi, ha⟩
        · rw [probeLoop_fault hle hv] at h
          exact ⟨p, Nat.le_refl p, by omega, bufferCheck_address h⟩
      · rw [probeLoop_end (Nat.not_le.mp hle)] at h
        cases h

/-- If the loop ends, every page has been probed and is the application's. -/
theorem probeLoop_accepted {pkru' : Nat} (hp : p ≤ q + 1)
    (h : (probeLoop (bufferCheck k readonly pkruAfter) (q * 4096) fuel (p * 4096) pkru).2 =
      .accepted pkru') {p' : Nat} (hlo : p ≤ p') (hhi : p' ≤ q) :
    .load (p' * 4096) ∈
        (probeLoop (bufferCheck k readonly pkruAfter) (q * 4096) fuel (p * 4096) pkru).1 ∧
      k.appPage readonly p' = true := by
  induction fuel generalizing p pkru with
  | zero => cases h
  | succ fuel ih =>
      have hle : p * 4096 ≤ q * 4096 := by omega
      rcases bufferCheck_cases (p * 4096) with hv | hv
      · rw [probeLoop_step hle hv, wadd_page (by omega)] at h ⊢
        by_cases heq : p = p'
        · rw [← heq]
          refine ⟨List.mem_append_left _ bufferCheck_load, ?_⟩
          exact Nat.mul_div_cancel p (by decide : 0 < 4096) ▸ appPage_of_accepted (by omega) hv
        · obtain ⟨hmem, happ⟩ := ih (by omega) h (by omega)
          exact ⟨List.mem_append_right _ hmem, happ⟩
      · rw [probeLoop_fault hle hv, hv] at h
        cases h

/-- If every page is the application's, the loop ends. -/
theorem probeLoop_accepts (happ : ∀ p', p ≤ p' → p' ≤ q → k.appPage readonly p' = true)
    {n : Nat} (hn : p + n = q + 1) :
    (probeLoop (bufferCheck k readonly pkruAfter) (q * 4096) (n + 1) (p * 4096) pkru).2 =
      .accepted (if n = 0 then pkru else pkruAfter) := by
  induction n generalizing p pkru with
  | zero => rw [probeLoop_end (by omega), if_pos rfl]
  | succ n ih =>
      have hv : (bufferCheck k readonly pkruAfter (p * 4096)).2 = .accepted pkruAfter := by
        rw [bufferCheck_verdict]
        refine if_pos fun p' hp' => ?_
        have hp' : p' = p * 4096 / 4096 := pages_eq (.load (p * 4096))
          (by simp only [Access.address]; omega) (by simp only [Access.address]; omega) hp'
        exact happ p' (by omega) (by omega)
      rw [probeLoop_step (by omega) hv, wadd_page (by omega),
        ih (fun p' hlo => happ p' (by omega)) (by omega), if_neg (Nat.succ_ne_zero n), ite_self]

end

/-! ## A memory that is the application's -/

/-- Every page can be read and written by the application. -/
def appMemory : Kern where
  pages _ := some { prot := PROT_READ ||| PROT_WRITE, key := 2 }
  mem _ := 0

theorem appMemory_verdict :
    (bufferCheck appMemory readonly pkruAfter address).2 = .accepted pkruAfter := by
  rw [bufferCheck_verdict]
  refine if_pos fun p _ => ?_
  have happ : appMemory.appPage readonly p = appMemory.appPage readonly 0 := rfl
  rw [happ]
  cases readonly <;> decide

theorem wadd_wadd (x y : Nat) : wadd (wadd address x) y = wadd address (x + y) := by
  simp only [wadd]
  omega

/-- The loop goes on as long as its addresses are not above the last page. -/
theorem appMemory_probes {endPage j : Nat} (h : ∀ i ≤ j, wadd address (i * 4096) ≤ endPage)
    (haddress : address < 2 ^ 64) :
    .load (wadd address (j * 4096)) ∈
      (probeLoop (bufferCheck appMemory readonly pkruAfter) endPage (j + 1) address pkru).1 := by
  induction j generalizing address pkru with
  | zero =>
      have h0 : wadd address (0 * 4096) = address := by simp only [wadd]; omega
      rw [probeLoop_step (h0 ▸ h 0 (Nat.le_refl 0)) appMemory_verdict, h0]
      exact List.mem_append_left _ bufferCheck_load
  | succ j ih =>
      have h0 : wadd address (0 * 4096) = address := by simp only [wadd]; omega
      have hnext (i : Nat) : wadd (wadd address 4096) (i * 4096) =
          wadd address ((i + 1) * 4096) := by
        rw [wadd_wadd, Nat.succ_mul, Nat.add_comm]
      rw [probeLoop_step (h0 ▸ h 0 (Nat.zero_le _)) appMemory_verdict, ← hnext]
      refine List.mem_append_right _ (ih (fun i hi => ?_) ?_)
      · rw [hnext]
        exact h (i + 1) (Nat.succ_le_succ hi)
      · exact Nat.mod_lt _ (by decide)

/-! ## The buffer -/

/-- Some byte of the buffer is in the page. -/
def MeetsBuffer (start : Nat) (size : Int) (page : Nat) : Prop :=
  ∃ i : Nat, (i : Int) < size ∧ wadd start i / 4096 = page

theorem meetsBuffer_iff {start : Nat} {size : Int} (hsize : 0 < size)
    (h : start + size.toNat ≤ 2 ^ 64) :
    MeetsBuffer start size p ↔
      start / 4096 ≤ p ∧ p ≤ (start + size.toNat - 1) / 4096 := by
  simp only [MeetsBuffer, wadd]
  constructor
  · intro ⟨i, hi, hp⟩
    omega
  · intro ⟨hlo, hhi⟩
    by_cases hp : start / 4096 = p
    · exact ⟨0, by omega, by omega⟩
    · exact ⟨p * 4096 - start, by omega, by omega⟩

/-- The pages of the buffer are probed, and no other ones, and the buffer is accepted if
they are the application's. -/
structure ExactProbes (start : Nat) (size : Int) (readonly : Bool) : Prop where
  confined : ∀ k fuel pkru pkruAfter,
    ∀ a ∈ (isBufferUntrusted k TS_MONITOR fuel pkru start size pkruAfter readonly).1,
      ∀ p ∈ a.pages, MeetsBuffer start size p
  covering : ∀ k fuel pkru pkruAfter pkru',
    (isBufferUntrusted k TS_MONITOR fuel pkru start size pkruAfter readonly).2 =
        .accepted pkru' →
      ∀ p, MeetsBuffer start size p →
        ∃ a ∈ (isBufferUntrusted k TS_MONITOR fuel pkru start size pkruAfter readonly).1,
          p ∈ a.pages
  accepts : ∀ (k : Kern) pkru pkruAfter,
    (∀ p, MeetsBuffer start size p → k.appPage readonly p = true) →
      ∃ fuel, (isBufferUntrusted k TS_MONITOR fuel pkru start size pkruAfter readonly).2 =
        .accepted pkruAfter

/-- The buffers that are probed as they should be: one that neither begins in the last
seven bytes of its page nor ends at a border, or one on several pages that does not end at
a border and leaves a page above it. -/
inductive Probeable (start : Nat) (size : Int) : Prop where
  | inside (hpage : start / 4096 = (start + size.toNat) / 4096) (hoffset : start % 4096 ≤ 4088)
  | across (hpages : start / 4096 < (start + size.toNat) / 4096)
      (hend : (start + size.toNat) % 4096 ≠ 0) (htop : start + size.toNat < 2 ^ 64 - 4096)

theorem isBufferUntrusted_eq (k : Kern) (fuel pkru start : Nat) (size : Int) (pkruAfter : Nat)
    (readonly : Bool) :
    isBufferUntrusted k TS_MONITOR fuel pkru start size pkruAfter readonly =
      if alignDown start ≠ alignDown (waddInt start size) then
        probeLoop (bufferCheck k readonly pkruAfter) (alignDown (waddInt start size)) fuel
          (alignDown start) pkru
      else bufferCheck k readonly pkruAfter start := by
  cases readonly <;> rfl

section
variable {start : Nat} {size : Int} (hstart : start < 2 ^ 64) (hsize : 0 < size)
  (hint : size < 2 ^ 31)
include hstart hsize hint

theorem waddInt_of_lt (h : start + size.toNat < 2 ^ 64) :
    waddInt start size = start + size.toNat := by
  simp only [waddInt]
  omega

theorem waddInt_of_le (h : 2 ^ 64 ≤ start + size.toNat) :
    waddInt start size = start + size.toNat - 2 ^ 64 := by
  simp only [waddInt]
  omega

theorem isBufferUntrusted_inside (k : Kern) (readonly : Bool) (fuel pkru pkruAfter : Nat)
    (hpage : start / 4096 = (start + size.toNat) / 4096) :
    isBufferUntrusted k TS_MONITOR fuel pkru start size pkruAfter readonly =
      bufferCheck k readonly pkruAfter start := by
  have hlt : start + size.toNat < 2 ^ 64 := by omega
  rw [isBufferUntrusted_eq, waddInt_of_lt hstart hsize hint hlt]
  exact if_neg fun hne => hne (congrArg (· * 4096) hpage)

theorem isBufferUntrusted_across (k : Kern) (readonly : Bool) (fuel pkru pkruAfter : Nat)
    (hpages : start / 4096 < (start + size.toNat) / 4096) (hlt : start + size.toNat < 2 ^ 64) :
    isBufferUntrusted k TS_MONITOR fuel pkru start size pkruAfter readonly =
      probeLoop (bufferCheck k readonly pkruAfter) ((start + size.toNat) / 4096 * 4096) fuel
        (start / 4096 * 4096) pkru := by
  rw [isBufferUntrusted_eq, waddInt_of_lt hstart hsize hint hlt]
  refine if_pos ?_
  simp only [alignDown]
  omega

theorem exactProbes_inside (hpage : start / 4096 = (start + size.toNat) / 4096)
    (hoffset : start % 4096 ≤ 4088) : ExactProbes start size readonly := by
  have hmeets {p : Nat} : MeetsBuffer start size p ↔ p = start / 4096 := by
    rw [meetsBuffer_iff hsize (by omega)]
    omega
  have hrun (k : Kern) (fuel pkru pkruAfter : Nat) :=
    isBufferUntrusted_inside hstart hsize hint k readonly fuel pkru pkruAfter hpage
  have hpages {p : Nat} (hp : p ∈ (Access.load start).pages) : p = start / 4096 :=
    pages_eq (.load start) hstart hoffset hp
  constructor
  · intro k fuel pkru pkruAfter a ha p hp
    rw [hrun] at ha
    have haddress := bufferCheck_address ha
    rw [hmeets, ← haddress]
    exact pages_eq a (haddress ▸ hstart) (haddress ▸ hoffset) hp
  · intro k fuel pkru pkruAfter pkru' _ p hp
    rw [hrun]
    refine ⟨.load start, bufferCheck_load, ?_⟩
    rw [hmeets.mp hp]
    exact mem_pages_self hstart
  · intro k pkru pkruAfter happ
    refine ⟨0, ?_⟩
    rw [hrun, bufferCheck_verdict]
    exact if_pos fun p hp => happ p (hmeets.mpr (hpages hp))

theorem exactProbes_across (hpages : start / 4096 < (start + size.toNat) / 4096)
    (hend : (start + size.toNat) % 4096 ≠ 0) (htop : start + size.toNat < 2 ^ 64 - 4096) :
    ExactProbes start size readonly := by
  have hmeets {p : Nat} :
      MeetsBuffer start size p ↔ start / 4096 ≤ p ∧ p ≤ (start + size.toNat) / 4096 := by
    rw [meetsBuffer_iff hsize (by omega)]
    omega
  have hrun (k : Kern) (fuel pkru pkruAfter : Nat) :=
    isBufferUntrusted_across hstart hsize hint k readonly fuel pkru pkruAfter hpages (by omega)
  have hq : (start + size.toNat) / 4096 + 1 < 2 ^ 52 := by omega
  have hle : start / 4096 ≤ (start + size.toNat) / 4096 + 1 := by omega
  constructor
  · intro k fuel pkru pkruAfter a ha p hp
    rw [hrun] at ha
    obtain ⟨p', hlo, hhi, haddress⟩ := probeLoop_mem hq hle ha
    have hp : p = p' * 4096 / 4096 := haddress ▸ pages_eq a (by omega) (by omega) hp
    rw [hmeets]
    omega
  · intro k fuel pkru pkruAfter pkru' hacc p hp
    rw [hrun] at hacc ⊢
    obtain ⟨hlo, hhi⟩ := hmeets.mp hp
    refine ⟨.load (p * 4096), (probeLoop_accepted hq hle hacc hlo hhi).1, ?_⟩
    have hmem : p * 4096 / 4096 ∈ (Access.load (p * 4096)).pages := mem_pages_self (by omega)
    rwa [Nat.mul_div_cancel p (by decide)] at hmem
  · intro k pkru pkruAfter happ
    refine ⟨(start + size.toNat) / 4096 + 1 - start / 4096 + 1, ?_⟩
    rw [hrun, probeLoop_accepts hq (fun p hlo hhi => happ p (hmeets.mpr ⟨hlo, hhi⟩)) (by omega),
      if_neg (by omega)]

/-- The application may read, or write, what is accepted. -/
theorem appPage_of_isBufferUntrusted {k : Kern} {readonly : Bool}
    {fuel pkru pkruAfter pkru' p : Nat} (h : Probeable start size)
    (hacc : (isBufferUntrusted k TS_MONITOR fuel pkru start size pkruAfter readonly).2 =
      .accepted pkru') (hp : MeetsBuffer start size p) : k.appPage readonly p = true := by
  cases h with
  | inside hpage hoffset =>
      rw [isBufferUntrusted_inside hstart hsize hint _ _ _ _ _ hpage] at hacc
      rw [meetsBuffer_iff hsize (by omega)] at hp
      have heq : p = start / 4096 := by omega
      rcases bufferCheck_cases start with hv | hv
      · exact heq ▸ appPage_of_accepted hstart hv
      · rw [hv] at hacc
        cases hacc
  | across hpages hend htop =>
      rw [isBufferUntrusted_across hstart hsize hint _ _ _ _ _ hpages (by omega)] at hacc
      rw [meetsBuffer_iff hsize (by omega)] at hp
      exact (probeLoop_accepted (by omega) (by omega) hacc hp.1 (by omega)).2

/-! ### The other buffers -/

/-- The first probe goes into the next page. -/
theorem not_exactProbes_offset (hpage : start / 4096 = (start + size.toNat) / 4096)
    (hoffset : 4088 < start % 4096) : ¬ ExactProbes start size readonly := by
  intro h
  have hmeets := h.confined appMemory 0 0 0 (.load start)
    (by rw [isBufferUntrusted_inside hstart hsize hint _ _ _ _ _ hpage]; exact bufferCheck_load)
    _ (mem_pages (.load start) 7 (by decide))
  rw [meetsBuffer_iff hsize (by omega)] at hmeets
  simp only [Access.address, wadd] at hmeets
  omega

/-- Behind the end of memory the loop does not begin. -/
theorem not_exactProbes_wraps (hwraps : 2 ^ 64 ≤ start + size.toNat) :
    ¬ ExactProbes start size readonly := by
  intro h
  have hrun : isBufferUntrusted appMemory TS_MONITOR 1 0 start size 0 readonly =
      ([], .accepted 0) := by
    rw [isBufferUntrusted_eq, waddInt_of_le hstart hsize hint hwraps, if_pos, probeLoop_end]
    all_goals
      simp only [alignDown]
      omega
  obtain ⟨a, ha, -⟩ := h.covering appMemory 1 0 0 0 (by rw [hrun]) _ ⟨0, hsize, rfl⟩
  rw [hrun] at ha
  cases ha

theorem not_exactProbes_across (j : Nat) (hpages : start / 4096 < (start + size.toNat) / 4096)
    (hlt : start + size.toNat < 2 ^ 64)
    (hj : ∀ i ≤ j, wadd (start / 4096 * 4096) (i * 4096) ≤ (start + size.toNat) / 4096 * 4096)
    (hmeets : ¬ MeetsBuffer start size (wadd (start / 4096 * 4096) (j * 4096) / 4096)) :
    ¬ ExactProbes start size readonly := by
  intro h
  refine hmeets (h.confined appMemory (j + 1) 0 0
    (.load (wadd (start / 4096 * 4096) (j * 4096))) ?_ _
    (mem_pages_self (Nat.mod_lt _ (by decide))))
  rw [isBufferUntrusted_across hstart hsize hint _ _ _ _ _ hpages hlt]
  exact appMemory_probes hj (by omega)

end

/-- The buffers of the application for which the probes are right are the ones of
`Probeable`. -/
theorem probes_exact_iff (start : Nat) (size : Int) (readonly : Bool) (hstart : start < 2 ^ 64)
    (hsize : 0 < size) (hint : size < 2 ^ 31) :
    ExactProbes start size readonly ↔ Probeable start size := by
  constructor
  · intro h
    by_cases hwraps : 2 ^ 64 ≤ start + size.toNat
    · exact absurd h (not_exactProbes_wraps hstart hsize hint hwraps)
    by_cases hpage : start / 4096 = (start + size.toNat) / 4096
    · refine .inside hpage (Nat.not_lt.mp fun hoffset => ?_)
      exact not_exactProbes_offset hstart hsize hint hpage hoffset h
    have hpages : start / 4096 < (start + size.toNat) / 4096 := by omega
    refine .across hpages (fun hend => ?_) (Nat.not_le.mp fun htop => ?_)
    · -- the loop gets to the page behind the buffer
      refine not_exactProbes_across hstart hsize hint
        ((start + size.toNat) / 4096 - start / 4096) hpages (by omega) (fun i hi => ?_) ?_ h
      · simp only [wadd]
        omega
      · rw [meetsBuffer_iff hsize (by omega)]
        simp only [wadd]
        omega
    · -- the loop gets to the first page of memory
      refine not_exactProbes_across hstart hsize hint
        ((start + size.toNat) / 4096 - start / 4096 + 1) hpages (by omega) (fun i hi => ?_) ?_ h
      · simp only [wadd]
        omega
      · rw [meetsBuffer_iff hsize (by omega)]
        simp only [wadd]
        omega
  · intro h
    cases h with
    | inside hpage hoffset => exact exactProbes_inside hstart hsize hint hpage hoffset
    | across hpages hend htop => exact exactProbes_across hstart hsize hint hpages hend htop

theorem probes_exact_two_pages : ExactProbes 8190 16 false :=
  (probes_exact_iff 8190 16 false (by decide) (by decide) (by decide)).mpr
    (.across (by decide) (by decide) (by decide))

/-- The permissions of the monitor, and those it copies with. -/
def GRANT_TRUSTED_PERMISSIONS : Nat := 0x7FFFFFF0
def GRANT_FULL_PERMISSIONS : Nat := 0x7FFFFFC0

/-- A page of the application, and nothing behind it. -/
def lastPage : Kern where
  pages p := if p = 16 then some { prot := PROT_READ ||| PROT_WRITE, key := 2 } else none
  mem _ := 0

theorem appPage_of_isBufferUntrusted_lastPage : lastPage.appPage true 16 = true :=
  have hacc : (isBufferUntrusted lastPage TS_MONITOR 0 0 0x10000 8 0 true).2 = .accepted 0 := by
    decide +kernel
  appPage_of_isBufferUntrusted (by decide) (by decide) (by decide) (.inside rfl (by decide)) hacc
    ⟨0, by decide, rfl⟩

/-- The end of the page may not be read, though it is the application's. -/
theorem probes_exact_fails_at_border :
    lastPage.appPage true 16 = true ∧
      (∀ p, MeetsBuffer 0x10F80 128 p → p = 16) ∧
      isBufferUntrusted lastPage TS_MONITOR 2 GRANT_TRUSTED_PERMISSIONS 0x10F80 128
          GRANT_FULL_PERMISSIONS true =
        ([.load 0x10000, .load 0x11000], .fault) := by
  refine ⟨by decide, fun p hp => ?_, by decide⟩
  have hp := (meetsBuffer_iff (by decide) (by decide)).mp hp
  simp at hp
  omega

end Secpoline
