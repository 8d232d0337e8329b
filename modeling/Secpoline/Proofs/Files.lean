import Secpoline.Model.Files

/-!
# Descriptors of the monitor have their bit clear

A set bit means one of two things: the application owns the descriptor, or the
number was released with its bit left set and is in `stale`. Every handler keeps
that, and a descriptor of the monitor is neither, as long as the monitor is not
handed a stale number. The constructor leaves one behind: the descriptor of the
directory it reads. The first descriptor the monitor opens after start-up gets
that number, unless the application opened one before.
-/

namespace Secpoline

open Lib

/-! ## Bits and table entries -/

section Bitmap

variable {m : FdBitmap} {i j : Nat}

theorem FdBitmap.readBit_setBit :
    (m.setBit i).readBit j = (decide (j = i) || m.readBit j) := by
  unfold setBit readBit
  dsimp only
  split
  · rw [getBit_orBit, getBit_padTo]
    simp only [padTo, List.length_append, List.length_replicate]
    omega
  · rw [getBit_orBit (by omega)]

theorem FdBitmap.readBit_unsetBit :
    (m.unsetBit i).readBit j = (decide (j ≠ i) && m.readBit j) := by
  unfold unsetBit readBit
  split
  · rename_i hlen
    by_cases hji : j = i
    · subst hji
      simp [getBit, List.getElem?_eq_none hlen]
    · simp [hji]
  · exact getBit_clearBit

theorem FdBitmap.readBit_empty : FdBitmap.empty.readBit j = false := by
  unfold readBit getBit empty
  by_cases hj : j / 8 = 0
  · simp [hj]
  · simp [List.getElem?_eq_none (show [0#8].length ≤ j / 8 by simp; omega)]

theorem FdBitmap.readBit_foldl (l : List Nat) :
    (l.foldl FdBitmap.setBit m).readBit j = (decide (j ∈ l) || m.readBit j) := by
  induction l generalizing m with
  | nil => simp
  | cons i l ih =>
      rw [List.foldl_cons, ih, readBit_setBit, ← Bool.or_assoc]
      congr 1
      simp only [List.mem_cons, Bool.decide_or]
      rw [Bool.or_comm]

end Bitmap

section Table

variable {t : FdTable} {n k : Nat} {o : Option FdOwner}

theorem FdTable.owner_put : (t.put n o).owner k = if k = n then o else t.owner k := by
  unfold owner put
  by_cases hkn : k = n
  · subst hkn
    rw [List.getElem?_set_self (by simp; omega)]
    simp
  · rw [List.getElem?_set_ne (Ne.symm hkn), if_neg hkn]
    by_cases hk : k < t.length
    · rw [List.getElem?_append_left hk]
    · have hnone : t[k]? = none := List.getElem?_eq_none (by omega)
      rw [List.getElem?_append_right (by omega), hnone, List.getElem?_replicate]
      split <;> rfl

theorem FdTable.owner_lowestFree : t.owner t.lowestFree = none := by
  unfold owner lowestFree
  by_cases hlt : t.findIdx (· = none) < t.length
  · rw [List.getElem?_eq_getElem hlt]
    have := List.findIdx_getElem (w := hlt)
    simpa using this
  · rw [List.getElem?_eq_none (by omega)]
    rfl

end Table

theorem toSizeT_of_nonneg {fd : Int} (h : 0 ≤ fd) : toSizeT fd = fd.toNat := by
  unfold toSizeT
  rw [if_neg (by omega)]

/-! ## The invariant -/

structure FdInv (s : Files) : Prop where
  owned : ∀ n, s.readBit n = true → s.table.owner n = some .application ∨ n ∈ s.stale
  stale : ∀ n ∈ s.stale, s.table.owner n ≠ some .monitor

/-- The monitor is not handed a number that was released with its bit set. -/
def FdEvent.Tame (s : Files) : FdEvent → Prop
  | .monitorOpen => s.table.lowestFree ∉ s.stale
  | _ => True

/-- Runs from start-up in which every event satisfies `P` in the state it happens
in. The descriptors open before start-up are the application's. -/
inductive FdRun (P : Files → FdEvent → Prop) : Files → Prop
  | start (inherited : FdTable) : (∀ n, inherited.owner n ≠ some .monitor) →
      FdRun P (.start inherited)
  | event {s : Files} (e : FdEvent) : FdRun P s → P s e → FdRun P (s.step e)

section Step

variable {s : Files} {n : Nat}

theorem FdInv.clear_of_monitor (h : FdInv s) (hn : s.table.owner n = some .monitor) :
    s.readBit n = false := by
  by_contra hbit
  rcases h.owned n (by simpa using hbit) with happ | hstale
  · rw [hn] at happ
    cases happ
  · exact h.stale n hstale hn

/-- The application is given `n`, and its bit may be set with it. -/
theorem FdInv.given {bitmap : FdBitmap} (h : FdInv s)
    (hbits : ∀ k, bitmap.readBit k = true → k = n ∨ s.readBit k = true) :
    FdInv (Files.given { s with table := s.table.put n (some .application), bitmap } n) := by
  constructor
  · intro k hk
    simp only [Files.given, FdTable.owner_put, List.mem_filter, decide_eq_true_eq]
    by_cases hkn : k = n
    · simp [hkn]
    · rcases h.owned k ((hbits k hk).resolve_left hkn) with happ | hstale
      · simp [hkn, happ]
      · exact .inr ⟨hstale, hkn⟩
  · intro k hk
    simp only [Files.given, List.mem_filter, decide_eq_true_eq] at hk
    simp only [Files.given, FdTable.owner_put, if_neg hk.2]
    exact h.stale k hk.1

/-- The bit of the number the application was given is set. -/
theorem FdInv.save {fd : Int} (h : FdInv s) (hfd : 0 ≤ fd) :
    FdInv (Files.given
      (Files.saveUntrustedFd { s with table := s.table.put fd.toNat (some .application) } fd)
      fd.toNat) := by
  unfold Files.saveUntrustedFd
  rw [if_neg (by omega), toSizeT_of_nonneg hfd]
  refine h.given fun k hk => ?_
  rw [FdBitmap.readBit_setBit, Bool.or_eq_true, decide_eq_true_eq] at hk
  exact hk

theorem Files.saveUntrustedFd_neg {rax : Int} (h : rax < 0) : s.saveUntrustedFd rax = s :=
  if_pos h

theorem FdInv.create (h : FdInv s) (ok : Bool) : FdInv (s.create ok) := by
  cases ok with
  | false =>
      unfold Files.create
      rw [if_neg (by simp), Files.saveUntrustedFd_neg (by decide)]
      exact h
  | true => exact h.save (Int.natCast_nonneg s.table.lowestFree)

/-- Releasing a number whose bit is clear, or that is recorded as stale. -/
theorem FdInv.release {bitmap : FdBitmap} {stale : List Nat} (h : FdInv s)
    (hbits : ∀ k, bitmap.readBit k = true → s.readBit k = true)
    (hstale : ∀ k ∈ stale, k = n ∨ k ∈ s.stale) (hmono : ∀ k ∈ s.stale, k ∈ stale)
    (hn : bitmap.readBit n = true → n ∈ stale) :
    FdInv { table := s.table.put n none, bitmap, stale } := by
  constructor
  · intro k hk
    dsimp only
    rw [FdTable.owner_put]
    by_cases hkn : k = n
    · subst hkn
      exact .inr (hn hk)
    · rw [if_neg hkn]
      exact (h.owned k (hbits k hk)).imp id (hmono k)
  · intro k hk
    dsimp only
    rw [FdTable.owner_put]
    split
    · simp
    · rename_i hkn
      exact h.stale k ((hstale k hk).resolve_left hkn)

theorem FdInv.openFile (h : FdInv s) (r : OpenResult) : FdInv (s.openFile r) := by
  cases r with
  | fails =>
      unfold Files.openFile
      rw [Files.saveUntrustedFd_neg (by decide)]
      exact h
  | denied =>
      unfold Files.openFile
      dsimp only
      rw [Files.saveUntrustedFd_neg (by decide)]
      have hfree : s.table.owner s.table.lowestFree = none := FdTable.owner_lowestFree
      constructor
      · intro k hk
        simp only [Files.kernelClose, Files.kernelOpen, FdTable.owner_put]
        rcases h.owned k hk with happ | hstale
        · have hne : k ≠ s.table.lowestFree := fun he => by
            rw [he, hfree] at happ
            cases happ
          simp [hne, happ]
        · exact .inr hstale
      · intro k hk
        simp only [Files.kernelClose, Files.kernelOpen, FdTable.owner_put]
        split
        · simp
        · exact h.stale k hk
  | opened => exact h.save (Int.natCast_nonneg s.table.lowestFree)

theorem FdInv.createUnsaved (h : FdInv s) : FdInv s.createUnsaved :=
  h.given fun _ hk => .inr hk

theorem FdInv.dup2 (h : FdInv s) (fd₁ fd₂ : Int) (ok : Bool) : FdInv (s.dup2 fd₁ fd₂ ok) := by
  unfold Files.dup2
  dsimp only
  split
  · rename_i hok
    split
    -- the two are the same: its bit was set before
    · rename_i hsame
      have hbit : s.readBit (toSizeT fd₂) = true := by
        by_contra hbit
        have hneg : s.fdFirstSecondArgument fd₁ fd₂ = -1 := if_neg hbit
        omega
      unfold Files.saveUntrustedFd
      rw [if_neg (by omega)]
      refine ⟨fun k hk => h.owned k ?_, h.stale⟩
      rw [Files.readBit, FdBitmap.readBit_setBit, Bool.or_eq_true, decide_eq_true_eq] at hk
      rcases hk with rfl | hk
      · exact hbit
      · exact hk
    · exact h.save hok.2.2.1
  · rw [Files.saveUntrustedFd_neg (by decide)]
    exact h

theorem FdInv.close (h : FdInv s) (fd : Int) (r : CloseResult) : FdInv (s.close fd r) := by
  unfold Files.close
  dsimp only
  split
  · exact h
  rename_i hopen
  have hnonneg : 0 ≤ s.fdFirstArgument fd := by omega
  cases r with
  | closed =>
      refine h.release (fun k hk => ?_) (fun k hk => .inr hk) (fun k hk => hk) (fun hk => ?_)
      · rw [FdBitmap.readBit_unsetBit, Bool.and_eq_true] at hk
        exact hk.2
      · rw [FdBitmap.readBit_unsetBit, toSizeT_of_nonneg hnonneg] at hk
        simp at hk
  | refused => exact h
  | released =>
      exact h.release (fun k hk => hk) (by simp) (by simp +contextual) (by simp)

theorem FdInv.pipe (h : FdInv s) (ok : Bool) : FdInv (s.pipe ok) := by
  cases ok with
  | false => exact h
  | true =>
      have h₀ : FdInv (Files.given { s with
          table := s.table.put s.table.lowestFree (some .application)
          bitmap := s.bitmap.setBit s.table.lowestFree } s.table.lowestFree) :=
        h.given fun k hk => by
          rw [FdBitmap.readBit_setBit, Bool.or_eq_true, decide_eq_true_eq] at hk
          exact hk
      exact h₀.given fun k hk => by
        rw [FdBitmap.readBit_setBit, Bool.or_eq_true, decide_eq_true_eq] at hk
        exact hk

theorem FdInv.monitorOpen (h : FdInv s) (htame : s.table.lowestFree ∉ s.stale) :
    FdInv (s.kernelOpen .monitor).2 := by
  have hfree : s.table.owner s.table.lowestFree = none := FdTable.owner_lowestFree
  constructor
  · intro k hk
    simp only [Files.kernelOpen, FdTable.owner_put]
    rcases h.owned k hk with happ | hstale
    · have hne : k ≠ s.table.lowestFree := fun he => by
        rw [he, hfree] at happ
        cases happ
      simp [hne, happ]
    · exact .inr hstale
  · intro k hk
    simp only [Files.kernelOpen, FdTable.owner_put]
    have hne : k ≠ s.table.lowestFree := fun he => htame (he ▸ hk)
    rw [if_neg hne]
    exact h.stale k hk

theorem FdInv.monitorClose (h : FdInv s) (hn : s.table.owner n = some .monitor) :
    FdInv (s.kernelClose n) :=
  h.release (fun _ hk => hk) (fun _ hk => .inr hk) (fun _ hk => hk) fun hk => by
    rw [show s.bitmap.readBit n = false from h.clear_of_monitor hn] at hk
    cases hk

theorem FdInv.step (h : FdInv s) {e : FdEvent} (htame : e.Tame s) : FdInv (s.step e) := by
  cases e with
  | create ok => exact h.create ok
  | openFile r => exact h.openFile r
  | createUnsaved => exact h.createUnsaved
  | dup2 fd₁ fd₂ ok => exact h.dup2 fd₁ fd₂ ok
  | close fd r => exact h.close fd r
  | pipe ok => exact h.pipe ok
  | monitorOpen => exact h.monitorOpen htame
  | monitorClose k =>
      unfold Files.step
      dsimp only
      split
      · rename_i hk
        exact h.monitorClose hk
      · exact h

end Step

/-! ## Runs -/

theorem Files.start_inv {inherited : FdTable} (h : ∀ n, inherited.owner n ≠ some .monitor) :
    FdInv (Files.start inherited) := by
  constructor
  · intro n hn
    simp only [Files.start, Files.kernelClose, Files.kernelOpen, FdTable.owner_put,
      List.mem_singleton] at hn ⊢
    by_cases hd : n = inherited.lowestFree
    · exact .inr hd
    · rw [if_neg hd]
      rw [Files.readBit, FdBitmap.readBit_foldl, FdBitmap.readBit_empty, Bool.or_false,
        decide_eq_true_eq, List.mem_filter, decide_eq_true_eq, if_neg hd] at hn
      rw [if_neg hd]
      cases howner : inherited.owner n with
      | none => exact absurd howner hn.2
      | some o =>
          cases o with
          | application => exact .inl rfl
          | monitor => exact absurd howner (h n)
  · intro n hn
    simp only [Files.start, Files.kernelClose, Files.kernelOpen, FdTable.owner_put,
      List.mem_singleton] at hn ⊢
    rw [if_pos hn]
    simp

theorem FdRun.inv {s : Files} (h : FdRun (fun s e => e.Tame s) s) : FdInv s := by
  induction h with
  | start inherited hinh => exact Files.start_inv hinh
  | event e _ htame ih => exact ih.step htame

/-- A descriptor that the monitor opened and that is still open has its bit clear,
in every run in which the monitor is not handed a stale number. -/
theorem fdRun_monitor_clear {s : Files} (h : FdRun (fun s e => e.Tame s) s) :
    ∀ n, s.table.owner n = some .monitor → s.readBit n = false :=
  fun _ hn => h.inv.clear_of_monitor hn

/-- Standard input, output and error. -/
def standardFds : FdTable := [some .application, some .application, some .application]

theorem standardFds_owner : ∀ n, standardFds.owner n ≠ some .monitor := by
  intro n
  match n with
  | 0 | 1 | 2 => decide
  | n + 3 => simp [standardFds, FdTable.owner]

/-- The application opens a file, which gets the number of the directory, and the
monitor opens a descriptor after it. -/
theorem fdRun_monitor_clear_after_open :
    ∃ s, FdRun (fun s e => e.Tame s) s ∧ s.table.owner 4 = some .monitor ∧
      s.readBit 3 = true ∧ s.readBit 4 = false := by
  have hrun : FdRun (fun s e => e.Tame s)
      (((Files.start standardFds).step (.openFile .opened)).step .monitorOpen) :=
    .event _ (.event _ (.start _ standardFds_owner) trivial)
      (show 4 ∉ ([] : List Nat) by decide)
  exact ⟨_, hrun, by decide, by decide, fdRun_monitor_clear hrun 4 (by decide)⟩

/-- The monitor opens the first descriptor after start-up: it gets the number of
the directory, whose bit the constructor set. -/
theorem fdRun_monitor_set :
    ∃ s n, FdRun (fun _ _ => True) s ∧ s.table.owner n = some .monitor ∧ s.readBit n = true :=
  ⟨(Files.start standardFds).step .monitorOpen, 3,
    .event _ (.start _ standardFds_owner) trivial, by decide, by decide⟩

end Secpoline
