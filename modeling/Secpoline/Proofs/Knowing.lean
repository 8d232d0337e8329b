import Mathlib.Order.Basic
import Secpoline.Proofs.Scan
import Secpoline.Proofs.ScanLoops
import Secpoline.Proofs.System

/-!
# What a handler knows of pages

A handler finds out about pages as it goes, by its own checks and by the answers it
gets, and has to know of the pages that it calls the kernel for. `Rules` says what an
operation can tell and what it asks for, and a program is sure of itself if it asks
only for what it knows. What knowing means is left open.

The scanner and the loops that scan executable memory are sure of themselves under
any rules by which a page has been found out about once an instruction has been seen
on it: the loops stay inside the range they are given.
-/

namespace Secpoline

open Lib

/-! ## Programs -/

structure Rules where
  /-- What an operation can answer. -/
  possible : (e : Op) → Resp e → Prop
  /-- What has to be known for it. -/
  asks : (Nat → Prop) → (e : Op) → Resp e → Prop
  /-- What is known after it. -/
  after : (Nat → Prop) → (e : Op) → Resp e → Nat → Prop

def Rules.Learns (R : Rules) (known : Nat → Prop) (e : Op) (r : Resp e) (known' : Nat → Prop) :
    Prop :=
  R.possible e r ∧ known' = R.after known e r

/-- The program asks only for what it knows, and returns in `Q`. -/
def Rules.Sure {α : Type} (R : Rules) (p : M α) (Q : α → (Nat → Prop) → Prop) (known : Nat → Prop) :
    Prop :=
  p.wp R.Learns (fun known e r _ => R.asks known e r) Q known

section
variable {α β : Type} {R : Rules} {known known' : Nat → Prop} {p : M α}
  {Q Q' : α → (Nat → Prop) → Prop}

theorem sure_seq {f : α → M β} {Q : β → (Nat → Prop) → Prop} :
    R.Sure (p >>= f) Q known ↔ R.Sure p (fun a => R.Sure (f a) Q) known :=
  Prog.wp_seq

theorem sure_require {c : Prop} [Decidable c] {Q : Unit → (Nat → Prop) → Prop} :
    R.Sure (Prog.require c) Q known ↔ (c → Q () known) :=
  Prog.wp_require

theorem sure_whenever {c : Prop} [Decidable c] {p : M Unit} {Q : Unit → (Nat → Prop) → Prop} :
    R.Sure (Prog.whenever c p) Q known ↔ (c → R.Sure p Q known) ∧ (¬ c → Q () known) :=
  Prog.wp_whenever

theorem Rules.Sure.mono (h : R.Sure p Q known) (hQ : ∀ a known, Q a known → Q' a known) :
    R.Sure p Q' known :=
  Prog.wp_mono h hQ

theorem sure_ite {c : Prop} [Decidable c] {q : M α} (ht : c → R.Sure p Q known)
    (hf : ¬ c → R.Sure q Q known) : R.Sure (if c then p else q) Q known := by
  split
  · exact ht ‹_›
  · exact hf ‹_›

theorem sure_call {e : Op} {Q : Resp e → (Nat → Prop) → Prop}
    (h : ∀ r, R.possible e r → R.asks known e r ∧ Q r (R.after known e r)) :
    R.Sure (perform e) Q known := by
  intro r known' hlearn
  obtain ⟨hpossible, rfl⟩ := hlearn
  exact h r hpossible

theorem sure_expectZero {p : M Int} {Q : Unit → (Nat → Prop) → Prop}
    (h : R.Sure p (fun r known' => r = 0 → Q () known') known) : R.Sure (expectZero p) Q known := by
  unfold expectZero
  rw [sure_seq]
  exact h.mono fun r known' hq => sure_require.mpr hq

/-- An operation that asks for nothing and takes nothing away. -/
def Rules.Quiet (R : Rules) (e : Op) : Prop :=
  ∀ known r, R.asks known e r ∧ known ≤ R.after known e r

theorem sure_quiet {e : Op} {Q : Resp e → (Nat → Prop) → Prop} (he : R.Quiet e)
    (h : ∀ r known', known ≤ known' → Q r known') : R.Sure (perform e) Q known :=
  sure_call fun r _ => ⟨(he known r).1, h r _ (he known r).2⟩

/-- A program that needs to know nothing, and forgets nothing. -/
def Rules.Plain (R : Rules) (p : M α) : Prop :=
  ∀ known, R.Sure p (fun _ known' => known ≤ known') known

theorem Rules.Plain.sure (h : R.Plain p) (hQ : ∀ a known', known ≤ known' → Q a known') :
    R.Sure p Q known :=
  (h known).mono hQ

theorem plain_pure {a : α} : R.Plain (pure a) := fun _ => le_refl _

theorem plain_abort : R.Plain (.abort : M α) := fun _ => trivial

theorem plain_seq {f : α → M β} (hp : R.Plain p) (hf : ∀ a, R.Plain (f a)) : R.Plain (p >>= f) := by
  intro known
  rw [sure_seq]
  refine hp.sure fun a known₁ h₁ => (hf a).sure fun _ known₂ h₂ => ?_
  exact le_trans h₁ h₂

theorem plain_ite {c : Prop} [Decidable c] {q : M α} (hp : R.Plain p) (hq : R.Plain q) :
    R.Plain (if c then p else q) :=
  fun known => sure_ite (fun _ => hp known) (fun _ => hq known)

theorem plain_whenever {c : Prop} [Decidable c] {p : M Unit} (hp : R.Plain p) :
    R.Plain (Prog.whenever c p) :=
  fun known => sure_whenever.mpr ⟨fun _ => hp known, fun _ => le_refl _⟩

theorem plain_call {e : Op} (h : R.Quiet e) : R.Plain (perform e) :=
  fun _ => sure_quiet h fun _ _ hle => hle

theorem plain_fold {σ ι : Type} {body : σ → ι → M σ} {items : List ι} {a : σ}
    (h : ∀ a i, R.Plain (body a i)) : R.Plain (Prog.fold body items a) := by
  intro known
  refine Prog.wp_fold (fun _ _ known' => known ≤ known') (fun i rest a known₁ h₁ => ?_) (le_refl _)
  exact (h a i).sure fun _ known₂ h₂ => le_trans h₁ h₂

end

/-! ## The scanner -/

/-- The operations of a scan other than kernel calls, and the marking of unsafe pages. -/
def Op.Looks : Op → Bool
  | .lookupAddr .. | .updateUnsafeInstruction .. | .addUnsafePage .. | .updateUnsafePage ..
  | .readPrev .. | .readNext .. | .scan .. => true
  | _ => false

/-- Enough is known of a page on which an instruction has been seen. -/
structure Rules.Scans (R : Rules) : Prop where
  looks : ∀ e, e.Looks = true → R.Quiet e
  prev : ∀ {known known' page address unsafePerm prev m prot cid} {r : Int},
    isUnsafe m address = true → R.after known (.readPrev page address unsafePerm prev) m ≤ known' →
    R.asks known' (.wrapper (.mprotect page 4096 prot none) cid) r
  next : ∀ {known known' page address unsafePerm m prot cid} {r : Int}, isUnsafe m address = true →
    R.after known (.readNext page address unsafePerm) m ≤ known' →
    R.asks known' (.wrapper (.mprotect page 4096 prot none) cid) r
  protects : ∀ {known start size prot key cid} {r : Int},
    known ≤ R.after known (.wrapper (.mprotect start size prot key) cid) r

section
variable {R : Rules} {start : Nat} {perm unsafePerm : Prot} {trustedPage : Bool} {prev : Prev}
  {nb : Neighbour}

theorem protectNeighbour_sure {page : Nat} {prot : Prot} {cid : Int} {known : Nat → Prop}
    (hR : R.Scans) (h : ∀ r : Int, R.asks known (.wrapper (.mprotect page 4096 prot none) cid) r) :
    R.Sure (expectZero (perform (.wrapper (.mprotect page 4096 prot none) cid)))
      (fun _ known' => known ≤ known') known :=
  sure_expectZero (sure_call fun r _ => ⟨h r, fun _ => hR.protects⟩)

theorem erimScanPrevByte_plain {prevPage offset : Nat} (hR : R.Scans) :
    R.Plain (erimScanPrevByte start prevPage nb perm unsafePerm trustedPage prev offset) := by
  intro known
  unfold erimScanPrevByte
  rw [sure_seq]
  have hread := hR.looks (.readPrev prevPage (start - offset) unsafePerm prev) rfl
  refine sure_call fun m _ => ⟨(hread known m).1, sure_ite (fun hfound => ?_)
    (fun _ => (hread known m).2)⟩
  rw [sure_seq]
  refine sure_quiet (hR.looks _ rfl) fun _ known₁ h₁ => ?_
  have hle : known ≤ known₁ := le_trans (hread known m).2 h₁
  cases prev with
  | null =>
      dsimp only
      rw [sure_seq]
      refine (protectNeighbour_sure hR fun r => hR.prev hfound h₁).mono fun _ known₂ h₂ => ?_
      exact le_trans hle h₂
  | page address => exact hle
  | flagged => exact hle

theorem erimScanNextByte_plain {nextPage offset : Nat} (hR : R.Scans) :
    R.Plain (erimScanNextByte nextPage nb perm unsafePerm trustedPage offset) := by
  intro known
  unfold erimScanNextByte
  rw [sure_seq]
  have hread := hR.looks (.readNext nextPage (nextPage + offset) unsafePerm) rfl
  refine sure_call fun m _ => ⟨(hread known m).1, sure_whenever.mpr ⟨fun hfound => ?_,
    fun _ => (hread known m).2⟩⟩
  rw [sure_seq]
  refine sure_quiet (hR.looks _ rfl) fun _ known₁ h₁ => ?_
  refine (protectNeighbour_sure hR fun r => hR.next hfound h₁).mono fun _ known₂ h₂ => ?_
  exact le_trans (le_trans (hread known m).2 h₁) h₂

theorem erimMemScanRegion_plain {whitelist : List Nat} (hR : R.Scans) :
    R.Plain (erimMemScanRegion start whitelist perm unsafePerm trustedPage prev) := by
  have hlookup : ∀ addr, R.Plain (perform (.lookupAddr addr (-1))) :=
    fun _ => plain_call (hR.looks _ rfl)
  unfold erimMemScanRegion
  refine plain_seq ?_ fun before => plain_seq ?_ fun nb => plain_seq ?_ fun prev => plain_seq ?_
    fun _ => plain_seq (plain_call (hR.looks _ rfl)) fun m => plain_seq ?_ fun _ => plain_pure
  · cases prev with
    | null =>
        refine plain_ite (plain_seq (hlookup _) fun g => ?_) plain_pure
        split <;> exact plain_pure
    | page address => exact plain_pure
    | flagged => exact plain_abort
  · unfold erimNext
    refine plain_seq (hlookup _) fun g => ?_
    split <;> exact plain_pure
  · unfold erimScanPrev
    split
    · exact plain_fold fun _ _ => erimScanPrevByte_plain hR
    · exact plain_pure
  · unfold erimScanNext
    split
    · exact plain_fold fun _ _ => erimScanNextByte_plain hR
    · exact plain_pure
  · unfold erimRecord
    refine plain_ite (plain_seq (plain_call (hR.looks _ rfl)) fun _ => plain_pure) ?_
    exact plain_seq (plain_call (hR.looks _ rfl)) fun _ => plain_pure

theorem markUnsafe_plain {size : Nat} {prot : Prot} (hR : R.Scans) :
    R.Plain (markUnsafe start size prot trustedPage) :=
  plain_fold fun _ _ => plain_call (hR.looks _ rfl)

end

/-! ## Executable mappings -/

/-- The program can be run for every part, in pages, of the `n` pages from `start`
on. -/
def Rules.Parts (R : Rules) (known : Nat → Prop) (start n : Nat)
    (close : Nat → Nat → Prot → M Unit) : Prop :=
  ∀ j m prot known', known ≤ known' → 0 < m → j + m ≤ n →
    R.Sure (close (start + 4096 * j) (4096 * m) prot) (fun _ known'' => known' ≤ known'') known'

/-- The open group is a part of the pages before the `i`-th. -/
def Group.Inside (start i : Nat) (g : Group) : Prop :=
  ∃ j m, (g.start = 0 ∧ m = 0 ∨ g.start = start + 4096 * j) ∧ g.size = 4096 * m ∧ j + m ≤ i

section
variable {R : Rules} {known : Nat → Prop} {start n i : Nat} {g : Group} {prot : Prot}
  {close : Nat → Nat → Prot → M Unit}

theorem Group.inside_none {prev : Prev} :
    Group.Inside start i { start := 0, size := 0, prev } :=
  ⟨i, 0, .inl ⟨rfl, rfl⟩, rfl, Nat.le_refl _⟩

theorem Group.inside_some {j m : Nat} {prev : Prev} (h : j + m ≤ i) :
    Group.Inside start (i + 1)
      { start := start + 4096 * j, size := 4096 * m + 4096, prev } :=
  ⟨j, m + 1, .inr rfl, rfl, by omega⟩

theorem Group.Inside.openAt {known' : Nat → Prop} (h : g.Inside start i) :
    R.Sure (g.openAt (start + 4096 * i)) (fun startGroup known'' => known' ≤ known'' ∧
      ∃ j m, startGroup = start + 4096 * j ∧ g.size = 4096 * m ∧ j + m ≤ i) known' := by
  obtain ⟨j, m, hstart, hsize, hjm⟩ := h
  refine sure_ite (fun hnull => ?_) (fun hopen => ?_)
  · rw [sure_seq]
    exact sure_require.mpr fun hempty => ⟨le_refl _, i, 0, rfl, hempty, Nat.le_refl _⟩
  · exact ⟨le_refl _, j, m, hstart.resolve_left fun h => hopen h.1, hsize, hjm⟩

/-- The part that is taken out of the group when the page before turns out to hold
an instruction that runs into this one. -/
theorem Rules.Parts.flagged {known' : Nat → Prop} (h : R.Parts known start n close)
    (hle : known ≤ known') (hpos : 0 < i) (hi : i < n) :
    R.Sure (close (start + 4096 * i - 4096) 4096 prot)
      (fun _ known'' => known' ≤ known'') known' := by
  have hpart := h (i - 1) 1 prot known' hle Nat.one_pos (by omega)
  rw [show start + 4096 * (i - 1) = start + 4096 * i - 4096 by omega] at hpart
  exact hpart

/-- The turn in which it is taken out, whichever way the group is closed. -/
theorem Rules.Parts.takeOut {known' : Nat → Prop} {prev : Prev} {j m : Nat}
    (h : R.Parts known start n close) (hle : known ≤ known') (hi : i < n) (hjm : j + m ≤ i) :
    R.Sure (if prev = .flagged ∧ 4096 * m ≠ 0 then do
        close (start + 4096 * i - 4096) 4096 prot
        pure (4096 * m - 4096)
      else pure (4096 * m))
      (fun size known'' => known ≤ known'' ∧ ∃ m', size = 4096 * m' ∧ j + m' ≤ i) known' := by
  refine sure_ite (fun hf => ?_) (fun _ => ⟨hle, m, rfl, hjm⟩)
  rw [sure_seq]
  refine (h.flagged hle (by omega) hi).mono fun _ known₁ h₁ => ?_
  exact ⟨le_trans hle h₁, m - 1, by omega, by omega⟩

/-- After the last turn. -/
theorem Rules.Parts.last (h : R.Parts known start n close) {known' : Nat → Prop}
    (hle : known ≤ known') (hg : g.Inside start n) :
    R.Sure (Prog.whenever (g.size ≠ 0) (close g.start g.size prot))
      (fun _ known'' => known' ≤ known'') known' := by
  obtain ⟨j, m, hstart, hsize, hjm⟩ := hg
  refine sure_whenever.mpr ⟨fun hne => ?_, fun _ => le_refl _⟩
  have hm : 0 < m := by omega
  rw [hstart.resolve_left fun h => Nat.pos_iff_ne_zero.mp hm h.2, hsize]
  exact h j m prot known' hle hm (by omega)

/-- The states between the turns of a loop over these pages. -/
def Inside (known : Nat → Prop) (start i : Nat) (g : Group) (known' : Nat → Prop) : Prop :=
  known ≤ known' ∧ g.Inside start i

theorem scanGroupsPage_inside {restart : Bool} {allowList : List Nat} {unsafeProt : Prot}
    {known' : Nat → Prop} (hR : R.Scans) (hparts : R.Parts known start n close)
    (h : Inside known start i g known') (hi : i < n) :
    R.Sure (scanGroupsPage close restart allowList prot unsafeProt g (start + 4096 * i))
      (Inside known start (i + 1)) known' := by
  unfold scanGroupsPage
  rw [sure_seq]
  refine h.2.openAt.mono fun startGroup known₀ ⟨h₀, j, m, hstart, hsize, hjm⟩ => ?_
  rw [sure_seq]
  refine (erimMemScanRegion_plain hR).sure fun r known₁ h₁ => ?_
  obtain ⟨found, prev⟩ := r
  have h₁ := le_trans (le_trans h.1 h₀) h₁
  dsimp only
  rw [sure_seq, hsize]
  refine (hparts.takeOut h₁ hi hjm).mono fun size known₂ h₂ => ?_
  obtain ⟨h₂, m', rfl, hjm'⟩ := h₂
  rw [sure_seq, hstart]
  have hopen : R.Sure
      (closeOpenGroup close restart prot (start + 4096 * i) (start + 4096 * j)
        (found || prev == .flagged) (4096 * m'))
      (fun r known₃ => known ≤ known₃ ∧ ∃ j' m'', r = (start + 4096 * j', 4096 * m'') ∧
        j' + m'' ≤ i)
      known₂ := by
    unfold closeOpenGroup
    refine sure_ite (fun hc => ?_) (fun _ => ⟨h₂, j, m', rfl, hjm'⟩)
    rw [sure_seq]
    refine (hparts j m' prot known₂ h₂ (by omega) (by omega)).mono fun _ known₃ h₃ => ?_
    cases restart with
    | true => exact ⟨le_trans h₂ h₃, i, 0, rfl, Nat.le_refl _⟩
    | false => exact ⟨le_trans h₂ h₃, j, m', rfl, hjm'⟩
  refine hopen.mono fun r known₃ h₃ => ?_
  obtain ⟨h₃, j', m'', rfl, hjm''⟩ := h₃
  dsimp only
  refine sure_ite (fun _ => ?_) (fun _ => ⟨h₃, Group.inside_some hjm''⟩)
  rw [sure_seq]
  refine (hparts i 1 unsafeProt known₃ h₃ Nat.one_pos (by omega)).mono fun _ known₄ h₄ => ?_
  exact ⟨le_trans h₃ h₄, Group.inside_none⟩

/-- The pages that the loops go through. -/
def pageTurns (start size : Nat) : Nat := (wadd start size - start + 4095) / 4096

theorem pageTurns_eq {size : Nat} (hspace : InUserSpace start size) :
    pageTurns start size = pageCount size := by
  unfold InUserSpace taskSize pageCount at hspace
  unfold pageTurns wadd pageCount
  omega

/-- They call the kernel and the page manager for parts of their range. -/
theorem scanGroups_sure {size : Nat} {restart : Bool} {unsafeProt : Prot} {allowList : List Nat}
    (hR : R.Scans) (hparts : R.Parts known start (pageTurns start size) close) :
    R.Sure (scanGroups close restart allowList prot unsafeProt start size)
      (fun _ known' => known ≤ known') known := by
  unfold scanGroups
  rw [sure_seq]
  refine Rules.Sure.mono (Prog.wp_fold_range (Inside known start)
    (fun i hi g known' h => scanGroupsPage_inside hR hparts h hi)
    ⟨le_refl _, Group.inside_none⟩) fun g known₁ h₁ => ?_
  exact (hparts.last h₁.1 h₁.2).mono fun _ known₂ h₂ => le_trans h₁.1 h₂

theorem scanExecMapping_sure {size : Nat} {unsafeProt : Prot} {flags cid : Int} {mapFixed : Bool}
    {allowList : List Nat} (hR : R.Scans) (hspace : InUserSpace start size)
    (hparts : ∀ key, R.Parts known start (pageCount size) fun start size prot =>
      addGroup start size prot flags cid mapFixed key) :
    R.Sure (scanExecMapping start size prot unsafeProt flags mapFixed cid allowList)
      (fun _ known' => known ≤ known') known := by
  rw [scanExecMapping_eq]
  split
  · exact le_refl _
  · exact scanGroups_sure hR (pageTurns_eq hspace ▸ hparts _)

theorem scanExecMappingMprotect_parts {size : Nat} {unsafeProt : Prot} {cid : Int}
    {allowList : List Nat} (hR : R.Scans)
    (hparts : R.Parts known start (pageTurns start size) fun start size prot =>
      protectGroup start size prot cid) :
    R.Sure (scanExecMappingMprotect start size prot unsafeProt cid allowList)
      (fun _ known' => known ≤ known') known := by
  rw [scanExecMappingMprotect_eq]
  split
  · exact le_refl _
  · exact scanGroups_sure hR hparts

end

end Secpoline
