import Secpoline.Proofs.Knowing
import Secpoline.Proofs.PageBooks

/-!
# The assertions on the bookkeeping

The handlers of `mprotect` and of a fixed `mmap` check the range of the request, call
the kernel, and assert that the page manager's call that follows returns 0: for the
whole range, or for the parts into which the scan of executable pages divides it. An
assertion that fails ends the process.

The handlers are run here with a kernel that does what it is asked to. A call to the page
manager that ends the process itself counts as one that fails. The check, once passed,
holds until the handler is done, whatever parts of the range it has tracked anew; so what
each call answers is decided by where its part lies in the list.
-/

namespace Secpoline

open Lib

/-! ## A kernel that does what it is asked to -/

section Serves

variable {pool : PageManager → Nat} {s s' : Sys} {r : Int}

/-- A call to the page manager, with the pool that the kernel will give it if it needs one. -/
def Sys.Books (pool : PageManager → Nat) (s : Sys) (call : Nat → Option (Int × PageManager))
    (r : Int) (s' : Sys) : Prop :=
  PoolReady s.pm (pool s.pm) ∧ s.kern.Unmapped (pool s.pm) 8192 ∧
    ((call (pool s.pm) = none ∧ r = -1 ∧ s' = s) ∨
      ∃ pm, call (pool s.pm) = some (r, pm) ∧ s.Refilled (pool s.pm) pm s')

theorem Sys.Books.zero_iff {call : Nat → Option (Int × PageManager)} (h : s.Books pool call r s') :
    r = 0 ↔ ∃ pm, call (pool s.pm) = some (0, pm) := by
  obtain ⟨-, -, ⟨hnone, rfl, -⟩ | ⟨pm, hsome, -⟩⟩ := h
  · simp [hnone]
  · simp [hsome]

/-- One operation of a handler whose kernel calls succeed. Re-protections are followed as
long as they find the list sorted. -/
def Sys.Serves (pool : PageManager → Nat) (s : Sys) : (e : Op) → Resp e → Sys → Prop
  | .inline c, r, s' => ¬ IsError r ∧ s.Step (.inline c) r s'
  | .wrapper c cid, r, s' => ¬ IsError r ∧ s.Step (.wrapper c cid) r s'
  | .addPage start size prot flags cid mapFixed, r, s' =>
      s.Books pool
        (fun mm => addPage s.multithreaded mm s.pm start size prot flags cid mapFixed) r s'
  | .updateMprotect start size prot cid, r, s' =>
      SortedDisjoint s.pm.pages ∧
        s.Books pool (fun mm => updateMprotect mm s.pm start size prot cid) r s'
  | e, r, s' => s.Step e r s'

/-- What a scan does besides calling the kernel leaves the mappings alone. -/
theorem Sys.Serves.looks {e : Op} {r : Resp e} (h : s.Serves pool e r s') (he : e.Looks = true) :
    s'.pm = s.pm ∧ s'.kern = s.kern ∧ s'.multithreaded = s.multithreaded := by
  cases e with
  | lookupAddr =>
      obtain ⟨-, rfl⟩ := Sys.step_lookupAddr.mp h
      exact ⟨rfl, rfl, rfl⟩
  | updateUnsafeInstruction =>
      obtain ⟨-, -, l, -, rfl⟩ := Sys.step_updateUnsafeInstruction.mp h
      exact ⟨rfl, rfl, rfl⟩
  | addUnsafePage =>
      obtain ⟨l, -, rfl⟩ := Sys.step_addUnsafePage.mp h
      exact ⟨rfl, rfl, rfl⟩
  | updateUnsafePage =>
      obtain ⟨-, l, -, rfl⟩ := Sys.step_updateUnsafePage.mp h
      exact ⟨rfl, rfl, rfl⟩
  | readPrev | readNext =>
      obtain ⟨o, ho⟩ := h
      cases ho
      exact ⟨rfl, rfl, rfl⟩
  | scan =>
      obtain ⟨-, -, rfl⟩ := Sys.step_scan.mp h
      exact ⟨rfl, rfl, rfl⟩
  | _ => cases he

end Serves

/-! ## What is asserted -/

/-- What `update_mprotect` asks of a range that was checked up to `stop`: it is not empty,
and it lies in one group, or starts behind the first group and owns the rest of its last
page as well. -/
def Updatable (l : List VirtPage) (stop start size : Nat) (cid : Int) : Prop :=
  0 < size ∧ ((∃ g ∈ l, g.start ≤ start ∧ start + size ≤ g.stop) ∨
    (∀ head ∈ l.head?, head.stop ≤ start) ∧ Owned l (max start stop) (start + roundUp size) cid)

/-- The answer of an asserted call is 0 where its range is placed well, and only there. -/
def Sys.Agrees (pool : PageManager → Nat) (stop : Nat) (s : Sys) : (e : Op) → Resp e → Sys → Prop
  | .updateMprotect start size _ cid, r, _ => r = 0 ↔ Updatable s.pm.pages stop start size cid
  | .addPage start _ _ _ _ _, r, _ =>
      r = 0 ↔ (s.multithreaded = true → Between (pool s.pm) s.pm start)
  | _, _, _ => True

/-! ## Scans of executable pages -/

section Scans

variable {pool : PageManager → Nat} {books : Op → Prop} {start n a d stop : Nat} {cid : Int}

/-- Whole pages among the `n` pages from `start` on. -/
def Part (start n a d : Nat) : Prop :=
  ∃ j m, a = start + 4096 * j ∧ d = 4096 * m ∧ 0 < m ∧ j + m ≤ n

/-- What a scan does: it looks, re-protects in the kernel and makes its calls to the page
manager. -/
def Op.Scans (books : Op → Prop) (e : Op) : Prop :=
  e.Looks = true ∨ (∃ a d prot key, e = .inline (.mprotect a d prot key)) ∨
    (∃ a d prot key cid, e = .wrapper (.mprotect a d prot key) cid) ∨ books e

def scanRules (books : Op → Prop) : Rules where
  possible _ _ := True
  asks _ e _ := e.Scans books
  after known _ _ := known

theorem scanRules_scans : (scanRules books).Scans where
  looks _ he _ _ := ⟨.inl he, le_refl _⟩
  prev _ _ := .inr (.inr (.inl ⟨_, _, _, _, _, rfl⟩))
  next _ _ := .inr (.inr (.inl ⟨_, _, _, _, _, rfl⟩))
  protects := le_refl _

/-- The calls of `scan_exec_mapping` with `map_fixed`. -/
def AddsPart (start n : Nat) (cid : Int) (e : Op) : Prop :=
  ∃ a d prot flags, e = .addPage a d prot flags cid true ∧ Part start n a d

/-- The calls of `scan_exec_mapping_mprotect`. -/
def UpdatesPart (start n : Nat) (cid : Int) (e : Op) : Prop :=
  ∃ a d prot, e = .updateMprotect a d prot cid ∧ Part start n a d

variable (start n cid) in
theorem addGroup_partOf (flags : Int) (key : Nat) (known : Nat → Prop) :
    (scanRules (AddsPart start n cid)).Parts known start n fun start size prot =>
      addGroup start size prot flags cid true key := by
  intro j m prot known' _ hm hjm
  unfold addGroup
  rw [sure_seq]
  refine sure_expectZero (sure_call fun _ _ => ⟨?_, fun _ => ?_⟩)
  · exact .inr (.inr (.inr ⟨_, _, _, _, rfl, j, m, rfl, rfl, hm, hjm⟩))
  · refine sure_expectZero (sure_call fun _ _ => ⟨?_, fun _ => le_refl _⟩)
    exact .inr (.inl ⟨_, _, _, _, rfl⟩)

variable (start n cid) in
theorem protectGroup_partOf (known : Nat → Prop) :
    (scanRules (UpdatesPart start n cid)).Parts known start n fun start size prot =>
      protectGroup start size prot cid := by
  intro j m prot known' _ hm hjm
  unfold protectGroup
  rw [sure_seq]
  refine sure_expectZero (sure_call fun _ _ => ⟨?_, fun _ => ?_⟩)
  · exact .inr (.inr (.inl ⟨_, _, _, _, _, rfl⟩))
  · refine sure_expectZero (sure_call fun _ _ => ⟨?_, fun _ => le_refl _⟩)
    exact .inr (.inr (.inr ⟨_, _, _, rfl, j, m, rfl, rfl, hm, hjm⟩))

/-- The page manager is the same, and what was mapped still is. -/
structure Sys.Unchanged (s s' : Sys) : Prop where
  pm : s'.pm = s.pm
  multithreaded : s'.multithreaded = s.multithreaded
  mapped : ∀ start size, s.kern.Mapped start size → s'.kern.Mapped start size

theorem Sys.unchanged_of_mprotect {s s' : Sys} {prot : Prot} {key : Option Nat} {r : Int}
    (h : ∃ k, s.kern.apply r (.mprotect a d prot key) = some k ∧ s' = { s with kern := k }) :
    s.Unchanged s' := by
  obtain ⟨k, hk, rfl⟩ := h
  refine ⟨rfl, rfl, fun start size hmapped p hp => ?_⟩
  have hsome := hmapped p hp
  rcases Kern.apply_mprotect_cases hk with ⟨-, rfl⟩ | ⟨-, -, -, rfl⟩
  · exact hsome
  · simp only [Kern.protect]
    split
    · simpa using hsome
    · exact hsome

/-- A scan keeps what its calls keep, and its calls answer as they do. -/
theorem Rules.Sure.agrees {α : Type} {p : M α} {Q : α → (Nat → Prop) → Prop} {known : Nat → Prop}
    {J : Sys → Prop} {s : Sys} (h : (scanRules books).Sure p Q known) (hs : J s)
    (hkeep : ∀ s s', J s → s.Unchanged s' → J s')
    (hbooks : ∀ s e r s', J s → books e → s.Serves pool e r s' → s.Agrees pool stop e r s' ∧ J s') :
    p.wp (Sys.Serves pool) (Sys.Agrees pool stop) (fun _ => J) s := by
  refine Prog.wp_mono (Prog.wp_simulate (fun _ s => J s) ?_ hs h) fun _ _ hq =>
    hq.elim fun _ h => h.1
  intro known s e r s' hs hstep
  refine ⟨known, ⟨trivial, rfl⟩, fun hscans => ?_⟩
  rcases hscans with hlooks | ⟨a, d, prot, key, rfl⟩ | ⟨a, d, prot, key, cid, rfl⟩ | he
  · obtain ⟨hpm, hkern, hmulti⟩ := hstep.looks hlooks
    refine ⟨?_, hkeep s s' hs ⟨hpm, hmulti, fun _ _ h => hkern ▸ h⟩⟩
    cases e with
    | addPage | updateMprotect => cases hlooks
    | _ => trivial
  · exact ⟨trivial, hkeep s s' hs (Sys.unchanged_of_mprotect (Sys.step_inline.mp hstep.2))⟩
  · exact ⟨trivial, hkeep s s' hs (Sys.unchanged_of_mprotect (Sys.step_wrapper.mp hstep.2))⟩
  · exact hbooks s e r s' hs he hstep

end Scans

/-! ## mprotect -/

section Mprotect

variable {pool : PageManager → Nat} {s s' : Sys} {start size lo hi : Nat} {prot : Prot}
  {cid r : Int}

/-- The range has passed the check, in a list that can be trusted as long as it is sorted. -/
structure Sys.Checked (lo hi : Nat) (cid : Int) (s : Sys) : Prop where
  trusted : SortedDisjoint s.pm.pages → Inv [] s.pm
  owned : Owned s.pm.pages lo hi cid

theorem InUserSpace.round (h : InUserSpace start size) :
    start + roundUp size < 2 ^ 64 ∧ size ≤ roundUp size := by
  unfold InUserSpace taskSize pageCount at h
  unfold roundUp
  omega

/-- A part of the range that begins where the check has looked. -/
theorem Sys.Checked.agrees (h : s.Checked lo hi cid)
    (hstep : s.Serves pool (.updateMprotect start size prot cid) r s')
    (hspace : InUserSpace start size)
    (hlo : lo ≤ start) (hhi : 0 < size → start < hi) :
    r = 0 ↔ Updatable s.pm.pages hi start size cid := by
  obtain ⟨hsorted, hbooks⟩ := hstep
  have hinv := h.trusted hsorted
  obtain ⟨hw, hround⟩ := hspace.round
  rw [hbooks.zero_iff, updateMprotect_accepts_iff prot cid hinv hbooks.1 hspace.1 hw hround]
  constructor
  · intro haccepts
    obtain ⟨hpos, -, hplace⟩ := haccepts
    refine ⟨hpos, hplace.imp_right fun hacross => ⟨hacross.1, fun x hx hxs => ?_⟩⟩
    exact hacross.2 x (by omega) hxs
  · intro hup
    obtain ⟨hpos, hplace⟩ := hup
    have hown : Owned s.pm.pages start hi cid := fun x hx hxs => h.owned x (by omega) hxs
    rcases hplace with ⟨g, hg, hgs, hin⟩ | ⟨hhead, hrest⟩
    · have hcid : g.cid = cid := hown.cid_eq hinv.wf hg hgs (by omega) (hhi hpos)
      exact ⟨hpos, owned_of_group hg hcid hgs hin, .inl ⟨g, hg, hgs, hin⟩⟩
    · have hall : Owned s.pm.pages start (start + roundUp size) cid := by
        intro x hx hxs
        by_cases hxh : x < hi
        · exact hown x hx hxh
        · exact hrest x (by omega) hxs
      exact ⟨hpos, fun x hx hxs => hall x hx (by omega), .inr ⟨hhead, hall⟩⟩

theorem Sys.Checked.updated (h : s.Checked lo hi cid)
    (hstep : s.Serves pool (.updateMprotect start size prot cid) r s')
    (hspace : InUserSpace start size)
    (hd : size % 4096 = 0) : s'.Checked lo hi cid := by
  obtain ⟨hsorted, hready, -, ⟨-, -, rfl⟩ | ⟨pm, hcall, hrefilled⟩⟩ := hstep
  · exact h
  have hinv := h.trusted hsorted
  have hw := hspace.stop_lt
  have hround : roundUp size = size := roundUp_of_dvd hd (by omega)
  obtain rfl : s'.pm = pm := hrefilled.pm
  rcases updateMprotect_answer hinv hready.fresh hspace.lt (by omega) (hround.symm ▸ hw) hcall with
    ⟨-, hsame⟩ | rfl
  · exact ⟨hsame ▸ h.trusted, hsame ▸ h.owned⟩
  · obtain ⟨hretains, htrusted⟩ := updateMprotect_retains hinv hready hspace.1 hround hw hcall
    exact ⟨htrusted, hretains.owned h.owned⟩

/-- Every page of the scan begins in the range, so every part does. -/
theorem Part.inside {a d : Nat} (h : Part start (pageCount size) a d)
    (hspace : InUserSpace start size) :
    InUserSpace a d ∧ start ≤ a ∧ a < start + size ∧ d % 4096 = 0 ∧ 0 < d := by
  obtain ⟨j, m, rfl, rfl, hm, hjm⟩ := h
  unfold InUserSpace pageCount at *
  omega

theorem scanExecMappingMprotect_agrees {unsafeProt : Prot} {allowList : List Nat}
    (h : s.Checked start (start + size) cid) (hspace : InUserSpace start size) :
    (scanExecMappingMprotect start size prot unsafeProt cid allowList).wp (Sys.Serves pool)
      (Sys.Agrees pool (start + size)) (fun _ _ => True) s := by
  have hparts := protectGroup_partOf start (pageCount size) cid fun _ => True
  rw [← pageTurns_eq hspace] at hparts
  have hsure : (scanRules (UpdatesPart start (pageTurns start size) cid)).Sure
      (scanExecMappingMprotect start size prot unsafeProt cid allowList) _ fun _ => True :=
    scanExecMappingMprotect_parts scanRules_scans hparts
  refine Prog.wp_mono (hsure.agrees h (fun s s' hs hsame => ?_) fun s e r s' hs he hstep => ?_)
    fun _ _ _ => trivial
  · exact ⟨hsame.pm ▸ hs.trusted, hsame.pm ▸ hs.owned⟩
  · obtain ⟨a, d, prot, rfl, hpart⟩ := he
    rw [pageTurns_eq hspace] at hpart
    obtain ⟨hin, hlo, hhi, hd, -⟩ := hpart.inside hspace
    exact ⟨hs.agrees hstep hin hlo fun _ => hhi, hs.updated hstep hin hd⟩

theorem markUnsafe_agrees {stop : Nat} {trustedPage : Bool} :
    (markUnsafe start size prot trustedPage).wp (Sys.Serves pool) (Sys.Agrees pool stop)
      (fun _ _ => True) s := by
  unfold markUnsafe
  refine Prog.wp_fold (fun _ _ _ => True) (fun _ _ _ _ _ => ?_) trivial
  intro r s' _
  exact ⟨trivial, trivial⟩

/-- The call for the whole range, of any length. -/
theorem updateMprotect_agrees {Q : Unit → Sys → Prop} (h : s.Checked start (start + size) cid)
    (hspace : InUserSpace start size) (hQ : ∀ s', Q () s') :
    (expectZero (perform (.updateMprotect start size prot cid))).wp (Sys.Serves pool)
      (Sys.Agrees pool (start + size)) Q s := by
  rw [wp_expectZero]
  intro r s' hstep
  exact ⟨h.agrees hstep hspace (Nat.le_refl _) (by omega), fun _ => hQ s'⟩

/-- The handler of `mprotect`: the range of the request, or the parts of it. -/
theorem syscallHandlerMprotect_agrees {start size prot : UInt64} (hi : Inv [] s.pm) :
    (syscallHandlerMprotect start size prot).wp (Sys.Serves pool)
      (Sys.Agrees pool (start.toNat + size.toNat)) (fun _ _ => True) s := by
  unfold syscallHandlerMprotect
  rw [Prog.wp_seq]
  intro owned s₁ hcheck
  obtain ⟨g, hfound, rfl, rfl⟩ := Sys.step_lookupRange.mp hcheck
  refine ⟨trivial, ?_⟩
  rw [Prog.wp_ret]
  split
  · trivial
  next howned =>
  -- what the check has found out, once the kernel has refused a range that wraps
  have hchecked {s' : Sys} (hpm : s'.pm = s₁.pm) (hspace : InUserSpace start.toNat size.toNat) :
      s'.Checked start.toNat (start.toNat + size.toNat) TS_APPLICATION := by
    refine ⟨fun _ => hpm ▸ hi, ?_⟩
    obtain ⟨g, rfl⟩ := Option.isSome_iff_exists.mp (not_not.mp howned)
    rw [hpm]
    by_cases hpos : 0 < size.toNat
    · exact ((lookupRange_iff hi.wf hpos hspace.stop_lt).mp hfound).2.2.2
    · intro x hx hxs
      omega
  have hkernel {prot : Prot} {r : Int} {s₂ : Sys}
      (h : s₁.Serves pool
        (.wrapper (.mprotect start.toNat size.toNat prot none) TS_APPLICATION) r s₂) :
      s₂.pm = s₁.pm ∧ InUserSpace start.toNat size.toNat := by
    obtain ⟨hok, hstep⟩ := h
    obtain ⟨k, hk, rfl⟩ := Sys.step_wrapper.mp hstep
    rcases Kern.apply_mprotect_cases hk with ⟨herr, -⟩ | ⟨-, hspace, -⟩
    · exact absurd herr hok
    · exact ⟨rfl, hspace⟩
  rw [Prog.wp_seq, Prog.wp_require]
  intro _
  dsimp only
  split
  · rw [Prog.wp_seq]
    intro r s₂ hstep
    obtain ⟨hpm, hspace⟩ := hkernel hstep
    refine ⟨trivial, Prog.wp_whenever.mpr ⟨fun _ => ?_, fun _ => trivial⟩⟩
    rw [Prog.wp_seq]
    exact updateMprotect_agrees (hchecked hpm hspace) hspace fun _ => markUnsafe_agrees
  · split
    · rw [Prog.wp_seq]
      intro r s₂ hstep
      obtain ⟨hpm, hspace⟩ := hkernel hstep
      refine ⟨trivial, Prog.wp_whenever.mpr ⟨fun _ => ?_, fun _ => trivial⟩⟩
      exact scanExecMappingMprotect_agrees (hchecked hpm hspace) hspace
    · rw [Prog.wp_seq]
      intro r s₂ hstep
      obtain ⟨hpm, hspace⟩ := hkernel hstep
      exact ⟨trivial, updateMprotect_agrees (hchecked hpm hspace) hspace fun _ => trivial⟩

end Mprotect

/-! ## mmap -/

section Mmap

variable {pool : PageManager → Nat} {s s' : Sys} {start size stop : Nat} {prot : Prot} {cid r : Int}

/-- The range is mapped, no other compartment has a part in it, and it is owned if there are
threads. -/
structure Sys.Placed (start size : Nat) (cid : Int) (s : Sys) : Prop where
  inv : Inv [] s.pm
  mapped : s.kern.Mapped start size
  noForeign : NoForeign s.pm.pages start (start + size) cid
  owned : s.multithreaded = true → Owned s.pm.pages start (start + size) cid

theorem mem_pagesOf {p : Nat} : p ∈ pagesOf start size ↔ inPages start size p = true := by
  rw [inPages_iff, pagesOf, List.mem_map]
  constructor
  · intro h
    obtain ⟨i, hi, rfl⟩ := h
    have := List.mem_range.mp hi
    omega
  · intro h
    exact ⟨p - start / 4096, List.mem_range.mpr (by omega), by omega⟩

/-- What is mapped and what is not lie apart. -/
theorem Kern.Mapped.disjoint {k : Kern} {a n : Nat} (h : k.Mapped start size) (hpos : 0 < size)
    (hs : start % 4096 = 0) (ha : a % 4096 = 0) (hn : 0 < n) (hfree : k.Unmapped a n) :
    a + n ≤ start ∨ start + size ≤ a := by
  by_contra hmeets
  -- the two ranges share the larger of their first pages
  have hin : max (start / 4096) (a / 4096) ∈ pagesOf start size := by
    rw [mem_pagesOf, inPages_iff, pageCount]
    omega
  have hout : max (start / 4096) (a / 4096) ∈ pagesOf a n := by
    rw [mem_pagesOf, inPages_iff, pageCount]
    omega
  have hsome := h _ hin
  rw [hfree _ hout] at hsome
  cases hsome

theorem Kern.Mapped.apart {k : Kern} {mm : Nat} (h : k.Mapped start size) (hpos : 0 < size)
    (hs : start % 4096 = 0) (hmm : mm % 4096 = 0) (hfree : k.Unmapped mm 8192) :
    mm + 8192 ≤ start ∨ start + size ≤ mm :=
  h.disjoint hpos hs hmm (by decide) hfree

/-- A pool that is mapped in passing takes nothing away. -/
theorem Sys.Refilled.keepsMapped {mm : Nat} {pm : PageManager} (h : s.Refilled mm pm s')
    (hm : s.kern.Mapped start size) : s'.kern.Mapped start size := by
  rcases h with ⟨-, rfl⟩ | ⟨-, k, hk, rfl⟩
  · exact hm
  · intro p hp
    have hsome := hm p hp
    rcases Kern.apply_mmap_cases hk with ⟨-, rfl⟩ | ⟨-, -, -, -, -, rfl⟩
    · exact hsome
    · simp only [Kern.map]
      split
      · rfl
      · exact hsome

/-- A part of the range, in whole pages. -/
theorem Sys.Placed.added {a d : Nat} {flags : Int} (h : s.Placed start size cid)
    (hstep : s.Serves pool (.addPage a d prot flags cid true) r s') (hs : start % 4096 = 0)
    (hlo : start ≤ a) (hhi : a + d ≤ start + size) (ha : a % 4096 = 0) (hd : d % 4096 = 0)
    (hpos : 0 < d) (hw : start + size < 2 ^ 64) :
    (r = 0 ↔ (s.multithreaded = true → Between (pool s.pm) s.pm a)) ∧ s'.Placed start size cid := by
  have hbooks :
      s.Books pool (fun mm => addPage s.multithreaded mm s.pm a d prot flags cid true) r s' :=
    hstep
  obtain ⟨hready, hfree, hcall⟩ := hstep
  have hround : roundUp d = d := roundUp_of_dvd hd (by omega)
  have hout := h.mapped.apart (by omega) hs hready.aligned hfree
  refine ⟨?_, ?_⟩
  · rw [hbooks.zero_iff]
    refine addPage_accepts_iff h.inv hready (by omega) ha hround hpos (by omega) ?_ ?_
    · exact fun x q hx hax hxd => h.noForeign x q hx (by omega) (by omega)
    · exact fun hmulti x hax hxd => h.owned hmulti x (by omega) (by omega)
  · rcases hcall with ⟨-, -, rfl⟩ | ⟨pm, hcall, hrefilled⟩
    · exact h
    have hmulti : s'.multithreaded = s.multithreaded := by
      rcases hrefilled with ⟨-, rfl⟩ | ⟨-, k, -, rfl⟩ <;> rfl
    obtain rfl : s'.pm = pm := hrefilled.pm
    obtain ⟨hinv, hno, hown⟩ := addPage_fixed_keeps h.inv hready hout ha hround hpos
      (by omega) hcall
    exact ⟨hinv, hrefilled.keepsMapped h.mapped, hno h.noForeign, fun ht =>
      hown (h.owned (hmulti ▸ ht))⟩

theorem scanExecMapping_agrees {unsafeProt : Prot} {flags : Int} {allowList : List Nat}
    (h : s.Placed start size cid) (hspace : InUserSpace start size) (hd : size % 4096 = 0) :
    (scanExecMapping start size prot unsafeProt flags true cid allowList).wp (Sys.Serves pool)
      (Sys.Agrees pool stop) (fun _ _ => True) s := by
  have hsure : (scanRules (AddsPart start (pageCount size) cid)).Sure
      (scanExecMapping start size prot unsafeProt flags true cid allowList) _ fun _ => True :=
    scanExecMapping_sure scanRules_scans hspace fun key => addGroup_partOf start _ cid flags key _
  refine Prog.wp_mono (hsure.agrees h (fun s s' hs hsame => ?_) fun s e r s' hs he hstep => ?_)
    fun _ _ _ => trivial
  · exact ⟨hsame.pm ▸ hs.inv, hsame.mapped _ _ hs.mapped, hsame.pm ▸ hs.noForeign,
      hsame.pm ▸ hsame.multithreaded ▸ hs.owned⟩
  · obtain ⟨a, d, prot, flags, rfl, hpart⟩ := he
    obtain ⟨hin, hlo, hhi, had, hpos⟩ := hpart.inside hspace
    have hend : a + d ≤ start + size := by
      obtain ⟨j, m, rfl, rfl, -, hjm⟩ := hpart
      unfold pageCount at hjm
      omega
    exact hs.added hstep hspace.1 hlo hend hin.1 had hpos hspace.stop_lt

/-- The check of a fixed mapping would let the range pass. -/
def Sys.Passes (start size : Nat) (cid : Int) (s : Sys) : Prop :=
  (s.multithreaded = true → ∃ g, lookupRange s.pm start size cid = some (some g)) ∧
    (s.multithreaded = false → lookupRangeAllowGaps s.pm start size cid = 0)

theorem checkFixed_agrees :
    (checkFixed start size cid true).wp (Sys.Serves pool) (Sys.Agrees pool stop)
      (fun allowed s' => s' = s ∧ (allowed = true → s.Passes start size cid)) s := by
  unfold checkFixed
  rw [Prog.wp_seq]
  intro multithreaded s₁ hstep
  obtain ⟨o, ho⟩ := hstep
  cases ho
  refine ⟨trivial, ?_⟩
  rw [Prog.wp_ret]
  cases hmulti : s.multithreaded with
  | true =>
      intro r s₂ hstep
      obtain ⟨g, hfound, rfl, rfl⟩ := Sys.step_lookupRange.mp hstep
      refine ⟨trivial, rfl, fun hr => ⟨fun _ => ?_, by simp [hmulti]⟩⟩
      obtain ⟨g, rfl⟩ := Option.isSome_iff_exists.mp hr
      exact ⟨g, hfound⟩
  | false =>
      intro r s₂ hstep
      obtain ⟨rfl, rfl⟩ := Sys.step_lookupRangeAllowGaps.mp hstep
      refine ⟨trivial, rfl, fun hr => ⟨by simp [hmulti], fun _ => ?_⟩⟩
      simp only [lookupRangeAllowGaps] at hr ⊢
      split at hr
      · cases hr
      · next hany => rw [if_neg hany]

/-- What the check has found out, once the range is mapped. -/
theorem Sys.Passes.placed (h : s.Passes start size cid) (hi : Inv [] s.pm) (hpos : 0 < size)
    (hw : start + size < 2 ^ 64) (hpm : s'.pm = s.pm) (hmulti : s'.multithreaded = s.multithreaded)
    (hmapped : s'.kern.Mapped start size) : s'.Placed start size cid := by
  have hrange : (∃ g, lookupRange s.pm start size cid = some (some g)) ↔
      Owned s.pm.pages start (start + size) cid := lookupRange_owned_iff hi.wf hpos hw
  have hzero : lookupRangeAllowGaps s.pm start size cid = 0 := by
    cases hm : s.multithreaded with
    | true => exact lookupRangeAllowGaps_of_owned hi.wf hpos hw (hrange.mp (h.1 hm))
    | false => exact h.2 hm
  refine ⟨hpm ▸ hi, hmapped, ?_, ?_⟩
  · rw [hpm]
    intro x q hx hlo hhi
    obtain ⟨g, hg, hgx, hxg, rfl⟩ := hx
    exact (lookupRangeAllowGaps_iff hi.wf hw).mp hzero g hg (by omega) (by omega)
  · rw [hpm, hmulti]
    exact fun hm => hrange.mp (h.1 hm)

/-- A fixed mapping that is made is made where it was asked for. -/
def Sys.MapsAt (start size : Nat) (s : Sys) (result : Int) (s' : Sys) : Prop :=
  0 < result → toWord result = start ∧ InUserSpace start size ∧ s'.pm = s.pm ∧
    s'.multithreaded = s.multithreaded ∧ s'.kern.Mapped start size

theorem mmapCall_agrees {Q : Int → Sys → Prop} (hQ : ∀ r s', s.MapsAt start size r s' → Q r s') :
    (perform (.wrapper (.mmap start size prot true) cid)).wp (Sys.Serves pool)
      (Sys.Agrees pool stop) Q s := by
  intro r s' hstep
  refine ⟨trivial, hQ r s' fun hpos => ?_⟩
  obtain ⟨hok, hstep⟩ := hstep
  obtain ⟨k, hk, rfl⟩ := Sys.step_wrapper.mp hstep
  rcases Kern.apply_mmap_cases hk with ⟨herr, -⟩ | ⟨hnonneg, hspace, -, hfixed, -, rfl⟩
  · exact absurd herr hok
  have hat : r.toNat = start := hfixed rfl
  rw [hat] at hspace
  refine ⟨?_, hspace, rfl, rfl, fun p hp => ?_⟩
  · rw [toWord_of_nonneg hnonneg (hat ▸ hspace.lt), hat]
  · have hin : inPages start size p = true := by
      obtain ⟨i, hi, rfl⟩ := List.mem_map.mp hp
      rw [List.mem_range] at hi
      exact inPages_iff.mpr (by omega)
    simp only [Kern.map, hat, hin, if_true, Option.isSome_some]

theorem mapPages_agrees {fd : Int} :
    (mapPages start size prot true fd cid).wp (Sys.Serves pool) (Sys.Agrees pool stop)
      (s.MapsAt start size) s := by
  unfold mapPages
  split
  · unfold mapFileBaked
    rw [Prog.wp_seq]
    refine mmapCall_agrees fun r s₁ hmaps => ?_
    split
    · exact hmaps
    · rw [Prog.wp_seq]
      intro _ s₂ hstep
      obtain ⟨o, ho⟩ := hstep
      cases ho
      exact ⟨trivial, hmaps⟩
  · exact mmapCall_agrees fun _ _ hmaps => hmaps

theorem tagMapping_agrees {flags key : Nat} (h : s.Placed start size cid)
    (hspace : InUserSpace start size) (hd : size % 4096 = 0) (hpos : 0 < size) :
    (tagMapping start size prot flags true cid key).wp (Sys.Serves pool) (Sys.Agrees pool stop)
      (fun _ _ => True) s := by
  unfold tagMapping
  split
  · exact scanExecMapping_agrees h hspace hd
  · rw [Prog.wp_seq, wp_expectZero]
    intro r s₁ hstep
    obtain ⟨hr, -⟩ := h.added hstep hspace.1 (Nat.le_refl _) (Nat.le_refl _) hspace.1 hd hpos
      hspace.stop_lt
    refine ⟨hr, fun _ => ?_⟩
    rw [Prog.wp_seq, wp_expectZero]
    intro r₂ s₂ _
    exact ⟨trivial, fun _ => Prog.wp_whenever.mpr ⟨fun _ => markUnsafe_agrees, fun _ => trivial⟩⟩

/-- `secpoline_mmap` of whole pages at a fixed address. -/
theorem secpolineMmap_agrees {flags : Nat} {fd : Int} (hi : Inv [] s.pm) (hd : size % 4096 = 0)
    (hfixed : hasFlag (flags ||| MAP_PRIVATE) MAP_FIXED = true) :
    (secpolineMmap start size prot flags fd cid).wp (Sys.Serves pool) (Sys.Agrees pool stop)
      (fun _ _ => True) s := by
  unfold secpolineMmap
  cases getPkey cid with
  | none => trivial
  | some key =>
      dsimp only
      rw [Prog.wp_seq, Prog.wp_require]
      intro _
      split
      · trivial
      next hargs =>
      rw [hfixed, Prog.wp_seq]
      refine Prog.wp_mono checkFixed_agrees fun allowed s₁ hcheck => ?_
      obtain ⟨rfl, hpasses⟩ := hcheck
      split
      · trivial
      next hallowed =>
      rw [Prog.wp_seq]
      refine Prog.wp_mono mapPages_agrees fun result s₂ hmaps => ?_
      split
      · trivial
      next hresult =>
      obtain ⟨hat, hspace, hpm, hmulti, hmapped⟩ := hmaps (by omega)
      have hplaced := (hpasses (by simpa using hallowed)).placed hi (by omega) hspace.stop_lt hpm
        hmulti hmapped
      rw [Prog.wp_seq, hat]
      refine Prog.wp_mono (tagMapping_agrees hplaced hspace hd (by omega)) fun _ _ _ => ?_
      trivial

end Mmap

/-! ## Requests -/

/-- The requests whose handlers check a range and assert that it has been tracked. -/
def Request.Asserts : Request → Prop
  | .mprotect .. => True
  | .mmap _ _ _ flags _ => hasFlag flags.toNat MAP_FIXED = true
  | _ => False

/-- Where the range of the check ends. -/
def Request.checkedEnd : Request → Nat
  | .mprotect start size _ => start.toNat + size.toNat
  | .mmap start size _ _ _ => start.toNat + roundUp size.toNat
  | _ => 0

theorem hasFlag_private {flags : Nat} (h : hasFlag flags MAP_FIXED = true) :
    hasFlag (flags ||| MAP_PRIVATE) MAP_FIXED = true := by
  have hbits : (flags ||| MAP_PRIVATE) &&& MAP_FIXED = flags &&& MAP_FIXED := by
    rw [Nat.and_or_distrib_right]
    exact Nat.or_zero _
  rw [hasFlag, hbits]
  exact h

/-- The check has passed and the kernel has done its part: an asserted call then returns
0 exactly if its range is not empty and placed well in the list. -/
theorem Request.bookkeeping_iff (pool : PageManager → Nat) {s : Sys} (request : Request)
    (hi : Inv [] s.pm) (h : request.Asserts) :
    request.serve.wp (Sys.Serves pool) (Sys.Agrees pool request.checkedEnd)
      (fun _ _ => True) s := by
  cases request with
  | mprotect start size prot => exact syscallHandlerMprotect_agrees hi
  | mmap start size prot flags fd =>
      show (syscallHandlerMmap start size prot flags fd).wp _ _ _ s
      unfold syscallHandlerMmap
      rw [Prog.wp_seq]
      have hd : roundUp size.toNat % 4096 = 0 := by
        unfold roundUp
        omega
      exact Prog.wp_mono (secpolineMmap_agrees hi hd (hasFlag_private h)) fun _ _ _ => trivial
  | _ => exact h.elim

/-- A process with threads and the groups of `someGroups`. -/
def someSystem : Sys :=
  { Sys.start (fun _ => 0) with
    pm := someGroups
    kern :=
      { pages := fun p => if p < 0x800 then some ⟨PROT_READ, UNTRUSTED_MPKEY⟩ else none
        mem := fun _ => 0 }
    multithreaded := true }

/-- A request for part of a group, which is served. -/
theorem Request.bookkeeping_someSystem :
    (Request.mprotect 0x21000 0x1000 1).serve.wp (Sys.Serves fun _ => 0x800000)
        (Sys.Agrees (fun _ => 0x800000) 0x22000) (fun _ _ => True) someSystem ∧
      (Prog.exec Sys.perform (Request.mprotect 0x21000 0x1000 1).serve (answers [0, 0, 0])
        someSystem).isSome = true :=
  ⟨Request.bookkeeping_iff (fun _ => 0x800000) (.mprotect 0x21000 0x1000 1) someGroups_inv trivial,
    rfl⟩

/-- The list without its first group, so that the application has the first one. -/
def firstGroups : PageManager := { someGroups with pages := someGroups.pages.tail }

/-- The checks pass and the assertions fail: for an empty range, for one that starts in the
first group and ends in the second, and for the first group of a process with threads. -/
theorem Request.bookkeeping_disagrees :
    (lookupRange someGroups 0x21000 0 TS_APPLICATION = some (some appGroup) ∧
      (someSystem.kern.apply 0 (.mprotect 0x21000 0 PROT_READ none)).isSome = true ∧
      updateMprotect 0x800000 someGroups 0x21000 0 PROT_READ TS_APPLICATION =
        some (-1, someGroups) ∧
      Prog.exec Sys.perform (Request.mprotect 0x21000 0 1).serve (answers [0, 0, 0]) someSystem =
        none) ∧
    Inv [] firstGroups ∧ PoolReady firstGroups 0x800000 ∧
    (lookupRange firstGroups 0x23000 0x2000 TS_APPLICATION = some (some appGroup) ∧
      updateMprotect 0x800000 firstGroups 0x23000 0x2000 PROT_READ TS_APPLICATION =
        some (-1, firstGroups)) ∧
    lookupRange firstGroups 0x20000 0x1000 TS_APPLICATION = some (some appGroup) ∧
      addPage true 0x800000 firstGroups 0x20000 0x1000 PROT_READ 0x32 TS_APPLICATION true =
        some (-1, firstGroups) :=
  ⟨⟨rfl, rfl, rfl, rfl⟩, inv_of_nodup ⟨⟨by decide, by decide⟩, by decide⟩ (by decide) (by decide),
    ⟨by decide, by decide⟩, ⟨rfl, rfl⟩, rfl, rfl⟩

end Secpoline
