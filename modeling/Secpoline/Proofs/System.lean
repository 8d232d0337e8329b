import Secpoline.Model.System
import Secpoline.Proofs.Kernel

/-!
# What an operation can do

One lemma for each kind of operation: which answers it can give in a state, and
which state it leaves. Then two facts that hold of all of them at once: an
operation that is not about the list of unsafe pages leaves it alone, and no
operation maps anything outside user space.
-/

namespace Secpoline

open Lib

theorem wp_expectZero {S : Type} {step ok : S → (e : Op) → Resp e → S → Prop} {p : M Int}
    {Q : Unit → S → Prop} {s : S} :
    (expectZero p).wp step ok Q s ↔ p.wp step ok (fun r s' => r = 0 → Q () s') s := by
  unfold expectZero
  rw [Prog.wp_seq]
  exact ⟨fun h => Prog.wp_mono h fun _ _ => Prog.wp_require.mp,
    fun h => Prog.wp_mono h fun _ _ => Prog.wp_require.mpr⟩

theorem post_expectZero {S : Type} {step : S → (e : Op) → Resp e → S → Prop} {p : M Int}
    {Q : Unit → S → Prop} {s : S} :
    Prog.Post step (expectZero p) Q s ↔ Prog.Post step p (fun r s' => r = 0 → Q () s') s :=
  wp_expectZero

namespace Sys

variable {s s' : Sys} {start size address : Nat} {cid : Int} {prot : Prot}

theorem step_of_perform (s : Sys) (o : Oracle) (e : Op) (r : Resp e) (s' : Sys)
    (h : s.perform o e = some (r, s')) : s.Step e r s' :=
  ⟨o, h⟩

theorem runs_of_exec {α : Type} {p : M α} {a : α} (l : List Int)
    (h : Prog.exec Sys.perform p (answers l) s = some (a, s')) : Prog.Runs Sys.Step p s a s' :=
  .exec step_of_perform h

/-! ## Kernel calls -/

theorem kernelCall_iff {o : Oracle} {c : KCall} {r : Int} :
    s.kernelCall o c = some (r, s') ↔
      r = o.answer ∧ ∃ k, s.kern.apply r c = some k ∧ s' = { s with kern := k } := by
  unfold kernelCall
  rw [Option.map_eq_some_iff]
  constructor
  · rintro ⟨k, hk, he⟩
    cases he
    exact ⟨rfl, k, hk, rfl⟩
  · rintro ⟨rfl, k, hk, rfl⟩
    exact ⟨k, hk, rfl⟩

theorem step_wrapper {c : KCall} {cid r : Int} :
    s.Step (.wrapper c cid) r s' ↔ ∃ k, s.kern.apply r c = some k ∧ s' = { s with kern := k } := by
  constructor
  · rintro ⟨o, ho⟩
    exact (kernelCall_iff.mp ho).2
  · intro h
    exact ⟨⟨r, 0, fun _ => 0⟩, kernelCall_iff.mpr ⟨rfl, h⟩⟩

theorem step_inline {c : KCall} {r : Int} :
    s.Step (.inline c) r s' ↔ ∃ k, s.kern.apply r c = some k ∧ s' = { s with kern := k } :=
  (step_wrapper : s.Step (.wrapper c TS_MONITOR) r s' ↔ _)

/-! ## Calls to the page manager -/

/-- The page manager is now `pm`; if it has a new pool of nodes, that is mapped. -/
def Refilled (s : Sys) (mm : Nat) (pm : PageManager) (s' : Sys) : Prop :=
  (pm.pools = s.pm.pools ∧ s' = { s with pm }) ∨
    (pm.pools ≠ s.pm.pools ∧
      ∃ k, s.kern.apply mm (.mmap 0 8192 (PROT_READ ||| PROT_WRITE) false) = some k ∧
        s' = { s with pm, kern := k })

theorem pageCall_iff {o : Oracle} {result : Option (Int × PageManager)} {r : Int} :
    s.pageCall o result = some (r, s') ↔ ∃ pm, result = some (r, pm) ∧ s.Refilled o.pool pm s' := by
  unfold pageCall
  cases result with
  | none => exact ⟨fun h => (nomatch h), fun ⟨_, h, _⟩ => (nomatch h)⟩
  | some result =>
      obtain ⟨r₁, pm⟩ := result
      dsimp only
      constructor
      · intro h
        split at h
        · rename_i hp
          cases h
          exact ⟨pm, rfl, .inl ⟨hp, rfl⟩⟩
        · rename_i hp
          obtain ⟨k, hk, he⟩ := Option.map_eq_some_iff.mp h
          cases he
          exact ⟨pm, rfl, .inr ⟨hp, k, hk, rfl⟩⟩
      · rintro ⟨pm', he, hr⟩
        cases he
        rcases hr with ⟨hp, rfl⟩ | ⟨hp, k, hk, rfl⟩
        · rw [if_pos hp]
        · rw [if_neg hp, hk]
          rfl

theorem step_addPage {flags : Int} {mapFixed : Bool} {r : Int} :
    s.Step (.addPage start size prot flags cid mapFixed) r s' ↔
      ∃ mm pm, Secpoline.addPage s.multithreaded mm s.pm start size prot flags cid mapFixed =
        some (r, pm) ∧ s.Refilled mm pm s' :=
  ⟨fun ⟨o, ho⟩ => ⟨o.pool, pageCall_iff.mp ho⟩,
    fun ⟨mm, h⟩ => ⟨⟨0, mm, fun _ => 0⟩, pageCall_iff.mpr h⟩⟩

theorem step_removePage {r : Int} :
    s.Step (.removePage start size cid) r s' ↔
      ∃ mm pm, Secpoline.removePage mm s.pm start size cid = some (r, pm) ∧ s.Refilled mm pm s' :=
  ⟨fun ⟨o, ho⟩ => ⟨o.pool, pageCall_iff.mp ho⟩,
    fun ⟨mm, h⟩ => ⟨⟨0, mm, fun _ => 0⟩, pageCall_iff.mpr h⟩⟩

theorem step_updateMprotect {r : Int} :
    s.Step (.updateMprotect start size prot cid) r s' ↔
      ∃ mm pm, Secpoline.updateMprotect mm s.pm start size prot cid = some (r, pm) ∧
        s.Refilled mm pm s' :=
  ⟨fun ⟨o, ho⟩ => ⟨o.pool, pageCall_iff.mp ho⟩,
    fun ⟨mm, h⟩ => ⟨⟨0, mm, fun _ => 0⟩, pageCall_iff.mpr h⟩⟩

theorem step_updateSize {oldSize newSize : Nat} {r : Int} :
    s.Step (.updateSize start oldSize newSize cid) r s' ↔
      ∃ mm pm, Secpoline.updateSize mm s.pm start oldSize newSize cid = some (r, pm) ∧
        s.Refilled mm pm s' :=
  ⟨fun ⟨o, ho⟩ => ⟨o.pool, pageCall_iff.mp ho⟩,
    fun ⟨mm, h⟩ => ⟨⟨0, mm, fun _ => 0⟩, pageCall_iff.mpr h⟩⟩

theorem step_lookupAddr {r : Option VirtPage} :
    s.Step (.lookupAddr address cid) r s' ↔ r = Secpoline.lookupAddr s.pm address cid ∧ s' = s := by
  constructor
  · rintro ⟨o, ho⟩
    cases ho
    exact ⟨rfl, rfl⟩
  · rintro ⟨rfl, rfl⟩
    exact ⟨⟨0, 0, fun _ => 0⟩, rfl⟩

theorem step_lookupRange {r : Bool} :
    s.Step (.lookupRange start size cid) r s' ↔
      ∃ g, Secpoline.lookupRange s.pm start size cid = some g ∧ r = g.isSome ∧ s' = s := by
  constructor
  · rintro ⟨o, ho⟩
    obtain ⟨g, hg, he⟩ := Option.map_eq_some_iff.mp ho
    cases he
    exact ⟨g, hg, rfl, rfl⟩
  · rintro ⟨g, hg, rfl, rfl⟩
    exact ⟨⟨0, 0, fun _ => 0⟩, Option.map_eq_some_iff.mpr ⟨g, hg, rfl⟩⟩

theorem step_lookupRangeAllowGaps {r : Int} :
    s.Step (.lookupRangeAllowGaps start size cid) r s' ↔
      r = Secpoline.lookupRangeAllowGaps s.pm start size cid ∧ s' = s := by
  constructor
  · rintro ⟨o, ho⟩
    cases ho
    exact ⟨rfl, rfl⟩
  · rintro ⟨rfl, rfl⟩
    exact ⟨⟨0, 0, fun _ => 0⟩, rfl⟩

/-! ## The list of unsafe pages and the breakpoints -/

theorem step_findUnsafePage {r : Option UnsafePage} :
    s.Step (.findUnsafePage address) r s' ↔
      r = Secpoline.findUnsafePage s.unsafePages address ∧ s' = s := by
  constructor
  · rintro ⟨o, ho⟩
    cases ho
    exact ⟨rfl, rfl⟩
  · rintro ⟨rfl, rfl⟩
    exact ⟨⟨0, 0, fun _ => 0⟩, rfl⟩

theorem step_addUnsafePage {currentPerm desiredPerm : Prot} {trustedPage : Bool}
    {instructions : Option (List Nat)} {r : Unit} :
    s.Step (.addUnsafePage address currentPerm desiredPerm trustedPage instructions) r s' ↔
      ∃ l, Secpoline.addUnsafePage s.unsafePages address currentPerm desiredPerm trustedPage
        instructions = some l ∧ s' = { s with unsafePages := l } := by
  constructor
  · rintro ⟨o, ho⟩
    obtain ⟨l, hl, he⟩ := Option.map_eq_some_iff.mp ho
    cases he
    exact ⟨l, hl, rfl⟩
  · rintro ⟨l, hl, rfl⟩
    exact ⟨⟨0, 0, fun _ => 0⟩, Option.map_eq_some_iff.mpr ⟨l, hl, rfl⟩⟩

theorem step_updateUnsafePage {currentPerm desiredPerm : Prot} {trustedPage : Bool}
    {instructions : List Nat} {r : Unit} :
    s.Step (.updateUnsafePage address currentPerm desiredPerm trustedPage instructions) r s' ↔
      ∃ b l, Secpoline.updateUnsafePage s.unsafePages address currentPerm desiredPerm trustedPage
        (some instructions) = some (b, l) ∧ s' = { s with unsafePages := l } := by
  constructor
  · rintro ⟨o, ho⟩
    obtain ⟨⟨b, l⟩, hl, he⟩ := Option.map_eq_some_iff.mp ho
    cases he
    exact ⟨b, l, hl, rfl⟩
  · rintro ⟨b, l, hl, rfl⟩
    exact ⟨⟨0, 0, fun _ => 0⟩, Option.map_eq_some_iff.mpr ⟨(b, l), hl, rfl⟩⟩

theorem step_updateUnsafeInstruction {instruction : Nat} {currentPerm desiredPerm : Prot}
    {trustedPage : Bool} {r : Unit} :
    s.Step (.updateUnsafeInstruction address instruction currentPerm desiredPerm trustedPage) r s' ↔
      address ≤ instruction ∧ instruction < address + 4096 ∧
      ∃ l, Secpoline.updateUnsafeInstruction s.unsafePages address instruction currentPerm
        desiredPerm trustedPage = some l ∧ s' = { s with unsafePages := l } := by
  constructor
  · rintro ⟨o, ho⟩
    rw [Sys.perform] at ho
    split at ho
    · rename_i hin
      obtain ⟨l, hl, he⟩ := Option.map_eq_some_iff.mp ho
      cases he
      exact ⟨hin.1, hin.2, l, hl, rfl⟩
    · cases ho
  · rintro ⟨h₁, h₂, l, hl, rfl⟩
    refine ⟨⟨0, 0, fun _ => 0⟩, ?_⟩
    rw [Sys.perform, if_pos ⟨h₁, h₂⟩]
    exact Option.map_eq_some_iff.mpr ⟨l, hl, rfl⟩

theorem step_setCurrentPerm {r : Unit} :
    s.Step (.setCurrentPerm address prot) r s' ↔
      s' = { s with unsafePages := Secpoline.setCurrentPerm s.unsafePages address prot } := by
  constructor
  · rintro ⟨o, ho⟩
    cases ho
    rfl
  · rintro rfl
    exact ⟨⟨0, 0, fun _ => 0⟩, rfl⟩

theorem step_hardwareBreakpoints {r : HbController} :
    s.Step .hardwareBreakpoints r s' ↔ r = s.hb ∧ s' = s := by
  constructor
  · rintro ⟨o, ho⟩
    cases ho
    exact ⟨rfl, rfl⟩
  · rintro ⟨rfl, rfl⟩
    exact ⟨⟨0, 0, fun _ => 0⟩, rfl⟩

theorem step_setHardwareBreakpoints {c : HbController} {r : Unit} :
    s.Step (.setHardwareBreakpoints c) r s' ↔ s' = { s with hb := c } := by
  constructor
  · rintro ⟨o, ho⟩
    cases ho
    rfl
  · rintro rfl
    exact ⟨⟨0, 0, fun _ => 0⟩, rfl⟩

/-! ## Reading memory -/

theorem step_readPrev {page : Nat} {prev : Prev} {m : Mem} :
    s.Step (.readPrev page address prot prev) m s' ↔ m = s.kern.mem ∧ s' = s := by
  constructor
  · rintro ⟨o, ho⟩
    cases ho
    exact ⟨rfl, rfl⟩
  · rintro ⟨rfl, rfl⟩
    exact ⟨⟨0, 0, fun _ => 0⟩, rfl⟩

theorem step_readNext {page : Nat} {m : Mem} :
    s.Step (.readNext page address prot) m s' ↔ m = s.kern.mem ∧ s' = s := by
  constructor
  · rintro ⟨o, ho⟩
    cases ho
    exact ⟨rfl, rfl⟩
  · rintro ⟨rfl, rfl⟩
    exact ⟨⟨0, 0, fun _ => 0⟩, rfl⟩

/-- The state after a scan of the page at `page`. -/
def afterScan (s : Sys) (page : Nat) : Sys :=
  { s with scanned := fun p => if p = page / 4096 then some (s.contents p) else s.scanned p }

theorem step_scan {page : Nat} {whitelist : List Nat} {m : Mem} :
    s.Step (.scan page whitelist prot) m s' ↔
      (s.kern.pages (page / 4096)).isSome ∧ m = s.kern.mem ∧ s' = s.afterScan page := by
  constructor
  · rintro ⟨o, ho⟩
    rw [Sys.perform] at ho
    split at ho
    · rename_i hmapped
      cases ho
      exact ⟨hmapped, rfl, rfl⟩
    · cases ho
  · rintro ⟨hmapped, rfl, rfl⟩
    refine ⟨⟨0, 0, fun _ => 0⟩, ?_⟩
    rw [Sys.perform, if_pos hmapped]
    rfl

end Sys

theorem Sys.appStore_some {write : Nat × UInt8} {s s' : Sys} (h : s.appStore write = some s') :
    s.AppStore s' := by
  unfold Sys.appStore at h
  split at h
  · cases h
    exact ⟨_, _, ‹_›, rfl⟩
  · cases h

/-! ## What stays the same -/

/-- The operation is not about the list of unsafe pages or the breakpoints. -/
def Op.listFree : Op → Bool
  | .addUnsafePage .. | .updateUnsafePage .. | .updateUnsafeInstruction .. | .setCurrentPerm ..
  | .setHardwareBreakpoints _ => false
  | _ => true

theorem Sys.Refilled.lists {s s' : Sys} {mm : Nat} {pm : PageManager} (h : s.Refilled mm pm s') :
    s'.unsafePages = s.unsafePages ∧ s'.hb = s.hb := by
  rcases h with ⟨_, rfl⟩ | ⟨_, _, _, rfl⟩ <;> exact ⟨rfl, rfl⟩

theorem Sys.Step.lists {s s' : Sys} {e : Op} {r : Resp e} (h : s.Step e r s')
    (he : e.listFree = true) : s'.unsafePages = s.unsafePages ∧ s'.hb = s.hb := by
  have page : ∀ {o : Oracle} {result : Option (Int × PageManager)} {r : Int},
      s.pageCall o result = some (r, s') → s'.unsafePages = s.unsafePages ∧ s'.hb = s.hb :=
    fun ho => (Sys.pageCall_iff.mp ho).elim fun _ h => h.2.lists
  obtain ⟨o, ho⟩ := h
  cases e with
  | addUnsafePage | updateUnsafePage | updateUnsafeInstruction | setCurrentPerm
  | setHardwareBreakpoints => cases he
  | inline c | wrapper c _ =>
      obtain ⟨_, k, _, rfl⟩ := Sys.kernelCall_iff.mp ho
      exact ⟨rfl, rfl⟩
  | addPage | removePage | updateMprotect | updateSize => exact page ho
  | lookupRange =>
      obtain ⟨_, _, hs⟩ := Option.map_eq_some_iff.mp ho
      cases hs
      exact ⟨rfl, rfl⟩
  | lockUnsafePages | checkReadable | scan =>
      rw [Sys.perform] at ho
      split at ho <;> cases ho
      exact ⟨rfl, rfl⟩
  | rewriteSyscall address =>
      cases ho
      unfold Sys.rewrite
      split <;> exact ⟨rfl, rfl⟩
  | _ =>
      cases ho
      exact ⟨rfl, rfl⟩

/-- The kernel call behind an operation: its own, or the one for a pool of nodes. -/
def Op.Calls (e : Op) (c : KCall) : Prop :=
  e = .inline c ∨ (∃ cid, e = .wrapper c cid) ∨ c = .mmap 0 8192 (PROT_READ ||| PROT_WRITE) false

/-- An operation changes mappings only by a kernel call. -/
theorem Sys.Step.kernel {s s' : Sys} {e : Op} {r : Resp e} (h : s.Step e r s') :
    s'.kern.pages = s.kern.pages ∨
      ∃ c a, e.Calls c ∧ s.kern.apply a c = some s'.kern := by
  have page : ∀ {o : Oracle} {result : Option (Int × PageManager)} {r : Int},
      s.pageCall o result = some (r, s') → s'.kern.pages = s.kern.pages ∨
        ∃ c a, e.Calls c ∧ s.kern.apply a c = some s'.kern := by
    intro o result r ho
    obtain ⟨_, _, ⟨_, rfl⟩ | ⟨_, _, hk, rfl⟩⟩ := Sys.pageCall_iff.mp ho
    · exact .inl rfl
    · exact .inr ⟨_, _, .inr (.inr rfl), hk⟩
  obtain ⟨o, ho⟩ := h
  cases e with
  | inline c =>
      obtain ⟨_, k, hk, rfl⟩ := Sys.kernelCall_iff.mp ho
      exact .inr ⟨c, _, .inl rfl, hk⟩
  | wrapper c cid =>
      obtain ⟨_, k, hk, rfl⟩ := Sys.kernelCall_iff.mp ho
      exact .inr ⟨c, _, .inr (.inl ⟨cid, rfl⟩), hk⟩
  | addPage | removePage | updateMprotect | updateSize => exact page ho
  | lookupRange | addUnsafePage | updateUnsafePage =>
      obtain ⟨_, _, hs⟩ := Option.map_eq_some_iff.mp ho
      cases hs
      exact .inl rfl
  | updateUnsafeInstruction =>
      rw [Sys.perform] at ho
      split at ho
      · obtain ⟨_, _, hs⟩ := Option.map_eq_some_iff.mp ho
        cases hs
        exact .inl rfl
      · cases ho
  | lockUnsafePages | checkReadable | scan =>
      rw [Sys.perform] at ho
      split at ho <;> cases ho
      exact .inl rfl
  | rewriteSyscall address =>
      cases ho
      unfold Sys.rewrite
      split <;> exact .inl rfl
  | _ =>
      cases ho
      exact .inl rfl

theorem Sys.Refilled.pm {s s' : Sys} {mm : Nat} {pm : PageManager} (h : s.Refilled mm pm s') :
    s'.pm = pm := by
  rcases h with ⟨_, rfl⟩ | ⟨_, _, _, rfl⟩ <;> rfl

/-- Only the calls to the page manager change the page manager. -/
theorem Sys.Step.tracker {s s' : Sys} {e : Op} {r : Resp e} (h : s.Step e r s') :
    s'.pm = s.pm ∨ ∃ (mm : Nat) (ret : Int),
      (∃ start size prot flags cid mapFixed, e = .addPage start size prot flags cid mapFixed ∧
        addPage s.multithreaded mm s.pm start size prot flags cid mapFixed = some (ret, s'.pm)) ∨
      (∃ start size cid, e = .removePage start size cid ∧
        removePage mm s.pm start size cid = some (ret, s'.pm)) ∨
      (∃ start size prot cid, e = .updateMprotect start size prot cid ∧
        updateMprotect mm s.pm start size prot cid = some (ret, s'.pm)) ∨
      (∃ start oldSize newSize cid, e = .updateSize start oldSize newSize cid ∧
        updateSize mm s.pm start oldSize newSize cid = some (ret, s'.pm)) := by
  cases e with
  | addPage =>
      obtain ⟨mm, pm, hp, hr⟩ := Sys.step_addPage.mp h
      cases hr.pm
      exact .inr ⟨mm, r, .inl ⟨_, _, _, _, _, _, rfl, hp⟩⟩
  | removePage =>
      obtain ⟨mm, pm, hp, hr⟩ := Sys.step_removePage.mp h
      cases hr.pm
      exact .inr ⟨mm, r, .inr (.inl ⟨_, _, _, rfl, hp⟩)⟩
  | updateMprotect =>
      obtain ⟨mm, pm, hp, hr⟩ := Sys.step_updateMprotect.mp h
      cases hr.pm
      exact .inr ⟨mm, r, .inr (.inr (.inl ⟨_, _, _, _, rfl, hp⟩))⟩
  | updateSize =>
      obtain ⟨mm, pm, hp, hr⟩ := Sys.step_updateSize.mp h
      cases hr.pm
      exact .inr ⟨mm, r, .inr (.inr (.inr ⟨_, _, _, _, rfl, hp⟩))⟩
  | inline | wrapper =>
      obtain ⟨o, ho⟩ := h
      obtain ⟨_, k, hk, rfl⟩ := Sys.kernelCall_iff.mp ho
      exact .inl rfl
  | lookupRange | addUnsafePage | updateUnsafePage =>
      obtain ⟨o, ho⟩ := h
      obtain ⟨_, _, hs⟩ := Option.map_eq_some_iff.mp ho
      cases hs
      exact .inl rfl
  | updateUnsafeInstruction =>
      obtain ⟨_, _, l, _, rfl⟩ := Sys.step_updateUnsafeInstruction.mp h
      exact .inl rfl
  | lockUnsafePages | checkReadable | scan =>
      obtain ⟨o, ho⟩ := h
      rw [Sys.perform] at ho
      split at ho <;> cases ho
      exact .inl rfl
  | rewriteSyscall address =>
      obtain ⟨o, ho⟩ := h
      cases ho
      unfold Sys.rewrite
      split <;> exact .inl rfl
  | _ =>
      obtain ⟨o, ho⟩ := h
      cases ho
      exact .inl rfl

/-! ## User space -/

/-- Everything that is mapped lies in user space. -/
def Kern.Bounded (k : Kern) : Prop := ∀ p, (k.pages p).isSome → p < taskSize / 4096

theorem inPages_bounded {start size p : Nat} (h : InUserSpace start size)
    (hp : inPages start size p = true) : p < taskSize / 4096 := by
  unfold InUserSpace at h
  rw [inPages_iff] at hp
  omega

theorem InUserSpace.lt {start size : Nat} (h : InUserSpace start size) : start < 2 ^ 64 := by
  unfold InUserSpace taskSize at h
  omega

theorem InUserSpace.stop_lt {start size : Nat} (h : InUserSpace start size) :
    start + size < 2 ^ 64 := by
  unfold InUserSpace taskSize pageCount at h
  omega

theorem pageLoop_eq {start size : Nat} (hspace : InUserSpace start size) :
    pageLoop start size = (List.range (pageCount size)).map fun i => start + 4096 * i := by
  unfold pageLoop
  have hend : wadd start size = start + size := by
    unfold InUserSpace taskSize pageCount at hspace
    unfold wadd
    omega
  rw [hend, Nat.add_sub_cancel_left]
  rfl

theorem toWord_of_nonneg {r : Int} (h : 0 ≤ r) (hlt : r.toNat < 2 ^ 64) : toWord r = r.toNat := by
  unfold toWord
  omega

section
variable {k k' : Kern} {r : Int}

theorem Kern.Bounded.map {start size : Nat} {g : Option KPage} (h : k.Bounded)
    (hspace : ∀ p, inPages start size p = true → p < taskSize / 4096) :
    (k.map start size g).Bounded := by
  intro p hp
  rw [Kern.map] at hp
  dsimp only at hp
  split at hp
  · exact hspace p ‹_›
  · exact h p hp

theorem Kern.Bounded.unmap {start size : Nat} (h : k.Bounded) : (k.unmap start size).Bounded := by
  intro p hp
  rw [Kern.unmap] at hp
  dsimp only at hp
  split at hp
  · cases hp
  · exact h p hp

theorem Kern.Bounded.apply {c : KCall} (h : k.Bounded) (he : k.apply r c = some k') :
    k'.Bounded := by
  cases c with
  | mmap start size prot fixed =>
      rcases Kern.apply_mmap_cases he with ⟨_, rfl⟩ | ⟨_, hspace, _, _, _, rfl⟩
      · exact h
      · exact h.map fun p hp => inPages_bounded hspace hp
  | mprotect start size prot key =>
      rcases Kern.apply_mprotect_cases he with ⟨_, rfl⟩ | ⟨_, _, _, rfl⟩
      · exact h
      · intro p hp
        rw [Kern.protect] at hp
        dsimp only at hp
        split at hp
        · rw [Option.isSome_map] at hp
          exact h p hp
        · exact h p hp
  | munmap start size =>
      rcases Kern.apply_munmap_cases he with ⟨_, rfl⟩ | ⟨_, _, _, rfl⟩
      · exact h
      · exact h.unmap
  | mremap start oldSize newSize mayMove fixed dontUnmap newStart =>
      rcases Kern.apply_mremap_cases he with ⟨_, rfl⟩ | ⟨_, hold, _, _, _, _, hplace | hmoved⟩
      · exact h
      · obtain ⟨_, _, _, hplace⟩ := hplace
        by_cases hle : pageCount newSize ≤ pageCount oldSize
        · rw [hplace.shrink hle]
          exact h.unmap
        · rw [hplace.grow hle]
          have hspace := hplace.space
          refine h.map fun p hp => ?_
          rw [inPages_iff] at hp
          unfold InUserSpace at hspace hold
          unfold pageCount at hspace hold hp hle
          omega
      · rw [hmoved.eq]
        intro p hp
        rw [Kern.move] at hp
        dsimp only at hp
        split at hp
        · exact inPages_bounded hmoved.space ‹_›
        split at hp
        · cases hp
        · exact h p hp

theorem Sys.Step.bounded {s s' : Sys} {e : Op} {r : Resp e} (h : s.Step e r s')
    (hb : s.kern.Bounded) : s'.kern.Bounded := by
  rcases h.kernel with hp | ⟨c, a, _, hk⟩
  · intro p
    rw [hp]
    exact hb p
  · exact hb.apply hk

end

end Secpoline
