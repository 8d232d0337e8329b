import Secpoline.Model.StartUp
import Secpoline.Proofs.Tiling
import Mathlib.Data.List.Forall2

/-!
# Whose pages are whose at start-up

Every line of `/proc/self/maps` that is not skipped leads to calls of `add_page` for
the pages of its mapping and no others, all of them with one compartment. So the
pages of a mapping are classified together, by the start address of the mapping,
and whether each of them is registered once is a matter of the groups that
`scan_exec_mapping` forms.
-/

namespace Secpoline

open Lib Lib.Prog

/-! ## Lines -/

namespace Mapping

variable {m : Mapping}

def prot (m : Mapping) : Prot :=
  (if m.read then PROT_READ else 0) ||| (if m.write then PROT_WRITE else 0) |||
    (if m.exec then PROT_EXEC else 0)

/-- The mappings that are the kernel's own. -/
def Pseudo (m : Mapping) : Prop :=
  m.name ∈ ["[vdso]", "[vvar]", "[vvar_vclock]", "[vsyscall]"].map String.toList

instance : DecidablePred Pseudo := fun m => inferInstanceAs (Decidable (m.name ∈ _))

/-- The line has one of the words that make the code skip it. -/
def Skipped (m : Mapping) : Prop := strstr m.line "vdso" = true ∨ strstr m.line "vvar" = true

instance : DecidablePred Skipped := fun _ => inferInstanceAs (Decidable (_ ∨ _))

/-- What is known of a line that the kernel prints. -/
structure Printed (m : Mapping) : Prop where
  aligned : m.start % 4096 = 0 ∧ m.stop % 4096 = 0
  nonempty : m.start < m.stop
  words : m.stop < 2 ^ 64
  oneLine : '\n' ∉ m.info ∧ '\n' ∉ m.name
  /-- All but the vsyscall page is in the lower half. -/
  user : m.name ≠ "[vsyscall]".toList → m.stop < 2 ^ 63 - 1
  vsyscall : m.name = "[vsyscall]".toList → 2 ^ 63 ≤ m.start

theorem newline_notMem_line (h : m.Printed) : '\n' ∉ m.line := by
  have hhex (n : Nat) : '\n' ∉ hexString n := fun hmem =>
    hexValue_of_mem_hexString hmem (by decide)
  have hperm : '\n' ∉ m.permissions := by
    unfold permissions
    cases m.read <;> cases m.write <;> cases m.exec <;> cases m.shared <;> decide
  simp only [line, List.mem_append, List.mem_cons, hhex, hperm, h.oneLine.1, h.oneLine.2]
  decide

theorem strtoll_line (h : m.Printed) :
    strtoll m.line = (min m.start 0x7fffffffffffffff,
      '-' :: (hexString m.stop ++ ' ' :: (m.permissions ++ ' ' :: (m.info ++ m.name)))) := by
  have hstart : m.start < 2 ^ 64 := Nat.lt_trans h.nonempty h.words
  unfold strtoll line
  rw [parseHex_hexString hstart (by decide)]

theorem strtoll_stop (h : m.stop < 2 ^ 63 - 1) (cs : CString) :
    (strtoll (hexString m.stop ++ ' ' :: cs)).1 = m.stop := by
  unfold strtoll
  rw [parseHex_hexString (by omega) (by decide)]
  dsimp only
  omega

theorem dropWhile_line :
    m.line.dropWhile (· ≠ ' ') = ' ' :: (m.permissions ++ ' ' :: (m.info ++ m.name)) := by
  have hhex (n : Nat) : ∀ c ∈ hexString n, decide (c ≠ ' ') = true := by
    intro c hc
    refine decide_eq_true fun hblank => hexValue_of_mem_hexString hc ?_
    rw [hblank]
    decide
  unfold line
  rw [List.dropWhile_append_of_pos (hhex m.start), List.dropWhile_cons_of_pos (by decide),
    List.dropWhile_append_of_pos (hhex m.stop), List.dropWhile_cons_of_neg (by decide)]

theorem protOfChars_permissions (cs : CString) : protOfChars (m.permissions ++ cs) = m.prot := by
  unfold protOfChars permissions prot
  cases m.read <;> cases m.write <;> cases m.exec <;> rfl

/-- The compartment that the code gives to a mapping. -/
def cid (m : Mapping) (loaderMappings : MmappedList) : Int :=
  if mappingInList m.start loaderMappings then TS_APPLICATION else TS_MONITOR

end Mapping

section
variable {loaderMappings : MmappedList} {allowList : List Nat} {m : Mapping}

theorem line_ne_nil : m.line ≠ [] := by
  unfold Mapping.line
  simp

theorem strstr_name {word : String} (h : occurs word.toList m.name = true) :
    strstr m.line word = true := by
  have hpermissions : occurs word.toList (m.permissions ++ ' ' :: (m.info ++ m.name)) = true :=
    occurs_append (occurs_cons (occurs_append h _) _) _
  exact occurs_append (occurs_cons (occurs_append (occurs_cons hpermissions _) _) _) _

/-- What a turn of the loop does is to hand on what it reads. -/
theorem initMapsLine_reads (loaderMappings : MmappedList) (allowList : List Nat) (line : CString) :
    initMapsLine loaderMappings allowList line =
      (initReads line).elim .abort fun read => read.elim (pure ()) fun x =>
        initPageGroup x.1 x.2.1 x.2.2 (strstr line libsegfaultFile)
          (if mappingInList x.1 loaderMappings then TS_APPLICATION else TS_MONITOR) allowList := by
  unfold initMapsLine initReads
  by_cases hempty : line = []
  · rw [if_pos hempty, if_pos hempty]
    rfl
  by_cases hvdso : strstr line "vdso" = true
  · rw [if_neg hempty, if_neg hempty, if_pos hvdso, if_pos hvdso]
    rfl
  by_cases hvvar : strstr line "vvar" = true
  · rw [if_neg hempty, if_neg hempty, if_neg hvdso, if_neg hvdso, if_pos hvvar, if_pos hvvar]
    rfl
  rw [if_neg hempty, if_neg hempty, if_neg hvdso, if_neg hvdso, if_neg hvvar, if_neg hvvar]
  dsimp only
  by_cases hhigh : (strtoll line).1 ≥ 0x7fffffffffffffff
  · rw [if_pos hhigh, if_pos hhigh]
    rfl
  rw [if_neg hhigh, if_neg hhigh]
  split
  · rename_i permissions _ _
    by_cases hperm : permissions[0]? = some 'r' ∨ permissions[0]? = some '-'
    · rw [if_pos hperm, Prog.require, if_pos hperm]
      rfl
    · rw [if_neg hperm, Prog.require, if_neg hperm]
      rfl
  · rfl

theorem initReads_line (h : m.Printed) :
    initReads m.line =
      some (if m.Skipped ∨ m.name = "[vsyscall]".toList then none
        else some (m.start, m.stop, m.prot)) := by
  have hstart := h.nonempty
  unfold initReads
  rw [if_neg line_ne_nil]
  by_cases hvdso : strstr m.line "vdso" = true
  · rw [if_pos hvdso, if_pos (.inl (.inl hvdso))]
  by_cases hvvar : strstr m.line "vvar" = true
  · rw [if_neg hvdso, if_pos hvvar, if_pos (.inl (.inr hvvar))]
  have hskip : ¬ m.Skipped := not_or.mpr ⟨hvdso, hvvar⟩
  rw [if_neg hvdso, if_neg hvvar, Mapping.strtoll_line h, Mapping.dropWhile_line]
  dsimp only
  by_cases hname : m.name = "[vsyscall]".toList
  · have hlarge := h.vsyscall hname
    rw [if_pos (by omega), if_pos (.inr hname)]
  · have hstop := h.user hname
    have hmin : min m.start 0x7fffffffffffffff = m.start := by omega
    have hhead : (m.permissions ++ ' ' :: (m.info ++ m.name))[0]? = some 'r' ∨
        (m.permissions ++ ' ' :: (m.info ++ m.name))[0]? = some '-' := by
      unfold Mapping.permissions
      cases m.read
      · exact .inr rfl
      · exact .inl rfl
    rw [hmin, if_neg (by omega), if_neg (not_or.mpr ⟨hskip, hname⟩)]
    change (if _ then some (some (m.start, (strtoll (_ ++ ' ' :: _)).1,
      protOfChars (m.permissions ++ _))) else none) = _
    rw [Mapping.strtoll_stop hstop, Mapping.protOfChars_permissions, if_pos hhead]

/-- A line that is not skipped for a word in it. -/
theorem initMapsLine_eq_of_not_skipped (h : m.Printed) (hskip : ¬ m.Skipped) :
    initMapsLine loaderMappings allowList m.line =
      if m.name = "[vsyscall]".toList then pure ()
      else initPageGroup m.start m.stop m.prot (strstr m.line libsegfaultFile)
        (m.cid loaderMappings) allowList := by
  rw [initMapsLine_reads, initReads_line h]
  by_cases hname : m.name = "[vsyscall]".toList
  · rw [if_pos (.inr hname), if_pos hname]
    rfl
  · rw [if_neg (not_or.mpr ⟨hskip, hname⟩), if_neg hname]
    rfl

theorem initMapsLine_skipped (h : m.Printed) (hskip : m.Skipped) :
    initMapsLine loaderMappings allowList m.line = pure () := by
  rw [initMapsLine_reads, initReads_line h, if_pos (.inl hskip)]
  rfl

/-- The kernel's own mappings are skipped. -/
theorem initMapsLine_pseudo (h : m.Printed) (hp : m.Pseudo) :
    initMapsLine loaderMappings allowList m.line = pure () := by
  by_cases hskip : m.Skipped
  · exact initMapsLine_skipped h hskip
  · rw [initMapsLine_eq_of_not_skipped h hskip, if_pos]
    simp only [Mapping.Pseudo, List.map_cons, List.map_nil, List.mem_cons, List.not_mem_nil,
      or_false] at hp
    rcases hp with hname | hname | hname | hname
    · exact absurd (.inl (strstr_name (by rw [hname]; decide))) hskip
    · exact absurd (.inr (strstr_name (by rw [hname]; decide))) hskip
    · exact absurd (.inr (strstr_name (by rw [hname]; decide))) hskip
    · exact hname

theorem Mapping.Pseudo.of_vsyscall (h : m.name = "[vsyscall]".toList) : m.Pseudo := by
  rw [Mapping.Pseudo, h]
  decide

/-- A line is taken for what it says. -/
theorem initMapsLine_eq (h : m.Printed) (hp : ¬ m.Pseudo) :
    initMapsLine loaderMappings allowList m.line =
      if m.Skipped then pure ()
      else initPageGroup m.start m.stop m.prot (strstr m.line libsegfaultFile)
        (m.cid loaderMappings) allowList := by
  split
  · exact initMapsLine_skipped h ‹_›
  · rw [initMapsLine_eq_of_not_skipped h ‹_›, if_neg fun hname => hp (.of_vsyscall hname)]

end

/-! ## Registrations -/

/-- A call of `add_page`. -/
structure Registration where
  start : Nat
  size : Nat
  cid : Int

def registered : Op → Option Registration
  | .addPage start size _ _ cid _ => some ⟨start, size, cid⟩
  | _ => none

def Registration.Covers (r : Registration) (address : Nat) : Prop :=
  r.start ≤ address ∧ address < r.start + r.size

instance (r : Registration) (address : Nat) : Decidable (r.Covers address) :=
  inferInstanceAs (Decidable (_ ∧ _))

/-- The compartments that an address is registered for, in their order. -/
def cidsAt (l : List Op) (address : Nat) : List Int :=
  ((l.filterMap registered).filter fun r => decide (r.Covers address)).map (·.cid)

section
variable {l l' : List Op} {address : Nat}

theorem cidsAt_append : cidsAt (l ++ l') address = cidsAt l address ++ cidsAt l' address := by
  unfold cidsAt
  rw [List.filterMap_append, List.filter_append, List.map_append]

theorem cidsAt_eq_nil (h : ∀ e ∈ l, ∀ r, registered e = some r → ¬ r.Covers address) :
    cidsAt l address = [] := by
  unfold cidsAt
  rw [List.filter_eq_nil_iff.mpr, List.map_nil]
  intro r hr
  obtain ⟨e, he, her⟩ := List.mem_filterMap.mp hr
  simpa using h e he r her

theorem cidsAt_addPage {flags cid : Int} {mapFixed : Bool} {start size : Nat} {prot : Prot} :
    cidsAt [.addPage start size prot flags cid mapFixed] address =
      if start ≤ address ∧ address < start + size then [cid] else [] := by
  by_cases h : start ≤ address ∧ address < start + size
  · rw [if_pos h]
    simp [cidsAt, registered, Registration.Covers, h]
  · rw [if_neg h]
    refine cidsAt_eq_nil fun e he r hr => ?_
    cases List.mem_singleton.mp he
    cases hr
    exact h

theorem cidsAt_addOps {flags cid : Int} {mapFixed : Bool} {key start size : Nat} {prot : Prot} :
    cidsAt (addOps flags cid mapFixed key start size prot) address =
      if start ≤ address ∧ address < start + size then [cid] else [] :=
  @cidsAt_addPage address flags cid mapFixed start size prot

/-- Where all registrations are for one compartment, it is enough to know the
protections. -/
theorem cidsAt_eq_map {cid : Int} (h : ∀ e ∈ l, ∀ r, registered e = some r → r.cid = cid) :
    cidsAt l address = (protsAt added l address).map fun _ => cid := by
  induction l with
  | nil => rfl
  | cons e l ih =>
      have hrest := ih fun e he => h e (List.mem_cons_of_mem _ he)
      have happend := @cidsAt_append [e] l address
      have happend' := @protsAt_append added [e] l address
      rw [List.singleton_append] at happend happend'
      rw [happend, happend', List.map_append, hrest]
      congr 1
      cases e with
      | addPage start size prot flags c mapFixed =>
          have hc : c = cid := h _ List.mem_cons_self ⟨start, size, c⟩ rfl
          rw [hc, cidsAt_addPage]
          by_cases hcover : start ≤ address ∧ address < start + size
          · rw [if_pos hcover]
            simp [protsAt, added, hcover]
          · rw [if_neg hcover]
            simpa [protsAt, added] using hcover
      | _ => rfl

end

/-! ## What a mapping registers -/

section
variable {answer : List Op → (e : Op) → Resp e} {before : List Op}

/-- A program that registers nothing. -/
def RegistersNothing {α : Type} (p : M α) : Prop :=
  p.Respects (fun _ _ => True) (fun e => registered e = none) fun _ => True

theorem RegistersNothing.cidsAt {α : Type} {p : M α} {l : List Op} {a : α} (h : RegistersNothing p)
    (hl : Logs answer before p l a) (address : Nat) : cidsAt l address = [] := by
  refine cidsAt_eq_nil fun e he r hr => ?_
  rw [(hl.respects h fun _ _ => trivial).1 e he] at hr
  cases hr

theorem scanOp_not_registered (page : Nat) (prev : Prev) (e : Op) (h : ScanOp page prev e) :
    registered e = none := by
  cases e with
  | addPage => exact h.elim
  | _ => rfl

theorem registersNothing_perform {e : Op} (h : registered e = none) :
    RegistersNothing (perform e) :=
  respects_call.mpr fun _ _ => ⟨h, trivial⟩

theorem RegistersNothing.seq {α β : Type} {p : M α} {f : α → M β} (h : RegistersNothing p)
    (hf : ∀ a, RegistersNothing (f a)) : RegistersNothing (p >>= f) :=
  respects_seq.mpr (h.mono fun a _ => hf a)

theorem RegistersNothing.expectZero {p : M Int} (h : RegistersNothing p) :
    RegistersNothing (Secpoline.expectZero p) :=
  h.seq fun _ => respects_require.mpr fun _ => trivial

theorem RegistersNothing.whenever {c : Prop} [Decidable c] {p : M Unit} (h : RegistersNothing p) :
    RegistersNothing (Prog.whenever c p) :=
  respects_whenever.mpr ⟨fun _ => h, fun _ => trivial⟩

theorem registersNothing_fold {ι : Type} {body : Unit → ι → M Unit} {xs : List ι}
    (h : ∀ x, RegistersNothing (body () x)) : RegistersNothing (fold body xs ()) :=
  respects_fold (fun _ x _ => h x) trivial

theorem erimMemScanRegion_registers {start : Nat} {whitelist : List Nat} {perm unsafePerm : Prot}
    {trustedPage : Bool} {prev : Prev} :
    RegistersNothing (erimMemScanRegion start whitelist perm unsafePerm trustedPage prev) :=
  (erimMemScanRegion_scans.imp (scanOp_not_registered start prev)).mono fun _ _ => trivial

theorem secpolineMprotect_registers {address size : Nat} {prot : Prot} {cid : Int} :
    RegistersNothing (secpolineMprotect address size prot cid) :=
  (registersNothing_perform rfl).seq fun _ => (registersNothing_perform rfl).expectZero.whenever

theorem setPageNonExecutable_registers {address : Nat} :
    RegistersNothing (setPageNonExecutable address) := by
  refine (registersNothing_perform rfl).seq fun pmPage =>
    (registersNothing_perform rfl).seq fun page => ?_
  split
  · refine respects_seq.mpr (respects_require.mpr fun _ => ?_)
    split
    · exact respects_pure.mpr trivial
    · refine (registersNothing_perform rfl).seq fun _ => ?_
      split
      · exact (registersNothing_perform rfl).seq fun _ => secpolineMprotect_registers
      · exact (registersNothing_perform rfl).seq fun _ =>
          secpolineMprotect_registers.seq fun _ => registersNothing_perform rfl
  · trivial

theorem addBreakpointWrapper_registers {address : Nat} {isStatic : Bool} :
    RegistersNothing (addBreakpointWrapper address isStatic) := by
  refine (registersNothing_perform rfl).seq fun page => ?_
  split
  · trivial
  · split
    · exact respects_pure.mpr trivial
    · refine (registersNothing_perform rfl).seq fun c => ?_
      split
      · trivial
      · exact (registersNothing_fold fun _ => setPageNonExecutable_registers).seq fun _ =>
          registersNothing_perform rfl

theorem markUnsafe_registers {start size : Nat} {prot : Prot} {trustedPage : Bool} :
    RegistersNothing (markUnsafe start size prot trustedPage) :=
  registersNothing_fold fun _ => registersNothing_perform rfl

variable {start size : Nat} {prot unsafeProt : Prot} {cid : Int} {allowList : List Nat}
  {l : List Op}

/-- The calls that assertions ask to succeed do. -/
structure Succeeds (answer : List Op → (e : Op) → Resp e) : Prop where
  addPage : ∀ before s z p flags cid mapFixed,
    answer before (.addPage s z p flags cid mapFixed) = (0 : Int)
  mprotect : ∀ before s z p key, answer before (.inline (.mprotect s z p (some key))) = (0 : Int)

theorem Succeeds.addGroup (h : Succeeds answer) {flags : Int} {mapFixed : Bool} {key : Nat} :
    Logs answer before (Secpoline.addGroup start size prot flags cid mapFixed key)
      (addOps flags cid mapFixed key start size prot) () :=
  addGroup_logs (h.addPage · _ _ _ _ _ _) (h.mprotect · _ _ _ _)

/-- Registering a mapping as a whole, after something that registers nothing. -/
theorem cidsAt_whole (h : Succeeds answer) {α : Type} {p : M α} (hp : RegistersNothing p)
    {flags : Int} {mapFixed : Bool} {key : Nat}
    (hl : Logs answer before (p >>= fun _ => addGroup start size prot flags cid mapFixed key) l ())
    (address : Nat) :
    cidsAt l address = if start ≤ address ∧ address < start + size then [cid] else [] := by
  obtain ⟨l₁, a, l₂, h₁, h₂, rfl⟩ := hl.of_seq
  obtain ⟨rfl, -⟩ := h.addGroup.unique h₂
  rw [cidsAt_append, hp.cidsAt h₁, cidsAt_addOps]
  rfl

end

section
variable {answer : List Op → (e : Op) → Resp e} {before : List Op} {start size : Nat}
  {prot unsafeProt : Prot} {cid : Int} {allowList : List Nat} {l : List Op}
  {own straddles : Nat → Bool} {key : Nat}

/-- `scan_exec_mapping` registers the pages of its mapping as often as its groups
cover them. -/
theorem cidsAt_scanned (h : Succeeds answer) (hkey : getPkey cid = some key)
    (hspace : start + 4096 * pageCount size < 2 ^ 64)
    (hv : Verdicts answer before
      (scanExecMappingPage allowList prot unsafeProt 0 cid false key) start (pageCount size)
      allowList prot own straddles)
    (hl : Logs answer before
      (scanExecMapping start size prot unsafeProt 0 false cid allowList) l ()) :
    (∀ j, cidsAt l (pageAt start j) =
      (marks (pieces true own straddles (pageCount size)) j).map fun _ => cid) ∧
    ∀ address, ¬ (start ≤ address ∧ address < pageAt start (pageCount size)) →
      cidsAt l address = [] := by
  have hput (before : List Op) (s z : Nat) (p : Prot) :
      Logs answer before (addGroup s z p 0 cid false key) _ () := h.addGroup
  rw [scanExecMappingPage_eq] at hv
  rw [scanExecMapping_eq, hkey] at hl
  have hnull := scanGroups_nullSafe hspace hput hv hl
  obtain ⟨hwhole, -⟩ := Logs.unique (scanGroups_logs hspace hput hv hnull) hl
  have hmem : ∀ e ∈ l, ∀ r, registered e = some r →
      r.cid = cid ∧ start ≤ r.start ∧ r.start + r.size ≤ pageAt start (pageCount size) := by
    intro e he r hr
    rcases mem_wholeLog (hwhole ▸ he) with ⟨k, hk, he⟩ | ⟨p, hp, he⟩
    · rw [scanOp_not_registered _ _ e (hv.scanOp hk he)] at hr
      cases hr
    · have hbelow := pieces_below hp
      rcases List.mem_cons.mp he with rfl | he
      · cases hr
        unfold pageAt
        dsimp only
        omega
      · cases List.mem_singleton.mp he
        cases hr
  refine ⟨fun j => ?_, fun address hout => ?_⟩
  · rw [cidsAt_eq_map fun e he r hr => (hmem e he r hr).1, hwhole,
      hv.protsAt_quiet (fun _ _ _ => rfl) scanOp_not_added, List.map_map]
    rfl
  · refine cidsAt_eq_nil fun e he r hr hcovers => hout ?_
    obtain ⟨-, hstart, hstop⟩ := hmem e he r hr
    exact ⟨Nat.le_trans hstart hcovers.1, Nat.lt_of_lt_of_le hcovers.2 hstop⟩

end

/-! ## Lines and their registrations -/

namespace Mapping

/-- The number of pages. -/
def pages (m : Mapping) : Nat := pageCount (m.stop - m.start)

/-- The mapping goes through `scan_exec_mapping`. -/
def Scanned (m : Mapping) : Prop :=
  (¬ m.Pseudo ∧ ¬ m.Skipped) ∧ strstr m.line libsegfaultFile = false ∧ m.exec = true ∧
    m.write = false

instance : DecidablePred Scanned := fun _ => inferInstanceAs (Decidable (_ ∧ _))

variable {m : Mapping}

theorem prot_isExec : m.prot.isExec = m.exec := by
  unfold prot
  cases m.read <;> cases m.write <;> cases m.exec <;> rfl

theorem prot_isWrite : m.prot.isWrite = m.write := by
  unfold prot
  cases m.read <;> cases m.write <;> cases m.exec <;> rfl

theorem pageAt_pages (h : m.Printed) : pageAt m.start m.pages = m.stop := by
  obtain ⟨hstart, hstop⟩ := h.aligned
  have hlt := h.nonempty
  unfold pages pageCount pageAt
  omega

variable (m) in
theorem getPkey_cid (loaderMappings : MmappedList) :
    getPkey (m.cid loaderMappings) = some ((getPkey (m.cid loaderMappings)).getD 0) := by
  unfold cid
  split
  · rfl
  · rfl

/-- The turn of `scan_exec_mapping` for a page of the mapping. -/
def turn (m : Mapping) (loaderMappings : MmappedList) (allowList : List Nat) :
    Group → Nat → M Group :=
  scanExecMappingPage allowList m.prot m.prot.noExec 0 (m.cid loaderMappings) false
    ((getPkey (m.cid loaderMappings)).getD 0)

end Mapping

section
variable {answer : List Op → (e : Op) → Resp e} {before : List Op} {loaderMappings : MmappedList}
  {allowList : List Nat} {m : Mapping} {own straddles : Nat → Bool} {l : List Op}

/-- How often the line of a mapping registers its page `j`. -/
def Mapping.times (m : Mapping) (own straddles : Nat → Bool) (j : Nat) : Nat :=
  if m.Scanned then (marks (pieces true own straddles m.pages) j).length else 1

/-- A line registers the pages of its mapping and no others, all for one compartment. -/
structure LineRegisters (loaderMappings : MmappedList) (m : Mapping) (own straddles : Nat → Bool)
    (l : List Op) : Prop where
  pages : ∀ j < m.pages,
    cidsAt l (pageAt m.start j) = List.replicate (m.times own straddles j) (m.cid loaderMappings)
  others : ∀ address, ¬ (m.start ≤ address ∧ address < m.stop) → cidsAt l address = []

theorem LineRegisters.whole (h : m.Printed) (hs : ¬ m.Scanned)
    (hl : ∀ address, cidsAt l address =
      if m.start ≤ address ∧ address < m.start + (m.stop - m.start) then [m.cid loaderMappings]
      else []) : LineRegisters loaderMappings m own straddles l := by
  have hstop : m.start + (m.stop - m.start) = m.stop :=
    Nat.add_sub_cancel' (Nat.le_of_lt h.nonempty)
  rw [hstop] at hl
  refine ⟨fun j hj => ?_, fun address hout => ?_⟩
  · have hend := Mapping.pageAt_pages h
    rw [hl, if_pos, Mapping.times, if_neg hs]
    · rfl
    · unfold pageAt at hend ⊢
      omega
  · rw [hl, if_neg hout]

theorem initPageGroup_registers (h : m.Printed) (hp : ¬ m.Pseudo) (hskip : ¬ m.Skipped)
    (hsucc : Succeeds answer)
    (hv : m.Scanned → Verdicts answer before (m.turn loaderMappings allowList) m.start m.pages
      allowList m.prot own straddles)
    (hl : Logs answer before (initPageGroup m.start m.stop m.prot (strstr m.line libsegfaultFile)
      (m.cid loaderMappings) allowList) l ()) :
    LineRegisters loaderMappings m own straddles l := by
  have hlt := h.nonempty
  have hstop := h.user fun hname => hp (.of_vsyscall hname)
  have hsize : wsub m.stop m.start = m.stop - m.start := by
    unfold wsub
    omega
  unfold initPageGroup at hl
  rw [hsize, Mapping.prot_isExec, Mapping.prot_isWrite] at hl
  dsimp only at hl
  split at hl
  · rename_i hsegv
    obtain ⟨l₁, _, l₂, hreq₁, hl₂, rfl⟩ := hl.of_seq
    obtain ⟨l₃, _, l₄, hreq₂, hl₄, rfl⟩ := hl₂.of_seq
    obtain ⟨-, rfl⟩ := hreq₁.of_require
    obtain ⟨hcid, rfl⟩ := hreq₂.of_require
    refine .whole h (fun hs => ?_) fun address => ?_
    · rw [hs.2.1] at hsegv
      cases hsegv
    · rw [hcid]
      refine cidsAt_whole hsucc
        (RegistersNothing.whenever (registersNothing_fold fun page => ?_)) hl₄ address
      exact erimMemScanRegion_registers.seq fun _ => addBreakpointWrapper_registers.whenever
  · rename_i hsegv
    split at hl
    · rename_i hboth
      refine .whole h (fun hs => ?_) fun address => cidsAt_whole hsucc markUnsafe_registers
        hl address
      rw [hs.2.2.2] at hboth
      cases hboth.2
    · rename_i hboth
      split at hl
      · rename_i hexec
        have hs : m.Scanned := by
          refine ⟨⟨hp, hskip⟩, Bool.eq_false_iff.mpr hsegv, hexec, ?_⟩
          exact Bool.eq_false_iff.mpr fun hwrite => hboth ⟨hexec, hwrite⟩
        have hend := Mapping.pageAt_pages h
        have hspace : m.start + 4096 * pageCount (m.stop - m.start) < 2 ^ 64 := by
          unfold pageAt Mapping.pages at hend
          omega
        obtain ⟨hin, hout⟩ := cidsAt_scanned hsucc (m.getPkey_cid loaderMappings) hspace (hv hs) hl
        refine ⟨fun j _ => ?_, fun address haddress => hout address ?_⟩
        · rw [hin, Mapping.times, if_pos hs, List.map_const']
          rfl
        · rw [← hend] at haddress
          exact haddress
      · rename_i hexec
        refine .whole h (fun hs => hexec hs.2.2.1) fun address => ?_
        exact cidsAt_whole hsucc (respects_pure.mpr trivial : RegistersNothing (pure ())) hl address

end

/-! ## The whole text -/

/-- What is known of the mappings that the kernel lists: they are in the order of
their addresses. -/
structure ProcMaps (ms : List Mapping) : Prop where
  printed : ∀ m ∈ ms, m.Printed
  sorted : ms.Pairwise fun m m' => m.stop ≤ m'.start

/-- What the scans of the pages say, mapping by mapping; each comes after the lines before it. -/
def LinesVerdicts (answer : List Op → (e : Op) → Resp e) (loaderMappings : MmappedList)
    (allowList : List Nat) (own straddles : Mapping → Nat → Bool) : List Op → List Mapping → Prop
  | _, [] => True
  | before, m :: ms =>
      (m.Scanned → Verdicts answer before (m.turn loaderMappings allowList) m.start m.pages
        allowList m.prot (own m) (straddles m)) ∧
      LinesVerdicts answer loaderMappings allowList own straddles
        (before ++ ((initMapsLine loaderMappings allowList m.line).log answer before).1) ms

section
variable {answer : List Op → (e : Op) → Resp e} {before : List Op} {loaderMappings : MmappedList}
  {allowList : List Nat} {ms : List Mapping} {m : Mapping} {own straddles : Mapping → Nat → Bool}
  {l : List Op}

theorem initMapsLine_registers (h : m.Printed) (hsucc : Succeeds answer)
    (hv : m.Scanned → Verdicts answer before (m.turn loaderMappings allowList) m.start m.pages
      allowList m.prot (own m) (straddles m))
    (hl : Logs answer before (initMapsLine loaderMappings allowList m.line) l ()) :
    if m.Pseudo ∨ m.Skipped then l = []
    else LineRegisters loaderMappings m (own m) (straddles m) l := by
  by_cases hp : m.Pseudo
  · rw [initMapsLine_pseudo h hp] at hl
    cases hl
    rw [if_pos (.inl hp)]
  · rw [initMapsLine_eq h hp] at hl
    split at hl
    · rename_i hskip
      cases hl
      rw [if_pos (.inr hskip)]
    · rename_i hskip
      rw [if_neg (not_or.mpr ⟨hp, hskip⟩)]
      exact initPageGroup_registers h hp hskip hsucc hv hl

/-- What a line says about an address that is in another mapping. -/
theorem initMapsLine_others (h : m.Printed) (hsucc : Succeeds answer)
    (hv : m.Scanned → Verdicts answer before (m.turn loaderMappings allowList) m.start m.pages
      allowList m.prot (own m) (straddles m))
    (hl : Logs answer before (initMapsLine loaderMappings allowList m.line) l ()) {address : Nat}
    (hout : ¬ (m.start ≤ address ∧ address < m.stop)) : cidsAt l address = [] := by
  have hregisters := initMapsLine_registers h hsucc hv hl
  split at hregisters
  · rw [hregisters]
    rfl
  · exact hregisters.others address hout

theorem cidsAt_lines_others (hprinted : ∀ m ∈ ms, m.Printed) (hsucc : Succeeds answer)
    (hv : LinesVerdicts answer loaderMappings allowList own straddles before ms)
    {ls : List (List Op)}
    (hls : LogsEach answer (initMapsLine loaderMappings allowList) before (ms.map Mapping.line) ls)
    {address : Nat} (hout : ∀ m ∈ ms, ¬ (m.start ≤ address ∧ address < m.stop)) :
    cidsAt ls.flatten address = [] := by
  induction ms generalizing before ls with
  | nil =>
      cases hls
      rfl
  | cons m ms ih =>
      cases hls with
      | cons hl hls =>
          obtain ⟨hv, hvs⟩ := hv
          rw [show Prog.log _ _ _ = _ from hl] at hvs
          have hrest := ih (fun m hm => hprinted m (List.mem_cons_of_mem _ hm)) hvs hls
            (fun m hm => hout m (List.mem_cons_of_mem _ hm))
          rw [List.flatten_cons, cidsAt_append, hrest,
            initMapsLine_others (hprinted m List.mem_cons_self) hsucc hv hl
              (hout m List.mem_cons_self)]
          rfl

/-- An address is registered by the line of its mapping only. -/
theorem cidsAt_lines (hms : ProcMaps ms) (hsucc : Succeeds answer)
    (hv : LinesVerdicts answer loaderMappings allowList own straddles before ms)
    {ls : List (List Op)}
    (hls : LogsEach answer (initMapsLine loaderMappings allowList) before (ms.map Mapping.line) ls)
    (hm : m ∈ ms) :
    ∃ l, (if m.Pseudo ∨ m.Skipped then l = []
        else LineRegisters loaderMappings m (own m) (straddles m) l) ∧
      ∀ address, m.start ≤ address → address < m.stop →
        cidsAt ls.flatten address = cidsAt l address := by
  obtain ⟨hprinted, hsorted⟩ := hms
  induction ms generalizing before ls with
  | nil => cases hm
  | cons m' ms ih =>
      cases hls with
      | @cons _ l _ _ ls hl hls =>
          obtain ⟨hv, hvs⟩ := hv
          rw [show Prog.log _ _ _ = _ from hl] at hvs
          obtain ⟨hfirst, hsorted⟩ := List.pairwise_cons.mp hsorted
          have hrest : ∀ m ∈ ms, m.Printed := fun m hm => hprinted m (List.mem_cons_of_mem _ hm)
          have hprinted' := hprinted m' List.mem_cons_self
          rcases List.mem_cons.mp hm with rfl | hm
          · refine ⟨l, initMapsLine_registers hprinted' hsucc hv hl, fun address h₁ h₂ => ?_⟩
            -- the mappings behind this one begin where it has ended
            have hbehind : cidsAt ls.flatten address = [] := by
              refine cidsAt_lines_others hrest hsucc hvs hls fun m' hm' => ?_
              have := hfirst m' hm'
              omega
            rw [List.flatten_cons, cidsAt_append, hbehind, List.append_nil]
          · obtain ⟨l', hl', hcids⟩ := ih hvs hls hm hrest hsorted
            refine ⟨l', hl', fun address h₁ h₂ => ?_⟩
            have hbefore := hfirst m hm
            rw [List.flatten_cons, cidsAt_append, hcids address h₁ h₂,
              initMapsLine_others hprinted' hsucc hv hl (by omega)]
            rfl

end

/-! ## The classification -/

/-- The address is in a range that the loader has recorded. -/
def MmappedList.Recorded (loaderMappings : MmappedList) (address : Nat) : Prop :=
  ∃ g ∈ loaderMappings.list, g.startAddress ≤ address ∧ (address : Int) < g.startAddress + g.size

instance (loaderMappings : MmappedList) : DecidablePred loaderMappings.Recorded := fun _ =>
  inferInstanceAs (Decidable (∃ g ∈ loaderMappings.list, _))

/-- The address is in the range registered for the vdso or the vvar pages. -/
def PageGroup.Covers (g : PageGroup) (address : Nat) : Prop :=
  g.startAddress ≤ address ∧ address < g.startAddress + toWord g.size

instance (g : PageGroup) : DecidablePred g.Covers := fun _ => inferInstanceAs (Decidable (_ ∧ _))

/-- Every page of every listed mapping but the kernel's own is registered once, for
the application if the loader has recorded it. -/
def Classified (loaderMappings : MmappedList) (ms : List Mapping) (l : List Op) : Prop :=
  ∀ m ∈ ms, ¬ m.Pseudo → ∀ j < m.pages,
    cidsAt l (pageAt m.start j) =
      [if loaderMappings.Recorded (pageAt m.start j) then TS_APPLICATION else TS_MONITOR]

theorem once_reading : Reading true fun l _ => l.length = 1 where
  single _ := rfl
  spoiled l t hl h := by
    rw [List.length_append, hl, List.length_cons] at h
    omega
  again := nofun

section
variable {answer : List Op → (e : Op) → Resp e} {loaderMappings : MmappedList}
  {allowList : List Nat} {gsBase gsSize : Nat} {ms : List Mapping}
  {own straddles : Mapping → Nat → Bool} {l : List Op}

theorem cidsAt_initKernelPages (hsucc : Succeeds answer) {g : PageGroup} {before : List Op}
    (hl : Logs answer before (initKernelPages g) l ()) {address : Nat} (h : ¬ g.Covers address) :
    cidsAt l address = [] := by
  have hlog : Logs answer before (initKernelPages g)
      (addOps 0 TS_MONITOR false SECPOLINE_READONLY_MPKEY g.startAddress (toWord g.size)
        g.permissions) () := hsucc.addGroup
  obtain ⟨rfl, -⟩ := hlog.unique hl
  rw [cidsAt_addOps]
  exact if_neg h

theorem splitLines_mapsText (hms : ProcMaps ms) (hfits : (mapsText ms).length < staticBufSize) :
    splitLines ((mapsText ms).take (staticBufSize - 1)) = ms.map Mapping.line := by
  rw [List.take_of_length_le (by omega)]
  exact splitLines_flatMap fun m hm => Mapping.newline_notMem_line (hms.printed m hm)

/-- What the lines say about an address is what is said about it altogether. -/
theorem initPageManager_cidsAt (hms : ProcMaps ms) (hfits : (mapsText ms).length < staticBufSize)
    (hsucc : Succeeds answer)
    (hl : Logs answer []
      (initPageManager loaderMappings (mapsText ms) allowList gsBase gsSize) l ()) :
    ∃ ls, LogsEach answer (initMapsLine loaderMappings allowList) [] (ms.map Mapping.line) ls ∧
      ∀ address, ¬ loaderMappings.vdso.Covers address → ¬ loaderMappings.vvar.Covers address →
        cidsAt l address = cidsAt ls.flatten address := by
  unfold initPageManager at hl
  rw [splitLines_mapsText hms hfits] at hl
  obtain ⟨l₁, _, l₂, h₁, h₂, rfl⟩ := hl.of_seq
  obtain ⟨l₃, _, l₄, h₃, h₄, rfl⟩ := h₂.of_seq
  obtain ⟨l₅, _, l₆, h₅, h₆, rfl⟩ := h₄.of_seq
  obtain ⟨ls, hls, rfl⟩ := h₁.of_fold
  refine ⟨ls, hls, fun address hvdso hvvar => ?_⟩
  have hlast : cidsAt l₆ address = [] := by
    refine RegistersNothing.cidsAt ?_ h₆ address
    exact (registersNothing_perform rfl).expectZero.seq fun _ =>
      (registersNothing_perform rfl).expectZero.seq fun _ =>
        (registersNothing_perform rfl).expectZero
  rw [cidsAt_append, cidsAt_append, cidsAt_append, cidsAt_initKernelPages hsucc h₃ hvdso,
    cidsAt_initKernelPages hsucc h₅ hvvar, hlast]
  simp only [List.append_nil]

theorem replicate_eq_singleton {k : Nat} {a b : Int} :
    List.replicate k a = [b] ↔ k = 1 ∧ a = b := by
  constructor
  · intro h
    have hk : k = 1 := by simpa using congrArg List.length h
    subst hk
    exact ⟨rfl, List.head_eq_of_cons_eq h⟩
  · rintro ⟨rfl, rfl⟩
    rfl

theorem cid_eq_iff {m : Mapping} {address : Nat} :
    (m.cid loaderMappings =
        if loaderMappings.Recorded address then TS_APPLICATION else TS_MONITOR) ↔
      (loaderMappings.Recorded address ↔ mappingInList m.start loaderMappings = true) := by
  have hne : TS_APPLICATION ≠ TS_MONITOR := by decide
  unfold Mapping.cid
  by_cases hin : mappingInList m.start loaderMappings = true <;>
    by_cases hrec : loaderMappings.Recorded address <;>
    simp [hin, hrec, hne, hne.symm]

/-- Every page of a mapping is registered once if the groups of a scan cover it once. -/
theorem times_once_iff {m : Mapping} {own straddles : Nat → Bool} :
    (∀ j < m.pages, m.times own straddles j = 1) ↔
      (m.Scanned → ∀ i < m.pages, Slips true own straddles i →
        Recovers own straddles m.pages i) := by
  by_cases hs : m.Scanned
  · have htimes : (∀ j < m.pages, m.times own straddles j = 1) ↔
        Complete true own straddles m.pages fun l _ => l.length = 1 := by
      unfold Mapping.times Complete
      simp only [if_pos hs]
    rw [htimes, complete_iff once_reading]
    exact ⟨fun h _ => h, fun h => h hs⟩
  · refine iff_of_true (fun j _ => ?_) (fun h => absurd h hs)
    rw [Mapping.times, if_neg hs]

/-- Start-up classifies every page by the loader's record if and only if every
mapping that is not the kernel's has no line with their names in it, lies inside or
outside of the recorded ranges as a whole, as its start address says, and, if it is
scanned, leads to groups that cover it once. -/
theorem initPageManager_classifies_iff (hms : ProcMaps ms)
    (hfits : (mapsText ms).length < staticBufSize)
    (hkernel : ∀ m ∈ ms, ¬ m.Pseudo → ∀ j < m.pages,
      ¬ loaderMappings.vdso.Covers (pageAt m.start j) ∧
        ¬ loaderMappings.vvar.Covers (pageAt m.start j))
    (hsucc : Succeeds answer)
    (hv : LinesVerdicts answer loaderMappings allowList own straddles [] ms)
    (hl : Logs answer []
      (initPageManager loaderMappings (mapsText ms) allowList gsBase gsSize) l ()) :
    Classified loaderMappings ms l ↔
      ∀ m ∈ ms, ¬ m.Pseudo → ¬ m.Skipped ∧
        (∀ j < m.pages, loaderMappings.Recorded (pageAt m.start j) ↔
          mappingInList m.start loaderMappings = true) ∧
        (m.Scanned → ∀ i < m.pages, Slips true (own m) (straddles m) i →
          Recovers (own m) (straddles m) m.pages i) := by
  obtain ⟨ls, hls, hcids⟩ := initPageManager_cidsAt hms hfits hsucc hl
  refine forall₂_congr fun m hm => forall_congr' fun hp => ?_
  obtain ⟨l', hregisters, hown⟩ := cidsAt_lines hms hsucc hv hls hm
  have hprinted := hms.printed m hm
  have hend := Mapping.pageAt_pages hprinted
  have hpage (j : Nat) (hj : j < m.pages) :
      cidsAt l (pageAt m.start j) = cidsAt l' (pageAt m.start j) := by
    rw [hcids _ (hkernel m hm hp j hj).1 (hkernel m hm hp j hj).2]
    unfold pageAt at hend ⊢
    exact hown _ (by omega) (by omega)
  by_cases hskip : m.Skipped
  · refine iff_of_false (fun h => ?_) (fun h => h.1 hskip)
    have hpos : 0 < m.pages := by
      have := hprinted.nonempty
      unfold pageAt at hend
      omega
    have hfirst := h 0 hpos
    rw [if_pos (.inr hskip)] at hregisters
    rw [hpage 0 hpos, hregisters] at hfirst
    cases hfirst
  · rw [if_neg (not_or.mpr ⟨hp, hskip⟩)] at hregisters
    have hiff (j : Nat) (hj : j < m.pages) :
        cidsAt l (pageAt m.start j) =
            [if loaderMappings.Recorded (pageAt m.start j) then TS_APPLICATION else TS_MONITOR] ↔
          m.times (own m) (straddles m) j = 1 ∧
            (loaderMappings.Recorded (pageAt m.start j) ↔
              mappingInList m.start loaderMappings = true) := by
      rw [hpage j hj, hregisters.pages j hj, replicate_eq_singleton, cid_eq_iff]
    rw [forall₂_congr hiff, forall₂_and, times_once_iff]
    exact ⟨fun h => ⟨hskip, h.2, h.1⟩, fun h => ⟨h.2.2, h.2.1⟩⟩

end

/-- What a page manager says that was empty at first and has been given these pages. -/
def trackedBy (before : List Op) (address : Nat) : Option VirtPage :=
  before.reverse.findSome? fun
    | .addPage start size prot flags cid _ =>
        if start ≤ address ∧ address < start + size then
          some { start, size, prot, flags, cid, node := 0 }
        else none
    | _ => none

/-- What the loader has recorded: the mappings with these starts and sizes. -/
def recordOf (l : List (Nat × Int)) : MmappedList where
  list := l.map fun x => ⟨x.1, x.2, PROT_READ⟩
  vvar := ⟨0x7ffff000, 0x4000, PROT_READ⟩
  vdso := ⟨0x80003000, 0x2000, PROT_READ ||| PROT_EXEC⟩

/-- Two pages of code at 0x10000. -/
def codeMapping : Mapping where
  start := 0x10000
  stop := 0x12000
  read := true
  write := false
  exec := true
  shared := false
  info := "00000000 08:01 42 ".toList
  name := "/bin/app".toList

def vsyscallMapping : Mapping where
  start := 0xffffffffff600000
  stop := 0xffffffffff601000
  read := false
  write := false
  exec := true
  shared := false
  info := "00000000 00:00 0 ".toList
  name := "[vsyscall]".toList

/-- Code that was split into two mappings. -/
def splitMappings : List Mapping :=
  [{ codeMapping with stop := 0x11000 }, { codeMapping with start := 0x11000 }, vsyscallMapping]

def splitRecord : MmappedList := recordOf [(0x10000, 0x1000), (0x11000, 0x1000)]

theorem codeMapping_printed : codeMapping.Printed :=
  ⟨by decide, by decide, by decide, by decide, fun _ => by decide, fun h => absurd h (by decide)⟩

theorem vsyscallMapping_printed : vsyscallMapping.Printed :=
  ⟨by decide, by decide, by decide, by decide, fun h => absurd rfl h, fun _ => by decide⟩

theorem procMaps_split : ProcMaps splitMappings where
  printed m hm := by
    simp only [splitMappings, List.mem_cons, List.not_mem_nil, or_false] at hm
    rcases hm with rfl | rfl | rfl
    · exact ⟨by decide, by decide, by decide, codeMapping_printed.oneLine, fun _ => by decide,
        fun h => absurd h (by decide)⟩
    · exact ⟨by decide, by decide, by decide, codeMapping_printed.oneLine, fun _ => by decide,
        fun h => absurd h (by decide)⟩
    · exact vsyscallMapping_printed
  sorted := by decide

/-- When the second mapping is scanned the page before it is tracked, which it was not when the
first one was. -/
theorem linesVerdicts_split :
    LinesVerdicts (answerOf (fun _ => 0) trackedBy) splitRecord [] (fun _ _ => false)
      (fun _ _ => false) [] splitMappings := by
  refine ⟨fun _ => ?_, fun _ => ?_, fun h => absurd h (by decide +kernel), trivial⟩ <;>
    unfold Verdicts <;> decide +kernel

theorem initPageManager_returns_split :
    ((initPageManager splitRecord (mapsText splitMappings) [] 0x90000 0x1000).log
      (answerOf (fun _ => 0) trackedBy) []).2 = some () := by
  decide +kernel

theorem initPageManager_classifies_split :
    ∃ l, Logs (answerOf (fun _ => 0) trackedBy) []
        (initPageManager splitRecord (mapsText splitMappings) [] 0x90000 0x1000) l () ∧
      Classified splitRecord splitMappings l := by
  have hl : Logs _ _ _ _ () := Prod.ext rfl initPageManager_returns_split
  refine ⟨_, hl, (initPageManager_classifies_iff procMaps_split (by decide +kernel) ?_
    ⟨fun _ _ _ _ _ _ _ => rfl, fun _ _ _ _ _ => rfl⟩ linesVerdicts_split hl).mpr ?_⟩
  · decide +kernel
  · intro m hm hp
    simp only [splitMappings, List.mem_cons, List.not_mem_nil, or_false] at hm
    rcases hm with rfl | rfl | rfl
    · exact ⟨by decide +kernel, by decide +kernel, fun _ _ _ h => nomatch h.2.1⟩
    · exact ⟨by decide +kernel, by decide +kernel, fun _ _ _ h => nomatch h.2.1⟩
    · exact absurd (by decide) hp

/-- Two pages of data at 0x10000. -/
def dataMapping (name : CString) : Mapping :=
  { codeMapping with write := true, exec := false, name }

/-- A mapping that has grown is the application's as a whole, although the loader has
not recorded its second page; and a file in a directory with the name of the vdso is
not registered. -/
theorem initPageManager_not_classified :
    (∃ l, Logs (answerOf (fun _ => 0) trackedBy) []
        (initPageManager (recordOf [(0x10000, 0x1000)]) (mapsText [dataMapping []]) [] 0x90000
          0x1000) l () ∧
      ¬ Classified (recordOf [(0x10000, 0x1000)]) [dataMapping []] l) ∧
    ∃ l, Logs (answerOf (fun _ => 0) trackedBy) []
        (initPageManager (recordOf [(0x10000, 0x2000)])
          (mapsText [dataMapping "/opt/vdso/app".toList]) [] 0x90000 0x1000) l () ∧
      ¬ Classified (recordOf [(0x10000, 0x2000)]) [dataMapping "/opt/vdso/app".toList] l := by
  refine ⟨⟨_, rfl, fun h => ?_⟩, ⟨_, rfl, fun h => ?_⟩⟩
  · have hsecond := h (dataMapping []) List.mem_cons_self (by decide) 1 (by decide)
    exact absurd hsecond (by decide +kernel)
  · have hfirst := h (dataMapping _) List.mem_cons_self (by decide) 0 (by decide)
    exact absurd hfirst (by decide +kernel)

end Secpoline
