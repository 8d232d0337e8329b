import Mathlib.Data.List.Induction
import Secpoline.Proofs.UnsafePages

/-!
# Runs of the list of unsafe pages

The list is filled by `add_unsafe_page`, `update_unsafe_page` and
`update_unsafe_instruction`, in whatever order requests and scans call them. A null
vector is let through for a new page and dereferenced for a listed one, and an
instruction that is appended to the vector of a listed page is not counted.

As long as the size field is the length of the list, the functions do what their models
on the bare list do, which the rest of the development uses. So the list is good in
every state of a run exactly if no call of the run does one of those two things.
-/

namespace Secpoline

/-! ## The size field -/

namespace UnsafePageList

variable {l : List UnsafePage} {address instruction : Nat} {currentPerm desiredPerm : Prot}
  {trustedPage : Bool} {vector : Option (List Nat)} {u : UnsafePageList}

theorem searchFirst_length :
    searchFirst address l l.length = some (l.findIdx? fun e => e.address == address) := by
  induction l with
  | nil => rfl
  | cons e rest ih =>
      rw [List.length_cons, searchFirst, List.findIdx?_cons, ih]
      by_cases h : e.address = address <;> simp [h]

end UnsafePageList

theorem modifyFirst_findIdx {α : Type} {p : α → Bool} {f : α → α} {l : List α} {i : Nat}
    (h : l.findIdx? p = some i) : modifyFirst p f l = l.modify i f := by
  induction l generalizing i with
  | nil => cases h
  | cons a rest ih =>
      rw [List.findIdx?_cons] at h
      rw [modifyFirst]
      split at h
      · next ha =>
          cases h
          rw [if_pos ha]
          rfl
      · next ha =>
          obtain ⟨j, hj, rfl⟩ := Option.map_eq_some_iff.mp h
          rw [if_neg ha, ih hj]
          rfl

theorem modifyFirst_append {α : Type} {p : α → Bool} {f : α → α} {l₁ l₂ : List α} :
    modifyFirst p f (l₁ ++ l₂) =
      if l₁.any p then modifyFirst p f l₁ ++ l₂ else l₁ ++ modifyFirst p f l₂ := by
  induction l₁ with
  | nil => rfl
  | cons a rest ih =>
      rw [List.cons_append, modifyFirst, modifyFirst, List.any_cons]
      by_cases ha : p a = true
      · simp [ha]
      · rw [if_neg ha, if_neg ha, ih]
        by_cases hrest : rest.any p = true <;> simp [ha, hrest]

namespace UnsafePageList

variable {l : List UnsafePage} {address instruction : Nat} {currentPerm desiredPerm : Prot}
  {trustedPage : Bool} {vector : Option (List Nat)} {u : UnsafePageList}

variable (l address) in
/-- The last entry of the list is the first one from behind. -/
theorem searchLast_length :
    (searchLast address l l.length = some none ∧
        l.reverse.find? (fun e => e.address == address) = none) ∨
      ∃ i e, searchLast address l l.length = some (some i) ∧ l[i]? = some e ∧
        l.reverse.find? (fun e => e.address == address) = some e ∧
        ∀ f, (modifyFirst (fun e => e.address == address) f l.reverse).reverse = l.modify i f := by
  induction l with
  | nil => exact .inl ⟨rfl, rfl⟩
  | cons a rest ih =>
      rw [List.length_cons, searchLast, List.reverse_cons, List.find?_append]
      rcases ih with ⟨hsearch, hfind⟩ | ⟨i, e, hsearch, hat, hfind, hmodify⟩
      · have hany : rest.reverse.any (fun e => e.address == address) = false := by
          rw [List.any_eq_false]
          exact fun e he => List.find?_eq_none.mp hfind e he
        rw [hsearch, hfind]
        by_cases ha : a.address = address
        · refine .inr ⟨0, a, by simp [ha], rfl, by simp [ha], fun f => ?_⟩
          rw [modifyFirst_append, hany]
          simp [modifyFirst, ha]
        · exact .inl ⟨by simp [ha], by simp [ha]⟩
      · have hany : rest.reverse.any (fun e => e.address == address) = true :=
          List.any_eq_true.mpr ⟨e, List.mem_of_find?_eq_some hfind,
            List.find?_some (p := fun e : UnsafePage => e.address == address) hfind⟩
        rw [hsearch, hfind]
        refine .inr ⟨i + 1, e, rfl, by simpa using hat, rfl, fun f => ?_⟩
        rw [modifyFirst_append, hany, if_pos rfl, List.reverse_append, hmodify]
        rfl

/-- The struct that the list is part of. -/
def ofList (l : List UnsafePage) : UnsafePageList := { list := l, size := l.length }

theorem updateUnsafePage_eq :
    (ofList l).updateUnsafePage address currentPerm desiredPerm trustedPage vector =
      (Secpoline.updateUnsafePage l address currentPerm desiredPerm trustedPage vector).map
        fun r => (r.1, ofList r.2) := by
  simp only [updateUnsafePage, Secpoline.updateUnsafePage, ofList, searchFirst_length]
  cases hfind : l.findIdx? fun e => e.address == address with
  | none =>
      have hany : (l.any fun e => e.address == address) = false := by
        rw [← List.findIdx?_isSome, hfind]
        rfl
      rw [hany]
      rfl
  | some i =>
      have hany : (l.any fun e => e.address == address) = true := by
        rw [← List.findIdx?_isSome, hfind]
        rfl
      rw [hany, if_pos rfl]
      cases vector with
      | none => rfl
      | some v => simp [modifyFirst_findIdx hfind]

theorem addUnsafePage_eq :
    (ofList l).addUnsafePage address currentPerm desiredPerm trustedPage vector =
      (Secpoline.addUnsafePage l address currentPerm desiredPerm trustedPage vector).map
        ofList := by
  simp only [addUnsafePage, Secpoline.addUnsafePage, updateUnsafePage_eq]
  cases Secpoline.updateUnsafePage l address currentPerm desiredPerm trustedPage vector with
  | none => rfl
  | some r =>
      obtain ⟨b, l'⟩ := r
      cases b with
      | true => rfl
      | false => simp [ofList]

theorem updateUnsafeInstruction_eq (h : address ≤ instruction) (h' : instruction < address + 4096) :
    (ofList l).updateUnsafeInstruction address instruction currentPerm desiredPerm trustedPage =
      (Secpoline.updateUnsafeInstruction l address instruction currentPerm desiredPerm
        trustedPage).map ofList := by
  simp only [updateUnsafeInstruction, Secpoline.updateUnsafeInstruction]
  rw [if_neg (by simp [h, h'])]
  rcases searchLast_length l (address / 4096 * 4096) with
    ⟨hsearch, hfind⟩ | ⟨i, e, hsearch, hat, hfind, hmodify⟩
  · simp only [ofList, hsearch, hfind]
    exact addUnsafePage_eq
  · simp only [ofList, hsearch, hfind, hat]
    cases he : e.unsafeInstructions with
    | none => rfl
    | some v =>
        simp only [hmodify]
        split
        · rfl
        · simp [ofList]

/-- What the list is meant to be. -/
structure Good (u : UnsafePageList) : Prop where
  once : (u.list.map (·.address)).Nodup
  sized : u.size = u.list.length
  counted : ∀ e ∈ u.list, e.unsafeInstructionsSize = e.instructions.length

theorem Good.eq_ofList (h : u.Good) : u = ofList u.list := by
  rw [ofList, ← h.sized]

theorem good_nil : Good {} := ⟨List.nodup_nil, rfl, nofun⟩

theorem good_of_replaced {l' : List UnsafePage} {new : UnsafePage} (hl : (ofList l).Good)
    (h : Replaced l l' address new) (hnew : new.unsafeInstructionsSize = new.instructions.length) :
    (ofList l').Good := by
  refine ⟨h.nodup, rfl, fun e he => ?_⟩
  rcases h.mem e he with ⟨he, -⟩ | rfl
  · exact hl.counted e he
  · exact hnew

end UnsafePageList

/-! ## One call -/

section Call

variable {l : List UnsafePage} {address : Nat} {currentPerm desiredPerm : Prot}
  {trustedPage : Bool} {vector : Option (List Nat)} {u : UnsafePageList}

/-- A call to one of the functions that fill the list. `update_unsafe_instruction` is only
called for an instruction on the page, which it asserts. -/
inductive ListCall where
  | add (address : Nat) (currentPerm desiredPerm : Prot) (trustedPage : Bool)
      (unsafeInstructions : Option (List Nat))
  | update (address : Nat) (currentPerm desiredPerm : Prot) (trustedPage : Bool)
      (unsafeInstructions : List Nat)
  | instruction (address : Nat) (offset : Fin 4096) (currentPerm desiredPerm : Prot)
      (trustedPage : Bool)

namespace ListCall

def run : ListCall → UnsafePageList → Option UnsafePageList
  | .add address currentPerm desiredPerm trustedPage v, u =>
      u.addUnsafePage address currentPerm desiredPerm trustedPage v
  | .update address currentPerm desiredPerm trustedPage v, u =>
      (u.updateUnsafePage address currentPerm desiredPerm trustedPage (some v)).map Prod.snd
  | .instruction address offset currentPerm desiredPerm trustedPage, u =>
      u.updateUnsafeInstruction address (address + offset) currentPerm desiredPerm trustedPage

/-- A null vector is for a page that is not listed, and an instruction is for such a page or
already in the vector of its page. -/
def Fine (u : UnsafePageList) : ListCall → Prop
  | .add address _ _ _ none => ∀ e ∈ u.list, e.address ≠ address
  | .instruction address offset _ _ _ => ∀ e ∈ u.list, e.address = address / 4096 * 4096 →
      ∃ v, e.unsafeInstructions = some v ∧ address + offset ∈ v
  | _ => True

end ListCall

theorem updateUnsafePage_total (v : List Nat) :
    ∃ r, updateUnsafePage l address currentPerm desiredPerm trustedPage (some v) = some r := by
  unfold updateUnsafePage
  split <;> exact ⟨_, rfl⟩

/-- A null vector is dereferenced for a listed page. -/
theorem addUnsafePage_total_iff :
    (∃ l', addUnsafePage l address currentPerm desiredPerm trustedPage vector = some l') ↔
      (vector = none → ∀ e ∈ l, e.address ≠ address) := by
  cases vector with
  | some v =>
      obtain ⟨⟨b, l'⟩, hr⟩ : ∃ r, updateUnsafePage l address currentPerm desiredPerm trustedPage
          (some v) = some r := updateUnsafePage_total v
      simp only [addUnsafePage, hr, reduceCtorEq, false_implies, iff_true]
      cases b <;> exact ⟨_, rfl⟩
  | none =>
      simp only [addUnsafePage, updateUnsafePage, true_implies]
      by_cases hany : (l.any fun e => e.address == address) = true
      · obtain ⟨e, he, hea⟩ := List.any_eq_true.mp hany
        simp only [hany, if_true, reduceCtorEq, exists_const, false_iff]
        exact fun hno => hno e he (beq_iff_eq.mp hea)
      · simp only [hany]
        refine iff_of_true ⟨_, rfl⟩ fun e he hea => hany ?_
        exact List.any_eq_true.mpr ⟨e, he, beq_iff_eq.mpr hea⟩

theorem add_good_iff (hl : (UnsafePageList.ofList l).Good) :
    (∃ u', (UnsafePageList.ofList l).addUnsafePage address currentPerm desiredPerm trustedPage
        vector = some u' ∧ u'.Good) ↔
      (vector = none → ∀ e ∈ l, e.address ≠ address) := by
  rw [UnsafePageList.addUnsafePage_eq]
  constructor
  · intro h
    obtain ⟨u', hrun, -⟩ := h
    obtain ⟨l', hl', -⟩ := Option.map_eq_some_iff.mp hrun
    exact addUnsafePage_total_iff.mp ⟨l', hl'⟩
  · intro h
    obtain ⟨l', hl'⟩ : ∃ l', addUnsafePage l address currentPerm desiredPerm trustedPage vector =
        some l' := addUnsafePage_total_iff.mpr h
    refine ⟨.ofList l', by rw [hl']; rfl, ?_⟩
    exact UnsafePageList.good_of_replaced hl (addUnsafePage_replaced hl.once hl') rfl

theorem mem_modifyFirst_found {α : Type} {p : α → Bool} {f : α → α} {l : List α} {a : α}
    (h : l.find? p = some a) : f a ∈ modifyFirst p f l := by
  induction l with
  | nil => cases h
  | cons x rest ih =>
      rw [List.find?_cons] at h
      rw [modifyFirst]
      split at h
      · next hx =>
          cases h
          rw [if_pos hx]
          exact List.mem_cons_self
      · next hx =>
          rw [if_neg (by simp [hx])]
          exact List.mem_cons_of_mem _ (ih h)

variable (address currentPerm desiredPerm trustedPage) in
/-- A page without an entry gets one; an instruction that is in the vector of its page
changes nothing; one that is not is appended and not counted. -/
theorem instruction_good_iff (instruction : Nat) (hl : (UnsafePageList.ofList l).Good) :
    (∃ l', updateUnsafeInstruction l address instruction currentPerm desiredPerm trustedPage =
        some l' ∧ (UnsafePageList.ofList l').Good) ↔
      ∀ e ∈ l, e.address = address / 4096 * 4096 →
        ∃ v, e.unsafeInstructions = some v ∧ instruction ∈ v := by
  simp only [updateUnsafeInstruction]
  cases hfind : l.reverse.find? fun e => e.address == address / 4096 * 4096 with
  | none =>
      have hno : ∀ e ∈ l, e.address ≠ address / 4096 * 4096 := by
        intro e he hea
        have := List.find?_eq_none.mp hfind e (List.mem_reverse.mpr he)
        simp [hea] at this
      refine iff_of_true ?_ fun e he hea => absurd hea (hno e he)
      obtain ⟨l', hl'⟩ : ∃ l', addUnsafePage l address currentPerm desiredPerm trustedPage
          (some [instruction]) = some l' := addUnsafePage_total_iff.mpr nofun
      exact ⟨l', hl', UnsafePageList.good_of_replaced hl (addUnsafePage_replaced hl.once hl') rfl⟩
  | some e =>
      have hea : e.address = address / 4096 * 4096 := beq_iff_eq.mp
        (List.find?_some (p := fun e : UnsafePage => e.address == address / 4096 * 4096) hfind)
      have he : e ∈ l := List.mem_reverse.mp (List.mem_of_find?_eq_some hfind)
      have honly : ∀ e' ∈ l, e'.address = address / 4096 * 4096 → e' = e := fun e' he' hea' =>
        List.inj_on_of_nodup_map hl.once he' he (hea'.trans hea.symm)
      have hiff : (∀ e ∈ l, e.address = address / 4096 * 4096 →
          ∃ v, e.unsafeInstructions = some v ∧ instruction ∈ v) ↔
            ∃ v, e.unsafeInstructions = some v ∧ instruction ∈ v := by
        refine ⟨fun h => h e he hea, fun h e' he' hea' => ?_⟩
        rw [honly e' he' hea']
        exact h
      rw [hiff]
      dsimp only
      cases hv : e.unsafeInstructions with
      | none => simp
      | some v =>
          simp only [Option.some.injEq, exists_eq_left']
          by_cases hin : instruction ∈ v
          · simp only [List.contains_iff_mem.mpr hin, if_true, hin, iff_true]
            exact ⟨l, rfl, hl⟩
          · rw [if_neg (by simpa using hin)]
            refine iff_of_false (fun h => ?_) hin
            obtain ⟨l', hl', hgood⟩ := h
            cases hl'
            have hmem := hgood.counted { e with unsafeInstructions := some (v ++ [instruction]) }
              (List.mem_reverse.mpr (mem_modifyFirst_found hfind))
            have hcount := hl.counted e he
            simp only [UnsafePage.instructions, hv, Option.getD_some, List.length_append,
              List.length_singleton] at hmem hcount
            omega

/-- A call on a good list returns and leaves a good one, exactly if it is fine. -/
theorem ListCall.run_good_iff {c : ListCall} (hu : u.Good) :
    (∃ u', c.run u = some u' ∧ u'.Good) ↔ c.Fine u := by
  obtain ⟨l, rfl⟩ : ∃ l, u = .ofList l := ⟨u.list, hu.eq_ofList⟩
  cases c with
  | add address currentPerm desiredPerm trustedPage vector =>
      refine (add_good_iff hu).trans ?_
      cases vector with
      | none => simp [Fine, UnsafePageList.ofList]
      | some v => simp [Fine]
  | update address currentPerm desiredPerm trustedPage v =>
      refine iff_of_true ?_ trivial
      obtain ⟨⟨b, l'⟩, hr⟩ : ∃ r, updateUnsafePage l address currentPerm desiredPerm trustedPage
          (some v) = some r := updateUnsafePage_total v
      refine ⟨.ofList l', by simp [run, UnsafePageList.updateUnsafePage_eq, hr], ?_⟩
      exact UnsafePageList.good_of_replaced hu (updateUnsafePage_replaced hu.once hr) rfl
  | instruction address offset currentPerm desiredPerm trustedPage =>
      refine Iff.trans ?_ (instruction_good_iff address currentPerm desiredPerm trustedPage _ hu)
      have hoffset := offset.isLt
      simp only [run, UnsafePageList.updateUnsafeInstruction_eq (l := l)
        (show address ≤ address + offset by omega)
        (show address + offset < address + 4096 by omega)]
      constructor
      · intro h
        obtain ⟨u', hrun, hgood⟩ := h
        obtain ⟨l', hl', rfl⟩ := Option.map_eq_some_iff.mp hrun
        exact ⟨l', hl', hgood⟩
      · intro h
        obtain ⟨l', hl', hgood⟩ := h
        exact ⟨.ofList l', Option.map_eq_some_iff.mpr ⟨l', hl', rfl⟩, hgood⟩

end Call

/-! ## Runs -/

/-- The calls one after the other. -/
def ListCall.runAll (calls : List ListCall) (u : UnsafePageList) : Option UnsafePageList :=
  calls.foldlM (fun u c => c.run u) u

theorem ListCall.runAll_concat {calls : List ListCall} {c : ListCall} {u u' : UnsafePageList} :
    runAll (calls ++ [c]) u = some u' ↔ ∃ u₁, runAll calls u = some u₁ ∧ c.run u₁ = some u' := by
  simp only [runAll, List.foldlM_append, List.foldlM_cons, List.foldlM_nil, Option.bind_eq_bind,
    Option.bind_eq_some_iff]
  simp

/-- From the empty list on, every call returns and leaves a good list, exactly if every call
is fine in the state it is made in. -/
theorem unsafePages_good_iff (calls : List ListCall) :
    (∀ pre, pre <+: calls → ∃ u, ListCall.runAll pre {} = some u ∧ u.Good) ↔
      ∀ pre c, pre ++ [c] <+: calls → ∀ u, ListCall.runAll pre {} = some u → c.Fine u := by
  constructor
  · intro hgood pre c hpre u hrun
    obtain ⟨u₁, hrun₁, hu⟩ := hgood pre ((List.prefix_append _ _).trans hpre)
    obtain rfl : u₁ = u := Option.some.inj (hrun₁.symm.trans hrun)
    obtain ⟨u', hrun', hu'⟩ := hgood _ hpre
    obtain ⟨u₂, hrun₂, hc⟩ := ListCall.runAll_concat.mp hrun'
    obtain rfl : u₂ = u₁ := Option.some.inj (hrun₂.symm.trans hrun)
    exact (ListCall.run_good_iff hu).mp ⟨u', hc, hu'⟩
  · intro hfine pre hpre
    induction pre using List.reverseRecOn with
    | nil => exact ⟨{}, rfl, UnsafePageList.good_nil⟩
    | append_singleton pre c ih =>
        obtain ⟨u, hrun, hu⟩ := ih ((List.prefix_append _ _).trans hpre)
        obtain ⟨u', hc, hu'⟩ := (ListCall.run_good_iff hu).mpr (hfine pre c hpre u hrun)
        exact ⟨u', ListCall.runAll_concat.mpr ⟨u, hrun, hc⟩, hu'⟩

/-- A page that is made writable and executable twice, and a scan that finds an instruction
on a listed page. -/
theorem unsafePages_not_good :
    ListCall.runAll [.add 0x20000 (PROT_READ ||| PROT_WRITE)
      (PROT_READ ||| PROT_WRITE ||| PROT_EXEC)
        false none, .add 0x20000 (PROT_READ ||| PROT_WRITE) (PROT_READ ||| PROT_WRITE ||| PROT_EXEC)
        false none] {} = none ∧
      ListCall.runAll [.add 0x20000 (PROT_READ ||| PROT_WRITE)
        (PROT_READ ||| PROT_WRITE ||| PROT_EXEC)
        false none, .instruction 0x20000 1 PROT_READ (PROT_READ ||| PROT_EXEC) false] {} = none ∧
      ∃ u, ListCall.runAll [.instruction 0x20000 1 PROT_READ (PROT_READ ||| PROT_EXEC) false,
          .instruction 0x20000 2 PROT_READ (PROT_READ ||| PROT_EXEC) false] {} = some u ∧
            ¬ u.Good := by
  refine ⟨rfl, rfl, _, rfl, fun h => ?_⟩
  have hcounted := h.counted _ List.mem_cons_self
  revert hcounted
  decide

end Secpoline
