import Secpoline.Model.UnsafePages
import Mathlib.Data.List.Nodup

/-!
# The list of unsafe pages and the controllers

What the functions on `unsafe_pages` leave in the list, for a list that has at
most one entry per page; and what `add_breakpoints` leaves in a controller: it
watches the page it was asked for, and whatever it stops watching belongs to a
page that it reports as evicted.
-/

namespace Secpoline

variable {l l' : List UnsafePage} {e : UnsafePage} {address : Nat} {currentPerm desiredPerm : Prot}
  {trustedPage : Bool} {vector : Option (List Nat)}

/-- An entry is for a page, lists instructions that begin on that page, and counts
all of them. -/
structure UnsafePage.Sound (e : UnsafePage) : Prop where
  aligned : e.address % 4096 = 0
  counted : e.unsafeInstructionsSize = e.instructions.length
  inPage : ∀ a ∈ e.instructions, a / 4096 * 4096 = e.address

/-- Sound entries, at most one for each page. -/
structure SoundList (l : List UnsafePage) : Prop where
  entries : ∀ e ∈ l, e.Sound
  nodup : (l.map (·.address)).Nodup

/-- Every instruction recorded for an executable page is in `w`. -/
def Covered (l : List UnsafePage) (w : Nat → Prop) : Prop :=
  ∀ e ∈ l, e.currentPerm.isExec = true → ∀ a ∈ e.instructions, w a

theorem SoundList.nil : SoundList [] := ⟨nofun, List.nodup_nil⟩

/-! ## Changing one entry -/

/-- The list has `new` in the place of the entry for `address`, if it had one, and
perhaps at its end if it had none. -/
structure Replaced (l l' : List UnsafePage) (address : Nat) (new : UnsafePage) : Prop where
  mem : ∀ e ∈ l', (e ∈ l ∧ e.address ≠ address) ∨ e = new
  nodup : (l'.map (·.address)).Nodup

theorem Replaced.sound {new : UnsafePage} (h : Replaced l l' address new) (hl : SoundList l)
    (hnew : new.Sound) : SoundList l' := by
  refine ⟨fun e he => ?_, h.nodup⟩
  rcases h.mem e he with ⟨he, _⟩ | rfl
  · exact hl.entries e he
  · exact hnew

theorem Replaced.covered {new : UnsafePage} {w : Nat → Prop} (h : Replaced l l' address new)
    (hl : Covered l w) (hnew : new.currentPerm.isExec = true → ∀ a ∈ new.instructions, w a) :
    Covered l' w := by
  intro e he
  rcases h.mem e he with ⟨he, _⟩ | rfl
  · exact hl e he
  · exact hnew

theorem map_modifyFirst {α β : Type} {p : α → Bool} {f : α → α} {g : α → β} {l : List α}
    (hf : ∀ a, p a = true → g (f a) = g a) : (modifyFirst p f l).map g = l.map g := by
  induction l with
  | nil => rfl
  | cons a rest ih =>
      rw [modifyFirst]
      split
      · rename_i ha
        rw [List.map_cons, List.map_cons, hf a ha]
      · rw [List.map_cons, List.map_cons, ih]

theorem mem_modifyFirst {f : UnsafePage → UnsafePage} (hl : (l.map (·.address)).Nodup)
    (h : e ∈ modifyFirst (fun e => e.address == address) f l) :
    (e ∈ l ∧ e.address ≠ address) ∨ ∃ e₀ ∈ l, e₀.address = address ∧ e = f e₀ := by
  induction l with
  | nil => cases h
  | cons x rest ih =>
      rw [List.map_cons, List.nodup_cons] at hl
      rw [modifyFirst] at h
      split at h
      · rename_i hx
        have hx : x.address = address := by simpa using hx
        rcases List.mem_cons.mp h with rfl | he
        · exact .inr ⟨x, List.mem_cons_self, hx, rfl⟩
        · refine .inl ⟨List.mem_cons_of_mem _ he, fun hea => hl.1 ?_⟩
          rw [hx, ← hea]
          exact List.mem_map_of_mem he
      · rename_i hx
        rcases List.mem_cons.mp h with rfl | he
        · exact .inl ⟨List.mem_cons_self, by simpa using hx⟩
        · rcases ih hl.2 he with ⟨he, hne⟩ | ⟨e₀, he₀, h₁, h₂⟩
          · exact .inl ⟨List.mem_cons_of_mem _ he, hne⟩
          · exact .inr ⟨e₀, List.mem_cons_of_mem _ he₀, h₁, h₂⟩

theorem updateUnsafePage_replaced {v : List Nat} {b : Bool} (hl : (l.map (·.address)).Nodup)
    (h : updateUnsafePage l address currentPerm desiredPerm trustedPage (some v) = some (b, l')) :
    Replaced l l' address
        { address, trustedPage, currentPerm, desiredPerm, unsafeInstructions := some v
          unsafeInstructionsSize := v.length } := by
  unfold updateUnsafePage at h
  split at h
  · cases h
    refine ⟨fun e he => ?_, ?_⟩
    · rcases mem_modifyFirst hl he with he | ⟨_, _, _, rfl⟩
      · exact .inl he
      · exact .inr rfl
    · rw [map_modifyFirst fun e he => ?_]
      · exact hl
      · exact (beq_iff_eq.mp he).symm
  · rename_i hany
    cases h
    refine ⟨fun e he => .inl ⟨he, fun hea => hany ?_⟩, hl⟩
    exact List.any_eq_true.mpr ⟨e, he, beq_iff_eq.mpr hea⟩

theorem addUnsafePage_replaced (hl : (l.map (·.address)).Nodup)
    (h : addUnsafePage l address currentPerm desiredPerm trustedPage vector = some l') :
    Replaced l l' address
        { address, trustedPage, currentPerm, desiredPerm, unsafeInstructions := vector
          unsafeInstructionsSize := (vector.getD []).length } := by
  unfold addUnsafePage at h
  split at h
  · cases h
  · rename_i l₁ hu
    cases h
    cases vector with
    | none =>
        unfold updateUnsafePage at hu
        split at hu <;> cases hu
    | some v => exact updateUnsafePage_replaced hl hu
  · rename_i l₁ hu
    cases h
    unfold updateUnsafePage at hu
    split at hu
    · split at hu <;> cases hu
    · rename_i hany
      have hne : ∀ e ∈ l, e.address ≠ address := fun e he hea =>
        hany (List.any_eq_true.mpr ⟨e, he, beq_iff_eq.mpr hea⟩)
      refine ⟨fun e he => ?_, ?_⟩
      · rcases List.mem_append.mp he with he | he
        · exact .inl ⟨he, hne e he⟩
        · exact .inr (List.mem_singleton.mp he)
      · rw [List.map_append, List.map_singleton, List.nodup_append]
        refine ⟨hl, List.nodup_singleton _, ?_⟩
        intro a ha b hb
        obtain ⟨e, he, rfl⟩ := List.mem_map.mp ha
        rw [List.mem_singleton] at hb
        rw [hb]
        exact hne e he

/-- One more instruction in the vector of an entry, or none. -/
structure Listed (l l' : List UnsafePage) : Prop where
  mem : ∀ e' ∈ l', ∃ e ∈ l, e'.address = e.address ∧ e'.currentPerm = e.currentPerm ∧
    e'.desiredPerm = e.desiredPerm ∧ (e'.unsafeInstructions = none ↔ e.unsafeInstructions = none)
  addresses : l'.map (·.address) = l.map (·.address)

theorem Listed.refl : Listed l l := ⟨fun e he => ⟨e, he, rfl, rfl, rfl, Iff.rfl⟩, rfl⟩

/-- An instruction for a page with an entry is added to its vector unless it is
listed there; for a page without an entry it makes one. -/
theorem updateUnsafeInstruction_cases {instruction : Nat} (ha : address % 4096 = 0)
    (hl : (l.map (·.address)).Nodup)
    (h : updateUnsafeInstruction l address instruction currentPerm desiredPerm trustedPage =
      some l') :
    (∃ e ∈ l, e.address = address ∧ Listed l l' ∧ (instruction ∈ e.instructions → l' = l)) ∨
      addUnsafePage l address currentPerm desiredPerm trustedPage (some [instruction]) =
        some l' := by
  have hpage : address / 4096 * 4096 = address := by omega
  unfold updateUnsafeInstruction at h
  dsimp only at h
  rw [hpage] at h
  split at h
  · exact .inr h
  · rename_i e he
    have hea := beq_iff_eq.mp (List.find?_some (p := fun e : UnsafePage => e.address == address) he)
    have hel := List.mem_reverse.mp (List.mem_of_find?_eq_some he)
    refine .inl ⟨e, hel, hea, ?_⟩
    unfold UnsafePage.instructions
    split at h
    · cases h
    rename_i v hv
    rw [hv, Option.getD_some]
    split at h
    · cases h
      exact ⟨.refl, fun _ => rfl⟩
    · rename_i hnew
      cases h
      refine ⟨⟨fun e' he' => ?_, ?_⟩, fun hin => absurd (List.contains_iff_mem.mpr hin) hnew⟩
      · have hnodup : (l.reverse.map (·.address)).Nodup := by
          rw [List.map_reverse]
          exact List.nodup_reverse.mpr hl
        rcases mem_modifyFirst hnodup (List.mem_reverse.mp he') with ⟨he', _⟩ | ⟨e₀, he₀, hea₀, rfl⟩
        · exact ⟨e', List.mem_reverse.mp he', rfl, rfl, rfl, Iff.rfl⟩
        · have hsame : e₀ = e := List.inj_on_of_nodup_map hl (List.mem_reverse.mp he₀) hel
            (hea₀.trans hea.symm)
          refine ⟨e₀, List.mem_reverse.mp he₀, rfl, rfl, rfl, ?_⟩
          rw [hsame, hv]
          exact ⟨nofun, nofun⟩
      · rw [List.map_reverse, map_modifyFirst, List.map_reverse, List.reverse_reverse]
        exact fun _ _ => rfl

theorem findUnsafePage_some (h : findUnsafePage l address = some e) :
    e ∈ l ∧ e.address = address / 4096 * 4096 := by
  have hea := List.find?_some h
  exact ⟨List.mem_of_find?_eq_some h, beq_iff_eq.mp hea⟩

theorem mem_setCurrentPerm {perm : Prot} (hl : (l.map (·.address)).Nodup)
    (h : e ∈ setCurrentPerm l address perm) :
    (e ∈ l ∧ e.address ≠ address) ∨
      ∃ e₀ ∈ l, e₀.address = address ∧ e = { e₀ with currentPerm := perm } :=
  mem_modifyFirst hl h

theorem map_setCurrentPerm {perm : Prot} :
    (setCurrentPerm l address perm).map (·.address) = l.map (·.address) :=
  map_modifyFirst fun _ _ => rfl

theorem SoundList.setCurrentPerm {perm : Prot} (hl : SoundList l) :
    SoundList (setCurrentPerm l address perm) := by
  refine ⟨fun e he => ?_, ?_⟩
  · rcases mem_setCurrentPerm hl.nodup he with ⟨he, _⟩ | ⟨e₀, he₀, _, rfl⟩
    · exact hl.entries e he
    · have h₀ := hl.entries e₀ he₀
      exact ⟨h₀.aligned, h₀.counted, h₀.inPage⟩
  · rw [map_setCurrentPerm]
    exact hl.nodup

/-! ## Controllers -/

namespace HbController

variable {c c' : HbController} {page : UnsafePage} {isStatic : Bool} {evicted : List Nat}

theorem removeLastPages_cases {n used used' : Int} {pages left : List (List Nat)}
    (h : removeLastPages n pages used = some (left, used', evicted)) :
    ∃ dropped, pages = dropped ++ left ∧ ∀ r ∈ dropped, ∃ a ∈ evicted, a ∈ r := by
  induction pages generalizing used left used' evicted with
  | nil =>
      rw [removeLastPages] at h
      split at h <;> cases h
      exact ⟨[], rfl, nofun⟩
  | cons oldest rest ih =>
      unfold removeLastPages at h
      split at h
      · split at h
        · cases h
        · rename_i first others
          obtain ⟨⟨left₁, used₁, evicted₁⟩, h₁, he⟩ := Option.map_eq_some_iff.mp h
          cases he
          obtain ⟨dropped, hd, hev⟩ := ih h₁
          refine ⟨(first :: others) :: dropped, by rw [hd, List.cons_append], fun r hr => ?_⟩
          rcases List.mem_cons.mp hr with rfl | hr
          · exact ⟨first, List.mem_cons_self, List.mem_cons_self⟩
          · obtain ⟨a, ha, har⟩ := hev r hr
            exact ⟨a, List.mem_cons_of_mem _ ha, har⟩
      · cases h
        exact ⟨[], rfl, nofun⟩

/-- What a controller stops watching when it evicts pages. -/
structure Evicts (c c' : HbController) (evicted : List Nat) : Prop where
  watched : ∀ a ∈ c.watched, a ∈ c'.watched ∨
    ∃ r ∈ c.dynamicHbreakpoints, a ∈ r ∧ ∃ b ∈ evicted, b ∈ r
  records : ∀ r ∈ c'.dynamicHbreakpoints, r ∈ c.dynamicHbreakpoints

theorem removeDynamicHbreakpoints_evicts {n : Int}
    (h : c.removeDynamicHbreakpoints n = some (c', evicted)) : c.Evicts c' evicted := by
  unfold removeDynamicHbreakpoints at h
  split at h
  · obtain ⟨⟨left, used, evicted₁⟩, hr, he⟩ := Option.map_eq_some_iff.mp h
    cases he
    obtain ⟨dropped, hd, hev⟩ := removeLastPages_cases hr
    refine ⟨fun a ha => ?_, fun r hr => ?_⟩
    · simp only [HbController.watched, List.mem_append, List.mem_flatten] at ha ⊢
      rcases ha with ha | ⟨r, hr, har⟩
      · exact .inl (.inl ha)
      · by_cases hleft : r ∈ left
        · exact .inl (.inr ⟨r, hleft, har⟩)
        · refine .inr ⟨r, hr, har, hev r ?_⟩
          rw [hd] at hr
          exact (List.mem_append.mp hr).resolve_right hleft
    · rw [hd]
      exact List.mem_append_right _ hr
  · cases h

/-- What a controller watches after `add_watched_page`. -/
theorem addWatchedPage_cases (h : c.addWatchedPage page isStatic = some c') :
    (∀ a ∈ c.watched, a ∈ c'.watched) ∧
      (∀ a ∈ page.instructions.take page.unsafeInstructionsSize, a ∈ c'.watched) ∧
      ∀ r ∈ c'.dynamicHbreakpoints, r ∈ c.dynamicHbreakpoints ∨
        r = page.instructions.take page.unsafeInstructionsSize := by
  unfold addWatchedPage at h
  dsimp only at h
  split at h
  · split at h
    · split at h
      · cases h
        simp only [HbController.watched, List.mem_append, List.flatten_append,
          List.flatten_singleton]
        refine ⟨fun a ha => ?_, fun a ha => .inl (.inr ha), fun r hr => .inl hr⟩
        rcases ha with ha | ha
        · exact .inl (.inl ha)
        · exact .inr ha
      · cases h
    · split at h
      · cases h
        simp only [HbController.watched, List.mem_append, List.flatten_append,
          List.flatten_singleton, List.mem_singleton]
        refine ⟨fun a ha => ?_, fun a ha => .inr (.inr ha), fun r hr => hr⟩
        rcases ha with ha | ha
        · exact .inl ha
        · exact .inr (.inl ha)
      · cases h
  · cases h

theorem addBreakpoints_cases (h : c.addBreakpoints page isStatic = some (c', evicted)) :
    (∀ a ∈ c.watched, a ∈ c'.watched ∨
      ∃ r ∈ c.dynamicHbreakpoints, a ∈ r ∧ ∃ b ∈ evicted, b ∈ r) ∧
      (∀ a ∈ page.instructions.take page.unsafeInstructionsSize, a ∈ c'.watched) ∧
      ∀ r ∈ c'.dynamicHbreakpoints, r ∈ c.dynamicHbreakpoints ∨
        r = page.instructions.take page.unsafeInstructionsSize := by
  unfold addBreakpoints at h
  dsimp only at h
  split at h
  · cases h
  split at h
  · cases h
  split at h
  · obtain ⟨c₁, h₁, he⟩ := Option.map_eq_some_iff.mp h
    cases he
    obtain ⟨hold, hnew, hrecords⟩ := addWatchedPage_cases h₁
    exact ⟨fun a ha => .inl (hold a ha), hnew, hrecords⟩
  · split at h
    · cases h
    · rename_i c₁ evicted₁ hr
      obtain ⟨c₂, h₂, he⟩ := Option.map_eq_some_iff.mp h
      cases he
      have hev := removeDynamicHbreakpoints_evicts hr
      obtain ⟨hold, hnew, hrecords⟩ := addWatchedPage_cases h₂
      refine ⟨fun a ha => ?_, hnew, fun r hr => ?_⟩
      · exact (hev.watched a ha).imp (hold a) id
      · exact (hrecords r hr).imp (hev.records r) id

end HbController

end Secpoline
