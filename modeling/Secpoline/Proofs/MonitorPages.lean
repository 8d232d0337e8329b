import Secpoline.Proofs.Ownership

/-!
# Pages of the monitor

Which addresses the page manager tracks for the monitor, and what each of its
operations does to that set. Operations for the application leave it as it is;
only `add_page` and `remove_page` for the monitor change it, by whole pages. So a
page is the monitor's as soon as its first byte is.

An operation for the application that succeeds has in turn found, or made, memory
of the application, and that is not the monitor's.
-/

namespace Secpoline

open Lib

/-- A byte of the page is tracked for the monitor. -/
def MonitorPage (pm : PageManager) (p : Nat) : Prop :=
  ∃ g ∈ pm.pages, g.cid = TS_MONITOR ∧ g.start < 4096 * (p + 1) ∧ 4096 * p < g.stop

instance (pm : PageManager) (p : Nat) : Decidable (MonitorPage pm p) :=
  inferInstanceAs (Decidable (∃ g ∈ pm.pages, _))

/-- The address is tracked for the monitor. -/
def MonitorAt (pm : PageManager) (x : Nat) : Prop := ∃ q, Tracked pm.pages x q ∧ q.cid = TS_MONITOR

/-- The list is in order, and the monitor owns whole pages. -/
structure Whole (pm : PageManager) : Prop where
  inv : Inv [] pm
  pages : ∀ x y, x / 4096 = y / 4096 → MonitorAt pm x → MonitorAt pm y

variable {pm pm' : PageManager} {mm start size x p : Nat} {prot : Prot} {flags cid : Int} {r : Int}
  {multithreaded mapFixed : Bool}

theorem Whole.monitorPage_iff (h : Whole pm) : MonitorPage pm p ↔ MonitorAt pm (4096 * p) := by
  constructor
  · intro hp
    obtain ⟨g, hg, hcid, hlo, hhi⟩ := hp
    have hlt := h.inv.wf.nonempty hg
    refine h.pages (max g.start (4096 * p)) (4096 * p) (by omega)
      ⟨g.attr, ⟨g, hg, ?_, ?_, rfl⟩, hcid⟩
    · omega
    · omega
  · intro hp
    obtain ⟨q, ⟨g, hg, hlo, hhi, rfl⟩, hcid⟩ := hp
    exact ⟨g, hg, hcid, by omega, hhi⟩

/-- What is tracked for somebody else is not the monitor's. -/
theorem Whole.not_monitorAt {q : Attr} (h : Whole pm) (hx : Tracked pm.pages x q)
    (hq : q.cid ≠ TS_MONITOR) : ¬ MonitorAt pm x := by
  intro hm
  obtain ⟨q', hq', hcid⟩ := hm
  rw [h.inv.wf.ordered.at_unique hx hq'] at hq
  exact hq hcid

theorem Whole.congr (h : Whole pm) (hi : Inv [] pm') (hm : ∀ x, MonitorAt pm' x ↔ MonitorAt pm x) :
    Whole pm' := by
  refine ⟨hi, fun x y hxy hx => ?_⟩
  rw [hm] at hx ⊢
  exact h.pages x y hxy hx

theorem not_poolAt_monitor {pools pools' : List Nat} {q : Attr} (h : PoolAt pools pools' x q) :
    q.cid ≠ TS_MONITOR := by
  obtain ⟨mm, _, _, _, rfl⟩ := h
  show (3 : Int) ≠ 0
  decide

/-! ## Operations -/

theorem addPage_monitorAt (h : Whole pm) (hmm : Fresh pm mm) (hpos : 0 < roundUp size)
    (hw : start + roundUp size < 2 ^ 64)
    (hadd : addPage multithreaded mm pm start size prot flags cid mapFixed = some (r, pm')) :
    Inv [] pm' ∧ ∀ x, MonitorAt pm' x ↔ MonitorAt pm x ∨
      (r = 0 ∧ cid = TS_MONITOR ∧ start ≤ x ∧ x < start + roundUp size) := by
  rcases addPage_cases h.inv hmm hpos hw hadd with ⟨rfl, hkept⟩ | ⟨rfl, hadded, hno⟩
  · refine ⟨hkept.inv, fun x => ⟨fun hx => ?_, fun hx => ?_⟩⟩
    · obtain ⟨q, hq, hcid⟩ := hx
      rcases (hkept.tracked x q).mp hq with hq | hpool
      · exact .inl ⟨q, hq, hcid⟩
      · exact absurd hcid (not_poolAt_monitor hpool)
    · obtain ⟨q, hq, hcid⟩ := hx.resolve_right fun hnew => nomatch hnew.1
      exact ⟨q, (hkept.tracked x q).mpr (.inl hq), hcid⟩
  · refine ⟨hadded.inv, fun x => ⟨fun hx => ?_, fun hx => ?_⟩⟩
    · obtain ⟨q, hq, hcid⟩ := hx
      rcases (hadded.tracked x q).mp hq with ⟨hq | hpool, _⟩ | ⟨hlo, hhi, rfl⟩
      · exact .inl ⟨q, hq, hcid⟩
      · exact absurd hcid (not_poolAt_monitor hpool)
      · exact .inr ⟨rfl, hcid, hlo, hhi⟩
    · by_cases hnew : start ≤ x ∧ x < start + roundUp size
      · have hcid : cid = TS_MONITOR := by
          rcases hx with ⟨q, hq, hcid⟩ | ⟨_, hcid, _⟩
          · cases mapFixed with
            | true => exact (hno rfl x q hq hnew.1 hnew.2).symm.trans hcid
            | false =>
                -- the old group and the new one both have the address
                have hold := (hadded.tracked x q).mpr (.inl ⟨.inl hq, nofun⟩)
                have hadd := (hadded.tracked x ⟨prot, flags, cid⟩).mpr (.inr ⟨hnew.1, hnew.2, rfl⟩)
                rw [hadded.inv.wf.ordered.at_unique hold hadd] at hcid
                exact hcid
          · exact hcid
        exact ⟨⟨prot, flags, cid⟩, (hadded.tracked x _).mpr (.inr ⟨hnew.1, hnew.2, rfl⟩), hcid⟩
      · obtain ⟨q, hq, hcid⟩ := hx.resolve_right fun hn => hnew ⟨hn.2.2.1, hn.2.2.2⟩
        exact ⟨q, (hadded.tracked x q).mpr (.inl ⟨.inl hq, fun _ => by omega⟩), hcid⟩

theorem removePage_monitorAt (h : Whole pm) (hmm : Fresh pm mm) (hw : start + roundUp size < 2 ^ 64)
    (hrem : removePage mm pm start size cid = some (r, pm')) :
    Inv [] pm' ∧ (∀ x, MonitorAt pm' x ↔ MonitorAt pm x ∧
        ¬ (r ≠ -1 ∧ cid = TS_MONITOR ∧ start ≤ x ∧ x < start + roundUp size)) ∧
      (r ≠ -1 → start % 4096 = 0 ∧ 0 < roundUp size ∧
        Owned pm.pages start (start + roundUp size) cid) := by
  rcases removePageLocked_cases h.inv (fun _ => hmm) hw hrem with
    ⟨rfl, rfl⟩ | ⟨rfl, halign, hpos, hcut, howned⟩
  · refine ⟨h.inv, fun x => ⟨fun hx => ⟨hx, fun hn => hn.1 rfl⟩, And.left⟩, fun hn => ?_⟩
    exact absurd rfl hn
  refine ⟨hcut.inv, fun x => ⟨fun hx => ?_, fun hx => ?_⟩, fun _ => ⟨halign, hpos, howned⟩⟩
  · obtain ⟨q, hq, hcid⟩ := hx
    rcases (hcut.tracked x q).mp hq with ⟨hq, hout⟩ | hpool
    · exact ⟨⟨q, hq, hcid⟩, fun hn => by omega⟩
    · exact absurd hcid (not_poolAt_monitor hpool)
  · obtain ⟨⟨q, hq, hcid⟩, hn⟩ := hx
    refine ⟨q, (hcut.tracked x q).mpr (.inl ⟨hq, ?_⟩), hcid⟩
    by_cases hin : start ≤ x ∧ x < start + roundUp size
    · obtain ⟨q', hq', hown⟩ := howned x hin.1 hin.2
      rw [h.inv.wf.ordered.at_unique hq hq', hown] at hcid
      exact absurd ⟨by decide, hcid, hin.1, hin.2⟩ hn
    · omega

theorem updateMprotect_monitorAt (h : Whole pm) (hmm : Fresh pm mm) (hstart : start < 2 ^ 64)
    (hsize : size < 2 ^ 64) (hw : start + roundUp size < 2 ^ 64)
    (hplace : MprotectPlace pm start size) (hcid : cid ≠ TS_MONITOR)
    (he : updateMprotect mm pm start size prot cid = some (r, pm')) :
    Inv [] pm' ∧ ∀ x, MonitorAt pm' x ↔ MonitorAt pm x := by
  rcases updateMprotect_cases h.inv hmm hstart hsize hw hplace he with ⟨_, rfl⟩ | ⟨_, hrep⟩
  · exact ⟨h.inv, fun _ => Iff.rfl⟩
  obtain ⟨stop, flags, _, _, hno, htracked⟩ := hrep.tracked
  refine ⟨hrep.inv, fun x => ⟨fun hx => ?_, fun hx => ?_⟩⟩
  · obtain ⟨q, hq, hm⟩ := hx
    rcases (htracked x q).mp hq with ⟨hq, _⟩ | ⟨_, _, rfl⟩ | hpool
    · exact ⟨q, hq, hm⟩
    · exact absurd hm hcid
    · exact absurd hm (not_poolAt_monitor hpool)
  · obtain ⟨q, hq, hm⟩ := hx
    refine ⟨q, (htracked x q).mpr (.inl ⟨hq, ?_⟩), hm⟩
    by_cases hin : start ≤ x ∧ x < stop
    · exact absurd ((hno x q hq hin.1 hin.2).symm.trans hm) hcid
    · omega

theorem updateSize_monitorAt {oldSize newSize : Nat} (h : Whole pm) (hmm : Fresh pm mm)
    (hnew : 0 < newSize) (hwo : start + oldSize < 2 ^ 64) (hwn : start + newSize < 2 ^ 64)
    (hcid : cid ≠ TS_MONITOR) (hne : cid ≠ -1)
    (he : updateSize mm pm start oldSize newSize cid = some (r, pm')) :
    Inv [] pm' ∧ ∀ x, MonitorAt pm' x ↔ MonitorAt pm x := by
  rcases updateSize_cases h.inv hmm hnew hwo hwn he with ⟨_, rfl⟩ | ⟨_, hres⟩
  · exact ⟨h.inv, fun _ => Iff.rfl⟩
  obtain ⟨g, hg, hlo, hhi, hend, hgcid, htracked⟩ := hres.tracked
  have hgcid : g.cid = cid := hgcid.resolve_left hne
  have htracked := htracked hgcid
  have hgm : g.attr.cid ≠ TS_MONITOR := fun hm => hcid (hgcid.symm.trans hm)
  refine ⟨hres.inv, fun x => ⟨fun hx => ?_, fun hx => ?_⟩⟩
  · obtain ⟨q, hq, hm⟩ := hx
    rcases (htracked x q).mp hq with ⟨hq, _⟩ | ⟨_, _, rfl⟩ | hpool
    · exact ⟨q, hq, hm⟩
    · exact absurd hm hgm
    · exact absurd hm (not_poolAt_monitor hpool)
  · obtain ⟨q, hq, hm⟩ := hx
    refine ⟨q, (htracked x q).mpr (.inl ⟨hq, ?_⟩), hm⟩
    -- what is cut off was part of the group
    by_cases hin : start + newSize ≤ x ∧ x < start + oldSize
    · have hgx : Tracked pm.pages x g.attr := ⟨g, hg, by omega, by omega, rfl⟩
      exact absurd ⟨q, hq, hm⟩ (h.not_monitorAt hgx hgm)
    · omega

/-- Addition and removal keep pages whole. -/
theorem Whole.paint (stop : Nat) (P : Prop) (h : Whole pm) (hi : Inv [] pm')
    (hstart : start % 4096 = 0) (hstop : stop % 4096 = 0)
    (hm : (∀ x, MonitorAt pm' x ↔ MonitorAt pm x ∨ (P ∧ start ≤ x ∧ x < stop)) ∨
      ∀ x, MonitorAt pm' x ↔ MonitorAt pm x ∧ ¬ (P ∧ start ≤ x ∧ x < stop)) : Whole pm' := by
  refine ⟨hi, fun x y hxy hx => ?_⟩
  have hin : start ≤ x ∧ x < stop ↔ start ≤ y ∧ y < stop := by omega
  rcases hm with hm | hm
  · rw [hm, hin] at hx
    rw [hm]
    exact hx.imp_left (h.pages x y hxy)
  · rw [hm, hin] at hx
    rw [hm]
    exact ⟨h.pages x y hxy hx.1, hx.2⟩

theorem roundUp_aligned : roundUp size % 4096 = 0 := by
  unfold roundUp
  omega

/-! ## Memory of the application -/

/-- A page whose first byte is recorded for the application is not the monitor's. -/
theorem Whole.not_monitorPage (h : Whole pm) (hrec : pm.Records start size TS_APPLICATION)
    (hlo : start ≤ 4096 * p) (hhi : 4096 * p < start + size) : ¬ MonitorPage pm p := by
  rw [h.monitorPage_iff]
  obtain ⟨g, hg, hcid, hgs, hge⟩ := hrec (4096 * p) hlo hhi
  rw [h.inv.wf.pageEnd hg] at hge
  refine h.not_monitorAt ⟨g, hg, hgs, hge, rfl⟩ ?_
  rw [show g.attr.cid = g.cid from rfl, hcid]
  decide

end Secpoline
