import Secpoline.Proofs.Rendezvous

/-!
# Who waits for whom at the rendezvous

A leader waits with `segfault_handler_mutex` and `hbreakpoint_sync_mutex` in its
hands. Everyone it waits for has to reach the follower's code, so none of them may
be waiting for one of the two.

All ways into the SIGSEGV handler look for a leader before they wait, except one:
a thread that followed a round because of a fault on another page waits for
`segfault_handler_mutex` with a plain `lock`. It has left its round by then, and as
long as no new one begins before it gets the mutex, nobody counts it.
-/

namespace Secpoline

/-- Thread `u` waits for a mutex that thread `c` holds and looks at nothing else. -/
def Crowd.Blocked (s : Crowd) (c u : Tid) : Prop :=
  ((s.thr u).hand = some .lockSegv ∧ s.sh.segfaultHandlerMutex = some c) ∨
  (∃ l, (s.thr u).hand = some (.lead l) ∧ l.pc = .lockSync ∧ s.sh.hbreakpointSyncMutex = some c) ∨
  ((s.thr u).hand = none ∧ (s.thr u).main = .enterTry ∧ s.sh.hbreakpointSyncMutex = some c)

/-- A leader waits for the counter while a thread that it counts is blocked by it. -/
structure Crowd.Stuck (s : Crowd) (c u : Tid) (l : Lead) : Prop where
  leading : (s.thr c).hand = some (.lead l)
  pc : l.pc = .awaitFirst ∨ l.pc = .awaitSecond
  waits : s.sh.waitingThreadCount ≠ 0
  active : u ∈ s.sh.activeThreadList
  other : u ≠ c
  counted : l.pc.awaits (s.thr u).following = true
  blocked : s.Blocked c u

/-- No thread on the active list other than `t` waits in `segfault_handler_mutex.lock()`. -/
def Crowd.NobodyLocks (s : Crowd) (t : Tid) : Prop :=
  ∀ u ∈ s.sh.activeThreadList, u ≠ t → (s.thr u).hand ≠ some .lockSegv

instance (s : Crowd) (t : Tid) : Decidable (s.NobodyLocks t) := by
  unfold Crowd.NobodyLocks
  infer_instance

/-- A round begins only while nobody waits in `segfault_handler_mutex.lock()`. -/
def CrowdAct.Unlocked (s : Crowd) : CrowdAct → Prop
  | .step t _ => (s.thr t).leading.map Lead.pc = some .storeController → s.NobodyLocks t
  | _ => True

instance (s : Crowd) : (a : CrowdAct) → Decidable (a.Unlocked s)
  | .step t _ =>
      inferInstanceAs (Decidable
        ((s.thr t).leading.map Lead.pc = some .storeController → s.NobodyLocks t))
  | .deliver .. | .fault .. | .kill .. | .leave .. | .enter .. => .isTrue trivial

/-! ## Steps -/

/-- From the announcement of the leader to the end of its first wait. -/
def LeadPc.collects (pc : LeadPc) : Bool := pc.stage == .gather || pc.stage == .first

section
variable {t c : Tid} {sh sh' : Shared} {hb hb' : HbController} {call : Option (UnsafePage × Bool)}

theorem leadStep_collects {l l' : Lead} (h : leadStep t sh hb l = .ok (sh', hb', some l'))
    (hc : l'.pc.collects = true) : l.pc.collects = true ∨ l.pc = .storeController := by
  obtain ⟨page, isStatic, pc⟩ := l
  cases pc with
  | storeController => exact .inr rfl
  | storePage | kill _ | addOwn | copyGlobal | raiseFirst | awaitFirst => exact .inl rfl
  | lockSync | awaitSecond =>
      simp only [leadStep] at h
      split at h <;> cases h <;> cases hc
  | checkExec =>
      simp only [leadStep] at h
      split at h <;> cases h
      cases hc
  | assertIdle =>
      simp only [leadStep] at h
      split at h
      · cases h
      split at h
      · cases h
      split at h <;> cases h
      cases hc
  | clearPage | raiseSecond | clearController =>
      cases h
      cases hc
  | unlockSync => cases h

theorem handStep_lead {h : HandPc} {l' : Lead}
    (hs : handStep t sh hb call h = .ok (sh', hb', some (.lead l'))) (hc : l'.pc.collects = true) :
    ∃ l, h = .lead l ∧ leadStep t sh hb l = .ok (sh', hb', some l') := by
  cases h with
  | lead l =>
      rw [handStep] at hs
      obtain ⟨⟨sh₁, hb₁, l₁⟩, hl, he⟩ := except_map_ok hs
      cases l₁ with
      | none => cases he
      | some l₁ =>
          cases he
          exact ⟨l, rfl, hl⟩
  | handling =>
      cases call with
      | none => cases hs
      | some p =>
          cases hs
          cases hc
  | follow f next =>
      rw [handStep] at hs
      obtain ⟨⟨sh₁, hb₁, f₁⟩, hl, he⟩ := except_map_ok hs
      cases f₁ with
      | some f₁ => cases he
      | none => cases next <;> cases he
  | entry cause => cases cause <;> rw [handStep] at hs <;> split at hs <;> cases hs
  | compare address =>
      rw [handStep] at hs
      split at hs
      · cases hs
      · split at hs <;> cases hs
  | tryLock | checkController | lockSegv =>
      rw [handStep] at hs
      split at hs <;> cases hs
  | unlockSegv => cases hs

/-- The plain `lock` is reached only from the end of a round. -/
theorem handStep_lockSegv {h : HandPc}
    (hs : handStep t sh hb call h = .ok (sh', hb', some .lockSegv)) :
    h = .lockSegv ∨ h = .follow .leaveSecond .lock := by
  cases h with
  | lockSegv => exact .inl rfl
  | follow f next =>
      rw [handStep] at hs
      obtain ⟨⟨sh₁, hb₁, f₁⟩, hl, he⟩ := except_map_ok hs
      cases f₁ with
      | some f₁ => cases he
      | none =>
          cases next with
          | done => cases he
          | retry => cases he
          | lock =>
              cases f with
              | leaveSecond => exact .inr rfl
              | awaitCount | checkPage | leaveFirst | awaitRelease =>
                  rw [followStep] at hl
                  split at hl <;> cases hl
              | add =>
                  rw [followStep] at hl
                  split at hl
                  · cases hl
                  · split at hl <;> cases hl
  | entry cause => cases cause <;> rw [handStep] at hs <;> split at hs <;> cases hs
  | compare address =>
      rw [handStep] at hs
      split at hs
      · cases hs
      · split at hs <;> cases hs
  | tryLock | checkController =>
      rw [handStep] at hs
      split at hs <;> cases hs
  | handling => cases call <;> cases hs
  | lead l =>
      rw [handStep] at hs
      obtain ⟨⟨sh₁, hb₁, l₁⟩, hl, he⟩ := except_map_ok hs
      cases l₁ <;> cases he
  | unlockSegv => cases hs

end

/-! ## Runs -/

section
variable {s s' : Crowd} {t c : Tid}

/-- While a leader collects its followers, none of them waits in the plain `lock`. -/
def Crowd.Collecting (s : Crowd) : Prop :=
  ∀ c l, (s.thr c).hand = some (.lead l) → l.pc.collects = true → s.NobodyLocks c

/-- A thread that is leaving a round proves that no leader is collecting. -/
theorem CrowdInv.not_collects (hi : CrowdInv s) {l : Lead}
    (hl : (s.thr c).hand = some (.lead l)) (hf : (s.thr t).following = some .leaveSecond) :
    l.pc.collects = false := by
  have hlead : (s.thr c).leading = some l := by
    rw [Thread.leading, hl]
    rfl
  rcases hi.round with hq | ⟨c', l', old, new, hb⟩
  · cases (hq.followers t).symm.trans hf
  · obtain rfl := hi.leader_unique hb hlead
    obtain rfl : l = l' := Option.some.inj (hlead.symm.trans hb.leading)
    have hst : l.pc.stage = .drain := hb.stage_of_follow hf
    rw [LeadPc.collects, hst]
    rfl

/-- A step of a thread is one of its handler, or leaves it without one. -/
theorem Thread.step_hand {sh sh' : Shared} {th th' : Thread} {call : Option (UnsafePage × Bool)}
    (h : th.step t sh call = .ok (sh', th')) :
    th'.hand = none ∧ th.hand = none ∨
      ∃ x, th.hand = some x ∧ handStep t sh th.hb call x = .ok (sh', th'.hb, th'.hand) ∧
        th'.main = th.main := by
  unfold Thread.step at h
  split at h
  · rename_i x hand
    obtain ⟨⟨sh₁, hb₁, h'⟩, hstep, heq⟩ := except_map_ok h
    cases heq
    exact .inr ⟨x, hand, hstep, rfl⟩
  · rename_i hand
    obtain ⟨⟨sh₁, hb₁, m'⟩, hstep, heq⟩ := except_map_ok h
    cases heq
    exact .inl ⟨hand, hand⟩

theorem Crowd.Collecting.thread_step (hi : CrowdInv s) (hj : s.Collecting)
    {call : Option (UnsafePage × Bool)} (hu : (CrowdAct.step t call).Unlocked s) {sh : Shared}
    {th : Thread} (hth : (s.thr t).step t s.sh call = .ok (sh, th)) :
    (s.set t sh th).Collecting := by
  obtain ⟨hloc, hk⟩ := Thread.step_local hi.nodup (hi.locals t) hth
  have hhand := Thread.step_hand hth
  intro c l hl hc u hmem huc hlock
  by_cases hct : c = t
  · -- The thread that moves is the leader: it was collecting before, or begins now.
    subst hct
    rw [Crowd.set_thr_same] at hl
    rw [Crowd.set_thr_ne huc] at hlock
    rcases hhand with ⟨hnone, -⟩ | ⟨x, hx, hstep, -⟩
    · cases hnone.symm.trans hl
    rw [hl] at hstep
    obtain ⟨l₀, rfl, hlead⟩ := handStep_lead hstep hc
    have hnobody : s.NobodyLocks c := by
      rcases leadStep_collects hlead hc with hc₀ | hpc
      · exact hj c l₀ hx hc₀
      · refine hu ?_
        rw [Thread.leading, hx, ← hpc]
        rfl
    exact hnobody u ((hk.listed u huc).mp hmem) huc hlock
  · rw [Crowd.set_thr_ne hct] at hl
    have hnobody := hj c l hl hc
    by_cases hut : u = t
    · -- The thread that moves arrives at the plain `lock`, so a round is ending.
      subst hut
      rw [Crowd.set_thr_same] at hlock
      rcases hhand with ⟨hnone, -⟩ | ⟨x, hx, hstep, hmain⟩
      · cases hnone.symm.trans hlock
      rw [hlock] at hstep
      rcases handStep_lockSegv hstep with rfl | rfl
      · refine hnobody u ?_ huc hx
        rw [(hi.locals u).listed, ← hmain, ← hloc.listed]
        exact hmem
      · have hfol : (s.thr u).following = some .leaveSecond := by
          rw [Thread.following, hx]
          rfl
        cases (hi.not_collects hl hfol).symm.trans hc
    · rw [Crowd.set_thr_ne hut] at hlock
      exact hnobody u ((hk.listed u hut).mp hmem) huc hlock

/-- A thread whose handler starts, or whose main code moves, changes nothing about it. -/
theorem Crowd.Collecting.set (hj : s.Collecting) {sh : Shared} {th : Thread}
    (hactive : sh.activeThreadList = s.sh.activeThreadList)
    (hlead : ∀ l, th.hand = some (.lead l) → (s.thr t).hand = some (.lead l))
    (hlock : th.hand = some .lockSegv → (s.thr t).hand = some .lockSegv) :
    (s.set t sh th).Collecting := by
  intro c l hl hc u hmem huc hu
  rw [Crowd.set_sh, hactive] at hmem
  have hl' : (s.thr c).hand = some (.lead l) := by
    by_cases hct : c = t
    · subst hct
      rw [Crowd.set_thr_same] at hl
      exact hlead l hl
    · rwa [Crowd.set_thr_ne hct] at hl
  refine hj c l hl' hc u hmem huc ?_
  by_cases hut : u = t
  · subst hut
    rw [Crowd.set_thr_same] at hu
    exact hlock hu
  · rwa [Crowd.set_thr_ne hut] at hu

theorem Crowd.Collecting.step (hi : CrowdInv s) (hj : s.Collecting) {a : CrowdAct}
    (hu : a.Unlocked s) (hstep : s.step a = .ok s') : s'.Collecting := by
  cases a with
  | step t call =>
      obtain ⟨⟨sh, th⟩, hth, rfl⟩ := except_map_ok hstep
      exact hj.thread_step hi hu hth
  | deliver t | fault t address =>
      cases hstep
      exact hj.set rfl nofun nofun
  | kill t =>
      cases hstep
      exact hj
  | leave t | enter t =>
      cases hstep
      exact hj.set rfl (fun _ h => h) (fun h => h)

/-- A stuck leader is still collecting, and the thread it waits for is in the plain `lock`. -/
theorem CrowdInv.not_stuck (hi : CrowdInv s) (hj : s.Collecting) {u : Tid} {l : Lead} :
    ¬ s.Stuck c u l := by
  intro hs
  rcases hs.blocked with ⟨hlock, -⟩ | ⟨l', hl', -, -⟩ | ⟨-, hmain, -⟩
  · have hnone : (s.thr u).following = none := by
      have hrun := (hi.locals u).ownFault _ hlock rfl
      rw [Thread.following, hlock, hrun]
      rfl
    have hcounted := hs.counted
    rw [hnone] at hcounted
    rcases hs.pc with hpc | hpc
    · exact hj c l hs.leading (by rw [hpc]; rfl) u hs.active hs.other hlock
    · rw [hpc] at hcounted
      cases hcounted
  · have hc := (hi.locals c).segv _ hs.leading rfl
    have hu := (hi.locals u).segv _ hl' rfl
    exact hs.other (Option.some.inj (hu.symm.trans hc))
  · have hlisted := (hi.locals u).listed.mp hs.active
    rw [hmain] at hlisted
    cases hlisted

/-- In every run in which no SIGSEGV arrives at the two places of `MainPc.exposed`, and no
round begins while a thread waits in `segfault_handler_mutex.lock()`, no leader ever waits
for a thread that waits for it. -/
theorem crowdRun_not_stuck {active : List Tid} {hb : HbController} (hn : active.Nodup)
    (hrun : CrowdRun (fun s a => a.Tame s ∧ a.Unlocked s) (.start active hb) s) :
    ∀ c u l, ¬ s.Stuck c u l := by
  have hinv : CrowdInv s ∧ s.Collecting := by
    induction hrun with
    | start => exact ⟨.start hn hb, nofun⟩
    | step _ allowed ok eq ih => exact ⟨ih.1.step allowed ok.1 eq, ih.2.step ih.1 ok.2 eq⟩
  exact fun c u l => hinv.1.not_stuck hinv.2

end

/-- Thread 2 faults on another page while thread 1 leads, and checks in. -/
def faultElsewhere : List CrowdAct :=
  .fault 2 0x9000 :: List.replicate 6 (.step 2 none)

theorem crowdRun_not_stuck_elsewhere :
    ∃ s, CrowdRun (fun s a => a.Tame s ∧ a.Unlocked s) (.start [1, 2] .init) s ∧
      (s.thr 1).hand = some (.lead ⟨oneInstructionPage, false, .awaitFirst⟩) ∧
      (s.thr 2).hand = some (.follow .awaitRelease .lock) ∧ ∀ c u l, ¬ s.Stuck c u l := by
  have h : ((Crowd.start [1, 2] .init).runActs (fun s a => a.Tame s ∧ a.Unlocked s)
      (leadToFirstWait ++ faultElsewhere)).map (fun s => ((s.thr 1).hand, (s.thr 2).hand)) =
      some (some (.lead ⟨oneInstructionPage, false, .awaitFirst⟩),
        some (.follow .awaitRelease .lock)) := by
    decide +kernel
  obtain ⟨s, hs, hhand⟩ := Option.map_eq_some_iff.mp h
  have hrun := Crowd.runActs_run .start hs
  exact ⟨s, hrun, congrArg Prod.fst hhand, congrArg Prod.snd hhand,
    crowdRun_not_stuck (by decide) hrun⟩

/-- Another page with an unsafe instruction. -/
def anotherPage : UnsafePage :=
  { oneInstructionPage with address := 0x8000, unsafeInstructions := some [0x8010] }

/-- Thread 1 ends its round and faults on another page before thread 2, which has just left
the round, gets the mutex: thread 1 leads again and waits for thread 2. -/
theorem crowdRun_stuck :
    ∃ s, CrowdRun (fun s a => a.Tame s) (.start [1, 2] .init) s ∧
      s.Stuck 1 2 ⟨anotherPage, false, .awaitFirst⟩ := by
  have h : ((Crowd.start [1, 2] .init).runActs (fun s a => a.Tame s)
      (leadToFirstWait ++ faultElsewhere ++ List.replicate 4 (.step 1 none) ++
        List.replicate 2 (.step 2 none) ++ List.replicate 3 (.step 1 none) ++
        .fault 1 0x8010 :: List.replicate 2 (.step 1 none) ++
        .step 1 (some (anotherPage, false)) :: List.replicate 11 (.step 1 none))).map
      (fun s => ((s.thr 1).hand, (s.thr 2), s.sh.segfaultHandlerMutex, s.sh.waitingThreadCount,
        s.sh.activeThreadList)) =
      some (some (.lead ⟨anotherPage, false, .awaitFirst⟩),
        { main := .run, hand := some .lockSegv
          hb := ⟨4, 1, [], [[0x7010]]⟩ }, some 1, 1, [1, 2]) := by
    decide +kernel
  obtain ⟨s, hs, heq⟩ := Option.map_eq_some_iff.mp h
  rw [Prod.mk.injEq, Prod.mk.injEq, Prod.mk.injEq, Prod.mk.injEq] at heq
  obtain ⟨hlead, hthr, hmutex, hcount, hactive⟩ := heq
  have hhand : (s.thr 2).hand = some .lockSegv := by rw [hthr]
  refine ⟨s, Crowd.runActs_run .start hs, hlead, .inl rfl, ?_, ?_, by decide, ?_,
    .inl ⟨hhand, hmutex⟩⟩
  · rw [hcount]
    decide
  · rw [hactive]
    decide
  · rw [hthr]
    rfl

end Secpoline
