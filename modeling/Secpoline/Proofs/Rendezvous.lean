import Secpoline.Lib.Count
import Secpoline.Proofs.RendezvousSteps

/-!
# Agreement at the breakpoint rendezvous

A round goes through five stages. While it *gathers*, the leader has announced
itself but the counter is still zero, so a follower can only wait at the first
loop. In the *first* wait the counter is the number of followers that have not
checked in. Once it is zero every follower is *joined*: it stands before
`while(controller_thread != 0)` and has added the page once. In the *drain* the
counter is the number of followers that have not left, and when it is zero
again nobody is in the protocol and the state is *quiet*.

Nothing in the protocol itself stops a thread from following twice. The SIGSEGV
handler cannot do so, since it runs with its signal masked and the last loop of
the follower holds it until the round is over. A thread that follows from
`update_active_thread_list` has its signals open, and one that arrives there
makes the handler follow for a thread that already does.
-/

namespace Secpoline

open Lib

/-! ## The stages of a round -/

inductive Stage where
  | quiet
  | gather
  | first
  | joined
  | drain
deriving DecidableEq

def LeadPc.stage : LeadPc → Stage
  | .lockSync | .checkExec | .assertIdle | .storeController | .unlockSync => .quiet
  | .storePage | .kill _ | .addOwn | .copyGlobal | .raiseFirst => .gather
  | .awaitFirst => .first
  | .clearPage | .raiseSecond | .clearController => .joined
  | .awaitSecond => .drain

/-- Between the two stores to `segfault_page`. -/
def LeadPc.published : LeadPc → Bool
  | .kill _ | .addOwn | .copyGlobal | .raiseFirst | .awaitFirst | .clearPage => true
  | _ => false

/-- The leader has set its own breakpoints. -/
def LeadPc.added : LeadPc → Bool
  | .storePage | .kill _ | .addOwn => false
  | _ => true

/-- The leader has updated the global controller. -/
def LeadPc.copied : LeadPc → Bool
  | .copyGlobal => false
  | pc => pc.added

/-- The threads that may still lack their signal. -/
def LeadPc.unsignalled (active : List Tid) : LeadPc → List Tid
  | .storePage => active
  | .kill rest => rest
  | _ => []

/-- What `waiting_thread_count` counts: the followers in these positions. -/
def LeadPc.awaits : LeadPc → Option Follow → Bool
  | .awaitFirst, f => f != some .awaitRelease
  | .clearController, _ => true
  | .awaitSecond, f => f != none
  | _, _ => false

/-- Where a follower can be in each stage, which pages it has added since the
round began, and which controller it then has. -/
def Member (page : UnsafePage) (old new : HbController) (f : Option Follow)
    (joined : List UnsafePage) (hb : HbController) : Stage → Prop
  | .quiet => f = none ∧ hb = new
  | .gather => (f = none ∨ f = some .awaitCount) ∧ joined = [] ∧ hb = old
  | .first =>
      ((f = none ∨ f = some .awaitCount ∨ f = some .checkPage ∨ f = some .add) ∧
        joined = [] ∧ hb = old) ∨
      ((f = some .leaveFirst ∨ f = some .awaitRelease) ∧ joined = [page] ∧ hb = new)
  | .joined => f = some .awaitRelease ∧ joined = [page] ∧ hb = new
  | .drain => (f = none ∨ f = some .awaitRelease ∨ f = some .leaveSecond) ∧ hb = new

/-- No round is on. -/
structure Quiet (s : Crowd) : Prop where
  controller : s.sh.controllerThread = none
  count : s.sh.waitingThreadCount = 0
  page : s.sh.segfaultPage = none
  followers : ∀ t, (s.thr t).following = none
  agree : ∀ t ∈ s.sh.activeThreadList, (s.thr t).hb = s.sh.globalHbreakpointController
  entering : ∀ t, (s.thr t).main = .enterAppend →
    (s.thr t).hb = s.sh.globalHbreakpointController
  leads : ∀ t l, (s.thr t).leading = some l → l.pc.stage = .quiet

/-- Thread `c` leads a round. Its controller and the global one change from
`old` to `new` on the way, and so does every follower's. -/
structure Busy (s : Crowd) (c : Tid) (l : Lead) (old new : HbController) : Prop where
  leading : (s.thr c).leading = some l
  stage : l.pc.stage ≠ .quiet
  controller : s.sh.controllerThread = if l.pc = .awaitSecond then none else some c
  page : s.sh.segfaultPage = if l.pc.published then some l.page else none
  count : s.sh.waitingThreadCount =
    (s.sh.activeThreadList.countP
      fun t => decide (t ≠ c) && l.pc.awaits (s.thr t).following : Nat)
  followers : ∀ t, (s.thr t).following ≠ none → t ∈ s.sh.activeThreadList ∧ t ≠ c
  members : ∀ t ∈ s.sh.activeThreadList, t ≠ c →
    Member l.page old new (s.thr t).following (s.sh.joined t) (s.thr t).hb l.pc.stage
  own : (s.thr c).hb = if l.pc.added then new else old
  global : s.sh.globalHbreakpointController = if l.pc.copied then new else old
  signals : l.isStatic = true → ∀ t ∈ s.sh.activeThreadList, t ≠ c →
    t ∈ l.pc.unsignalled s.sh.activeThreadList
  adds : l.pc.added = true → (∃ t ∈ s.sh.activeThreadList, t ≠ c) →
    ∃ evicted, old.addBreakpoints l.page false = some (new, evicted)

structure CrowdInv (s : Crowd) : Prop where
  nodup : s.sh.activeThreadList.Nodup
  locals : ∀ t, Local s.sh t (s.thr t)
  round : Quiet s ∨ ∃ c l old new, Busy s c l old new

/-! ## Replacing one thread -/

section
variable {s : Crowd} {t c u : Tid} {sh' : Shared} {th' : Thread} {l : Lead}
  {old new : HbController}

@[simp] theorem setAt_same {α : Type} (f : Tid → α) (a : α) : setAt f t a t = a := by
  simp [setAt]

theorem setAt_ne {α : Type} (f : Tid → α) (a : α) (h : u ≠ t) : setAt f t a u = f u := by
  simp [setAt, h]

@[simp] theorem Crowd.set_sh : (s.set t sh' th').sh = sh' := rfl

@[simp] theorem Crowd.set_thr_same : (s.set t sh' th').thr t = th' := setAt_same _ _

theorem Crowd.set_thr_ne (h : u ≠ t) : (s.set t sh' th').thr u = s.thr u := setAt_ne _ _ h

theorem Local.kept {th : Thread} {sh : Shared} (hl : Local sh u th) (hu : u ≠ t)
    (hk : Kept t sh sh') : Local sh' u th :=
  ⟨fun h hh hs => hk.segv u hu (hl.segv h hh hs), fun hs => hk.sync u hu (hl.sync hs),
    fun l hl' hp => hk.sync u hu (hl.leads l hl' hp), (hk.listed u hu).trans hl.listed,
    hl.ownFault, hl.uninterrupted, hl.copy⟩

theorem locals_set (hl : ∀ u, Local s.sh u (s.thr u)) (ht : Local sh' t th')
    (hk : Kept t s.sh sh') : ∀ u, Local (s.set t sh' th').sh u ((s.set t sh' th').thr u) := by
  intro u
  by_cases hu : u = t
  · subst hu
    rw [Crowd.set_thr_same]
    exact ht
  · rw [Crowd.set_thr_ne hu]
    exact (hl u).kept hu hk

/-! ## The mutexes -/

theorem CrowdInv.leader_unique (hi : CrowdInv s) (hb : Busy s c l old new) {l' : Lead}
    (hl : (s.thr t).leading = some l') : t = c := by
  obtain ⟨h, hh, hlead⟩ := Option.bind_eq_some_iff.mp hl
  obtain ⟨h', hh', hlead'⟩ := Option.bind_eq_some_iff.mp hb.leading
  have ht := (hi.locals t).segv h hh (by cases h <;> cases hlead; rfl)
  have hc := (hi.locals c).segv h' hh' (by cases h' <;> cases hlead'; rfl)
  exact Option.some.inj (ht.symm.trans hc)

theorem Local.run_of_leading {sh : Shared} {th : Thread} (hl : Local sh t th)
    (hlead : th.leading = some l) : th.main = .run := by
  obtain ⟨h, hh, hl'⟩ := Option.bind_eq_some_iff.mp hlead
  exact hl.ownFault h hh (by cases h <;> cases hl'; rfl)

/-- While a round is on, no thread edits the active list. -/
theorem CrowdInv.no_edit (hi : CrowdInv s) (hb : Busy s c l old new) :
    (s.thr t).main.holdsSync = false := by
  cases hs : (s.thr t).main.holdsSync with
  | false => rfl
  | true =>
      have ht := (hi.locals t).sync hs
      have hc := (hi.locals c).leads l hb.leading (fun hp => hb.stage (by rw [hp]; rfl))
      obtain rfl : t = c := Option.some.inj (ht.symm.trans hc)
      rw [(hi.locals t).run_of_leading hb.leading] at hs
      cases hs

/-! ## A round seen from a follower -/

/-- A thread other than the leader moves within what its stage allows, and the
counter follows it. -/
theorem Busy.other (hb : Busy s c l old new) (hn : s.sh.activeThreadList.Nodup) (htc : t ≠ c)
    (hcontroller : sh'.controllerThread = s.sh.controllerThread)
    (hpage : sh'.segfaultPage = s.sh.segfaultPage)
    (hactive : sh'.activeThreadList = s.sh.activeThreadList)
    (hglobal : sh'.globalHbreakpointController = s.sh.globalHbreakpointController)
    (hjoined : ∀ u, u ≠ t → sh'.joined u = s.sh.joined u)
    (hmember : t ∈ s.sh.activeThreadList →
      Member l.page old new th'.following (sh'.joined t) th'.hb l.pc.stage)
    (hfollows : th'.following ≠ none → t ∈ s.sh.activeThreadList)
    (hcount : t ∈ s.sh.activeThreadList →
      sh'.waitingThreadCount + (if l.pc.awaits (s.thr t).following then 1 else 0) =
        s.sh.waitingThreadCount + (if l.pc.awaits th'.following then 1 else 0))
    (hcount' : t ∉ s.sh.activeThreadList →
      sh'.waitingThreadCount = s.sh.waitingThreadCount) :
    Busy (s.set t sh' th') c l old new := by
  have hthr : ∀ u, u ≠ t → (s.set t sh' th').thr u = s.thr u := fun u hu => Crowd.set_thr_ne hu
  have hc := hthr c (Ne.symm htc)
  refine ⟨?_, hb.stage, ?_, ?_, ?_, ?_, ?_, ?_, ?_, ?_, ?_⟩
  · rw [hc]
    exact hb.leading
  · rw [Crowd.set_sh, hcontroller]
    exact hb.controller
  · rw [Crowd.set_sh, hpage]
    exact hb.page
  · rw [Crowd.set_sh, hactive]
    by_cases ht : t ∈ s.sh.activeThreadList
    · have hoff := countP_of_agree_off (a := t)
        (p := fun u => decide (u ≠ c) && l.pc.awaits ((s.set t sh' th').thr u).following)
        (q := fun u => decide (u ≠ c) && l.pc.awaits (s.thr u).following) hn ht
        (by intro u _ hu; rw [hthr u hu])
      have hmoved := hcount ht
      have hbefore := hb.count
      simp only [Crowd.set_thr_same, htc, ne_eq, not_false_eq_true, decide_true,
        Bool.true_and] at hoff hbefore ⊢
      split at hoff <;> split at hoff <;> simp_all
      all_goals omega
    · rw [hcount' ht, hb.count]
      congr 1
      refine List.countP_congr ?_
      intro u hu
      rw [hthr u (fun e => ht (e ▸ hu))]
  · intro u hu
    rw [Crowd.set_sh, hactive]
    by_cases hut : u = t
    · subst hut
      rw [Crowd.set_thr_same] at hu
      exact ⟨hfollows hu, htc⟩
    · rw [hthr u hut] at hu
      exact hb.followers u hu
  · intro u hu huc
    rw [Crowd.set_sh, hactive] at hu
    by_cases hut : u = t
    · subst hut
      rw [Crowd.set_thr_same]
      exact hmember hu
    · rw [hthr u hut, Crowd.set_sh, hjoined u hut]
      exact hb.members u hu huc
  · rw [hc]
    exact hb.own
  · rw [Crowd.set_sh, hglobal]
    exact hb.global
  · rw [Crowd.set_sh, hactive]
    exact hb.signals
  · rw [Crowd.set_sh, hactive]
    exact hb.adds

theorem LeadPc.eq_awaitFirst {pc : LeadPc} (h : pc.stage = .first) : pc = .awaitFirst := by
  cases pc <;> first | rfl | cases h

theorem LeadPc.eq_awaitSecond {pc : LeadPc} (h : pc.stage = .drain) : pc = .awaitSecond := by
  cases pc <;> first | rfl | cases h

theorem LeadPc.awaits_gather {pc : LeadPc} (h : pc.stage = .gather) (f : Option Follow) :
    pc.awaits f = false := by
  cases pc <;> first | rfl | cases h

theorem countP_gather {pc : LeadPc} (h : pc.stage = .gather) (active : List Tid)
    (thr : Tid → Thread) :
    active.countP (fun t => decide (t ≠ c) && pc.awaits (thr t).following) = 0 := by
  refine List.countP_eq_zero.mpr ?_
  intro u _
  rw [LeadPc.awaits_gather h, Bool.and_false]
  rintro ⟨⟩

/-- The counter is zero while the leader still gathers. -/
theorem Busy.count_gather (hb : Busy s c l old new) (hst : l.pc.stage = .gather) :
    s.sh.waitingThreadCount = 0 := by
  rw [hb.count, countP_gather hst]
  rfl

/-- A follower that is counted keeps the counter positive. -/
theorem Busy.count_pos (hb : Busy s c l old new) (ht : t ∈ s.sh.activeThreadList) (htc : t ≠ c)
    (haw : l.pc.awaits (s.thr t).following = true) : 0 < s.sh.waitingThreadCount := by
  rw [hb.count]
  exact_mod_cast List.countP_pos_iff.mpr ⟨t, ht, by rw [haw, Bool.and_true]; simpa using htc⟩

/-- Which stage a follower's position betrays. -/
theorem Busy.stage_of_follow (hb : Busy s c l old new) {f : Follow}
    (hf : (s.thr t).following = some f) :
    match f with
    | .awaitCount => l.pc.stage = .gather ∨ l.pc.stage = .first
    | .checkPage | .add | .leaveFirst => l.pc.stage = .first
    | .awaitRelease => l.pc.stage = .first ∨ l.pc.stage = .joined ∨ l.pc.stage = .drain
    | .leaveSecond => l.pc.stage = .drain := by
  obtain ⟨ht, htc⟩ := hb.followers t (by rw [hf]; nofun)
  have hm := hb.members t ht htc
  rw [hf] at hm
  cases hst : l.pc.stage <;> rw [hst] at hm <;> cases f <;> simp_all [Member]

/-- A follower's step that changes nothing shared and is not counted differently. -/
theorem Busy.quietly (hb : Busy s c l old new) (hn : s.sh.activeThreadList.Nodup) {f : Follow}
    (hf : (s.thr t).following = some f)
    (hmem : Member l.page old new th'.following (s.sh.joined t) th'.hb l.pc.stage)
    (haw : l.pc.awaits (some f) = l.pc.awaits th'.following) :
    Busy (s.set t s.sh th') c l old new := by
  obtain ⟨ht, htc⟩ := hb.followers t (by rw [hf]; nofun)
  refine hb.other hn htc rfl rfl rfl rfl (fun _ _ => rfl) (fun _ => hmem) (fun _ => ht)
    (fun _ => ?_) (fun h => absurd ht h)
  rw [hf, haw]

/-- A follower that was counted no longer is. -/
theorem Busy.countedDown (hb : Busy s c l old new) (hn : s.sh.activeThreadList.Nodup)
    (ht : t ∈ s.sh.activeThreadList) (htc : t ≠ c)
    (hmem : Member l.page old new th'.following (s.sh.joined t) th'.hb l.pc.stage)
    (haw : l.pc.awaits (s.thr t).following = true) (haw' : l.pc.awaits th'.following = false) :
    Busy (s.set t { s.sh with waitingThreadCount := s.sh.waitingThreadCount - 1 } th')
      c l old new := by
  refine hb.other hn htc rfl rfl rfl rfl (fun _ _ => rfl) (fun _ => hmem) (fun _ => ht)
    (fun _ => ?_) (fun h => absurd ht h)
  rw [haw, haw']
  simp

/-- The follower adds the published page, and its controller becomes the leader's. -/
theorem Busy.followed_add (hb : Busy s c l old new) (hn : s.sh.activeThreadList.Nodup)
    {f' : Option Follow} {hb' : HbController} (hf : (s.thr t).following = some .add)
    (hstep : followStep t s.sh (s.thr t).hb .add = .ok (sh', hb', f'))
    (hhb : th'.hb = hb') (hf' : th'.following = f') : Busy (s.set t sh' th') c l old new := by
  obtain ⟨ht, htc⟩ := hb.followers t (by rw [hf]; nofun)
  have hm := hb.members t ht htc
  have hst : l.pc.stage = .first := hb.stage_of_follow hf
  have hpc := LeadPc.eq_awaitFirst hst
  rw [hf, hst] at hm
  obtain ⟨-, hjoined, hold⟩ := hm.resolve_right (by simp)
  obtain ⟨evicted, hadd⟩ := hb.adds (by rw [hpc]; rfl) ⟨t, ht, htc⟩
  have hpage := hb.page
  rw [hpc, LeadPc.published, if_pos rfl] at hpage
  rw [followStep] at hstep
  split at hstep
  · cases hstep
  rename_i page hpage'
  obtain rfl : page = l.page := Option.some.inj (hpage'.symm.trans hpage)
  rw [hold, hadd] at hstep
  cases hstep
  refine hb.other hn htc rfl rfl rfl rfl (fun u hu => setAt_ne _ _ hu) (fun _ => ?_)
    (fun _ => ht) (fun _ => ?_) (fun h => absurd ht h)
  · rw [hst, hf', hhb]
    simp [Member, hjoined]
  · rw [hf, hf', hpc]
    rfl

/-- A step of `other_thread_add_breakpoint_wrapper` in a round. -/
theorem Busy.followed (hb : Busy s c l old new) (hn : s.sh.activeThreadList.Nodup)
    {f : Follow} {f' : Option Follow} {hb' : HbController} (hf : (s.thr t).following = some f)
    (hstep : followStep t s.sh (s.thr t).hb f = .ok (sh', hb', f'))
    (hhb : th'.hb = hb') (hf' : th'.following = f') : Busy (s.set t sh' th') c l old new := by
  obtain ⟨ht, htc⟩ := hb.followers t (by rw [hf]; nofun)
  have hm := hb.members t ht htc
  have hst := hb.stage_of_follow hf
  rw [hf] at hm
  cases f with
  | awaitCount =>
      rw [followStep] at hstep
      split at hstep <;> cases hstep
      · rename_i hne
        rcases hst with hst | hst
        · exact absurd (hb.count_gather hst) hne
        · rw [hst] at hm
          refine hb.quietly hn hf ?_ (by rw [hf', LeadPc.eq_awaitFirst hst]; rfl)
          rw [hst, hf', hhb]
          simp_all [Member]
      · exact hb.quietly hn hf (by rw [hf', hhb]; exact hm) (by rw [hf'])
  | checkPage =>
      rw [followStep] at hstep
      split at hstep <;> cases hstep
      rw [hst] at hm
      refine hb.quietly hn hf ?_ (by rw [hf', LeadPc.eq_awaitFirst hst]; rfl)
      rw [hst, hf', hhb]
      simp_all [Member]
  | add => exact hb.followed_add hn hf hstep hhb hf'
  | leaveFirst =>
      rw [hst] at hm
      obtain ⟨-, hjoined, hnew⟩ := hm.resolve_left (by simp)
      have hpc := LeadPc.eq_awaitFirst hst
      rw [followStep] at hstep
      split at hstep <;> cases hstep
      refine hb.countedDown hn ht htc ?_ (by rw [hf, hpc]; rfl) (by rw [hf', hpc]; rfl)
      rw [hst, hf', hhb]
      exact .inr ⟨.inr rfl, hjoined, hnew⟩
  | awaitRelease =>
      rw [followStep] at hstep
      split at hstep <;> cases hstep
      · rename_i hnone
        have hpc : l.pc = .awaitSecond := by
          have hctl := hb.controller
          rw [hnone] at hctl
          by_contra hne
          rw [if_neg hne] at hctl
          cases hctl
        refine hb.quietly hn hf ?_ (by rw [hf', hpc]; rfl)
        rw [hpc] at hm ⊢
        rw [hf', hhb]
        exact ⟨.inr (.inr rfl), hm.2⟩
      · exact hb.quietly hn hf (by rw [hf', hhb]; exact hm) (by rw [hf'])
  | leaveSecond =>
      rw [hst] at hm
      have hpc := LeadPc.eq_awaitSecond hst
      rw [followStep] at hstep
      split at hstep <;> cases hstep
      refine hb.countedDown hn ht htc ?_ (by rw [hf, hpc]; rfl) (by rw [hf', hpc]; rfl)
      rw [hst, hf', hhb]
      exact ⟨.inl rfl, hm.2⟩

/-- A thread that sees a controller starts to follow. -/
theorem Busy.join (hb : Busy s c l old new) (hn : s.sh.activeThreadList.Nodup) (htc : t ≠ c)
    (ht : t ∈ s.sh.activeThreadList) (hc : s.sh.controllerThread ≠ none)
    (hhb : th'.hb = (s.thr t).hb) (hf : (s.thr t).following = none)
    (hf' : th'.following = some .awaitCount) : Busy (s.set t s.sh th') c l old new := by
  have hm := hb.members t ht htc
  rw [hf] at hm
  have hsame : l.pc.stage = .gather ∨ l.pc.stage = .first := by
    have hctl := hb.controller
    have hstage := hb.stage
    cases hpc : l.pc <;> rw [hpc] at hm hctl hstage <;> simp_all [LeadPc.stage, Member]
  refine hb.other hn htc rfl rfl rfl rfl (fun _ _ => rfl) (fun _ => ?_) (fun _ => ht)
    (fun _ => ?_) (fun h => absurd ht h)
  · rw [hf', hhb]
    rcases hsame with hst | hst <;> rw [hst] at hm ⊢ <;> simp_all [Member]
  · rw [hf, hf']
    rcases hsame with hst | hst
    · rw [LeadPc.awaits_gather hst, LeadPc.awaits_gather hst]
    · rw [LeadPc.eq_awaitFirst hst]
      rfl

/-! ## A round seen from its leader -/

/-- The leader takes a step: the followers stand where they stood, and the new
position has to account for them. -/
theorem busy_of_lead (hlead : th'.leading = some l) (hfol : th'.following = none)
    (hactive : sh'.activeThreadList = s.sh.activeThreadList)
    (followers : ∀ t, (s.thr t).following ≠ none → t ∈ s.sh.activeThreadList ∧ t ≠ c)
    (stage : l.pc.stage ≠ .quiet)
    (controller : sh'.controllerThread = if l.pc = .awaitSecond then none else some c)
    (page : sh'.segfaultPage = if l.pc.published then some l.page else none)
    (count : sh'.waitingThreadCount =
      (s.sh.activeThreadList.countP
        fun t => decide (t ≠ c) && l.pc.awaits (s.thr t).following : Nat))
    (members : ∀ t ∈ s.sh.activeThreadList, t ≠ c →
      Member l.page old new (s.thr t).following (sh'.joined t) (s.thr t).hb l.pc.stage)
    (own : th'.hb = if l.pc.added then new else old)
    (global : sh'.globalHbreakpointController = if l.pc.copied then new else old)
    (signals : l.isStatic = true → ∀ t ∈ s.sh.activeThreadList, t ≠ c →
      t ∈ l.pc.unsignalled s.sh.activeThreadList)
    (adds : l.pc.added = true → (∃ t ∈ s.sh.activeThreadList, t ≠ c) →
      ∃ evicted, old.addBreakpoints l.page false = some (new, evicted)) :
    Busy (s.set c sh' th') c l old new := by
  refine ⟨?_, stage, controller, page, ?_, ?_, ?_, ?_, global, ?_, ?_⟩
  · rw [Crowd.set_thr_same]
    exact hlead
  · rw [Crowd.set_sh, hactive, count]
    congr 1
    refine List.countP_congr ?_
    intro u _
    by_cases hu : u = c
    · simp [hu]
    · rw [Crowd.set_thr_ne hu]
  · intro u hu
    rw [Crowd.set_sh, hactive]
    by_cases huc : u = c
    · subst huc
      rw [Crowd.set_thr_same] at hu
      exact absurd hfol hu
    · rw [Crowd.set_thr_ne huc] at hu
      exact followers u hu
  · intro u hu huc
    rw [Crowd.set_thr_ne huc]
    rw [Crowd.set_sh, hactive] at hu
    exact members u hu huc
  · rw [Crowd.set_thr_same]
    exact own
  · rw [Crowd.set_sh, hactive]
    exact signals
  · rw [Crowd.set_sh, hactive]
    exact adds

/-- The counter as `active_thread_list_size-1`: everyone but the leader. -/
theorem size_pred_eq {active : List Tid} (hn : active.Nodup) (hc : c ∈ active)
    {p : Tid → Bool} (hp : ∀ t ∈ active, t ≠ c → p t = true) :
    (active.length : Int) - 1 = (active.countP fun t => decide (t ≠ c) && p t : Nat) := by
  have hcongr : active.countP (fun t => decide (t ≠ c) && p t) =
      active.countP (fun t => decide (t ≠ c)) := by
    refine List.countP_congr ?_
    intro u hu
    by_cases huc : u = c
    · simp [huc]
    · simp [huc, hp u hu huc]
  have := countP_ne hn hc
  rw [hcongr]
  omega

/-- Nobody is left to wait for. -/
theorem Busy.none_awaited (hb : Busy s c l old new) (h0 : s.sh.waitingThreadCount = 0)
    (ht : t ∈ s.sh.activeThreadList) (htc : t ≠ c) : l.pc.awaits (s.thr t).following = false := by
  cases haw : l.pc.awaits (s.thr t).following with
  | false => rfl
  | true =>
      have := hb.count_pos ht htc haw
      omega

/-- The leader goes on while it gathers: nobody is counted, and the followers
stand where they stood. -/
theorem Busy.gather_to (hb : Busy s c l old new) (new' : HbController)
    (hst : l.pc.stage = .gather) {pc : LeadPc} (hst' : pc.stage = .gather)
    (hl' : th'.leading = some { l with pc }) (hfol : th'.following = none)
    (hactive : sh'.activeThreadList = s.sh.activeThreadList)
    (hcontroller : sh'.controllerThread = s.sh.controllerThread)
    (hcount : sh'.waitingThreadCount = s.sh.waitingThreadCount)
    (hjoined : sh'.joined = s.sh.joined)
    (page : sh'.segfaultPage = if pc.published then some l.page else none)
    (own : th'.hb = if pc.added then new' else old)
    (global : sh'.globalHbreakpointController = if pc.copied then new' else old)
    (signals : l.isStatic = true → ∀ t ∈ s.sh.activeThreadList, t ≠ c →
      t ∈ pc.unsignalled s.sh.activeThreadList)
    (adds : pc.added = true → (∃ t ∈ s.sh.activeThreadList, t ≠ c) →
      ∃ evicted, old.addBreakpoints l.page false = some (new', evicted)) :
    ∃ l₁ new₁, Busy (s.set c sh' th') c l₁ old new₁ := by
  have hquiet : pc.stage ≠ .quiet := by rw [hst']; rintro ⟨⟩
  refine ⟨_, new', busy_of_lead hl' hfol hactive hb.followers hquiet ?_ page ?_ ?_ own global
    signals adds⟩
  · have hne : ∀ pc : LeadPc, pc.stage = .gather → pc ≠ .awaitSecond := by
      rintro pc h rfl
      cases h
    rw [hcontroller, hb.controller, if_neg (hne _ hst), if_neg (hne _ hst')]
  · rw [hcount, hb.count_gather hst, countP_gather hst']
    rfl
  · intro t ht htc
    have hm := hb.members t ht htc
    rw [hst] at hm
    rw [hst', hjoined]
    exact hm

/-- The round of signals: a thread leaves the list once it has its signal, and
a static page is only added while nobody else is there. -/
theorem Busy.led_kill (hb : Busy s c l old new) {rest : List Tid} (hpc : l.pc = .kill rest)
    {l' : Option Lead} {hb' : HbController}
    (hstep : leadStep c s.sh (s.thr c).hb l = .ok (sh', hb', l'))
    (hhb : th'.hb = hb') (hl' : th'.leading = l') (hfol : th'.following = none) :
    ∃ l₁ new₁, Busy (s.set c sh' th') c l₁ old new₁ := by
  obtain ⟨page, isStatic, pc⟩ := l
  dsimp only at hpc
  subst hpc
  have hpage := hb.page
  have hown := hb.own
  have hsignals := hb.signals
  cases rest with
  | nil =>
      simp only [leadStep] at hstep
      cases hstep
      exact hb.gather_to new rfl rfl hl' hfol rfl rfl rfl rfl hpage (hhb.trans hown)
        hb.global hsignals (by rintro ⟨⟩)
  | cons u rest =>
      simp only [leadStep] at hstep
      split at hstep
      · rename_i hu
        cases hstep
        refine hb.gather_to new rfl rfl hl' hfol rfl rfl rfl rfl hpage
          (hhb.trans hown) hb.global ?_ (by rintro ⟨⟩)
        intro hs t ht htc
        exact (List.mem_cons.mp (hsignals hs t ht htc)).resolve_left (by rw [hu]; exact htc)
      · split at hstep <;> cases hstep
        rename_i hs
        exact hb.gather_to new rfl rfl hl' hfol rfl rfl rfl rfl hpage
          (hhb.trans hown) hb.global (fun h => absurd h hs) (by rintro ⟨⟩)

/-- A step of `add_breakpoint_wrapper` in a round, up to the first wait. -/
theorem Busy.led_gather (hb : Busy s c l old new) (hn : s.sh.activeThreadList.Nodup)
    (hc : c ∈ s.sh.activeThreadList) (hst : l.pc.stage = .gather) {l' : Option Lead}
    {hb' : HbController} (hstep : leadStep c s.sh (s.thr c).hb l = .ok (sh', hb', l'))
    (hhb : th'.hb = hb') (hl' : th'.leading = l') (hfol : th'.following = none) :
    ∃ l₁ new₁, Busy (s.set c sh' th') c l₁ old new₁ := by
  obtain ⟨page, isStatic, pc⟩ := l
  have hpage := hb.page
  have hown := hb.own
  have hsignals := hb.signals
  cases pc with
  | storePage =>
      simp only [leadStep] at hstep
      cases hstep
      exact hb.gather_to new rfl rfl hl' hfol rfl rfl rfl rfl rfl (hhb.trans hown)
        hb.global hsignals (by rintro ⟨⟩)
  | kill rest => exact hb.led_kill rfl hstep hhb hl' hfol
  | addOwn =>
      simp only [leadStep] at hstep
      split at hstep
      · cases hstep
      · rename_i evicted hadd
        cases hstep
        refine hb.gather_to hb' rfl rfl hl' hfol rfl rfl rfl rfl hpage hhb hb.global
          hsignals ?_
        rintro - ⟨u, hu, huc⟩
        have hdyn : isStatic = false := by
          cases hs : isStatic with
          | false => rfl
          | true => cases hsignals hs u hu huc
        rw [show (s.thr c).hb = old from hown, hdyn] at hadd
        exact ⟨evicted, hadd⟩
  | copyGlobal =>
      simp only [leadStep] at hstep
      cases hstep
      exact hb.gather_to new rfl rfl hl' hfol rfl rfl rfl rfl hpage (hhb.trans hown)
        hown hsignals hb.adds
  | raiseFirst =>
      simp only [leadStep] at hstep
      cases hstep
      refine ⟨_, new, busy_of_lead hl' hfol rfl hb.followers (by rintro ⟨⟩) hb.controller hpage
        (size_pred_eq hn hc ?_) ?_ (hhb.trans hown) hb.global hsignals hb.adds⟩
      · intro t ht htc
        rcases (hb.members t ht htc).1 with hf | hf <;> rw [hf] <;> rfl
      · intro t ht htc
        have hm := hb.members t ht htc
        exact .inl ⟨hm.1.elim .inl (fun h => .inr (.inl h)), hm.2⟩
  | _ => cases hst

/-- The first wait, the second store of the counter and the release. -/
theorem Busy.led_joined (hb : Busy s c l old new) (hn : s.sh.activeThreadList.Nodup)
    (hc : c ∈ s.sh.activeThreadList) (hst : l.pc.stage = .first ∨ l.pc.stage = .joined)
    {l' : Option Lead} {hb' : HbController}
    (hstep : leadStep c s.sh (s.thr c).hb l = .ok (sh', hb', l'))
    (hhb : th'.hb = hb') (hl' : th'.leading = l') (hfol : th'.following = none) :
    ∃ l₁, Busy (s.set c sh' th') c l₁ old new := by
  obtain ⟨page, isStatic, pc⟩ := l
  have hctl := hb.controller
  have hpage := hb.page
  have hcount := hb.count
  have hown := hb.own
  have hglobal := hb.global
  have hsignals := hb.signals
  cases pc with
  | awaitFirst =>
      simp only [leadStep] at hstep
      split at hstep <;> cases hstep
      · rename_i h0
        refine ⟨_, busy_of_lead hl' hfol rfl hb.followers (by rintro ⟨⟩) hctl hpage ?_ ?_
          (hhb.trans hown) hglobal hsignals hb.adds⟩
        · rw [h0]
          simp [LeadPc.awaits]
        · intro t ht htc
          have haw := hb.none_awaited h0 ht htc
          have hf : (s.thr t).following = some .awaitRelease := by
            simpa [LeadPc.awaits] using haw
          have hm := hb.members t ht htc
          rw [hf] at hm ⊢
          exact ⟨rfl, (hm.resolve_left (by simp)).2⟩
      · exact ⟨_, busy_of_lead hl' hfol rfl hb.followers (by rintro ⟨⟩) hctl hpage hcount hb.members
          (hhb.trans hown) hglobal hsignals hb.adds⟩
  | clearPage =>
      simp only [leadStep] at hstep
      cases hstep
      exact ⟨_, busy_of_lead hl' hfol rfl hb.followers (by rintro ⟨⟩) hctl rfl hcount hb.members
        (hhb.trans hown) hglobal hsignals hb.adds⟩
  | raiseSecond =>
      simp only [leadStep] at hstep
      cases hstep
      exact ⟨_, busy_of_lead hl' hfol rfl hb.followers (by rintro ⟨⟩) hctl hpage
        (size_pred_eq hn hc (fun _ _ _ => rfl)) hb.members (hhb.trans hown) hglobal hsignals
        hb.adds⟩
  | clearController =>
      simp only [leadStep] at hstep
      cases hstep
      refine ⟨_, busy_of_lead hl' hfol rfl hb.followers (by rintro ⟨⟩) rfl hpage ?_ ?_
        (hhb.trans hown) hglobal hsignals hb.adds⟩
      · refine hcount.trans ?_
        congr 1
        refine List.countP_congr ?_
        intro t ht
        by_cases htc : t = c
        · simp [htc]
        · rw [(hb.members t ht htc).1]
          rfl
      · intro t ht htc
        have hm := hb.members t ht htc
        exact ⟨.inr (.inl hm.1), hm.2.2⟩
  | _ => rcases hst with hst | hst <;> cases hst

/-- The second wait ends the round. -/
theorem Busy.led_drain (hi : CrowdInv s) (hb : Busy s c l old new) (hst : l.pc.stage = .drain)
    {l' : Option Lead} {hb' : HbController}
    (hstep : leadStep c s.sh (s.thr c).hb l = .ok (sh', hb', l'))
    (hhb : th'.hb = hb') (hl' : th'.leading = l') (hfol : th'.following = none)
    (hmain : th'.main ≠ .enterAppend) :
    Quiet (s.set c sh' th') ∨ Busy (s.set c sh' th') c l old new := by
  obtain ⟨page, isStatic, pc⟩ := l
  obtain rfl := LeadPc.eq_awaitSecond hst
  simp only [leadStep] at hstep
  split at hstep <;> cases hstep
  · rename_i h0
    left
    have hnone : ∀ t, t ≠ c → (s.thr t).following = none := by
      intro t htc
      by_contra hf
      obtain ⟨ht, -⟩ := hb.followers t hf
      have haw := hb.none_awaited h0 ht htc
      exact hf (by simpa [LeadPc.awaits] using haw)
    refine ⟨hb.controller, h0, hb.page, ?_, ?_, ?_, ?_⟩
    · intro t
      by_cases htc : t = c
      · subst htc
        rw [Crowd.set_thr_same]
        exact hfol
      · rw [Crowd.set_thr_ne htc]
        exact hnone t htc
    · intro t ht
      refine Eq.trans ?_ (show new = _ from hb.global.symm)
      by_cases htc : t = c
      · subst htc
        rw [Crowd.set_thr_same]
        exact hhb.trans hb.own
      · rw [Crowd.set_thr_ne htc]
        exact (hb.members t ht htc).2
    · intro t ht
      by_cases htc : t = c
      · subst htc
        rw [Crowd.set_thr_same] at ht
        exact absurd ht hmain
      · rw [Crowd.set_thr_ne htc] at ht
        have hno := hi.no_edit hb (t := t)
        rw [ht] at hno
        cases hno
    · intro t l₁ ht
      by_cases htc : t = c
      · subst htc
        rw [Crowd.set_thr_same, hl'] at ht
        cases ht
        rfl
      · rw [Crowd.set_thr_ne htc] at ht
        exact absurd (hi.leader_unique hb ht) htc
  · right
    exact busy_of_lead hl' hfol rfl hb.followers (by rintro ⟨⟩) hb.controller hb.page hb.count
      hb.members (hhb.trans hb.own) hb.global hb.signals hb.adds

/-! ## Outside a round -/

/-- A thread moves without following or leading, and what it has on the list or
is about to put there agrees with the global controller. -/
theorem Quiet.set (hq : Quiet s)
    (hcontroller : sh'.controllerThread = s.sh.controllerThread)
    (hcount : sh'.waitingThreadCount = s.sh.waitingThreadCount)
    (hpage : sh'.segfaultPage = s.sh.segfaultPage)
    (hglobal : sh'.globalHbreakpointController = s.sh.globalHbreakpointController)
    (hactive : ∀ u, u ≠ t → u ∈ sh'.activeThreadList → u ∈ s.sh.activeThreadList)
    (hfol : th'.following = none) (hlead : ∀ l, th'.leading = some l → l.pc.stage = .quiet)
    (hagree : t ∈ sh'.activeThreadList → th'.hb = s.sh.globalHbreakpointController)
    (hentering : th'.main = .enterAppend → th'.hb = s.sh.globalHbreakpointController) :
    Quiet (s.set t sh' th') := by
  have hthr : ∀ u, u ≠ t → (s.set t sh' th').thr u = s.thr u := fun u hu => Crowd.set_thr_ne hu
  refine ⟨hcontroller.trans hq.controller, hcount.trans hq.count, hpage.trans hq.page,
    ?_, ?_, ?_, ?_⟩
  · intro u
    by_cases hu : u = t
    · rw [hu, Crowd.set_thr_same]
      exact hfol
    · rw [hthr u hu]
      exact hq.followers u
  · intro u hmem
    rw [Crowd.set_sh, hglobal]
    by_cases hu : u = t
    · rw [hu, Crowd.set_thr_same]
      exact hagree (hu ▸ hmem)
    · rw [hthr u hu]
      exact hq.agree u (hactive u hu hmem)
  · intro u hmain
    rw [Crowd.set_sh, hglobal]
    by_cases hu : u = t
    · rw [hu, Crowd.set_thr_same] at hmain ⊢
      exact hentering hmain
    · rw [hthr u hu] at hmain ⊢
      exact hq.entering u hmain
  · intro u l hl
    by_cases hu : u = t
    · rw [hu, Crowd.set_thr_same] at hl
      exact hlead l hl
    · rw [hthr u hu] at hl
      exact hq.leads u l hl

theorem Quiet.still (hq : Quiet s) (hround : SameRound s.sh sh') (hhb : th'.hb = (s.thr t).hb)
    (hfol : th'.following = none) (hlead : ∀ l, th'.leading = some l → l.pc.stage = .quiet)
    (hmain : th'.main ≠ .enterAppend) : Quiet (s.set t sh' th') := by
  refine hq.set hround.controllerThread hround.waitingThreadCount hround.segfaultPage
    hround.globalHbreakpointController ?_ hfol hlead ?_ (fun h => absurd h hmain)
  · intro u _ hu
    rwa [hround.activeThreadList] at hu
  · intro ht
    rw [hround.activeThreadList] at ht
    exact hhb.trans (hq.agree t ht)

/-- The steps before a round is announced, the announcement, and the last step. -/
theorem Quiet.led (hq : Quiet s) {l' : Option Lead} {hb' : HbController}
    (hl : (s.thr t).leading = some l) (ht : t ∈ s.sh.activeThreadList)
    (hstep : leadStep t s.sh (s.thr t).hb l = .ok (sh', hb', l'))
    (hhb : th'.hb = hb') (hl' : th'.leading = l') (hfol : th'.following = none)
    (hmain : th'.main ≠ .enterAppend) :
    Quiet (s.set t sh' th') ∨ ∃ l₁ old new, Busy (s.set t sh' th') t l₁ old new := by
  have hst := hq.leads t l hl
  obtain ⟨page, isStatic, pc⟩ := l
  have still : SameRound s.sh sh' → hb' = (s.thr t).hb →
      (∀ l, l' = some l → l.pc.stage = .quiet) → Quiet (s.set t sh' th') := by
    intro hround heq hlead
    refine hq.still hround (hhb.trans heq) hfol ?_ hmain
    rw [hl']
    exact hlead
  cases pc with
  | lockSync | checkExec =>
      simp only [leadStep] at hstep
      split at hstep <;> cases hstep <;>
        exact .inl (still ⟨rfl, rfl, rfl, rfl, rfl, rfl⟩ rfl (by intro l h; cases h <;> rfl))
  | assertIdle =>
      simp only [leadStep] at hstep
      split at hstep
      · cases hstep
      · split at hstep
        · cases hstep
        · split at hstep <;> cases hstep
          exact .inl (still (.refl _) rfl (by intro l h; cases h; rfl))
  | unlockSync =>
      simp only [leadStep] at hstep
      cases hstep
      exact .inl (still ⟨rfl, rfl, rfl, rfl, rfl, rfl⟩ rfl (by rintro _ ⟨⟩))
  | storeController =>
      simp only [leadStep] at hstep
      cases hstep
      refine .inr ⟨_, s.sh.globalHbreakpointController, s.sh.globalHbreakpointController,
        busy_of_lead hl' hfol rfl ?_ (by rintro ⟨⟩) rfl hq.page ?_ ?_ ?_ rfl (fun _ _ h _ => h)
          (by rintro ⟨⟩)⟩
      · intro u hu
        exact absurd (hq.followers u) hu
      · refine hq.count.trans ?_
        simp [LeadPc.awaits]
      · intro u hu _
        exact ⟨.inl (hq.followers u), rfl, hq.agree u hu⟩
      · exact hhb.trans (hq.agree t ht)
  | _ => cases hst

/-! ## One step of the crowd -/

/-- A leader is on the active list. -/
theorem CrowdInv.leader_listed (hi : CrowdInv s) (hl : (s.thr t).leading = some l) :
    t ∈ s.sh.activeThreadList := by
  rw [(hi.locals t).listed, (hi.locals t).run_of_leading hl]
  rfl

theorem Quiet.move (hi : CrowdInv s) (hq : Quiet s) (hm : Move t s.sh (s.thr t) sh' th') :
    Quiet (s.set t sh' th') ∨ ∃ c l old new, Busy (s.set t sh' th') c l old new := by
  cases hm with
  | still round hhb following notLeading leading main =>
      refine .inl (hq.still round hhb (following.trans (hq.followers t)) ?_ main)
      intro l hl
      rw [leading l hl]
      rfl
  | join shared controller => exact absurd hq.controller controller
  | followed f f' before => cases (hq.followers t).symm.trans before
  | led l l' before step after following main =>
      rcases hq.led before (hi.leader_listed before) step rfl after following main with
        h | ⟨l₁, old, new, h⟩
      · exact .inl h
      · exact .inr ⟨t, l₁, old, new, h⟩
  | copied sync shared hhb unlisted following leading =>
      subst shared
      refine .inl (hq.set rfl rfl rfl rfl (fun _ _ h => h) following ?_ (fun _ => hhb)
        (fun _ => hhb))
      rw [leading]
      nofun
  | appended sync main shared unlisted hhb following leading main' =>
      subst shared
      refine .inl (hq.set rfl rfl rfl rfl ?_ following ?_ (fun _ => ?_) (fun h => absurd h main'))
      · intro u hu hmem
        exact (List.mem_append.mp hmem).resolve_right (by simpa using hu)
      · rw [leading]
        nofun
      · exact hhb.trans (hq.entering t main)
  | removed sync active shared remove following leading main =>
      subst shared
      have herase := removeElementActiveThreadList_eq remove
      refine .inl (hq.set rfl rfl rfl rfl ?_ following ?_ (fun hmem => ?_)
        (fun h => absurd h main))
      · intro u _ hmem
        rw [herase] at hmem
        exact List.mem_of_mem_erase hmem
      · rw [leading]
        nofun
      · rw [herase] at hmem
        exact absurd rfl (hi.nodup.mem_erase_iff.mp hmem).1

theorem Busy.move_leader (hi : CrowdInv s) (hb : Busy s c l old new)
    (hm : Move c s.sh (s.thr c) sh' th') :
    Quiet (s.set c sh' th') ∨ ∃ c' l old new, Busy (s.set c sh' th') c' l old new := by
  cases hm with
  | led l₀ l' before step after following main =>
      obtain rfl : l₀ = l := Option.some.inj (before.symm.trans hb.leading)
      have hc := hi.leader_listed before
      cases hst : l₀.pc.stage with
      | quiet => exact absurd hst hb.stage
      | gather =>
          obtain ⟨l₁, new₁, h⟩ := hb.led_gather hi.nodup hc hst step rfl after following
          exact .inr ⟨c, l₁, old, new₁, h⟩
      | first =>
          obtain ⟨l₁, h⟩ := hb.led_joined hi.nodup hc (.inl hst) step rfl after following
          exact .inr ⟨c, l₁, old, new, h⟩
      | joined =>
          obtain ⟨l₁, h⟩ := hb.led_joined hi.nodup hc (.inr hst) step rfl after following
          exact .inr ⟨c, l₁, old, new, h⟩
      | drain =>
          rcases hb.led_drain hi hst step rfl after following main with h | h
          · exact .inl h
          · exact .inr ⟨c, l₀, old, new, h⟩
  | still _ _ _ notLeading => cases notLeading.symm.trans hb.leading
  | join _ _ _ _ _ _ notLeading => cases notLeading.symm.trans hb.leading
  | followed _ _ _ _ _ notLeading => cases notLeading.symm.trans hb.leading
  | copied sync => cases (hi.no_edit hb).symm.trans sync
  | appended sync => cases (hi.no_edit hb).symm.trans sync
  | removed sync => cases (hi.no_edit hb).symm.trans sync

theorem Busy.move_other (hi : CrowdInv s) (hb : Busy s c l old new) (htc : t ≠ c)
    (hm : Move t s.sh (s.thr t) sh' th') : Busy (s.set t sh' th') c l old new := by
  cases hm with
  | still round hhb following =>
      refine hb.other hi.nodup htc round.controllerThread round.segfaultPage
        round.activeThreadList round.globalHbreakpointController ?_ (fun ht => ?_) (fun hf => ?_)
        (fun _ => ?_) (fun _ => round.waitingThreadCount)
      · intro u _
        rw [round.joined]
      · rw [following, hhb, round.joined]
        exact hb.members t ht htc
      · rw [following] at hf
        exact (hb.followers t hf).1
      · rw [following, round.waitingThreadCount]
  | join shared controller hhb before after listed =>
      subst shared
      exact hb.join hi.nodup htc listed controller hhb before after
  | followed f f' before step after => exact hb.followed hi.nodup before step rfl after
  | led _ _ before => exact absurd (hi.leader_unique hb before) htc
  | copied sync => cases (hi.no_edit hb).symm.trans sync
  | appended sync => cases (hi.no_edit hb).symm.trans sync
  | removed sync => cases (hi.no_edit hb).symm.trans sync

theorem CrowdInv.move (hi : CrowdInv s) (hm : Move t s.sh (s.thr t) sh' th') :
    Quiet (s.set t sh' th') ∨ ∃ c l old new, Busy (s.set t sh' th') c l old new := by
  rcases hi.round with hq | ⟨c, l, old, new, hb⟩
  · exact hq.move hi hm
  · by_cases htc : t = c
    · subst htc
      exact hb.move_leader hi hm
    · exact .inr ⟨c, l, old, new, hb.move_other hi htc hm⟩

theorem CrowdInv.nodup_move (hi : CrowdInv s) (hm : Move t s.sh (s.thr t) sh' th') :
    sh'.activeThreadList.Nodup := by
  have hn := hi.nodup
  cases hm with
  | still round => rwa [round.activeThreadList]
  | join shared => rwa [shared]
  | followed f f' _ step => rwa [(followStep_kept step).2.2]
  | led l l' before step => rwa [(leadStep_kept ((hi.locals t).leads l before) step).2.1]
  | copied _ shared => rwa [shared]
  | appended _ _ shared unlisted =>
      rw [shared]
      exact List.nodup_append.mpr ⟨hn, List.nodup_singleton t, by
        intro u hu v hv huv
        rw [List.mem_singleton] at hv
        exact unlisted (hv ▸ huv ▸ hu)⟩
  | removed _ active shared remove =>
      rw [shared, show active = _ from removeElementActiveThreadList_eq remove]
      exact hn.erase t

theorem CrowdInv.set (hi : CrowdInv s) (hm : Move t s.sh (s.thr t) sh' th')
    (hl : Local sh' t th') (hk : Kept t s.sh sh') : CrowdInv (s.set t sh' th') :=
  ⟨hi.nodup_move hm, locals_set hi.locals hl hk, hi.move hm⟩

end

/-! ## Runs -/

/-- The two places where a signal must not arrive: inside the follower call of
`update_active_thread_list`, once the loop has seen a controller, and between
the copy of a new thread's controller to the heap and the switch to it. -/
def MainPc.exposed : MainPc → Bool
  | .leaveFollow _ | .heapSwitch _ => true
  | _ => false

/-- No SIGSEGV is delivered at a place where it must not arrive. -/
def CrowdAct.Tame (s : Crowd) : CrowdAct → Prop
  | .deliver t => (s.thr t).main.exposed = false
  | _ => True

instance (s : Crowd) : (a : CrowdAct) → Decidable (a.Tame s)
  | .deliver t => inferInstanceAs (Decidable ((s.thr t).main.exposed = false))
  | .step .. | .fault .. | .kill .. | .leave .. | .enter .. => .isTrue trivial

/-- The states a process reaches from `s₀` by acts that satisfy `P`. -/
inductive CrowdRun (P : Crowd → CrowdAct → Prop) (s₀ : Crowd) : Crowd → Prop where
  | start : CrowdRun P s₀ s₀
  | step {s s' : Crowd} {a : CrowdAct} (run : CrowdRun P s₀ s) (allowed : a.Allowed s)
      (ok : P s a) (eq : s.step a = .ok s') : CrowdRun P s₀ s'

section
variable {s s' : Crowd} {t : Tid}

theorem MainPc.uninterrupted_of_deliverable {m : MainPc} (hd : m.deliverable = true)
    (he : m.exposed = false) : m.uninterrupted = false := by
  cases m <;> simp_all [deliverable, exposed, uninterrupted, listed]

/-- A handler starts on a thread that runs none. -/
theorem CrowdInv.interrupt (hi : CrowdInv s) {h : HandPc} {pending : Tid → Bool}
    (hand : (s.thr t).hand = none) (hint : (s.thr t).main.uninterrupted = false)
    (hfol : h.following = none) (hlead : h.leading = none) (hsegv : h.holdsSegv = false)
    (hown : h.interrupts = false → (s.thr t).main = .run) :
    CrowdInv (s.set t { s.sh with pending } { s.thr t with hand := some h }) := by
  have hl := hi.locals t
  refine hi.set (.still ⟨rfl, rfl, rfl, rfl, rfl, rfl⟩ rfl ?_ ?_ ?_ ?_)
    ⟨?_, hl.sync, ?_, hl.listed, ?_, ?_, ?_⟩ ⟨fun _ _ h => h, fun _ _ h => h, fun _ _ => Iff.rfl⟩
  · rw [Thread.following, Thread.following, hand, Option.bind_some, hfol]
    rfl
  · rw [Thread.leading, hand]
    rfl
  · intro l hl'
    cases hlead.symm.trans hl'
  · intro hm
    rw [show (s.thr t).main = .enterAppend from hm] at hint
    cases hint
  · intro x hx hs
    cases hx
    cases hsegv.symm.trans hs
  · intro l hl'
    cases hlead.symm.trans hl'
  · intro x hx hint'
    cases hx
    exact hown hint'
  · intro hu
    cases hint.symm.trans hu
  · intro c hc
    rw [show (s.thr t).main = .heapSwitch c from hc] at hint
    cases hint

/-- The main code of a thread enters `update_active_thread_list`. -/
theorem CrowdInv.begin (hi : CrowdInv s) {m m' : MainPc} (hm : (s.thr t).main = m)
    (hand : (s.thr t).hand = none) (hlisted : m'.listed = m.listed)
    (hfol : m.following = none ∧ m'.following = none) (hsync : m'.holdsSync = false)
    (hcopy : ∀ c, m' ≠ .heapSwitch c) :
    CrowdInv (s.set t s.sh { s.thr t with main := m' }) := by
  have hl := hi.locals t
  have heq : ({ s.thr t with main := m' } : Thread) = ⟨m', none, (s.thr t).hb⟩ := by
    simp only [hand]
  have hlisted' : t ∈ s.sh.activeThreadList ↔ m'.listed = true := by
    rw [hlisted, ← hm]
    exact hl.listed
  rw [heq]
  refine hi.set (.still (.refl _) rfl ?_ ?_ nofun ?_)
    (.ofMain (fun h => nomatch hsync.symm.trans h) hlisted' (fun c h => absurd h (hcopy c)))
    (.refl _ _)
  · rw [Thread.following, Thread.following, hand, hm, hfol.1]
    exact hfol.2
  · rw [Thread.leading, hand]
    rfl
  · intro h
    rw [show m' = .enterAppend from h] at hsync
    cases hsync

theorem CrowdInv.step (hi : CrowdInv s) {a : CrowdAct} (hallowed : a.Allowed s)
    (htame : a.Tame s) (hstep : s.step a = .ok s') : CrowdInv s' := by
  cases a with
  | step t call =>
      obtain ⟨⟨sh, th⟩, hth, rfl⟩ := except_map_ok hstep
      obtain ⟨hl, hk⟩ := Thread.step_local hi.nodup (hi.locals t) hth
      exact hi.set (Thread.step_move (hi.locals t) hth) hl hk
  | deliver t =>
      obtain ⟨-, hand, hdel⟩ := hallowed
      cases hstep
      exact hi.interrupt hand (MainPc.uninterrupted_of_deliverable hdel htame) rfl rfl rfl nofun
  | fault t address =>
      obtain ⟨hrun, hand⟩ := hallowed
      cases hstep
      exact hi.interrupt hand (by rw [hrun]; rfl) rfl rfl rfl (fun _ => hrun)
  | kill t =>
      cases hstep
      have hl := hi.locals
      refine ⟨hi.nodup, fun u => ⟨(hl u).segv, (hl u).sync, (hl u).leads, (hl u).listed,
        (hl u).ownFault, (hl u).uninterrupted, (hl u).copy⟩, ?_⟩
      rcases hi.round with hq | ⟨c, l, old, new, hb⟩
      · exact .inl ⟨hq.controller, hq.count, hq.page, hq.followers, hq.agree, hq.entering, hq.leads⟩
      · exact .inr ⟨c, l, old, new, hb.leading, hb.stage, hb.controller, hb.page, hb.count,
          hb.followers, hb.members, hb.own, hb.global, hb.signals, hb.adds⟩
  | leave t =>
      obtain ⟨hrun, hand⟩ := hallowed
      cases hstep
      exact hi.begin hrun hand rfl ⟨rfl, rfl⟩ rfl nofun
  | enter t =>
      cases hstep
      exact hi.begin hallowed ((hi.locals t).uninterrupted (by rw [hallowed]; rfl)) rfl ⟨rfl, rfl⟩
        rfl nofun

theorem CrowdInv.start {active : List Tid} (hn : active.Nodup) (hb : HbController) :
    CrowdInv (Crowd.start active hb) := by
  refine ⟨hn, ?_, .inl ⟨rfl, rfl, rfl, ?_, fun _ _ => rfl, fun _ _ => rfl, nofun⟩⟩
  · intro t
    refine .ofMain ?_ ?_ ?_
    · split <;> nofun
    · split
      · exact iff_of_true ‹_› rfl
      · exact iff_of_false ‹_› nofun
    · split <;> nofun
  · intro t
    show ((if t ∈ active then MainPc.run else .out).following) = none
    split <;> rfl

theorem CrowdRun.inv {active : List Tid} {hb : HbController} (hn : active.Nodup)
    (hrun : CrowdRun (fun s a => a.Tame s) (.start active hb) s) : CrowdInv s := by
  induction hrun with
  | start => exact .start hn hb
  | step _ allowed ok eq ih => exact ih.step allowed ok eq

/-! ## The assertions -/

/-- In a state of the invariant the follower's assertions hold. -/
theorem CrowdInv.follow_error (hi : CrowdInv s) {f : Follow} {hb : HbController} {e : Fault}
    (hf : (s.thr t).following = some f) (he : followStep t s.sh hb f = .error e) :
    e = .abort := by
  rcases hi.round with hq | ⟨c, l, old, new, hbusy⟩
  · cases (hq.followers t).symm.trans hf
  obtain ⟨ht, htc⟩ := hbusy.followers t (by rw [hf]; rintro ⟨⟩)
  have hst := hbusy.stage_of_follow hf
  have hpage : l.pc.stage = .first → s.sh.segfaultPage = some l.page := by
    intro h
    rw [hbusy.page, LeadPc.eq_awaitFirst h]
    rfl
  cases f with
  | awaitCount | awaitRelease =>
      rw [followStep] at he
      split at he <;> cases he
  | checkPage =>
      rw [followStep, hpage hst] at he
      cases he
  | add =>
      rw [followStep] at he
      split at he
      · rename_i hnone
        cases hnone.symm.trans (hpage hst)
      · split at he <;> cases he
        rfl
  | leaveFirst =>
      have hpos := hbusy.count_pos ht htc (by rw [hf, LeadPc.eq_awaitFirst hst]; rfl)
      rw [followStep, if_pos hpos] at he
      cases he
  | leaveSecond =>
      have hpos := hbusy.count_pos ht htc (by rw [hf, LeadPc.eq_awaitSecond hst]; rfl)
      rw [followStep, if_pos hpos] at he
      cases he

/-- A leader that has not announced a round finds none. -/
theorem CrowdInv.lead_error (hi : CrowdInv s) {l : Lead} {hb : HbController} {e : Fault}
    (hl : (s.thr t).leading = some l) (he : leadStep t s.sh hb l = .error e) : e = .abort := by
  obtain ⟨page, isStatic, pc⟩ := l
  cases pc with
  | assertIdle =>
      rcases hi.round with hq | ⟨c, l, old, new, hbusy⟩
      · simp only [leadStep] at he
        rw [if_neg (not_not_intro hq.controller), if_neg (not_not_intro hq.count),
          if_neg (not_not_intro hq.page)] at he
        cases he
      · obtain rfl := hi.leader_unique hbusy hl
        exact absurd rfl (Option.some.inj (hl.symm.trans hbusy.leading) ▸ hbusy.stage)
  | kill rest =>
      cases rest with
      | nil => cases he
      | cons u rest =>
          simp only [leadStep] at he
          split at he
          · cases he
          · split at he <;> cases he
            rfl
  | addOwn =>
      simp only [leadStep] at he
      split at he <;> cases he
      rfl
  | lockSync | checkExec | awaitFirst | awaitSecond =>
      simp only [leadStep] at he
      split at he <;> cases he
  | storeController | storePage | copyGlobal | raiseFirst | clearPage | raiseSecond
  | clearController | unlockSync => cases he

/-- A thread that edits the active list finds no controller. -/
theorem CrowdInv.no_controller (hi : CrowdInv s) (hs : (s.thr t).main.holdsSync = true) :
    s.sh.controllerThread = none := by
  rcases hi.round with hq | ⟨c, l, old, new, hb⟩
  · exact hq.controller
  · cases (hi.no_edit hb).symm.trans hs

theorem except_map_error {ε α β : Type} {f : α → β} {x : Except ε α} {e : ε}
    (h : x.map f = .error e) : x = .error e := by
  cases x with
  | error e' =>
      cases h
      rfl
  | ok a => cases h

theorem CrowdInv.hand_error (hi : CrowdInv s) {h : HandPc} {call : Option (UnsafePage × Bool)}
    {e : Fault} (hand : (s.thr t).hand = some h)
    (he : handStep t s.sh (s.thr t).hb call h = .error e) : e = .nullPage ∨ e = .abort := by
  cases h with
  | entry cause =>
      cases cause <;> rw [handStep] at he <;> split at he <;> cases he
  | compare address =>
      rw [handStep] at he
      split at he
      · cases he
        exact .inl rfl
      · split at he <;> cases he
  | follow f next =>
      rw [handStep] at he
      have hf : (s.thr t).following = some f := by
        rw [Thread.following, hand]
        rfl
      exact .inr (hi.follow_error hf (except_map_error he))
  | tryLock | checkController | lockSegv =>
      rw [handStep] at he
      split at he <;> cases he
  | handling => cases call <;> cases he
  | lead l =>
      rw [handStep] at he
      exact .inr (hi.lead_error (by rw [Thread.leading, hand]; rfl) (except_map_error he))
  | unlockSegv => cases he

theorem CrowdInv.main_error (hi : CrowdInv s) {e : Fault}
    (he : mainStep t s.sh (s.thr t).hb (s.thr t).main = .error e) : e = .abort := by
  have hcontroller := hi.no_controller (t := t)
  cases hm : (s.thr t).main with
  | leaveFollow f =>
      rw [hm, mainStep] at he
      have hf : (s.thr t).following = some f := by
        rw [Thread.following, hm, (hi.locals t).uninterrupted (by rw [hm]; rfl)]
        rfl
      exact hi.follow_error hf (except_map_error he)
  | leaveAssert | enterAssert =>
      rw [hm] at hcontroller
      rw [hm, mainStep, if_pos (hcontroller rfl)] at he
      cases he
  | leaveRemove | enterCopy | enterAppend =>
      rw [hm, mainStep] at he
      split at he <;> cases he
      rfl
  | leaveTry | leaveCheck | enterTry =>
      rw [hm, mainStep] at he
      split at he <;> cases he
  | out | run | leaveMask | leaveUnlock | enterUnlock | heapCopy | heapSwitch _ =>
      rw [hm] at he
      cases he

theorem CrowdInv.step_error (hi : CrowdInv s) {a : CrowdAct} {e : Fault}
    (he : s.step a = .error e) : e = .nullPage ∨ e = .abort := by
  cases a with
  | step t call =>
      have he := except_map_error he
      unfold Thread.step at he
      split at he
      · exact hi.hand_error ‹_› (except_map_error he)
      · exact .inr (hi.main_error (except_map_error he))
  | _ => cases he

/-! ## Agreement -/

/-- What a round promises. `once` looks at the leader right after its first
wait; `same` at any time no round is on or the current one has been released. -/
structure Agreement (s : Crowd) : Prop where
  asserts : ∀ a e, s.step a = .error e →
    e ≠ .countAssert ∧ e ≠ .pageAssert ∧ e ≠ .controllerAssert
  once : ∀ c l, (s.thr c).hand = some (.lead l) → l.pc = .clearPage →
    ∀ t ∈ s.sh.activeThreadList, t ≠ c → s.sh.joined t = [l.page]
  same : s.sh.controllerThread = none →
    ∀ t ∈ s.sh.activeThreadList, (s.thr t).hb = s.sh.globalHbreakpointController

theorem CrowdInv.once (hi : CrowdInv s) {c : Tid} {l : Lead}
    (hl : (s.thr c).leading = some l) (hpc : l.pc = .clearPage) :
    ∀ t ∈ s.sh.activeThreadList, t ≠ c → s.sh.joined t = [l.page] := by
  rcases hi.round with hq | ⟨c', l', old, new, hb⟩
  · have hst := hq.leads c l hl
    rw [hpc] at hst
    cases hst
  · obtain rfl := hi.leader_unique hb hl
    obtain rfl : l = l' := Option.some.inj (hl.symm.trans hb.leading)
    intro t ht htc
    have hm := hb.members t ht htc
    rw [hpc] at hm
    exact hm.2.1

theorem CrowdInv.same (hi : CrowdInv s) (hc : s.sh.controllerThread = none) :
    ∀ t ∈ s.sh.activeThreadList, (s.thr t).hb = s.sh.globalHbreakpointController := by
  rcases hi.round with hq | ⟨c, l, old, new, hb⟩
  · exact hq.agree
  · intro t ht
    have hpc : l.pc = .awaitSecond := by
      by_contra hne
      have hctl := hb.controller
      rw [hc, if_neg hne] at hctl
      cases hctl
    have hglobal := hb.global
    rw [hpc] at hglobal
    refine Eq.trans ?_ hglobal.symm
    by_cases htc : t = c
    · have hown := hb.own
      rw [hpc] at hown
      rw [htc]
      exact hown
    · have hm := hb.members t ht htc
      rw [hpc] at hm
      exact hm.2

theorem crowdRun_agreement {active : List Tid} {hb : HbController} (hn : active.Nodup)
    (hrun : CrowdRun (fun s a => a.Tame s) (.start active hb) s) : Agreement s := by
  have hi := hrun.inv hn
  refine ⟨?_, ?_, hi.same⟩
  · intro a e he
    rcases hi.step_error he with rfl | rfl <;> exact ⟨nofun, nofun, nofun⟩
  · intro c l hl
    exact hi.once (by rw [Thread.leading, hl]; rfl)

end

/-- Runs the acts in order, as long as each is allowed and satisfies `P`. -/
def Crowd.runActs (P : Crowd → CrowdAct → Prop) [∀ s a, Decidable (P s a)] :
    List CrowdAct → Crowd → Option Crowd
  | [], s => some s
  | a :: rest, s =>
      if a.Allowed s ∧ P s a then
        match s.step a with
        | .ok s' => runActs P rest s'
        | .error _ => none
      else none

theorem Crowd.runActs_run {P : Crowd → CrowdAct → Prop} [∀ s a, Decidable (P s a)]
    {s₀ s s' : Crowd} {acts : List CrowdAct} (hrun : CrowdRun P s₀ s)
    (h : runActs P acts s = some s') : CrowdRun P s₀ s' := by
  induction acts generalizing s with
  | nil =>
      cases h
      exact hrun
  | cons a rest ih =>
      rw [runActs] at h
      split at h
      · rename_i hok
        split at h
        · exact ih (hrun.step hok.1 hok.2 ‹_›) h
        · cases h
      · cases h

/-- One unsafe instruction on an otherwise harmless page. -/
def oneInstructionPage : UnsafePage :=
  { address := 0x7000, trustedPage := false, currentPerm := PROT_READ
    desiredPerm := PROT_READ ||| PROT_EXEC
    unsafeInstructions := some [0x7010], unsafeInstructionsSize := 1 }

/-- Thread 1 faults on the page and leads a round up to its first wait. -/
def leadToFirstWait : List CrowdAct :=
  .fault 1 0x7010 ::
    List.replicate 2 (.step 1 none) ++ .step 1 (some (oneInstructionPage, false)) ::
    List.replicate 11 (.step 1 none)

/-- Thread 2 answers the signal and checks in. -/
def answerSignal : List CrowdAct :=
  .deliver 2 :: List.replicate 5 (.step 2 none)

theorem crowdRun_agreement_round :
    ∃ s, CrowdRun (fun s a => a.Tame s) (.start [1, 2] .init) s ∧
      (s.thr 1).hand = some (.lead ⟨oneInstructionPage, false, .clearPage⟩) ∧ Agreement s := by
  have h : ((Crowd.start [1, 2] .init).runActs (fun s a => a.Tame s)
      (leadToFirstWait ++ answerSignal ++ [.step 1 none])).map (fun s => (s.thr 1).hand) =
      some (some (.lead ⟨oneInstructionPage, false, .clearPage⟩)) := by
    decide +kernel
  obtain ⟨s, hs, hhand⟩ := Option.map_eq_some_iff.mp h
  have hrun := Crowd.runActs_run .start hs
  exact ⟨s, hrun, hhand, crowdRun_agreement (by decide) hrun⟩

/-- Thread 2 leaves while thread 1 waits for it, and has just passed the first
loop of its follower call when the signal arrives. The handler follows the
round to its end; the outer call then finds the page gone. -/
theorem crowdRun_disagreement :
    ∃ s, CrowdRun (fun _ _ => True) (.start [1, 2] .init) s ∧ ¬ Agreement s := by
  have h : ((Crowd.start [1, 2] .init).runActs (fun _ _ => True)
      (leadToFirstWait ++ .leave 2 :: List.replicate 3 (.step 2 none) ++ answerSignal ++
        List.replicate 5 (.step 1 none) ++ List.replicate 2 (.step 2 none))).map
      (fun s => match s.step (.step 2 none) with
        | .ok _ => none
        | .error e => some e) = some (some .pageAssert) := by
    decide +kernel
  obtain ⟨s, hs, herr⟩ := Option.map_eq_some_iff.mp h
  refine ⟨s, Crowd.runActs_run .start hs, ?_⟩
  intro hagree
  split at herr
  · cases herr
  · rename_i e he
    cases herr
    exact (hagree.asserts _ _ he).2.1 rfl

/-- During a round there is one leader, its followers are other active threads, and nobody
edits the list of active threads. -/
theorem crowdRun_one_round {active : List Tid} {hb : HbController} {s : Crowd} {c : Tid} {l : Lead}
    (hn : active.Nodup) (hrun : CrowdRun (fun s a => a.Tame s) (.start active hb) s)
    (hl : (s.thr c).leading = some l) (hstage : l.pc.stage ≠ .quiet) :
    (∀ t l', (s.thr t).leading = some l' → t = c) ∧
      (∀ t, (s.thr t).following ≠ none → t ∈ s.sh.activeThreadList ∧ t ≠ c) ∧
      ∀ t, (s.thr t).main.holdsSync = false := by
  have hi := hrun.inv hn
  rcases hi.round with hq | ⟨c', l', old, new, hbusy⟩
  · exact absurd (hq.leads c l hl) hstage
  · obtain rfl := hi.leader_unique hbusy hl
    exact ⟨fun _ _ => hi.leader_unique hbusy, hbusy.followers, fun _ => hi.no_edit hbusy⟩

theorem crowdRun_one_round_waiting :
    ∃ s, CrowdRun (fun s a => a.Tame s) (.start [1, 2] .init) s ∧
      ∀ t l, (s.thr t).leading = some l → t = 1 := by
  have h : ((Crowd.start [1, 2] .init).runActs (fun s a => a.Tame s) leadToFirstWait).map
      (fun s => (s.thr 1).leading) = some (some ⟨oneInstructionPage, false, .awaitFirst⟩) := by
    decide +kernel
  obtain ⟨s, hs, hlead⟩ := Option.map_eq_some_iff.mp h
  have hrun := Crowd.runActs_run .start hs
  exact ⟨s, hrun, (crowdRun_one_round (by decide) hrun hlead nofun).1⟩

end Secpoline
