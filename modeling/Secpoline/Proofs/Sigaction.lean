import Mathlib.Data.List.Infix
import Secpoline.Model.Sigaction

/-!
# What the application sees of its signal actions, and what it can do to the monitor's

Two questions about sequences of `rt_sigaction`. Is the old action handed back
the one the application set last? And do the kernel's actions for SIGSYS, SIGSEGV
and SIGTRAP stay what start-up made them?

For every signal but the last two the answers are yes, by one equation for the
whole call. For SIGSEGV and SIGTRAP `handle_app_sigaction` stores the new action
and then falls through into the generic part, which stores it again: the second
time round, the old action it reports is the new one. If the action is SIG_IGN or
SIG_DFL, the filter in `meta_monitor` has edited its flags in between. If it is a
handler, the kernel's action is replaced by one with the application's flags and
mask.
-/

namespace Secpoline

/-! ## The nested system call -/

theorem kernelSigaction_none (table : SigTable) (signo : Nat) :
    kernelSigaction table signo none = (if kernelAccepts signo none then 0 else einval, table) := by
  rw [kernelSigaction]
  split <;> rfl

theorem nolibcRtSigaction_none (s : Signals) (signo : Nat) :
    s.nolibcRtSigaction signo none = (if kernelAccepts signo none then 0 else einval, s, none) := by
  rw [Signals.nolibcRtSigaction]
  · rw [kernelSigaction_none]
  · intro act _ h
    cases h

theorem nolibcRtSigaction_plain {s : Signals} {signo : Nat} {newact : Option KernelSigaction}
    (hguard : isGuardSignal signo = false) :
    s.nolibcRtSigaction signo newact =
      ((kernelSigaction s.kernel signo newact).1,
        { s with kernel := (kernelSigaction s.kernel signo newact).2 }, newact) := by
  rw [Signals.nolibcRtSigaction]
  intro act h
  rw [hguard] at h
  cases h

/-- `meta_monitor` turns a change it does not allow into a query. -/
theorem nolibcRtSigaction_filtered {s : Signals} {signo : Nat} {act : KernelSigaction}
    (hsigno : signo = sigsegv ∨ signo = sigtrap) (hact : act.handler ≠ s.asmSignalEntry) :
    s.nolibcRtSigaction signo (some act) = (0, s, some act.metaCleared) := by
  obtain rfl | rfl := hsigno <;> exact if_pos hact

theorem nolibcRtSigaction_entry {s : Signals} {signo : Nat} {act : KernelSigaction}
    (hsigno : signo = sigsegv ∨ signo = sigtrap) (hact : act.handler = s.asmSignalEntry) :
    s.nolibcRtSigaction signo (some act) =
      (0, { s with kernel := Function.update s.kernel signo act.stored }, some act) := by
  obtain rfl | rfl := hsigno <;> exact if_neg (not_not.mpr hact)

/-! ## One call -/

theorem kernelAccepts_lt {signo : Nat} {newact : Option KernelSigaction}
    (h : kernelAccepts signo newact = true) : signo < nsig := by
  rw [kernelAccepts, Bool.and_eq_true, decide_eq_true_eq] at h
  exact h.1.2

theorem getAppHandler_of_lt {s : Signals} {signo : Nat} (h : signo < nsig) :
    s.getAppHandler signo = some (s.appHandlers signo) :=
  if_pos h

theorem reportAppHandler_of_lt {s : Signals} {signo : Nat} {oldact : Bool}
    {written : Option KernelSigaction} (h : signo < nsig) :
    s.reportAppHandler signo oldact written =
      some (reportOld oldact (s.appHandlers signo) written) := by
  rw [Signals.reportAppHandler, reportOld, getAppHandler_of_lt h]
  split <;> rfl

theorem setAppHandler_of_lt {s : Signals} {signo : Nat} {newact : KernelSigaction}
    (h : signo < nsig) :
    s.setAppHandler signo newact =
      some (s.appHandlers signo,
        { s with appHandlers := Function.update s.appHandlers signo newact }) := by
  rw [Signals.setAppHandler, getAppHandler_of_lt h]

theorem exchange_of_lt {s : Signals} {signo : Nat} {newact : KernelSigaction} {result : Int}
    {oldact : Bool} {written : Option KernelSigaction} (h : signo < nsig) :
    s.exchange signo newact result oldact written =
      some ⟨{ s with appHandlers := Function.update s.appHandlers signo newact }, result,
        reportOld oldact (s.appHandlers signo) written⟩ := by
  rw [Signals.exchange, setAppHandler_of_lt h]

/-- The table after a call that records a new action. -/
def SigTable.record (table : SigTable) (signo : Nat) : Option KernelSigaction → SigTable
  | none => table
  | some act => Function.update table signo act

/-- The kernel's table after a call on a signal of no concern to the monitor. -/
def Signals.kernelAfter (s : Signals) (signo : Nat) : Option KernelSigaction → SigTable
  | none => s.kernel
  | some act =>
      Function.update s.kernel signo
        (if act.handler = sigIgn ∨ act.handler = sigDfl then act
          else act.wrapped s.asmSignalEntry).stored

theorem kernelSigaction_accepted {table : SigTable} {signo : Nat} {act : KernelSigaction}
    (h : kernelAccepts signo (some act) = true) :
    kernelSigaction table signo (some act) = (0, Function.update table signo act.stored) := by
  rw [kernelSigaction, if_pos h]

/-- A call on a signal of no concern to the monitor that the kernel accepts. -/
theorem sigactionGeneric_accepted {s : Signals} {signo : Nat} {newact : Option KernelSigaction}
    {oldact : Bool} (hguard : isGuardSignal signo = false)
    (h : kernelAccepts signo newact = true) :
    s.sigactionGeneric signo newact oldact none =
      some ⟨{ s with
          kernel := s.kernelAfter signo newact
          appHandlers := s.appHandlers.record signo newact }, 0,
        reportOld oldact (s.appHandlers signo) none⟩ := by
  have hlt := kernelAccepts_lt h
  cases newact with
  | none =>
      simp only [Signals.sigactionGeneric, Signals.sigactionIgnored, nolibcRtSigaction_none, h,
        reportAppHandler_of_lt hlt]
      rfl
  | some act =>
      rw [Signals.sigactionGeneric]
      split
      · rename_i hign
        simp only [Signals.sigactionIgnored, nolibcRtSigaction_plain hguard,
          kernelSigaction_accepted h, reportAppHandler_of_lt hlt, setAppHandler_of_lt hlt,
          Signals.kernelAfter, hign, true_or, if_true]
        rfl
      · rename_i hign
        split
        · rename_i hdfl
          simp only [Signals.sigactionDefault, nolibcRtSigaction_plain hguard,
            kernelSigaction_accepted h, exchange_of_lt hlt, Signals.kernelAfter, hdfl, or_true,
            if_true]
          rfl
        · rename_i hdfl
          have hwrap : kernelAccepts signo (some (act.wrapped s.asmSignalEntry)) = true := h
          simp only [Signals.sigactionWrapped, nolibcRtSigaction_plain hguard,
            kernelSigaction_accepted hwrap, exchange_of_lt hlt, Signals.kernelAfter,
            hign, hdfl, or_self, if_false]
          rfl

/-- A call that the kernel refuses changes nothing and reports nothing. -/
theorem sigactionGeneric_refused {s : Signals} {signo : Nat} {newact : Option KernelSigaction}
    {oldact : Bool} (hguard : isGuardSignal signo = false)
    (h : kernelAccepts signo newact = false) :
    s.sigactionGeneric signo newact oldact none = some ⟨s, einval, none⟩ := by
  cases newact with
  | none =>
      simp only [Signals.sigactionGeneric, Signals.sigactionIgnored, nolibcRtSigaction_none, h]
      rfl
  | some act =>
      -- Whether the kernel accepts does not depend on what the action is.
      have hk : ∀ act', kernelSigaction s.kernel signo (some act') = (einval, s.kernel) := by
        intro act'
        have hact' : kernelAccepts signo (some act') = false := h
        rw [kernelSigaction, hact']
        rfl
      rw [Signals.sigactionGeneric]
      split
      · simp only [Signals.sigactionIgnored, nolibcRtSigaction_plain hguard, hk]
        rfl
      · split
        · simp only [Signals.sigactionDefault, nolibcRtSigaction_plain hguard, hk]
          rfl
        · simp only [Signals.sigactionWrapped, nolibcRtSigaction_plain hguard, hk]
          rfl

/-- What ends up in the application's table for SIGSEGV and SIGTRAP. -/
def KernelSigaction.kept (act : KernelSigaction) : KernelSigaction :=
  if act.handler = sigIgn ∨ act.handler = sigDfl then act.noResethand.metaCleared
  else act.noResethand

/-- The kernel's table after a new action for SIGSEGV or SIGTRAP. -/
def Signals.kernelAfterGuard (s : Signals) (signo : Nat) (act : KernelSigaction) : SigTable :=
  if act.handler = sigIgn ∨ act.handler = sigDfl then s.kernel
  else Function.update s.kernel signo (act.noResethand.wrapped s.asmSignalEntry).stored

/-- The monitor's entry point is a real address. -/
def Signals.EntryValid (s : Signals) : Prop :=
  s.asmSignalEntry ≠ sigIgn ∧ s.asmSignalEntry ≠ sigDfl

/-- The second half of the fall-through, after the new action has been stored. -/
theorem sigactionGeneric_guard {s : Signals} {signo : Nat} {act : KernelSigaction} {oldact : Bool}
    {written : Option KernelSigaction} (hentry : s.EntryValid)
    (hsigno : signo = sigsegv ∨ signo = sigtrap) :
    s.sigactionGeneric signo (some act.noResethand) oldact written =
      some ⟨{ s with
          kernel := s.kernelAfterGuard signo act
          appHandlers := Function.update s.appHandlers signo act.kept }, 0,
        reportOld oldact (s.appHandlers signo) written⟩ := by
  have hlt : signo < nsig := by
    obtain rfl | rfl := hsigno <;> decide
  rw [Signals.sigactionGeneric]
  split
  · rename_i hign
    have hign' : act.handler = sigIgn := hign
    have hne : act.noResethand.handler ≠ s.asmSignalEntry := by
      rw [hign]
      exact hentry.1.symm
    simp only [Signals.sigactionIgnored, nolibcRtSigaction_filtered hsigno hne,
      reportAppHandler_of_lt hlt, setAppHandler_of_lt hlt, Signals.kernelAfterGuard,
      KernelSigaction.kept, hign', true_or, if_true]
    rfl
  · rename_i hign
    have hign' : act.handler ≠ sigIgn := hign
    split
    · rename_i hdfl
      have hdfl' : act.handler = sigDfl := hdfl
      have hne : act.noResethand.handler ≠ s.asmSignalEntry := by
        rw [hdfl]
        exact hentry.2.symm
      simp only [Signals.sigactionDefault, nolibcRtSigaction_filtered hsigno hne,
        exchange_of_lt hlt, Signals.kernelAfterGuard, KernelSigaction.kept, hdfl', or_true, if_true]
      rfl
    · rename_i hdfl
      have hdfl' : act.handler ≠ sigDfl := hdfl
      have hwrap : (act.noResethand.wrapped s.asmSignalEntry).handler = s.asmSignalEntry := rfl
      simp only [Signals.sigactionWrapped, nolibcRtSigaction_entry hsigno hwrap, exchange_of_lt hlt,
        Signals.kernelAfterGuard, KernelSigaction.kept, hign', hdfl', or_self, if_false]
      rfl

/-- A new action for SIGSEGV or SIGTRAP: what is reported is not the old action but
the new one. -/
theorem sigactionGuard_set {s : Signals} {signo : Nat} {act : KernelSigaction} {oldact : Bool}
    (hentry : s.EntryValid) (hsigno : signo = sigsegv ∨ signo = sigtrap) :
    s.sigactionGuard signo (some act) oldact =
      some ⟨{ s with
          kernel := s.kernelAfterGuard signo act
          appHandlers := Function.update s.appHandlers signo act.kept }, 0,
        reportOld oldact act.noResethand none⟩ := by
  have hlt : signo < nsig := by
    obtain rfl | rfl := hsigno <;> decide
  have haccepts : kernelAccepts signo none = true := by
    obtain rfl | rfl := hsigno <;> decide
  have hentry' : Signals.EntryValid
      { s with appHandlers := Function.update s.appHandlers signo act.noResethand } := hentry
  simp only [Signals.sigactionGuard, nolibcRtSigaction_none, haccepts, exchange_of_lt hlt, if_true]
  rw [sigactionGeneric_guard hentry' hsigno]
  simp only [Signals.kernelAfterGuard, Function.update_idem, Function.update_self, reportOld]
  cases oldact <;> rfl

theorem sigactionGuard_query {s : Signals} {signo : Nat} {oldact : Bool}
    (hsigno : signo = sigsegv ∨ signo = sigtrap) :
    s.sigactionGuard signo none oldact =
      some ⟨s, 0, reportOld oldact (s.appHandlers signo) none⟩ := by
  have hlt : signo < nsig := by
    obtain rfl | rfl := hsigno <;> decide
  have haccepts : kernelAccepts signo none = true := by
    obtain rfl | rfl := hsigno <;> decide
  simp only [Signals.sigactionGuard, nolibcRtSigaction_none, haccepts, if_true,
    reportAppHandler_of_lt hlt]
  rfl

/-! ## The ideal table -/

/-- A call that changes the action of one of the two signals the monitor handles
before the application does. -/
def SigactionCall.SetsGuard (c : SigactionCall) (act : KernelSigaction) : Prop :=
  (c.signo = sigsegv ∨ c.signo = sigtrap) ∧ c.newact = some act

/-- What an ideal table hands back. -/
def SigactionCall.handedBack (c : SigactionCall) (table : SigTable) : Option KernelSigaction :=
  if c.oldact then some (table c.signo) else none

/-- A call that returns 0, on a signal other than SIGSYS: for SIGSEGV and SIGTRAP a
new action is reported and stored in an edited form, and in every other case the
call does what an ideal table does. -/
theorem Signals.serve_cases {s : Signals} {c : SigactionCall} {e : SigactionEffect}
    (hentry : s.EntryValid) (hsys : c.signo ≠ sigsys) (h : s.serve c = some e)
    (hzero : e.result = 0) :
    e.signals.asmSignalEntry = s.asmSignalEntry ∧ 1 ≤ c.signo ∧ c.signo < nsig ∧
      ((∃ act, c.SetsGuard act ∧
          e.oldact = reportOld c.oldact act.noResethand none ∧
          e.signals.appHandlers = Function.update s.appHandlers c.signo act.kept) ∨
        (∀ act, ¬ c.SetsGuard act) ∧
          e.oldact = reportOld c.oldact (s.appHandlers c.signo) none ∧
          e.signals.appHandlers = s.appHandlers.record c.signo c.newact) := by
  rw [Signals.serve, Signals.handleAppSigaction] at h
  split at h
  · rename_i hrange
    split at h
    · rename_i hsigno
      have hlt : c.signo < nsig := by
        obtain hc | hc := hsigno <;> rw [hc] <;> decide
      cases hnew : c.newact with
      | none =>
          rw [hnew, sigactionGuard_query hsigno] at h
          cases h
          exact ⟨rfl, hrange.1, hlt,
            .inr ⟨fun act hset => Option.some_ne_none act (hset.2.symm.trans hnew), rfl, rfl⟩⟩
      | some act =>
          rw [hnew, sigactionGuard_set hentry hsigno] at h
          cases h
          exact ⟨rfl, hrange.1, hlt, .inl ⟨act, ⟨hsigno, hnew⟩, rfl, rfl⟩⟩
    · rename_i hsigno
      have hguard : isGuardSignal c.signo = false := by
        rw [not_or] at hsigno
        simp [isGuardSignal, hsigno.1, hsigno.2, hsys]
      cases haccepts : kernelAccepts c.signo c.newact with
      | false =>
          rw [sigactionGeneric_refused hguard haccepts] at h
          cases h
          have heinval : einval ≠ 0 := by decide
          exact absurd hzero heinval
      | true =>
          rw [sigactionGeneric_accepted hguard haccepts] at h
          cases h
          exact ⟨rfl, hrange.1, kernelAccepts_lt haccepts,
            .inr ⟨fun act hset => hsigno hset.1, rfl, rfl⟩⟩
  · cases h

/-- A query of any signal but SIGSYS, if it returns 0, hands back what the table
says. -/
def Signals.Reports (s : Signals) (table : SigTable) : Prop :=
  ∀ signo e, signo ≠ sigsys → s.handleAppSigaction signo none true = some e → e.result = 0 →
    e.oldact = some (table signo)

theorem Signals.reports_iff {s : Signals} {table : SigTable} (hentry : s.EntryValid) :
    s.Reports table ↔
      ∀ signo, 1 ≤ signo → signo < nsig → signo ≠ sigsys → s.appHandlers signo = table signo := by
  constructor
  · intro h signo hpos hlt hsys
    have haccepts : kernelAccepts signo none = true := by
      simp [kernelAccepts, hpos, hlt]
    have hrange : 0 < signo ∧ signo < 128 := ⟨hpos, lt_trans hlt (by decide)⟩
    have hquery : s.handleAppSigaction signo none true =
        some ⟨s, 0, some (s.appHandlers signo)⟩ := by
      rw [Signals.handleAppSigaction, if_pos hrange, if_neg hsys]
      split
      · rename_i hsigno
        rw [sigactionGuard_query hsigno]
        rfl
      · rename_i hsigno
        have hguard : isGuardSignal signo = false := by
          rw [not_or] at hsigno
          simp [isGuardSignal, hsigno.1, hsigno.2, hsys]
        rw [sigactionGeneric_accepted hguard haccepts]
        rfl
    exact Option.some.inj (h signo _ hsys hquery rfl)
  · intro h signo e hsys hquery hzero
    have hserve : s.serve ⟨signo, none, true⟩ = some e := hquery
    obtain ⟨-, hpos, hlt, ⟨act, hset, -⟩ | ⟨-, hold, -⟩⟩ :=
      Signals.serve_cases hentry hsys hserve hzero
    · cases hset.2
    · rw [hold]
      exact congrArg some (h signo hpos hlt hsys)

/-- Every call of the sequence returns 0. -/
def Signals.AllReturnZero (s : Signals) : List SigactionCall → Prop
  | [] => True
  | c :: rest => ∃ e, s.serve c = some e ∧ e.result = 0 ∧ e.signals.AllReturnZero rest

/-- The calls hand back what an ideal table does, and so would a query of any
signal before, between and after them. -/
def Signals.Refines (s : Signals) (table : SigTable) : List SigactionCall → Prop
  | [] => s.Reports table
  | c :: rest =>
      s.Reports table ∧
        ∀ e, s.serve c = some e →
          e.oldact = c.handedBack table ∧ e.signals.Refines (table.record c.signo c.newact) rest

/-- The call leaves nothing for SIGSEGV or SIGTRAP that would be edited, and does
not ask for an old action that differs from the new one. -/
def SigactionCall.Kept (c : SigactionCall) (table : SigTable) : Prop :=
  ∀ act, c.SetsGuard act →
    act.flags &&& ~~~notSaResethand = 0 ∧
    (act.handler = sigIgn ∨ act.handler = sigDfl →
      act.flags &&& (saSiginfo ||| saOnstack ||| saNodefer) = 0) ∧
    (c.oldact = true → act = table c.signo)

def AllKept (table : SigTable) : List SigactionCall → Prop
  | [] => True
  | c :: rest => c.Kept table ∧ AllKept (table.record c.signo c.newact) rest

/-! ## Flags that survive -/

theorem and_not_eq_self {x m : BitVec 64} : x &&& ~~~m = x ↔ x &&& m = 0 := by
  constructor
  · intro h
    rw [← h, BitVec.and_assoc]
    simp
  · intro h
    apply BitVec.eq_of_getLsbD_eq
    intro i hi
    have hbit : (x &&& m).getLsbD i = false := by
      rw [h]
      simp
    rw [BitVec.getLsbD_and] at hbit ⊢
    rw [BitVec.getLsbD_not, decide_eq_true hi, Bool.true_and]
    cases hx : x.getLsbD i with
    | false => rfl
    | true =>
        rw [hx, Bool.true_and] at hbit
        rw [hbit]
        rfl

theorem KernelSigaction.noResethand_eq_self {act : KernelSigaction} :
    act.noResethand = act ↔ act.flags &&& ~~~notSaResethand = 0 := by
  rw [← and_not_eq_self, BitVec.not_not, KernelSigaction.noResethand]
  constructor
  · intro h
    exact congrArg KernelSigaction.flags h
  · intro h
    rw [h]

theorem KernelSigaction.kept_eq_self {act : KernelSigaction} :
    act.kept = act ↔
      act.flags &&& ~~~notSaResethand = 0 ∧
      (act.handler = sigIgn ∨ act.handler = sigDfl →
        act.flags &&& (saSiginfo ||| saOnstack ||| saNodefer) = 0) := by
  rw [KernelSigaction.kept]
  split
  · rename_i hplain
    -- Clearing the four flags one after the other is clearing their union.
    have hunion : notSaResethand &&& notSaResethand &&& ~~~saSiginfo &&& ~~~saOnstack &&&
        ~~~saNodefer = ~~~(~~~notSaResethand ||| (saSiginfo ||| saOnstack ||| saNodefer)) := by
      decide
    have hflags : act.noResethand.metaCleared = act ↔
        act.flags &&& (~~~notSaResethand ||| (saSiginfo ||| saOnstack ||| saNodefer)) = 0 := by
      rw [← and_not_eq_self, ← hunion, KernelSigaction.metaCleared, KernelSigaction.noResethand]
      simp only [← BitVec.and_assoc]
      constructor
      · intro h
        exact congrArg KernelSigaction.flags h
      · intro h
        rw [h]
    have hzero : act.flags &&& ~~~notSaResethand |||
        act.flags &&& (saSiginfo ||| saOnstack ||| saNodefer) = 0 ↔
          act.flags &&& ~~~notSaResethand = 0 ∧
            act.flags &&& (saSiginfo ||| saOnstack ||| saNodefer) = 0 :=
      BitVec.or_eq_zero_iff
    rw [hflags, BitVec.and_or_distrib_left, hzero]
    exact and_congr_right fun _ => ⟨fun h _ => h, fun h => h hplain⟩
  · rename_i hplain
    rw [KernelSigaction.noResethand_eq_self]
    exact ⟨fun h => ⟨h, fun h' => absurd h' hplain⟩, fun h => h.1⟩

/-! ## Sequences of calls -/

/-- One call agrees with the ideal table, and leaves one that still does, exactly if
it is `Kept`. -/
theorem Signals.serve_refines_iff {s : Signals} {table : SigTable} {c : SigactionCall}
    {e : SigactionEffect} (hentry : s.EntryValid) (hsys : c.signo ≠ sigsys)
    (hreports : s.Reports table) (h : s.serve c = some e) (hzero : e.result = 0) :
    (e.oldact = c.handedBack table ∧ e.signals.Reports (table.record c.signo c.newact)) ↔
      c.Kept table := by
  obtain ⟨hsame, hpos, hlt, hcases⟩ := Signals.serve_cases hentry hsys h hzero
  have hentry' : e.signals.EntryValid := by
    rw [Signals.EntryValid, hsame]
    exact hentry
  rw [Signals.reports_iff hentry] at hreports
  rw [Signals.reports_iff hentry']
  obtain ⟨act, hset, hold, happ⟩ | ⟨hset, hold, happ⟩ := hcases
  · have hkept : c.Kept table ↔ act.kept = act ∧ (c.oldact = true → act = table c.signo) := by
      rw [KernelSigaction.kept_eq_self, and_assoc]
      constructor
      · intro hk
        exact hk act hset
      · intro hk act' hset'
        rw [Option.some.inj (hset'.2.symm.trans hset.2)]
        exact hk
    have happ_iff : (∀ signo, 1 ≤ signo → signo < nsig → signo ≠ sigsys →
        e.signals.appHandlers signo = table.record c.signo c.newact signo) ↔ act.kept = act := by
      rw [happ, hset.2]
      constructor
      · intro hall
        have hc := hall c.signo hpos hlt hsys
        rw [SigTable.record, Function.update_self, Function.update_self] at hc
        exact hc
      · intro hk signo hp hl hs
        rw [SigTable.record, hk]
        by_cases hsigno : signo = c.signo
        · rw [hsigno, Function.update_self, Function.update_self]
        · rw [Function.update_of_ne hsigno, Function.update_of_ne hsigno]
          exact hreports signo hp hl hs
    rw [happ_iff, hkept, and_comm]
    refine and_congr_right fun hk => ?_
    have hno : act.noResethand = act :=
      KernelSigaction.noResethand_eq_self.mpr (KernelSigaction.kept_eq_self.mp hk).1
    rw [hold, hno, SigactionCall.handedBack, reportOld]
    cases c.oldact with
    | false => simp
    | true => simp
  · constructor
    · intro _ act hact
      exact absurd hact (hset act)
    · intro _
      constructor
      · rw [hold, hreports c.signo hpos hlt hsys]
        rfl
      · intro signo hp hl hs
        rw [happ]
        cases hnew : c.newact with
        | none => exact hreports signo hp hl hs
        | some act =>
            rw [SigTable.record, SigTable.record]
            by_cases hsigno : signo = c.signo
            · rw [hsigno, Function.update_self, Function.update_self]
            · rw [Function.update_of_ne hsigno, Function.update_of_ne hsigno]
              exact hreports signo hp hl hs

theorem Signals.refines_iff {s : Signals} {table : SigTable} {calls : List SigactionCall}
    (hentry : s.EntryValid) (hreports : s.Reports table)
    (hsys : ∀ c ∈ calls, c.signo ≠ sigsys) (hzero : s.AllReturnZero calls) :
    s.Refines table calls ↔ AllKept table calls := by
  induction calls generalizing s table with
  | nil => exact ⟨fun _ => trivial, fun _ => hreports⟩
  | cons c rest ih =>
      obtain ⟨e, hserve, hresult, hrest⟩ := hzero
      have hc := hsys c (List.mem_cons_self ..)
      have hentry' : e.signals.EntryValid := by
        rw [Signals.EntryValid, (Signals.serve_cases hentry hc hserve hresult).1]
        exact hentry
      have hstep := Signals.serve_refines_iff hentry hc hreports hserve hresult
      have hsys' : ∀ c ∈ rest, c.signo ≠ sigsys := fun c' h => hsys c' (List.mem_cons_of_mem _ h)
      rw [Signals.Refines, AllKept]
      constructor
      · intro h
        obtain ⟨hold, hmore⟩ := h.2 e hserve
        have hreports' : e.signals.Reports (table.record c.signo c.newact) := by
          cases rest with
          | nil => exact hmore
          | cons c' rest' => exact hmore.1
        exact ⟨hstep.mp ⟨hold, hreports'⟩, (ih hentry' hreports' hsys' hrest).mp hmore⟩
      · intro h
        obtain ⟨hold, hreports'⟩ := hstep.mpr h.1
        refine ⟨hreports, fun e' hserve' => ?_⟩
        rw [Option.some.inj (hserve'.symm.trans hserve)]
        exact ⟨hold, (ih hentry' hreports' hsys' hrest).mpr h.2⟩

theorem SigBoot.entryValid (boot : SigBoot) : boot.signals.EntryValid :=
  ⟨boot.entry_ne_ign, boot.entry_ne_dfl⟩

/-- At start-up the table holds the actions the process was started with. -/
theorem SigBoot.reports (boot : SigBoot) : boot.signals.Reports boot.actions := by
  rw [Signals.reports_iff boot.entryValid]
  intro signo hpos hlt _
  have haccepts : kernelAccepts signo none = true := by
    simp [kernelAccepts, hpos, hlt]
  show (if signo = sigkill ∨ kernelAccepts signo none = false then defaultAction
    else boot.actions signo) = boot.actions signo
  rw [haccepts]
  split
  · rename_i h
    obtain hkill | hfalse := h
    · rw [hkill, boot.kill_default]
    · cases hfalse
  · rfl

/-- For a sequence of successful `rt_sigaction` calls on signals other than SIGSYS,
the old actions handed back are those of an ideal table exactly if every new
action for SIGSEGV and SIGTRAP has no flag that would be cleared, and asks for the
old action only if it is the same. -/
theorem sigactions_refine_iff (boot : SigBoot) (calls : List SigactionCall)
    (hsys : ∀ c ∈ calls, c.signo ≠ sigsys) (hzero : boot.signals.AllReturnZero calls) :
    boot.signals.Refines boot.actions calls ↔ AllKept boot.actions calls :=
  Signals.refines_iff boot.entryValid boot.reports hsys hzero

/-- A process that starts with default actions only. -/
def SigBoot.plain : SigBoot where
  actions := fun _ => defaultAction
  asmSignalEntry := 0x7f0000001000
  sudEntryPoint := 0x7f0000002000
  restorer := 0x7f0000003000
  fullMask := BitVec.allOnes 64
  entry_ne_dfl := by decide
  entry_ne_ign := by decide
  kill_default := rfl

/-- A handler with SA_SIGINFO and an empty mask. -/
def plainHandler : KernelSigaction := ⟨0x401000, saSiginfo, 0, 0⟩

theorem sigactions_refine_iff_usr1 :
    SigBoot.plain.signals.Refines SigBoot.plain.actions
      [⟨10, some plainHandler, true⟩, ⟨sigsegv, some plainHandler, false⟩, ⟨10, none, true⟩] := by
  have hzero : SigBoot.plain.signals.AllReturnZero
      [⟨10, some plainHandler, true⟩, ⟨sigsegv, some plainHandler, false⟩, ⟨10, none, true⟩] :=
    ⟨_, rfl, rfl, _, rfl, rfl, _, rfl, rfl, trivial⟩
  refine (sigactions_refine_iff SigBoot.plain _ (by decide) hzero).mpr ⟨?_, ?_, ?_, trivial⟩
  · intro act hset
    exact absurd hset.1 (by decide)
  · intro act hset
    cases hset.2
    exact ⟨by decide, by decide, fun h => nomatch h⟩
  · intro act hset
    cases hset.2

/-- Setting a handler for SIGSEGV hands back that handler, not the start-up action. -/
theorem sigactions_report_new :
    SigBoot.plain.signals.AllReturnZero [⟨sigsegv, some plainHandler, true⟩] ∧
      ¬ SigBoot.plain.signals.Refines SigBoot.plain.actions
        [⟨sigsegv, some plainHandler, true⟩] := by
  constructor
  · exact ⟨_, rfl, rfl, trivial⟩
  · intro h
    have hold := (h.2 _ rfl).1
    exact absurd hold (by decide)

/-! ## The monitor's own actions -/

/-- The kernel's actions for the three signals are those of start-up: the entry
point, the flags and the mask. -/
def Signals.Guarded (s : Signals) (boot : SigBoot) : Prop :=
  ∀ signo, isGuardSignal signo = true →
    (s.kernel signo).handler = (boot.signals.kernel signo).handler ∧
    (s.kernel signo).flags = (boot.signals.kernel signo).flags ∧
    (s.kernel signo).mask = (boot.signals.kernel signo).mask

/-- The monitor's actions are those of start-up before, between and after the calls. -/
def Signals.StaysGuarded (s : Signals) (boot : SigBoot) : List SigactionCall → Prop
  | [] => s.Guarded boot
  | c :: rest => s.Guarded boot ∧ ∀ e, s.serve c = some e → e.signals.StaysGuarded boot rest

/-- No call of the sequence ends the process with a failed assertion. -/
def Signals.Completes (s : Signals) : List SigactionCall → Prop
  | [] => True
  | c :: rest => ∃ e, s.serve c = some e ∧ e.signals.Completes rest

/-- A handler for SIGSEGV or SIGTRAP comes with the flags and the mask of the
monitor's own action. -/
def SigactionCall.Harmless (c : SigactionCall) (boot : SigBoot) : Prop :=
  ∀ act, c.SetsGuard act → act.handler ≠ sigIgn → act.handler ≠ sigDfl →
    (act.noResethand.wrapped boot.asmSignalEntry).stored.flags =
        (boot.guardAction boot.asmSignalEntry).flags ∧
      act.stored.mask = (boot.guardAction boot.asmSignalEntry).mask

theorem SigBoot.kernel_guard (boot : SigBoot) {signo : Nat}
    (hsigno : signo = sigsegv ∨ signo = sigtrap) :
    boot.signals.kernel signo = boot.guardAction boot.asmSignalEntry := by
  obtain rfl | rfl := hsigno <;> rfl

/-- What a call does to the kernel's table: a handler for SIGSEGV or SIGTRAP
replaces the monitor's action for it, and no other call touches the three. -/
theorem Signals.serve_kernel_cases {s : Signals} {c : SigactionCall} {e : SigactionEffect}
    (hentry : s.EntryValid) (h : s.serve c = some e) :
    e.signals.asmSignalEntry = s.asmSignalEntry ∧
      ((∃ act, c.SetsGuard act ∧ act.handler ≠ sigIgn ∧ act.handler ≠ sigDfl ∧
          e.signals.kernel = Function.update s.kernel c.signo
            (act.noResethand.wrapped s.asmSignalEntry).stored) ∨
        (∀ act, c.SetsGuard act → act.handler = sigIgn ∨ act.handler = sigDfl) ∧
          ∀ signo, isGuardSignal signo = true → e.signals.kernel signo = s.kernel signo) := by
  rw [Signals.serve, Signals.handleAppSigaction] at h
  split at h
  · split at h
    · rename_i hsys
      rw [Signals.sigactionSys] at h
      split at h
      · cases h
      · obtain ⟨report, -, he⟩ := Option.map_eq_some_iff.mp h
        rw [← he]
        refine ⟨rfl, .inr ⟨fun act hset => ?_, fun _ _ => rfl⟩⟩
        exact absurd hset.1 (by rw [hsys]; decide)
    · rename_i hsys
      split at h
      · rename_i hsigno
        cases hnew : c.newact with
        | none =>
            rw [hnew, sigactionGuard_query hsigno] at h
            cases h
            exact ⟨rfl,
              .inr ⟨fun act hset => absurd (hset.2.symm.trans hnew) (Option.some_ne_none act),
              fun _ _ => rfl⟩⟩
        | some act =>
            rw [hnew, sigactionGuard_set hentry hsigno] at h
            cases h
            refine ⟨rfl, ?_⟩
            by_cases hplain : act.handler = sigIgn ∨ act.handler = sigDfl
            · refine .inr ⟨fun act' hset => ?_, fun signo _ => ?_⟩
              · rw [Option.some.inj (hset.2.symm.trans hnew)]
                exact hplain
              · show s.kernelAfterGuard c.signo act signo = s.kernel signo
                rw [Signals.kernelAfterGuard, if_pos hplain]
            · have hne := not_or.mp hplain
              exact .inl ⟨act, ⟨hsigno, hnew⟩, hne.1, hne.2, if_neg hplain⟩
      · rename_i hsigno
        have hguard : isGuardSignal c.signo = false := by
          rw [not_or] at hsigno
          simp [isGuardSignal, hsigno.1, hsigno.2, hsys]
        have hnone : ∀ act, c.SetsGuard act → act.handler = sigIgn ∨ act.handler = sigDfl :=
          fun act hset => absurd hset.1 hsigno
        cases haccepts : kernelAccepts c.signo c.newact with
        | false =>
            rw [sigactionGeneric_refused hguard haccepts] at h
            cases h
            exact ⟨rfl, .inr ⟨hnone, fun _ _ => rfl⟩⟩
        | true =>
            rw [sigactionGeneric_accepted hguard haccepts] at h
            cases h
            refine ⟨rfl, .inr ⟨hnone, fun signo hs => ?_⟩⟩
            have hne : signo ≠ c.signo := by
              intro heq
              rw [heq, hguard] at hs
              cases hs
            show s.kernelAfter c.signo c.newact signo = s.kernel signo
            cases c.newact with
            | none => rfl
            | some act => exact Function.update_of_ne hne _ _
  · cases h

theorem Signals.serve_guarded_iff {s : Signals} {boot : SigBoot} {c : SigactionCall}
    {e : SigactionEffect} (hentry : s.asmSignalEntry = boot.asmSignalEntry)
    (hguarded : s.Guarded boot) (h : s.serve c = some e) :
    e.signals.Guarded boot ↔ c.Harmless boot := by
  have hvalid : s.EntryValid := by
    rw [Signals.EntryValid, hentry]
    exact ⟨boot.entry_ne_ign, boot.entry_ne_dfl⟩
  obtain ⟨-, ⟨act, hset, hign, hdfl, hkernel⟩ | ⟨hset, hkernel⟩⟩ :=
    Signals.serve_kernel_cases hvalid h
  · have hboot := boot.kernel_guard hset.1
    have hsigno : isGuardSignal c.signo = true := by
      obtain hc | hc := hset.1 <;> rw [hc] <;> rfl
    rw [hentry] at hkernel
    constructor
    · intro hg act' hset' _ _
      obtain ⟨-, hflags, hmask⟩ := hg c.signo hsigno
      rw [hkernel, Function.update_self, hboot] at hflags hmask
      rw [Option.some.inj (hset'.2.symm.trans hset.2)]
      exact ⟨hflags, hmask⟩
    · intro hh signo hs
      rw [hkernel]
      by_cases heq : signo = c.signo
      · rw [heq, Function.update_self, hboot]
        obtain ⟨hflags, hmask⟩ := hh act hset hign hdfl
        exact ⟨rfl, hflags, hmask⟩
      · rw [Function.update_of_ne heq]
        exact hguarded signo hs
  · constructor
    · intro _ act hact hign hdfl
      exact absurd (hset act hact) (not_or.mpr ⟨hign, hdfl⟩)
    · intro _ signo hs
      rw [hkernel signo hs]
      exact hguarded signo hs

theorem Signals.staysGuarded_iff {s : Signals} {boot : SigBoot} {calls : List SigactionCall}
    (hentry : s.asmSignalEntry = boot.asmSignalEntry) (hguarded : s.Guarded boot)
    (hruns : s.Completes calls) :
    s.StaysGuarded boot calls ↔ ∀ c ∈ calls, c.Harmless boot := by
  induction calls generalizing s with
  | nil => exact ⟨fun _ _ h => absurd h List.not_mem_nil, fun _ => hguarded⟩
  | cons c rest ih =>
      obtain ⟨e, hserve, hrest⟩ := hruns
      have hvalid : s.EntryValid := by
        rw [Signals.EntryValid, hentry]
        exact ⟨boot.entry_ne_ign, boot.entry_ne_dfl⟩
      have hentry' := (Signals.serve_kernel_cases hvalid hserve).1.trans hentry
      have hstep := Signals.serve_guarded_iff hentry hguarded hserve
      rw [Signals.StaysGuarded, List.forall_mem_cons]
      constructor
      · intro h
        have hmore := h.2 e hserve
        have hguarded' : e.signals.Guarded boot := by
          cases rest with
          | nil => exact hmore
          | cons c' rest' => exact hmore.1
        exact ⟨hstep.mp hguarded', (ih hentry' hguarded' hrest).mp hmore⟩
      · intro h
        refine ⟨hguarded, fun e' hserve' => ?_⟩
        rw [Option.some.inj (hserve'.symm.trans hserve)]
        exact (ih hentry' (hstep.mpr h.1) hrest).mpr h.2

/-- However the application calls `rt_sigaction`, the kernel's actions for SIGSYS,
SIGSEGV and SIGTRAP stay those of start-up exactly if every handler it registers
for SIGSEGV or SIGTRAP has the flags and the mask of the monitor's own. -/
theorem sigactions_guarded_iff (boot : SigBoot) (calls : List SigactionCall)
    (hruns : boot.signals.Completes calls) :
    boot.signals.StaysGuarded boot calls ↔ ∀ c ∈ calls, c.Harmless boot :=
  Signals.staysGuarded_iff rfl (fun _ _ => ⟨rfl, rfl, rfl⟩) hruns

/-- Ignoring SIGSEGV, registering anything for SIGSYS and installing a handler for
another signal leave the three alone. -/
theorem sigactions_guarded_iff_ignored :
    SigBoot.plain.signals.StaysGuarded SigBoot.plain
      [⟨sigsegv, some ⟨sigIgn, 0, 0, 0⟩, true⟩, ⟨sigsys, some plainHandler, false⟩,
        ⟨10, some plainHandler, false⟩] := by
  have hruns : SigBoot.plain.signals.Completes
      [⟨sigsegv, some ⟨sigIgn, 0, 0, 0⟩, true⟩, ⟨sigsys, some plainHandler, false⟩,
        ⟨10, some plainHandler, false⟩] :=
    ⟨_, rfl, _, rfl, _, rfl, trivial⟩
  refine (sigactions_guarded_iff SigBoot.plain _ hruns).mpr ?_
  simp only [List.forall_mem_cons]
  refine ⟨fun act hset hign => ?_, fun act hset => ?_, fun act hset => ?_, fun _ h => nomatch h⟩
  · cases hset.2
    exact absurd rfl hign
  · exact absurd hset.1 (by decide)
  · exact absurd hset.1 (by decide)

/-- A SIGSEGV handler with an empty mask replaces the all-blocking mask. -/
theorem sigactions_unguarded :
    SigBoot.plain.signals.Completes [⟨sigsegv, some plainHandler, false⟩] ∧
      ¬ SigBoot.plain.signals.StaysGuarded SigBoot.plain
        [⟨sigsegv, some plainHandler, false⟩] := by
  constructor
  · exact ⟨_, rfl, trivial⟩
  · intro h
    have hmask := (h.2 _ rfl sigsegv rfl).2.2
    exact absurd hmask (by decide)

end Secpoline
