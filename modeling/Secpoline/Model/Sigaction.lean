import Mathlib.Logic.Function.Basic

/-!
# Signal actions

The application never installs a signal action in the kernel. Its `rt_sigaction`
is served by `SignalHandlers::handle_app_sigaction`, which keeps the application's
actions in a table of its own and installs the monitor's entry point in their
place. The system calls it makes for that are themselves intercepted, and the
`rt_sigaction` branch of `meta_monitor` filters those on the three signals the
monitor lives on. That filter edits the structure it was passed, and
`handle_app_sigaction` may store that same structure afterwards.

A call is modelled with its arguments already read: a new action or none, and
whether the caller gave a buffer for the old one. A buffer that is not the
application's own memory fails an assertion and ends the process.
-/

namespace Secpoline

/-- `struct kernel_sigaction`. -/
structure KernelSigaction where
  handler : BitVec 64
  flags : BitVec 64
  restorer : BitVec 64
  mask : BitVec 64
deriving DecidableEq, Repr

abbrev SigTable := Nat → KernelSigaction

def sigtrap : Nat := 5
def sigkill : Nat := 9
def sigsegv : Nat := 11
def sigstop : Nat := 19
def sigsys : Nat := 31

/-- glibc's `NSIG`, the size of `app_handlers`. -/
def nsig : Nat := 65

def sigDfl : BitVec 64 := 0
def sigIgn : BitVec 64 := 1

def saNocldstop : BitVec 64 := 0x1
def saNocldwait : BitVec 64 := 0x2
def saSiginfo : BitVec 64 := 0x4
def saUnsupported : BitVec 64 := 0x400
def saExposeTagbits : BitVec 64 := 0x800
def saRestorer : BitVec 64 := 0x04000000
def saOnstack : BitVec 64 := 0x08000000
def saRestart : BitVec 64 := 0x10000000
def saNodefer : BitVec 64 := 0x40000000
def saResethand : BitVec 64 := 0x80000000

/-- `~SA_RESETHAND`. The flag does not fit an `int`, so its complement is an unsigned
one, and widened to the type of `sa_flags` it has none of the upper 32 bits. -/
def notSaResethand : BitVec 64 := 0x7fffffff

/-- The bit of a signal in a mask. -/
def sigBit (signo : Nat) : BitVec 64 := 1 <<< (signo - 1)

/-- `-EINVAL`. -/
def einval : Int := -22

/-! ## The kernel -/

/-- The flags a kernel keeps. Syscall user dispatch needs Linux 5.11, which drops
all others (`UAPI_SA_FLAGS`). -/
def uapiSaFlags : BitVec 64 :=
  saNocldstop ||| saNocldwait ||| saSiginfo ||| saOnstack ||| saRestart ||| saNodefer |||
    saResethand ||| saExposeTagbits ||| saRestorer

/-- An action as the kernel stores it: no unknown flag, and neither SIGKILL nor
SIGSTOP in the mask. -/
def KernelSigaction.stored (act : KernelSigaction) : KernelSigaction :=
  { act with
    flags := act.flags &&& uapiSaFlags
    mask := act.mask &&& ~~~(sigBit sigkill ||| sigBit sigstop) }

/-- The signal numbers for which `rt_sigaction` succeeds, with or without a new
action. -/
def kernelAccepts (signo : Nat) (newact : Option KernelSigaction) : Bool :=
  decide (1 ≤ signo ∧ signo < nsig) && (newact.isNone || (signo != sigkill && signo != sigstop))

/-- The system call `rt_sigaction`. -/
def kernelSigaction (table : SigTable) (signo : Nat) (newact : Option KernelSigaction) :
    Int × SigTable :=
  if kernelAccepts signo newact then
    match newact with
    | none => (0, table)
    | some act => (0, Function.update table signo act.stored)
  else (einval, table)

/-! ## The two layers of the monitor -/

/-- The kernel's actions, and the application's as `SignalHandlers` keeps them. -/
structure Signals where
  kernel : SigTable
  appHandlers : SigTable
  asmSignalEntry : BitVec 64

/-- `app_handlers().at(signo)`, which throws outside of the array. -/
def Signals.getAppHandler (s : Signals) (signo : Nat) : Option KernelSigaction :=
  if signo < nsig then some (s.appHandlers signo) else none

/-- `set_app_handler`: returns the action it replaces. -/
def Signals.setAppHandler (s : Signals) (signo : Nat) (newact : KernelSigaction) :
    Option (KernelSigaction × Signals) :=
  match s.getAppHandler signo with
  | none => none
  | some old => some (old, { s with appHandlers := Function.update s.appHandlers signo newact })

/-- The flags `meta_monitor` clears in an action it does not install. -/
def KernelSigaction.metaCleared (act : KernelSigaction) : KernelSigaction :=
  { act with
    flags := act.flags &&& notSaResethand &&& ~~~saSiginfo &&& ~~~saOnstack &&& ~~~saNodefer }

/-- The signals the monitor itself depends on. -/
def isGuardSignal (signo : Nat) : Bool := signo == sigsegv || signo == sigsys || signo == sigtrap

/-- `nolibc_rt_sigaction` as the monitor's own call, filtered by `meta_monitor`:
the result, the kernel's table, and the new action as the filter left it. -/
def Signals.nolibcRtSigaction (s : Signals) (signo : Nat) (newact : Option KernelSigaction) :
    Int × Signals × Option KernelSigaction :=
  match isGuardSignal signo, newact with
  | true, some act =>
      if act.handler ≠ s.asmSignalEntry then
        let r := kernelSigaction s.kernel signo none
        (r.1, { s with kernel := r.2 }, some act.metaCleared)
      else
        let r := kernelSigaction s.kernel signo (some act)
        (r.1, { s with kernel := r.2 }, some act)
  | _, newact =>
      let r := kernelSigaction s.kernel signo newact
      (r.1, { s with kernel := r.2 }, newact)

/-- What a call of `rt_sigaction` leaves behind: the new state, its result, and what
was last written to the caller's buffer for the old action. -/
structure SigactionEffect where
  signals : Signals
  result : Int
  oldact : Option KernelSigaction

/-- Write to the caller's buffer, if there is one. -/
def reportOld (oldact : Bool) (old : KernelSigaction) (written : Option KernelSigaction) :
    Option KernelSigaction :=
  if oldact then some old else written

/-- Report the stored action, if the caller asked for it. -/
def Signals.reportAppHandler (s : Signals) (signo : Nat) (oldact : Bool)
    (written : Option KernelSigaction) : Option (Option KernelSigaction) :=
  if oldact then (s.getAppHandler signo).map some else some written

/-- Store the application's action and report the one it replaces. -/
def Signals.exchange (s : Signals) (signo : Nat) (newact : KernelSigaction) (result : Int)
    (oldact : Bool) (written : Option KernelSigaction) : Option SigactionEffect :=
  match s.setAppHandler signo newact with
  | none => none
  | some (old, s') => some ⟨s', result, reportOld oldact old written⟩

/-- The branch for a query and for SIG_IGN: the old action is read back from the
table, and only then is the new one stored. -/
def Signals.sigactionIgnored (s : Signals) (signo : Nat) (newact : Option KernelSigaction)
    (oldact : Bool) (written : Option KernelSigaction) : Option SigactionEffect :=
  let (result, s', newact') := s.nolibcRtSigaction signo newact
  if result ≠ 0 then some ⟨s', result, written⟩
  else
    match s'.reportAppHandler signo oldact written with
    | none => none
    | some report =>
        match newact' with
        | none => some ⟨s', result, report⟩
        | some act =>
            match s'.setAppHandler signo act with
            | none => none
            | some (_, s'') => some ⟨s'', result, report⟩

/-- The branch for SIG_DFL. -/
def Signals.sigactionDefault (s : Signals) (signo : Nat) (newact : KernelSigaction)
    (oldact : Bool) (written : Option KernelSigaction) : Option SigactionEffect :=
  let (result, s', newact') := s.nolibcRtSigaction signo (some newact)
  if result = 0 then s'.exchange signo (newact'.getD newact) result oldact written
  else some ⟨s', result, written⟩

/-- The action installed in the kernel in place of a handler of the application. -/
def KernelSigaction.wrapped (act : KernelSigaction) (asmSignalEntry : BitVec 64) :
    KernelSigaction :=
  { act with
    handler := asmSignalEntry
    flags := act.flags ||| (saSiginfo ||| saOnstack ||| saNodefer) }

/-- The branch for a handler of the application. The structure passed to the
kernel is a copy, so what is stored is the application's own. -/
def Signals.sigactionWrapped (s : Signals) (signo : Nat) (newact : KernelSigaction)
    (oldact : Bool) (written : Option KernelSigaction) : Option SigactionEffect :=
  let (result, s', _) := s.nolibcRtSigaction signo (some (newact.wrapped s.asmSignalEntry))
  if result ≠ 0 then some ⟨s', result, written⟩
  else s'.exchange signo newact result oldact written

/-- The part of `handle_app_sigaction` that every signal but SIGSYS reaches. -/
def Signals.sigactionGeneric (s : Signals) (signo : Nat) (newact : Option KernelSigaction)
    (oldact : Bool) (written : Option KernelSigaction) : Option SigactionEffect :=
  match newact with
  | none => s.sigactionIgnored signo none oldact written
  | some act =>
      if act.handler = sigIgn then s.sigactionIgnored signo (some act) oldact written
      else if act.handler = sigDfl then s.sigactionDefault signo act oldact written
      else s.sigactionWrapped signo act oldact written

/-- An action that stays registered once it has run. -/
def KernelSigaction.noResethand (act : KernelSigaction) : KernelSigaction :=
  { act with flags := act.flags &&& notSaResethand }

/-- The part for SIGSEGV and SIGTRAP. A query ends here; a new action is stored,
its predecessor reported, and then the generic part runs as well. -/
def Signals.sigactionGuard (s : Signals) (signo : Nat) (newact : Option KernelSigaction)
    (oldact : Bool) : Option SigactionEffect :=
  let (result, s', _) := s.nolibcRtSigaction signo none
  match newact with
  | none =>
      if result ≠ 0 then some ⟨s', result, none⟩
      else (s'.reportAppHandler signo oldact none).map fun report => ⟨s', result, report⟩
  | some act =>
      if result = 0 then
        match s'.exchange signo act.noResethand result oldact none with
        | none => none
        | some e => e.signals.sigactionGeneric signo (some act.noResethand) oldact e.oldact
      else s'.sigactionGeneric signo (some act.noResethand) oldact none

/-- SIGSYS: registrations are ignored, and the stored action is reported. -/
def Signals.sigactionSys (s : Signals) (newact : Option KernelSigaction) (oldact : Bool) :
    Option SigactionEffect :=
  if (newact.map fun act => act.flags &&& saUnsupported).getD 0 ≠ 0 then none
  else (s.reportAppHandler sigsys oldact none).map fun report => ⟨s, 0, report⟩

/-- `SignalHandlers::handle_app_sigaction`. -/
def Signals.handleAppSigaction (s : Signals) (signo : Nat) (newact : Option KernelSigaction)
    (oldact : Bool) : Option SigactionEffect :=
  if 0 < signo ∧ signo < 128 then
    if signo = sigsys then s.sigactionSys newact oldact
    else if signo = sigsegv ∨ signo = sigtrap then s.sigactionGuard signo newact oldact
    else s.sigactionGeneric signo newact oldact none
  else none

/-! ## Start-up -/

/-- The action a signal has if nothing was ever installed for it. -/
def defaultAction : KernelSigaction := ⟨sigDfl, 0, 0, 0⟩

/-- What start-up finds and chooses: the kernel's actions of the new process, the
two entry points, and the restorer and full mask that glibc's `sigaction` and
`sigfillset` give. -/
structure SigBoot where
  actions : SigTable
  asmSignalEntry : BitVec 64
  sudEntryPoint : BitVec 64
  restorer : BitVec 64
  fullMask : BitVec 64
  entry_ne_dfl : asmSignalEntry ≠ sigDfl
  entry_ne_ign : asmSignalEntry ≠ sigIgn
  /-- The kernel never lets anyone set an action for SIGKILL. -/
  kill_default : actions sigkill = defaultAction

/-- The action `init_sud` and `open_libsegfault_handler` install. -/
def SigBoot.guardAction (boot : SigBoot) (entry : BitVec 64) : KernelSigaction :=
  KernelSigaction.stored
    { handler := entry
      flags := saSiginfo ||| saOnstack ||| saNodefer ||| saRestorer
      restorer := boot.restorer
      mask := boot.fullMask }

/-- The constructor of `SignalHandlers` reads every action but SIGKILL's, before
the monitor's own are installed. -/
def SigBoot.signals (boot : SigBoot) : Signals :=
  { kernel :=
      Function.update
        (Function.update
          (Function.update boot.actions sigsys (boot.guardAction boot.sudEntryPoint))
          sigsegv (boot.guardAction boot.asmSignalEntry))
        sigtrap (boot.guardAction boot.asmSignalEntry)
    appHandlers := fun signo =>
      if signo = sigkill ∨ kernelAccepts signo none = false then defaultAction
      else boot.actions signo
    asmSignalEntry := boot.asmSignalEntry }

/-! ## Sequences of calls -/

/-- An `rt_sigaction` of the application. -/
structure SigactionCall where
  signo : Nat
  newact : Option KernelSigaction
  oldact : Bool
deriving DecidableEq, Repr

def Signals.serve (s : Signals) (c : SigactionCall) : Option SigactionEffect :=
  s.handleAppSigaction c.signo c.newact c.oldact

end Secpoline
