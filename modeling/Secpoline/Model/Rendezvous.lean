import Secpoline.Model.Breakpoints

/-!
# The breakpoint rendezvous

Before an unsafe page becomes executable, every thread has to watch its unsafe
instructions. The thread that handles the fault leads a round
(`add_breakpoint_wrapper`): it publishes the page, sends the others a SIGSEGV,
and waits for them twice. The others follow
(`other_thread_add_breakpoint_wrapper`), from the SIGSEGV handler or from the
waiting loop of `update_active_thread_list`.

A thread is two program counters: its main code, and the SIGSEGV handler that
interrupts it, which runs with every signal masked. Threads interleave at every
access to shared memory. A section under `waiting_thread_count_mutex` is one
step: every write to the counter takes that mutex, and what the section asserts
and writes is nothing but the counter.
-/

namespace Secpoline

abbrev Tid := Nat

/-- `MAX_ACTIVE_THREAD` of `hardware_breakpoints.h`. -/
def maxActiveThread : Nat := 4096

/-- What ends a run: one of the assertions on the shared synchroniser, a
dereference of a null `segfault_page`, or an assertion about anything else. -/
inductive Fault where
  | controllerAssert
  | countAssert
  | pageAssert
  | nullPage
  | abort
deriving DecidableEq, Repr

/-- Where a thread stands in `other_thread_add_breakpoint_wrapper`. -/
inductive Follow where
  | awaitCount
  | checkPage
  | add
  | leaveFirst
  | awaitRelease
  | leaveSecond
deriving DecidableEq, Repr

/-- Where a thread stands in `add_breakpoint_wrapper`. -/
inductive LeadPc where
  | lockSync
  | checkExec
  | assertIdle
  | storeController
  | storePage
  | kill (rest : List Tid)
  | addOwn
  | copyGlobal
  | raiseFirst
  | awaitFirst
  | clearPage
  | raiseSecond
  | clearController
  | awaitSecond
  | unlockSync
deriving DecidableEq, Repr

/-- A call of `add_breakpoint_wrapper(page, is_static)` in progress. -/
structure Lead where
  page : UnsafePage
  isStatic : Bool
  pc : LeadPc
deriving DecidableEq, Repr

/-- Why the SIGSEGV handler runs: `si_code` is SI_USER or SI_TKILL, or the
thread itself faulted at an address. -/
inductive Cause where
  | kill
  | fault (address : Nat)
deriving DecidableEq, Repr

/-- What `signal_handler_switch` does after its call to
`other_thread_add_breakpoint_wrapper` returns. -/
inductive AfterFollow where
  | done
  | lock
  | retry
deriving DecidableEq, Repr

/-- Where a thread stands in the SIGSEGV part of `signal_handler_switch`, up to
the point where it unblocks the signals. -/
inductive HandPc where
  | entry (cause : Cause)
  | compare (address : Nat)
  | follow (f : Follow) (next : AfterFollow)
  | tryLock
  | checkController
  | lockSegv
  | handling
  | lead (l : Lead)
  | unlockSegv
deriving DecidableEq, Repr

/-- Where a thread stands outside the handler: in code that does not touch the
synchroniser (`run`), not on the active list (`out`), or in
`update_active_thread_list`, with `leave…` for the removal of the thread and
`enter…` for its addition. `heapSwitch` holds the copy of the controller made
on the heap before the thread's pointer is redirected to it. -/
inductive MainPc where
  | out
  | run
  | leaveTry
  | leaveCheck
  | leaveFollow (f : Follow)
  | leaveAssert
  | leaveMask
  | leaveRemove
  | leaveUnlock
  | enterTry
  | enterAssert
  | enterCopy
  | enterAppend
  | enterUnlock
  | heapCopy
  | heapSwitch (copy : HbController)
deriving DecidableEq, Repr

structure Thread where
  main : MainPc
  hand : Option HandPc
  hb : HbController
deriving DecidableEq, Repr

/-- The synchroniser, the two mutexes, the global controller and the pending
SIGSEGV of every thread. `joined` is not in the source: it lists the pages each
thread added since the last round began. -/
structure Shared where
  controllerThread : Option Tid
  waitingThreadCount : Int
  segfaultPage : Option UnsafePage
  activeThreadList : List Tid
  hbreakpointSyncMutex : Option Tid
  segfaultHandlerMutex : Option Tid
  globalHbreakpointController : HbController
  pending : Tid → Bool
  joined : Tid → List UnsafePage

/-- One value of a function on threads replaced. -/
def setAt {α : Type} (f : Tid → α) (t : Tid) (a : α) : Tid → α :=
  fun u => if u = t then a else f u

/-! ## The follower -/

/-- One step of `other_thread_add_breakpoint_wrapper`; no follow-up position
means the call returned. -/
def followStep (t : Tid) (sh : Shared) (hb : HbController) :
    Follow → Except Fault (Shared × HbController × Option Follow)
  | .awaitCount =>
      if sh.waitingThreadCount ≠ 0 then .ok (sh, hb, some .checkPage)
      else .ok (sh, hb, some .awaitCount)
  | .checkPage =>
      if sh.segfaultPage.isSome then .ok (sh, hb, some .add) else .error .pageAssert
  | .add =>
      match sh.segfaultPage with
      | none => .error .nullPage
      | some page =>
          match hb.addBreakpoints page false with
          | none => .error .abort
          | some (hb', _) =>
              .ok ({ sh with joined := setAt sh.joined t (sh.joined t ++ [page]) }, hb',
                some .leaveFirst)
  | .leaveFirst =>
      if sh.waitingThreadCount > 0 then
        .ok ({ sh with waitingThreadCount := sh.waitingThreadCount - 1 }, hb, some .awaitRelease)
      else .error .countAssert
  | .awaitRelease =>
      if sh.controllerThread = none then .ok (sh, hb, some .leaveSecond)
      else .ok (sh, hb, some .awaitRelease)
  | .leaveSecond =>
      if sh.waitingThreadCount > 0 then
        .ok ({ sh with waitingThreadCount := sh.waitingThreadCount - 1 }, hb, none)
      else .error .countAssert

/-! ## The leader -/

/-- One step of `add_breakpoint_wrapper`. -/
def leadStep (t : Tid) (sh : Shared) (hb : HbController) (l : Lead) :
    Except Fault (Shared × HbController × Option Lead) :=
  let goto pc := some { l with pc }
  match l.pc with
  | .lockSync =>
      if sh.hbreakpointSyncMutex = none then
        .ok ({ sh with hbreakpointSyncMutex := some t }, hb, goto .checkExec)
      else .ok (sh, hb, some l)
  | .checkExec =>
      if l.page.currentPerm.isExec then
        .ok ({ sh with hbreakpointSyncMutex := none }, hb, none)
      else .ok (sh, hb, goto .assertIdle)
  | .assertIdle =>
      if sh.controllerThread ≠ none then .error .controllerAssert
      else if sh.waitingThreadCount ≠ 0 then .error .countAssert
      else if sh.segfaultPage ≠ none then .error .pageAssert
      else .ok (sh, hb, goto .storeController)
  | .storeController =>
      .ok ({ sh with controllerThread := some t, joined := fun _ => [] }, hb, goto .storePage)
  | .storePage =>
      .ok ({ sh with segfaultPage := some l.page }, hb, goto (.kill sh.activeThreadList))
  | .kill [] => .ok (sh, hb, goto .addOwn)
  | .kill (u :: rest) =>
      if u = t then .ok (sh, hb, goto (.kill rest))
      else if l.isStatic then .error .abort
      else .ok ({ sh with pending := setAt sh.pending u true }, hb, goto (.kill rest))
  | .addOwn =>
      match hb.addBreakpoints l.page l.isStatic with
      | none => .error .abort
      | some (hb', _) => .ok (sh, hb', goto .copyGlobal)
  | .copyGlobal => .ok ({ sh with globalHbreakpointController := hb }, hb, goto .raiseFirst)
  | .raiseFirst =>
      .ok ({ sh with waitingThreadCount := sh.activeThreadList.length - 1 }, hb, goto .awaitFirst)
  | .awaitFirst =>
      if sh.waitingThreadCount = 0 then .ok (sh, hb, goto .clearPage)
      else .ok (sh, hb, some l)
  | .clearPage => .ok ({ sh with segfaultPage := none }, hb, goto .raiseSecond)
  | .raiseSecond =>
      .ok ({ sh with waitingThreadCount := sh.activeThreadList.length - 1 }, hb,
        goto .clearController)
  | .clearController => .ok ({ sh with controllerThread := none }, hb, goto .awaitSecond)
  | .awaitSecond =>
      if sh.waitingThreadCount = 0 then .ok (sh, hb, goto .unlockSync)
      else .ok (sh, hb, some l)
  | .unlockSync => .ok ({ sh with hbreakpointSyncMutex := none }, hb, none)

/-! ## The SIGSEGV handler -/

/-- Where `signal_handler_switch` stands after a step of its follower call, or
after the call has returned. -/
def AfterFollow.resume (next : AfterFollow) : Option Follow → Option HandPc
  | some f => some (.follow f next)
  | none =>
      match next with
      | .done => none
      | .lock => some .lockSegv
      | .retry => some .tryLock

/-- Where the handler stands after a step of the round it leads. -/
def HandPc.afterLead : Option Lead → HandPc
  | some l => .lead l
  | none => .unlockSegv

/-- Where `update_active_thread_list` stands after a step of its follower call. -/
def MainPc.afterFollow : Option Follow → MainPc
  | some f => .leaveFollow f
  | none => .leaveTry

/-- One step of `signal_handler_switch` on a SIGSEGV; no follow-up position
means it is done with the synchroniser. `call` is what
`secpoline_segfault_handler` decides: to return, or to lead a round. -/
def handStep (t : Tid) (sh : Shared) (hb : HbController) (call : Option (UnsafePage × Bool)) :
    HandPc → Except Fault (Shared × HbController × Option HandPc)
  | .entry .kill =>
      if sh.controllerThread ≠ none then .ok (sh, hb, some (.follow .awaitCount .done))
      else .ok (sh, hb, none)
  | .entry (.fault address) =>
      if sh.controllerThread ≠ none then .ok (sh, hb, some (.compare address))
      else .ok (sh, hb, some .tryLock)
  | .compare address =>
      match sh.segfaultPage with
      | none => .error .nullPage
      | some page =>
          if address / 4096 * 4096 = page.address then
            .ok (sh, hb, some (.follow .awaitCount .done))
          else .ok (sh, hb, some (.follow .awaitCount .lock))
  | .follow f next =>
      (followStep t sh hb f).map fun (sh', hb', f') =>
        (sh', hb', next.resume f')
  | .tryLock =>
      if sh.segfaultHandlerMutex = none then
        .ok ({ sh with segfaultHandlerMutex := some t }, hb, some .handling)
      else .ok (sh, hb, some .checkController)
  | .checkController =>
      if sh.controllerThread ≠ none then .ok (sh, hb, some (.follow .awaitCount .retry))
      else .ok (sh, hb, some .tryLock)
  | .lockSegv =>
      if sh.segfaultHandlerMutex = none then
        .ok ({ sh with segfaultHandlerMutex := some t }, hb, some .handling)
      else .ok (sh, hb, some .lockSegv)
  | .handling =>
      match call with
      | none => .ok (sh, hb, some .unlockSegv)
      | some (page, isStatic) => .ok (sh, hb, some (.lead { page, isStatic, pc := .lockSync }))
  | .lead l =>
      (leadStep t sh hb l).map fun (sh', hb', l') =>
        (sh', hb', some (.afterLead l'))
  | .unlockSegv => .ok ({ sh with segfaultHandlerMutex := none }, hb, none)

/-! ## The active thread list -/

/-- `remove_element_active_thread_list`: the scan stops at the last element
without looking at it, and only then is it asserted to be the one sought. -/
def removeElementActiveThreadList (tid : Tid) : List Tid → Option (List Tid)
  | [] => none
  | [u] => if u = tid then some [] else none
  | u :: v :: rest =>
      if u = tid then some (v :: rest)
      else (removeElementActiveThreadList tid (v :: rest)).map (u :: ·)

/-- One step of the main code: `update_active_thread_list`. -/
def mainStep (t : Tid) (sh : Shared) (hb : HbController) :
    MainPc → Except Fault (Shared × HbController × MainPc)
  | .out => .ok (sh, hb, .out)
  | .run => .ok (sh, hb, .run)
  | .leaveTry =>
      if sh.hbreakpointSyncMutex = none then
        .ok ({ sh with hbreakpointSyncMutex := some t }, hb, .leaveAssert)
      else .ok (sh, hb, .leaveCheck)
  | .leaveCheck =>
      if sh.controllerThread ≠ none then .ok (sh, hb, .leaveFollow .awaitCount)
      else .ok (sh, hb, .leaveTry)
  | .leaveFollow f =>
      (followStep t sh hb f).map fun (sh', hb', f') =>
        (sh', hb', .afterFollow f')
  | .leaveAssert =>
      if sh.controllerThread = none then .ok (sh, hb, .leaveMask) else .error .controllerAssert
  | .leaveMask => .ok (sh, hb, .leaveRemove)
  | .leaveRemove =>
      match removeElementActiveThreadList t sh.activeThreadList with
      | none => .error .abort
      | some active =>
          .ok ({ sh with activeThreadList := active }, hb.removeAllHbreakpoints, .leaveUnlock)
  | .leaveUnlock => .ok ({ sh with hbreakpointSyncMutex := none }, hb, .out)
  | .enterTry =>
      if sh.hbreakpointSyncMutex = none then
        .ok ({ sh with hbreakpointSyncMutex := some t }, hb, .enterAssert)
      else .ok (sh, hb, .enterTry)
  | .enterAssert =>
      if sh.controllerThread = none then .ok (sh, hb, .enterCopy) else .error .controllerAssert
  | .enterCopy =>
      match sh.globalHbreakpointController.setAllHbreakpoits with
      | none => .error .abort
      | some copy => .ok (sh, copy, .enterAppend)
  | .enterAppend =>
      if sh.activeThreadList.length < maxActiveThread then
        .ok ({ sh with activeThreadList := sh.activeThreadList ++ [t] }, hb, .enterUnlock)
      else .error .abort
  | .enterUnlock => .ok ({ sh with hbreakpointSyncMutex := none }, hb, .heapCopy)
  | .heapCopy => .ok (sh, hb, .heapSwitch hb)
  | .heapSwitch copy => .ok (sh, copy, .run)

/-- The positions in which a SIGSEGV can reach the thread: it is on the active
list and has not masked its signals. -/
def MainPc.deliverable : MainPc → Bool
  | .run | .leaveTry | .leaveCheck | .leaveFollow _ | .leaveAssert | .leaveMask => true
  | .enterUnlock | .heapCopy | .heapSwitch _ => true
  | _ => false

/-! ## Interleaving -/

structure Crowd where
  sh : Shared
  thr : Tid → Thread

/-- What can happen next. `kill` is a SIGSEGV sent by anything other than a
leader, such as the application itself. -/
inductive CrowdAct where
  | step (t : Tid) (call : Option (UnsafePage × Bool))
  | deliver (t : Tid)
  | fault (t : Tid) (address : Nat)
  | kill (t : Tid)
  | leave (t : Tid)
  | enter (t : Tid)
deriving DecidableEq, Repr

/-- A handler interrupts the main code only where its signal can arrive, and
only one runs at a time. -/
def CrowdAct.Allowed (s : Crowd) : CrowdAct → Prop
  | .step _ _ => True
  | .deliver t =>
      s.sh.pending t = true ∧ (s.thr t).hand = none ∧ (s.thr t).main.deliverable = true
  | .fault t _ => (s.thr t).main = .run ∧ (s.thr t).hand = none
  | .kill t => t ∈ s.sh.activeThreadList
  | .leave t => (s.thr t).main = .run ∧ (s.thr t).hand = none
  | .enter t => (s.thr t).main = .out

instance (s : Crowd) (a : CrowdAct) : Decidable (a.Allowed s) := by
  cases a <;> unfold CrowdAct.Allowed <;> infer_instance

/-- One step of one thread: the handler's if it is running, the main code's
otherwise. -/
def Thread.step (t : Tid) (sh : Shared) (th : Thread) (call : Option (UnsafePage × Bool)) :
    Except Fault (Shared × Thread) :=
  match th.hand with
  | some h =>
      (handStep t sh th.hb call h).map fun (sh', hb', h') =>
        (sh', { th with hb := hb', hand := h' })
  | none =>
      (mainStep t sh th.hb th.main).map fun (sh', hb', m') =>
        (sh', { th with hb := hb', main := m' })

def Crowd.set (s : Crowd) (t : Tid) (sh : Shared) (th : Thread) : Crowd :=
  { sh, thr := setAt s.thr t th }

def Crowd.step (s : Crowd) : CrowdAct → Except Fault Crowd
  | .step t call =>
      ((s.thr t).step t s.sh call).map fun (sh, th) => s.set t sh th
  | .deliver t =>
      .ok (s.set t { s.sh with pending := setAt s.sh.pending t false }
        { s.thr t with hand := some (.entry .kill) })
  | .fault t address => .ok (s.set t s.sh { s.thr t with hand := some (.entry (.fault address)) })
  | .kill t => .ok { s with sh := { s.sh with pending := setAt s.sh.pending t true } }
  | .leave t => .ok (s.set t s.sh { s.thr t with main := .leaveTry })
  | .enter t => .ok (s.set t s.sh { s.thr t with main := .enterTry })

/-- A process between rounds: the given threads are active, all of them and the
global controller watch the same addresses, and no mutex is held. -/
def Crowd.start (active : List Tid) (hb : HbController) : Crowd :=
  { sh :=
      { controllerThread := none, waitingThreadCount := 0, segfaultPage := none
        activeThreadList := active
        hbreakpointSyncMutex := none, segfaultHandlerMutex := none
        globalHbreakpointController := hb
        pending := fun _ => false, joined := fun _ => [] }
    thr := fun t => { main := if t ∈ active then .run else .out, hand := none, hb := hb } }

end Secpoline
