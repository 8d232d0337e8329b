import Secpoline.Model.Asm
import Secpoline.Model.Files
import Secpoline.Model.System

/-!
# The table of system call handlers

`asm_syscall_hook` saves the application's registers in an array and passes it to
`secpoline_syscall_handler`, which calls the handlers registered for the number in
the saved `%rax`, one after the other: the prehandlers, the main handler, the
posthandlers. A handler reads its arguments from the array, and what it writes
there is what the application finds in its registers afterwards.

Modelled is what the handlers do to the array and what they return. Most of them
only write the result into the place of `%rax`, after checks that may refuse the
call; `SyscallEnv` has the result of a call that is not refused. A handler that
fails an assertion does not return.
-/

namespace Secpoline

open Lib

/-- The array `gp_regs`, by the register a place is for. -/
abbrev GpFrame := Reg → Quad

/-- What the handlers of one system call read and meet. -/
structure SyscallEnv where
  /-- `untrusted_fd_bitmap`. -/
  bitmap : FdBitmap
  /-- `page_manager`. -/
  pages : PageManager
  /-- `is_multithreaded`. -/
  multithreaded : Bool
  /-- The address of the pool that the page manager maps if it needs one. -/
  pool : Nat
  /-- What a handler asks the kernel about the call speaks against it: the program of
  `execve` is not there, the file that has been opened is `/proc/self/mem`, or the
  mapping that `mremap` is about could not be made read-only. -/
  refused : Bool
  /-- The result that the main handler computes. -/
  result : Quad
  /-- The words of the application's memory that are written during the call. -/
  writes : Quad → Option Quad

/-- A handler's array and return value; the last handler's return value decides
whether the call is emulated. -/
abbrev SyscallHandler := SyscallEnv → GpFrame → Option (GpFrame × Quad)

/-- An `int` initialised with a place of the array. -/
def asInt (q : Quad) : Int := (q.setWidth 32).toInt

/-! ## Handlers of virtualize_files.cpp -/

/-- Replace the first argument unless the application owns `fd`. -/
def denyFd (env : SyscallEnv) (fd : Int) (gprs : GpFrame) : GpFrame :=
  if !env.bitmap.readBit (toSizeT fd) then Function.update gprs .rdi (-1) else gprs

def fdFirstArgumentPrehandler : SyscallHandler := fun env gprs =>
  let fd := asInt (gprs .rdi)
  if fd < 0 then some (gprs, 0) else some (denyFd env fd gprs, 0)

/-- The descriptor is the second argument, but it is the first that is replaced. -/
def fdSecondArgumentPrehandler : SyscallHandler := fun env gprs =>
  some (denyFd env (asInt (gprs .rsi)) gprs, 0)

def fdFirstSecondArgumentPrehandler : SyscallHandler := fun env gprs =>
  let fd1 := asInt (gprs .rdi)
  let fd2 := asInt (gprs .rsi)
  some (denyFd env fd2 (denyFd env fd1 gprs), 0)

def fdFirstThirdArgumentPrehandler : SyscallHandler := fun env gprs =>
  let fd1 := asInt (gprs .rdi)
  let fd3 := asInt (gprs .rdx)
  some (denyFd env fd3 (denyFd env fd1 gprs), 0)

/-- The bitmap it updates is not the array. -/
def saveUntrustedFd : SyscallHandler := fun _ gprs => some (gprs, 0)

/-! ## Handlers of main_monitor.cpp -/

/-- A handler that leaves its result and returns `false`: `default`, `close`, `pipe`,
`socketpair`, `fork`, `rt_sigaction`. -/
def resultHandler : SyscallHandler := fun env gprs =>
  some (Function.update gprs .rax env.result, 0)

/-- `not_implemented`, and the bodies of `brk` and `execveat`. -/
def notImplemented : SyscallHandler := fun _ gprs =>
  some (Function.update gprs .rax (-38), 0)

/-- `assert(0)`: `exit`, `exit_group` and `close_range`. -/
def abortingHandler : SyscallHandler := fun _ _ => none

/-- A handler that may have its result early, without the call being made. -/
def earlyHandler (early : SyscallEnv → GpFrame → Option (Option Quad)) : SyscallHandler :=
  fun env gprs =>
    (early env gprs).map fun e => (Function.update gprs .rax (e.getD env.result), 0)

def Op.isKernelCall : Op → Bool
  | .inline _ | .wrapper .. => true
  | _ => false

/-- What a memory handler returns if it does not come to a kernel call. -/
def SyscallEnv.withoutKernel {α : Type} (env : SyscallEnv) (p : M α) : Option (Option α) :=
  p.before Op.isKernelCall
    (fun s e => s.perform { answer := 0, pool := env.pool, bytes := fun _ => 0 } e)
    { Sys.start (fun _ => 0) with pm := env.pages, multithreaded := env.multithreaded }

def mmapEarly (env : SyscallEnv) (gprs : GpFrame) : Option (Option Quad) :=
  (env.withoutKernel (secpolineMmap (gprs .rdi).toNat (roundUp (gprs .rsi).toNat)
    (.ofNat 32 (gprs .rdx).toNat) (gprs .r10).toNat (asInt (gprs .r8)) TS_APPLICATION)).map
      (·.map (BitVec.ofInt 64))

def munmapEarly (env : SyscallEnv) (gprs : GpFrame) : Option (Option Quad) :=
  (env.withoutKernel (syscallHandlerMunmap (.ofBitVec (gprs .rdi)) (.ofBitVec (gprs .rsi)))).map
    (·.map fun _ => -22)

/-- `-ENOTDIR` if the file is not there. -/
def execveEarly (env : SyscallEnv) (_ : GpFrame) : Option (Option Quad) :=
  some (if env.refused then some (-20) else none)

/-- `-EACCES` for a file that has been opened and must not be. -/
def openEarly (env : SyscallEnv) (_ : GpFrame) : Option (Option Quad) :=
  some (if 0 ≤ env.result.toInt ∧ env.refused then some (-13) else none)

/-- `ARCH_SET_GS`, `PR_SET_SYSCALL_USER_DISPATCH`, `PR_SET_PTRACER`, `PR_SET_SECCOMP`. -/
def refusedPrctls : List Quad := [0x1001, 59, 0x59616d61, 22]

/-- `ARCH_SET_FS`, `ARCH_GET_FS`, which the monitor serves itself. -/
def servedPrctls : List Quad := [0x1002, 0x1003]

def archPrctlEarly (_ : SyscallEnv) (gprs : GpFrame) : Option (Option Quad) :=
  some (if gprs .rdi ∈ refusedPrctls then some (-38)
    else if gprs .rdi ∈ servedPrctls then some 0 else none)

/-- The size is a signed number, and asserted to be at most `sizeof(sigset_t)`. -/
def rtSigprocmaskEarly (_ : SyscallEnv) (gprs : GpFrame) : Option (Option Quad) :=
  if (gprs .r10).toInt > 128 then none
  else some (if gprs .r10 ≠ 8 then some (-22) else none)

def protWrite : Quad := 2
def protExec : Quad := 4
def protGrowsdown : Quad := 0x01000000

/-- `update_mprotect` returns 0 for the arguments in the array. -/
def SyscallEnv.updatesMprotect (env : SyscallEnv) (gprs : GpFrame) : Bool :=
  (updateMprotect env.pool env.pages (gprs .rdi).toNat (gprs .rsi).toNat
    (.ofNat 32 (gprs .rdx).toNat) TS_APPLICATION).any (·.1 = 0)

/-- A successful call without the right to execute asserts that the page manager could
be updated, and so does any call that does not ask for it. -/
def SyscallHandler.mprotect : SyscallHandler := fun env gprs =>
  match lookupRange env.pages (gprs .rdi).toNat (gprs .rsi).toNat TS_APPLICATION with
  | none => none
  | some none => some (Function.update gprs .rax (-22), 0)
  | some (some _) =>
      if gprs .rdx &&& protGrowsdown ≠ 0 then none
      else if gprs .rdx &&& protExec ≠ 0 ∧ gprs .rdx &&& protWrite ≠ 0 then
        let gprs := Function.update gprs .rdx (gprs .rdx &&& ~~~protExec)
        if env.result = 0 ∧ !env.updatesMprotect gprs then none
        else some (Function.update gprs .rax env.result, 0)
      else if gprs .rdx &&& protExec ≠ 0 then some (Function.update gprs .rax env.result, 0)
      else if env.updatesMprotect gprs then some (Function.update gprs .rax env.result, 0)
      else none

/-- `handle_mremap` and `handle_mremap_exec`. The latter scans the address it got even
if that is an error number, and ends there unless it can. -/
def mremapEarly (env : SyscallEnv) (prot : Prot) (gprs : GpFrame) : Option (Option Quad) :=
  if prot.isExec ∧ env.refused then some (some (-22))
  else
    (env.withoutKernel (handleMremap (gprs .rdi).toNat (gprs .rsi).toNat (gprs .rdx).toNat
      (gprs .r10).toNat (gprs .r8).toNat TS_APPLICATION)).map (·.map (BitVec.ofNat 64))

/-- Two of its errors are returned instead of written to the array. -/
def SyscallHandler.mremap : SyscallHandler := fun env gprs =>
  match lookupAddr env.pages (gprs .rdi).toNat TS_APPLICATION with
  | none => some (gprs, -14)
  | some rpage =>
      if wadd (gprs .rdi).toNat (gprs .rsi).toNat > rpage.pageEnd then
        some (gprs, -14)
      else earlyHandler (mremapEarly · rpage.prot) env gprs

def cloneVm : Quad := 0x100
def cloneSighand : Quad := 0x800
def cloneVfork : Quad := 0x4000
def cloneThread : Quad := 0x10000
def cloneDetached : Quad := 0x400000
def cloneClearSighand : Quad := 0x100000000

/-- `.rdi` are the flags, `.rsi` is the stack. -/
def SyscallHandler.clone : SyscallHandler := fun env gprs =>
  if gprs .rdi &&& cloneThread ≠ 0 then
    if gprs .rdi &&& cloneVm ≠ 0 ∧ gprs .rdi &&& cloneVfork = 0 ∧
        gprs .rdi &&& cloneClearSighand = 0 ∧ gprs .rsi ≠ 0 then some (gprs, 1)
    else none
  else if gprs .rdi &&& cloneVfork ≠ 0 then
    if gprs .rsi ≠ 0 ∧ gprs .rdi &&& cloneVm ≠ 0 ∧ gprs .rdi &&& cloneClearSighand = 0 then
      some (gprs, 1)
    else none
  else if gprs .rsi = 0 ∧ gprs .rdi &&& cloneClearSighand = 0 ∧
      gprs .rdi &&& cloneDetached = 0 ∧ gprs .rdi &&& cloneSighand = 0 ∧
      gprs .rdi &&& cloneVm = 0 then resultHandler env gprs
  else none

/-! ## initialise_syscall_handlers -/

def MAX_VALID_SYSCALL_NUM : Nat := 463

/-- `FD_CREATORS`. -/
def fdCreators : List Nat :=
  [2, 32, 33, 292, 41, 43, 288, 85, 213, 291, 253, 294, 257, 437, 282, 283, 284, 290, 298, 300,
   319, 323, 428, 430, 432, 433, 434, 438, 444, 447, 304]

/-- `FD_USERS`. -/
def fdUsers : List Nat :=
  [32, 0, 1, 3, 5, 8, 16, 17, 18, 19, 20, 42, 43, 288, 44, 45, 46, 47, 49, 50, 51, 52, 72, 73, 74,
   75, 77, 78, 81, 91, 93, 138, 313, 187, 196, 199, 221, 254, 255, 257, 437, 258, 259, 260, 261,
   262, 268, 452, 269, 439, 277, 278, 280, 282, 289, 285, 286, 287, 295, 296, 327, 328, 301, 303,
   306, 308, 322, 332, 424, 426, 427, 428, 431, 432, 433, 442, 443, 445, 446, 448, 451, 263, 48,
   304, 232, 281, 441, 54, 55, 190, 193, 267, 299, 307]

/-- `FD_USERS_SECOND_ARGUMENT`: `symlinkat`, `process_madvise`. -/
def fdUsersSecondArgument : List Nat := [266, 440]

/-- `FD_USERS_FIRST_SECOND_ARGUMENT`: `dup2`, `dup3`, `sendfile`, `tee`,
`kexec_file_load`, `move_mount`, `pidfd_getfd`. -/
def fdUsersFirstSecondArgument : List Nat := [33, 292, 40, 276, 320, 429, 438]

/-- `FD_USERS_FIRST_THIRD_ARGUMENT`: `renameat`, `renameat2`, `linkat`, `splice`,
`copy_file_range`, `epoll_ctl`. -/
def fdUsersFirstThirdArgument : List Nat := [264, 316, 265, 275, 326, 233]

/-- The calls whose main handler is `not_implemented`, and `brk` and `execveat`. -/
def notImplementedCalls : List Nat :=
  [15, 329, 331, 334, 321, 209, 310, 311, 317, 278, 323, 272, 435, 131, 298, 12, 322]

def nrMmap : Nat := 9
def nrMprotect : Nat := 10
def nrMunmap : Nat := 11
def nrRtSigprocmask : Nat := 14
def nrMremap : Nat := 25
def nrClone : Nat := 56
def nrExecve : Nat := 59

/-- `open`, `openat`, `openat2`, `open_by_handle_at`. -/
def openCalls : List Nat := [2, 257, 437, 304]

/-- `arch_prctl`, `prctl`. -/
def prctlCalls : List Nat := [158, 157]

/-- `exit`, `exit_group`, `close_range`. -/
def abortingCalls : List Nat := [60, 231, 436]

def prehandlers (n : Nat) : List SyscallHandler :=
  (if n ∈ fdUsers then [fdFirstArgumentPrehandler] else []) ++
  (if n ∈ fdUsersSecondArgument then [fdSecondArgumentPrehandler] else []) ++
  (if n ∈ fdUsersFirstSecondArgument then [fdFirstSecondArgumentPrehandler] else []) ++
  (if n ∈ fdUsersFirstThirdArgument then [fdFirstThirdArgumentPrehandler] else [])

def mainHandler (n : Nat) : SyscallHandler :=
  if n = nrMprotect then SyscallHandler.mprotect
  else if n = nrMremap then SyscallHandler.mremap
  else if n = nrClone then SyscallHandler.clone
  else if n = nrMmap then earlyHandler mmapEarly
  else if n = nrMunmap then earlyHandler munmapEarly
  else if n = nrExecve then earlyHandler execveEarly
  else if n = nrRtSigprocmask then earlyHandler rtSigprocmaskEarly
  else if n ∈ openCalls then earlyHandler openEarly
  else if n ∈ prctlCalls then earlyHandler archPrctlEarly
  else if n ∈ abortingCalls then abortingHandler
  else if n ∈ notImplementedCalls then notImplemented
  else resultHandler

def posthandlers (n : Nat) : List SyscallHandler :=
  if n ∈ fdCreators then [saveUntrustedFd] else []

/-- A row of `syscall_handler_list`. -/
def syscallHandlerList (n : Nat) : List SyscallHandler :=
  prehandlers n ++ mainHandler n :: posthandlers n

/-- The loop of `secpoline_syscall_handler`. -/
def runHandlers (env : SyscallEnv) : List SyscallHandler → GpFrame → Quad → Option (GpFrame × Quad)
  | [], gprs, ret => some (gprs, ret)
  | handler :: rest, gprs, _ =>
      match handler env gprs with
      | none => none
      | some (gprs', ret) => runHandlers env rest gprs' ret

def secpolineSyscallHandler (env : SyscallEnv) (gprs : GpFrame) : Option (GpFrame × Quad) :=
  let syscallNo := (gprs .rax).toNat
  if syscallNo < MAX_VALID_SYSCALL_NUM then runHandlers env (syscallHandlerList syscallNo) gprs 0
  else none

/-! ## The call from the assembly -/

/-- `REG_R8` to `REG_RSP`: the registers in the order of their indices. -/
def gregs : List Reg := gpRegs.reverse

/-- The array that starts at `base`. -/
def Machine.gpFrame (m : Machine) (base : Quad) : GpFrame := fun r =>
  m.mem (base + 8 * BitVec.ofNat 64 (gregs.idxOf r))

/-- The registers a function has to preserve. -/
def calleeSaved : List Reg := [.rbx, .rbp, .rsp, .r12, .r13, .r14, .r15]

/-- What `secpoline_syscall_handler` leaves when it returns to the assembly. Its
argument is in `%rdi`, and the application's stack pointer in the GS-relative data. -/
structure SyscallHandled (env : SyscallEnv) (m m' : Machine) : Prop where
  saved : ∀ r ∈ calleeSaved, m'.reg r = m.reg r
  secureStackSp : m'.gs .secureStackSp = m.gs .secureStackSp
  gprs : secpolineSyscallHandler env (m.gpFrame (m.reg .rdi)) =
    some (m'.gpFrame (m.reg .rdi), m'.reg .rax)
  appStack : m'.mem (m.gs .secureStackSp) =
    (env.writes (m.gs .secureStackSp)).getD (m.mem (m.gs .secureStackSp))

end Secpoline
