import Mathlib.Data.List.Basic
import Secpoline.Model.Word

/-!
# execve

The application's `execve` does not run the program it names: `syscall_handler_execve`
runs the loader of secpoline on it, with copies of the application's arguments and
environment, in which it empties every `SECPOLINE_LD_PRELOAD`. The loader's `main`
loads secpoline first, unless its environment tells it not to.

An array of strings is what can be read from its address on, null pointers included;
what is behind it cannot be read, and doing so ends the process, as does `strdup` of a
null pointer. The arrays do not change while they are copied.
-/

namespace Secpoline

/-- Memory that an array of strings begins. -/
abbrev CStrings := List (Option CString)

/-! ## Environment variables -/

/-- Name and value of a variable: what is before and behind the first `=`. -/
def splitVar : CString → Option (CString × CString)
  | [] => none
  | c :: cs =>
      if c = '=' then some ([], cs)
      else (splitVar cs).map fun (name, value) => (c :: name, value)

/-- The value of an entry, if its name is `name`. -/
def valueOf (name : CString) (e : CString) : Option CString :=
  match splitVar e with
  | some (n, value) => if n = name then some value else none
  | none => none

/-- The first entry counts. -/
def getenv (env : List CString) (name : CString) : Option CString := env.findSome? (valueOf name)

def secpolineVar : CString := "SECPOLINE".toList
def secpolineLdPreload : CString := "SECPOLINE_LD_PRELOAD".toList
def ldPreload : CString := "LD_PRELOAD".toList
def glibcTunables : CString := "GLIBC_TUNABLES".toList
def loaderPath : CString := "LOADER_PATH".toList
def secpolineLoaderPath : CString := "secpoline_LOADER_PATH".toList
def disable : CString := "DISABLE".toList

/-! ## syscall_handler_execve -/

/-- `path_to_loader` and `path_to_secpoline`. -/
structure MonitorPaths where
  loader : CString
  secpoline : CString
deriving DecidableEq, Repr

inductive ExecveOutcome where
  /-- The process reads memory that it cannot. -/
  | fault
  /-- `-ENOTDIR`. -/
  | refused
  /-- The kernel is called to run the loader. -/
  | exec (argv env : List CString)
deriving DecidableEq, Repr

/-- `while(p[++n]);` after `n = 0`. The pointer at the beginning is not looked at. -/
def countPointers : CStrings → Option Nat
  | [] => none
  | _ :: rest => (rest.findIdx? Option.isNone).map (· + 1)

/-- `strdup` of the pointers. -/
def dupStrings (ps : CStrings) : Option (List CString) := ps.mapM id

/-- `argc`. -/
def countArgs : Option CStrings → Option Nat
  | none => some 1
  | some [] => none
  | some (none :: _) => some 1
  | some (some a :: rest) => countPointers (some a :: rest)

/-- `new_envp[i][offset+1] = '\0'`. -/
def sanitizeVar (e : CString) : CString :=
  match splitVar e with
  | some (name, _) => if name = secpolineLdPreload then name ++ ['='] else e
  | none => e

/-- `new_envp`; a null pointer is an empty environment to the kernel. -/
def newEnvp : Option CStrings → Option (List CString)
  | none => some []
  | some envp =>
      match countPointers envp with
      | none => none
      | some envpc => (dupStrings (envp.take envpc)).map (·.map sanitizeVar)

/-- `access` says whether there is a file. -/
def syscallHandlerExecve (paths : MonitorPaths) (access : CString → Bool)
    (filename : Option CString) (argv envp : Option CStrings) : ExecveOutcome :=
  match countArgs argv, filename with
  | some argc, some file =>
      if access file then
        match dupStrings (((argv.getD []).take argc).drop 1), newEnvp envp with
        | some args, some env => .exec (paths.loader :: paths.secpoline :: file :: args) env
        | _, _ => .fault
      else .refused
  | _, _ => .fault

/-! ### The arrays

The same at the level of the arrays that are allocated, filled and handed to the kernel. -/

/-- `calloc` of so many pointers. -/
def callocPointers (n : Nat) : CStrings := List.replicate n none

/-- `p[i] = s`. Behind the end of the array there is none to write to. -/
def putPointer (p : CStrings) (i : Nat) (s : CString) : Option CStrings :=
  if i < p.length then some (p.set i (some s)) else none

/-- `p[i + offset] = strdup(from[i])` for so many `i`, from the given one on. -/
def copyPointers (source : CStrings) (offset : Nat) : Nat → Nat → CStrings → Option CStrings
  | _, 0, p => some p
  | i, count + 1, p =>
      match source[i]?.join with
      | none => none
      | some s =>
          match putPointer p (i + offset) s with
          | none => none
          | some p' => copyPointers source offset (i + 1) count p'

/-- `new_argv`. -/
def newArgvArray (paths : MonitorPaths) (file : CString) (argv : CStrings) (argc : Nat) :
    Option CStrings := do
  let p ← putPointer (callocPointers (argc + 3)) 0 paths.loader
  let p ← putPointer p 1 paths.secpoline
  let p ← putPointer p 2 file
  copyPointers argv 2 1 (argc - 1) p

/-- The loop that empties variables, up to the null pointer of `new_envp`. -/
def sanitizePointers : CStrings → Option CStrings
  | [] => none
  | none :: rest => some (none :: rest)
  | some e :: rest => (sanitizePointers rest).map (some (sanitizeVar e) :: ·)

/-- `new_envp`. -/
def newEnvpArray (envp : CStrings) : Option CStrings := do
  let envpc ← countPointers envp
  let p ← copyPointers envp 0 0 envpc (callocPointers (envpc + 1))
  sanitizePointers p

inductive ExecveCall where
  | fault
  | refused
  /-- The pointers that the kernel is given; `new_envp` may be null. -/
  | exec (argv : CStrings) (envp : Option CStrings)
deriving DecidableEq, Repr

def syscallHandlerExecveArrays (paths : MonitorPaths) (access : CString → Bool)
    (filename : Option CString) (argv envp : Option CStrings) : ExecveCall :=
  match countArgs argv, filename with
  | some argc, some file =>
      if access file then
        match newArgvArray paths file (argv.getD []) argc, envp.map newEnvpArray with
        | some argv', none => .exec argv' none
        | some argv', some (some envp') => .exec argv' (some envp')
        | _, _ => .fault
      else .refused
  | _, _ => .fault

/-! ## The loader -/

/-- What becomes of an entry in the environment of secpoline; its place stays null if
there is no `=`, and for `LD_PRELOAD` if nothing is to replace it. -/
def updateVar (preload : Option CString) (e : CString) : Option CString :=
  match splitVar e with
  | none => none
  | some (name, _) =>
      if name = ldPreload then preload.map fun value => ldPreload ++ '=' :: value
      else if name = glibcTunables then some (e ++ "glibc.pthread.rseq=0".toList)
      else some e

/-- `update_ldpreload`. The array grows by the variables that are new; its last place is
then not initialised, and `fresh` is what it happens to hold. -/
def updateLdpreload (env : List CString) (fresh : Option CString) : List (Option CString) :=
  let preload := getenv env secpolineLdPreload
  let tunables :=
    if getenv env glibcTunables = none then [some "GLIBC_TUNABLES=glibc.pthread.rseq=0".toList]
    else []
  let preloads :=
    match getenv env ldPreload, preload with
    | none, some value => [some (ldPreload ++ '=' :: value)]
    | _, _ => []
  env.map (updateVar preload) ++ tunables ++ preloads ++
    [if tunables ++ preloads = [] then none else fresh]

inductive LoaderOutcome where
  /-- `secpoline` is loaded by the libc loader `libc`, in the environment `environ`. -/
  | loads (libc secpoline : CString) (environ : List (Option CString))
  | exits
  /-- The program is loaded by itself. -/
  | skips
deriving DecidableEq, Repr

/-- The libc loader that `load_secpoline` uses. -/
def libcLoaderName (env : List CString) : CString :=
  match getenv env secpolineLoaderPath, getenv env loaderPath with
  | some name, _ => name
  | none, some name => name
  | none, none => "/lib64/ld-linux-x86-64.so.2".toList

/-- `load_secpoline`, when the loader is run as a program. -/
def loadSecpoline (argv env : List CString) (fresh : Option CString) : LoaderOutcome :=
  match argv with
  | _ :: secpolinePath :: _ => .loads (libcLoaderName env) secpolinePath (updateLdpreload env fresh)
  | _ => .exits

/-- `main`, up to where the program is loaded. -/
def loaderMain (argv env : List CString) (fresh : Option CString) : LoaderOutcome :=
  match getenv env secpolineVar with
  | none => loadSecpoline argv env fresh
  | some value => if value ≠ disable then loadSecpoline argv env fresh else .skips

end Secpoline
