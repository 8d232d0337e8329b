import Secpoline.Lib.NullTerminated
import Secpoline.Model.SyscallTable

/-!
# Registering and calling handlers

`initialise_syscall_handlers` enters every handler with `add_handler` into a table
that has, for each system call, an array of prehandlers, a main handler and an array
of posthandlers. `generate_2d_handler_list` then packs each entry into a row of
`syscall_handler_list`, and `secpoline_syscall_handler` calls what it finds in the
row of a system call until it meets a null pointer.

The rows lie behind each other in memory and have no bounds of their own, so the
list is memory: a function of the position, counted in pointers from the beginning of
the array. What is in front of the array and behind it is not known.

What a handler is and does is left open; `HandlerName` at the end has the handlers
that are there, and what they stand for.
-/

namespace Secpoline

open Lib

/-- `MAX_SYSCALL_HANDLER_DEPTH`. -/
def MAX_SYSCALL_HANDLER_DEPTH : Nat := 2

/-- The width of a row, `MAX_SYSCALL_HANDLER_DEPTH*2+1`. -/
def handlerRow : Nat := MAX_SYSCALL_HANDLER_DEPTH * 2 + 1

/-- `handler_type_enum`. -/
inductive HandlerType where
  | prehandler
  | mainHandler
  | posthandler
  | emulateLater
deriving DecidableEq, Repr

/-- `syscall_handlers_struct`; `none` is a null pointer. -/
structure SyscallHandlersStruct (H : Type) where
  prehandlers : List (Option H)
  mainHandler : H
  posthandlers : List (Option H)
  isEmulated : Bool

/-- `syscall_handler_table`. -/
abbrev HandlerTable (H : Type) := Nat → SyscallHandlersStruct H

/-- The arguments of `add_handler`. -/
structure HandlerCall (H : Type) where
  syscallNo : Int
  func : H
  how : HandlerType
deriving DecidableEq, Repr

namespace Dispatch

section
variable {H : Type} [DecidableEq H] (default : H)

/-- The table that `initialise_syscall_handlers` begins with. -/
def emptyTable : HandlerTable H := fun _ =>
  { prehandlers := List.replicate (MAX_SYSCALL_HANDLER_DEPTH + 1) none
    mainHandler := default
    posthandlers := List.replicate (MAX_SYSCALL_HANDLER_DEPTH + 1) none
    isEmulated := false }

omit [DecidableEq H] in
/-- The `while` loop over one of the arrays, and the entry behind its elements. -/
def enterHandler (handlers : List (Option H)) (func : H) : Option (List (Option H)) :=
  match handlers.findIdx? Option.isNone with
  | none => none
  | some index =>
      if index < MAX_SYSCALL_HANDLER_DEPTH then some (handlers.set index (some func)) else none

/-- The `switch` of `add_handler`. -/
def enterRow (row : SyscallHandlersStruct H) (func : H) :
    HandlerType → Option (SyscallHandlersStruct H)
  | .mainHandler =>
      if row.mainHandler = default then some { row with mainHandler := func } else none
  | .prehandler =>
      (enterHandler row.prehandlers func).map fun prehandlers => { row with prehandlers }
  | .posthandler =>
      (enterHandler row.posthandlers func).map fun posthandlers => { row with posthandlers }
  | .emulateLater =>
      if row.posthandlers.head? = some none ∧ row.prehandlers.head? = some none then
        some { row with isEmulated := true, mainHandler := func }
      else none

/-- `add_handler`. Its assertion bounds the number from above only; a negative one
would be an entry in front of the table, where there is none. -/
def addHandler (table : HandlerTable H) (c : HandlerCall H) : Option (HandlerTable H) :=
  if c.syscallNo < MAX_VALID_SYSCALL_NUM ∧ 0 ≤ c.syscallNo then
    (enterRow default (table c.syscallNo.toNat) c.func c.how).map fun row =>
      Function.update table c.syscallNo.toNat row
  else none

/-- A sequence of calls. -/
def addHandlers (calls : List (HandlerCall H)) : Option (HandlerTable H) :=
  calls.foldlM (addHandler default) (emptyTable default)

end

section
variable {H σ : Type}

/-- Memory that holds `syscall_handler_list`. -/
abbrev HandlerList (H : Type) := Int → Option H

/-- `list[syscall_no][new_index++] = ...` for one handler after the other. -/
def writeFrom (position : Int) : List H → HandlerList H → HandlerList H
  | [], list => list
  | h :: rest, list => writeFrom (position + 1) rest (Function.update list position (some h))

/-- What goes into a row. -/
def rowHandlers (row : SyscallHandlersStruct H) : List H :=
  upToNull row.prehandlers ++ row.mainHandler :: upToNull row.posthandlers

/-- `generate_2d_handler_list`, for the first so many system calls. -/
def generateRows (table : HandlerTable H) (list : HandlerList H) : Nat → HandlerList H
  | 0 => list
  | n + 1 => writeFrom (handlerRow * n) (rowHandlers (table n)) (generateRows table list n)

/-- The array is a global variable and all null at first; `around` is what is outside
of it. -/
def blankList (around : HandlerList H) : HandlerList H := fun position =>
  if 0 ≤ position ∧ position < handlerRow * MAX_VALID_SYSCALL_NUM then none else around position

def generate2dHandlerList (table : HandlerTable H) (around : HandlerList H) : HandlerList H :=
  generateRows table (blankList around) MAX_VALID_SYSCALL_NUM

variable (call : H → σ → Option (σ × Quad))

/-- The `for` loop of `secpoline_syscall_handler`, for at most so many turns: the handlers
that it called, and the state and the value in the end. `call` is what a handler does;
one that does not return ends the loop. The value of the last handler is kept in
an `int`. -/
def handlerLoop (list : HandlerList H) :
    Nat → Int → σ → BitVec 32 → Option (List H × Option (σ × Quad))
  | 0, _, _, _ => none
  | fuel + 1, position, s, ret =>
      match list position with
      | none => some ([], some (s, ret.signExtend 64))
      | some h =>
          match call h s with
          | none => some ([h], none)
          | some (s', r) =>
              (handlerLoop list fuel (position + 1) s' (r.setWidth 32)).map
                fun out => (h :: out.1, out.2)

/-- `secpoline_syscall_handler`. `ret` is what the variable holds before a handler has
been called. -/
def secpolineSyscallHandler (list : HandlerList H) (fuel : Nat) (syscallNo : Int) (s : σ)
    (ret : BitVec 32) : Option (List H × Option (σ × Quad)) :=
  if syscallNo < MAX_VALID_SYSCALL_NUM then
    handlerLoop call list fuel (handlerRow * syscallNo) s ret
  else some ([], none)

end

end Dispatch

/-! ## The handlers that are there -/

/-- `syscall_handler_...`. -/
inductive HandlerName where
  | default
  | saveUntrustedFd
  | fdFirstArgumentPrehandler
  | fdSecondArgumentPrehandler
  | fdFirstSecondArgumentPrehandler
  | fdFirstThirdArgumentPrehandler
  | close
  | closeRange
  | pipe
  | socketpair
  | notImplemented
  | openFile
  | fork
  | mmap
  | munmap
  | brk
  | mprotect
  | mremap
  | execve
  | execveat
  | archPrctl
  | rtSigprocmask
  | rtSigaction
  | exit
  | exitGroup
  | clone
deriving DecidableEq, Repr

/-- What a handler does. -/
def HandlerName.denote : HandlerName → SyscallHandler
  | .default | .close | .pipe | .socketpair | .fork | .rtSigaction => resultHandler
  | .saveUntrustedFd => Secpoline.saveUntrustedFd
  | .fdFirstArgumentPrehandler => Secpoline.fdFirstArgumentPrehandler
  | .fdSecondArgumentPrehandler => Secpoline.fdSecondArgumentPrehandler
  | .fdFirstSecondArgumentPrehandler => Secpoline.fdFirstSecondArgumentPrehandler
  | .fdFirstThirdArgumentPrehandler => Secpoline.fdFirstThirdArgumentPrehandler
  | .notImplemented | .brk | .execveat => Secpoline.notImplemented
  | .closeRange | .exit | .exitGroup => abortingHandler
  | .openFile => earlyHandler openEarly
  | .mmap => earlyHandler mmapEarly
  | .munmap => earlyHandler munmapEarly
  | .mprotect => SyscallHandler.mprotect
  | .mremap => SyscallHandler.mremap
  | .execve => earlyHandler execveEarly
  | .archPrctl => earlyHandler archPrctlEarly
  | .rtSigprocmask => earlyHandler rtSigprocmaskEarly
  | .clone => SyscallHandler.clone

/-- The `ADD_MAIN_HANDLER`s of `initialise_syscall_handlers`. -/
def mainHandlers : List (Nat × HandlerName) :=
  [(3, .close), (436, .closeRange), (22, .pipe), (293, .pipe), (53, .socketpair),
   (15, .notImplemented), (329, .notImplemented), (331, .notImplemented), (334, .notImplemented),
   (321, .notImplemented), (209, .notImplemented), (310, .notImplemented), (311, .notImplemented),
   (317, .notImplemented), (278, .notImplemented), (323, .notImplemented), (272, .notImplemented),
   (435, .notImplemented), (131, .notImplemented), (298, .notImplemented),
   (2, .openFile), (257, .openFile), (437, .openFile), (304, .openFile), (57, .fork), (58, .fork),
   (9, .mmap), (11, .munmap), (12, .brk), (10, .mprotect), (25, .mremap), (59, .execve),
   (322, .execveat), (158, .archPrctl), (157, .archPrctl), (14, .rtSigprocmask),
   (13, .rtSigaction), (60, .exit), (231, .exitGroup)]

/-- One `add_handler` for each system call of a group. -/
def addToAll {H : Type} (calls : List Nat) (func : H) (how : HandlerType) : List (HandlerCall H) :=
  calls.map fun (n : Nat) => { syscallNo := n, func, how }

/-- `initialise_syscall_handlers`: its calls of `add_handler`. -/
def initialiseSyscallHandlers : List (HandlerCall HandlerName) :=
  addToAll fdCreators .saveUntrustedFd .posthandler ++
  addToAll fdUsers .fdFirstArgumentPrehandler .prehandler ++
  addToAll fdUsersSecondArgument .fdSecondArgumentPrehandler .prehandler ++
  addToAll fdUsersFirstSecondArgument .fdFirstSecondArgumentPrehandler .prehandler ++
  addToAll fdUsersFirstThirdArgument .fdFirstThirdArgumentPrehandler .prehandler ++
  mainHandlers.map (fun m => { syscallNo := m.1, func := m.2, how := .mainHandler }) ++
  [{ syscallNo := nrClone, func := .clone, how := .emulateLater }]

end Secpoline
