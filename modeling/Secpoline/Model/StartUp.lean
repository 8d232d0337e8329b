import Secpoline.Lib.Text
import Secpoline.Model.Handlers

/-!
# Taking over the mappings of the process

Before the loader starts secpoline it records the mappings of the process, which are
the application's. When secpoline has been loaded, `init_page_manager` reads
`/proc/self/maps` and goes through it line by line: it skips the kernel's own
mappings, and hands the others to `init_page_group`, as the application's if the
loader has recorded a mapping with the same start address.

A line is read the way the code does, with `strtoll`, `strchr` and `strstr`. The kernel's
side, which prints the lines, is modelled as far as the fields are concerned that the
code reads.
-/

namespace Secpoline

open Lib

/-! ## What the loader recorded -/

/-- `struct Page_group`. -/
structure PageGroup where
  startAddress : Nat
  size : Int
  permissions : Prot
deriving DecidableEq, Repr

/-- `struct mmapped_list_s`. -/
structure MmappedList where
  list : List PageGroup
  vvar : PageGroup
  vdso : PageGroup
deriving DecidableEq, Repr

def mappingInList (mappingAddress : Nat) (mList : MmappedList) : Bool :=
  mList.list.any fun g => mappingAddress == g.startAddress

/-! ## /proc/self/maps -/

/-- A mapping as the kernel lists it. -/
structure Mapping where
  start : Nat
  stop : Nat
  read : Bool
  write : Bool
  exec : Bool
  shared : Bool
  /-- Offset, device and inode, with the blanks up to the name. -/
  info : CString
  /-- The path of the file, or the kernel's name in brackets. -/
  name : CString
deriving DecidableEq, Repr

namespace Mapping

def permissions (m : Mapping) : CString :=
  [if m.read then 'r' else '-', if m.write then 'w' else '-', if m.exec then 'x' else '-',
    if m.shared then 's' else 'p']

/-- The line of a mapping. -/
def line (m : Mapping) : CString :=
  hexString m.start ++ '-' ::
    (hexString m.stop ++ ' ' :: (m.permissions ++ ' ' :: (m.info ++ m.name)))

end Mapping

def mapsText (ms : List Mapping) : CString := ms.flatMap fun m => m.line ++ ['\n']

/-! ## init_page_manager -/

/-- `strtoll` with base 16, for a text that begins with a digit. -/
def strtoll (s : CString) : Nat × CString :=
  let (n, rest) := parseHex 0 s
  (min n 0x7fffffffffffffff, rest)

def strstr (line : CString) (word : String) : Bool := occurs word.toList line

/-- The first three characters of the permissions. -/
def protOfChars (permissions : CString) : Prot :=
  (if permissions[0]? = some 'r' then PROT_READ else 0) |||
    (if permissions[1]? = some 'w' then PROT_WRITE else 0) |||
    (if permissions[2]? = some 'x' then PROT_EXEC else 0)

def libsegfaultFile : String := "libsegfault_handler.so"

/-- One turn of the loop of `init_page_manager`. -/
def initMapsLine (loaderMappings : MmappedList) (allowList : List Nat) (line : CString) : M Unit :=
  if line = [] then pure ()
  else if strstr line "vdso" then pure ()
  else if strstr line "vvar" then pure ()
  else
    let (mappingStart, rest) := strtoll line
    if mappingStart ≥ 0x7fffffffffffffff then pure ()
    else
      match rest, line.dropWhile (· ≠ ' ') with
      | '-' :: rest, _ :: pagePermissions => do
          let mappingEnd := (strtoll rest).1
          Prog.require (pagePermissions[0]? = some 'r' ∨ pagePermissions[0]? = some '-')
          let cid :=
            if mappingInList mappingStart loaderMappings then TS_APPLICATION else TS_MONITOR
          initPageGroup mappingStart mappingEnd (protOfChars pagePermissions)
            (strstr line libsegfaultFile) cid allowList
      | _, _ => .abort

/-- What a turn reads, apart from what it does with it: the start, the end and the protection, or
nothing for a line that is left out. No answer is a failure. -/
def initReads (line : CString) : Option (Option (Nat × Nat × Prot)) :=
  if line = [] then some none
  else if strstr line "vdso" then some none
  else if strstr line "vvar" then some none
  else
    let (mappingStart, rest) := strtoll line
    if mappingStart ≥ 0x7fffffffffffffff then some none
    else
      match rest, line.dropWhile (· ≠ ' ') with
      | '-' :: rest, _ :: pagePermissions =>
          if pagePermissions[0]? = some 'r' ∨ pagePermissions[0]? = some '-' then
            some (some (mappingStart, (strtoll rest).1, protOfChars pagePermissions))
          else none
      | _, _ => none

def SECPOLINE_READONLY_MPKEY : Nat := 1
def NULL_PTR_MPKEY : Nat := 3

def staticBufSize : Nat := 16 * 1024 * 1024

/-- The vdso and the vvar pages are the monitor's, and the application may read them. -/
def initKernelPages (g : PageGroup) : M Unit := do
  expectZero (perform (.addPage g.startAddress (toWord g.size) g.permissions 0 TS_MONITOR false))
  expectZero (perform (.inline
    (.mprotect g.startAddress (toWord g.size) g.permissions (some SECPOLINE_READONLY_MPKEY))))

/-- `init_page_manager`, when `/proc/self/maps` is `maps`; `gsBase` and `gsSize` are
where `readable_data` is. -/
def initPageManager (loaderMappings : MmappedList) (maps : CString) (allowList : List Nat)
    (gsBase gsSize : Nat) : M Unit := do
  Prog.fold (fun _ => initMapsLine loaderMappings allowList)
    (splitLines (maps.take (staticBufSize - 1))) ()
  initKernelPages loaderMappings.vdso
  initKernelPages loaderMappings.vvar
  expectZero (perform (.inline
    (.mprotect gsBase gsSize (PROT_READ ||| PROT_WRITE) (some SECPOLINE_READONLY_MPKEY))))
  expectZero (perform (.inline (.mprotect 0 4096 PROT_EXEC (some NULL_PTR_MPKEY))))
  expectZero (perform (.updateMprotect 0 4096 PROT_EXEC TS_MONITOR))

end Secpoline
