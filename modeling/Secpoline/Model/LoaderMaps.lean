import Secpoline.Model.Libc
import Secpoline.Model.StartUp

/-!
# What the loader records of the mappings

Before the loader starts secpoline, `get_mappings` reads `/proc/self/maps` with `fgets` into a
buffer of 256 characters and records what the lines say in a `struct mmapped_list_s` on its
stack. Of this structure only the number of groups is set before; `vvar` and `vdso` hold what
was on the stack. A line that does not fit into the buffer comes in several pieces, and each of
them is taken for a line.

`init_page_manager` later reads the same text out of one large buffer. What it reads off a line
is said here apart from what it does with it.
-/

namespace Secpoline

open Lib

/-! ## get_mappings -/

def MAX_MMAP_LIST_SIZE : Nat := 256

/-- What `fgets(line, 256, maps_file)` gives, one call after the other. -/
def fgetsLines (maps : CString) : List CString := cutFrom 254 254 maps

/-- What the loop makes of the string in `line`. -/
inductive MapsPiece where
  | ignored
  /-- An assertion fails, or a null pointer is followed. -/
  | fails
  | vvar (start size : Nat)
  | vdso (start size : Nat)
  /-- With what is behind the first blank. -/
  | mapping (start size : Nat) (pagePermissions : CString)
deriving DecidableEq, Repr

/-- A turn from behind the `-` on. -/
def readRange (line : CString) (mappingStart : Nat) (endPtr : CString) : MapsPiece :=
  let mappingEnd := toWord (strtollHex endPtr).1
  if strstr line "vvar" then .vvar mappingStart (wsub mappingEnd mappingStart)
  else if strstr line "vdso" then .vdso mappingStart (wsub mappingEnd mappingStart)
  else
    match line.dropWhile (· ≠ ' ') with
    | _ :: pagePermissions =>
        if pagePermissions[0]? = some 'r' ∨ pagePermissions[0]? = some '-' then
          .mapping mappingStart (wsub mappingEnd mappingStart) pagePermissions
        else .fails
    | [] => .fails

def readPiece (line : CString) : MapsPiece :=
  if line = [] then .ignored
  else
    let (start, endPtr) := strtollHex line
    let mappingStart := toWord start
    if mappingStart ≥ 0x7fffffffffffffff then .ignored
    else
      match endPtr with
      | '-' :: endPtr => readRange line mappingStart endPtr
      | _ => .fails

/-- A `vvar` that is recorded already, or seems to be, must end where the next one begins. -/
def recordVvar (vvar : PageGroup) (start size : Nat) : Option PageGroup :=
  if vvar.startAddress ≠ 0 then
    if start = toWord (vvar.startAddress + vvar.size) then
      some ⟨vvar.startAddress, toInt32 (toWord (vvar.size + size)), PROT_READ⟩
    else none
  else some ⟨start, toInt32 size, PROT_READ⟩

/-- `behind` is what the memory holds behind the zero that ends the string; the permissions are
read without looking for it. -/
def recordPiece (s : MmappedList) (behind : CString) : MapsPiece → Option MmappedList
  | .ignored => some s
  | .fails => none
  | .vvar start size => (recordVvar s.vvar start size).map fun vvar => { s with vvar }
  | .vdso start size => some { s with vdso := ⟨start, toInt32 size, PROT_EXEC⟩ }
  | .mapping start size pagePermissions =>
      if s.list.length < MAX_MMAP_LIST_SIZE then
        let perm := protOfChars (pagePermissions ++ '\x00' :: behind)
        some { s with list := s.list ++ [⟨start, toInt32 size, perm⟩] }
      else none

/-- `memory` is what the stack holds from `line` on. -/
def getMappingsLoop : MmappedList → CString → List CString → Option MmappedList
  | s, _, [] => some s
  | s, memory, line :: lines =>
      let behind := memory.drop (line.length + 1)
      (recordPiece s behind (readPiece line)).bind fun s =>
        getMappingsLoop s (line ++ '\x00' :: behind) lines

/-- `get_mappings`, from an uninitialised `mmapped_list` and `line`. -/
def getMappings (mmappedList : MmappedList) (memory maps : CString) : Option MmappedList :=
  getMappingsLoop { mmappedList with list := [] } memory (fgetsLines maps)

/-! ## What init_page_manager reads -/

/-- `init_page_group` takes `end - start` for the size. -/
def initRecords (maps : CString) : Option (List PageGroup) :=
  ((splitLines maps).mapM initReads).map fun lines =>
    lines.reduceOption.map fun x => ⟨x.1, wsub x.2.1 x.1, x.2.2⟩

end Secpoline
