import Secpoline.Model.Breakpoints

/-!
# The list of unsafe pages

`unsafe_pages` records, for every page that a scan found an unsafe instruction
on or that the application wants writable and executable, which protection the
page has now, which one was asked for, and where the unsafe instructions are.
Entries are never removed.

An entry is identified by its page address; a pointer to an entry is modelled by
that address. `none` is a null pointer that the code dereferences.
-/

namespace Secpoline

/-- Change the first entry that satisfies `p`. -/
def modifyFirst {α : Type} (p : α → Bool) (f : α → α) : List α → List α
  | [] => []
  | a :: rest => if p a then f a :: rest else a :: modifyFirst p f rest

/-- `find_unsafe_page`. -/
def findUnsafePage (l : List UnsafePage) (address : Nat) : Option UnsafePage :=
  l.find? fun e => e.address == address / 4096 * 4096

/-- `update_unsafe_page`: whether there is an entry, and the list with it
overwritten. The vector is dereferenced for its size, so an update of an existing
entry with a null vector does not return. -/
def updateUnsafePage (l : List UnsafePage) (address : Nat) (currentPerm desiredPerm : Prot)
    (trustedPage : Bool) (unsafeInstructions : Option (List Nat)) :
    Option (Bool × List UnsafePage) :=
  if l.any fun e => e.address == address then
    match unsafeInstructions with
    | none => none
    | some v =>
        some (true, modifyFirst (fun e => e.address == address)
          (fun _ => { address, trustedPage, currentPerm, desiredPerm
                      unsafeInstructions := some v, unsafeInstructionsSize := v.length }) l)
  else some (false, l)

/-- `add_unsafe_page`. -/
def addUnsafePage (l : List UnsafePage) (address : Nat) (currentPerm desiredPerm : Prot)
    (trustedPage : Bool) (unsafeInstructions : Option (List Nat)) : Option (List UnsafePage) :=
  match updateUnsafePage l address currentPerm desiredPerm trustedPage unsafeInstructions with
  | none => none
  | some (true, l') => some l'
  | some (false, _) =>
      some (l ++ [{ address, trustedPage, currentPerm, desiredPerm, unsafeInstructions
                    unsafeInstructionsSize := (unsafeInstructions.getD []).length }])

/-- `update_unsafe_instruction`: a new entry for the page, or one more
instruction in the vector of the last entry for it, whose other fields stay as
they are. -/
def updateUnsafeInstruction (l : List UnsafePage) (address instruction : Nat)
    (currentPerm desiredPerm : Prot) (trustedPage : Bool) : Option (List UnsafePage) :=
  let page := address / 4096 * 4096
  match l.reverse.find? fun e => e.address == page with
  | none => addUnsafePage l address currentPerm desiredPerm trustedPage (some [instruction])
  | some e =>
      match e.unsafeInstructions with
      | none => none
      | some v =>
          if v.contains instruction then some l
          else
            some (modifyFirst (fun e => e.address == page)
              (fun e => { e with unsafeInstructions := some (v ++ [instruction]) })
                l.reverse).reverse

/-- `page->current_perm = perm` through a pointer to the entry. -/
def setCurrentPerm (l : List UnsafePage) (address : Nat) (perm : Prot) : List UnsafePage :=
  modifyFirst (fun e => e.address == address) (fun e => { e with currentPerm := perm }) l

/-! ## The list with its size

`unsafe_page_list` keeps the number of its entries in a field of its own, and the loops
go by that field. -/

structure UnsafePageList where
  list : List UnsafePage := []
  size : Nat := 0
deriving DecidableEq, Repr

namespace UnsafePageList

/-- The `while` loop of `update_unsafe_page` with so many entries to go: the index of the
first one for the address. `none` is a read behind the end of the list. -/
def searchFirst (address : Nat) : List UnsafePage → Nat → Option (Option Nat)
  | _, 0 => some none
  | [], _ + 1 => none
  | e :: rest, n + 1 =>
      if e.address = address then some (some 0)
      else (searchFirst address rest n).map (Option.map (· + 1))

/-- The `for` loop of `update_unsafe_instruction`, which goes on when it has found one. -/
def searchLast (address : Nat) : List UnsafePage → Nat → Option (Option Nat)
  | _, 0 => some none
  | [], _ + 1 => none
  | e :: rest, n + 1 =>
      (searchLast address rest n).map fun r =>
        match r with
        | some i => some (i + 1)
        | none => if e.address = address then some 0 else none

/-- `update_unsafe_page`. -/
def updateUnsafePage (u : UnsafePageList) (address : Nat) (currentPerm desiredPerm : Prot)
    (trustedPage : Bool) (unsafeInstructions : Option (List Nat)) :
    Option (Bool × UnsafePageList) :=
  match searchFirst address u.list u.size with
  | none => none
  | some none => some (false, u)
  | some (some i) =>
      match unsafeInstructions with
      | none => none
      | some v =>
          some (true, { u with list := u.list.modify i fun _ =>
            { address, trustedPage, currentPerm, desiredPerm
              unsafeInstructions := some v, unsafeInstructionsSize := v.length } })

/-- `add_unsafe_page`. -/
def addUnsafePage (u : UnsafePageList) (address : Nat) (currentPerm desiredPerm : Prot)
    (trustedPage : Bool) (unsafeInstructions : Option (List Nat)) : Option UnsafePageList :=
  match u.updateUnsafePage address currentPerm desiredPerm trustedPage unsafeInstructions with
  | none => none
  | some (true, u') => some u'
  | some (false, _) =>
      some
        { list := u.list ++ [{ address, trustedPage, currentPerm, desiredPerm, unsafeInstructions
                               unsafeInstructionsSize := (unsafeInstructions.getD []).length }]
          size := u.size + 1 }

/-- `update_unsafe_instruction`. -/
def updateUnsafeInstruction (u : UnsafePageList) (address instruction : Nat)
    (currentPerm desiredPerm : Prot) (trustedPage : Bool) : Option UnsafePageList :=
  if ¬ (instruction ≥ address ∧ instruction < address + 4096) then none
  else
    match searchLast (address / 4096 * 4096) u.list u.size with
    | none => none
    | some none => u.addUnsafePage address currentPerm desiredPerm trustedPage (some [instruction])
    | some (some i) =>
        match u.list[i]? with
        | none => none
        | some e =>
            match e.unsafeInstructions with
            | none => none
            | some v =>
                if v.contains instruction then some u
                else
                  some { u with list := u.list.modify i fun e =>
                    { e with unsafeInstructions := some (v ++ [instruction]) } }

end UnsafePageList

end Secpoline
