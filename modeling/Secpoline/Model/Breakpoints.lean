import Secpoline.Model.Word

/-!
# The hardware breakpoint controllers

Every thread owns an `hbreakpoint_controller`, which spends the processor's
four debug registers on the unsafe instructions of executable pages. Pages of
the segfault handler itself are watched statically; every other page takes its
registers from the dynamic share, and the oldest dynamic page gives its own
back when they run out.

The file descriptors of the perf events are left out: the source says itself
that only the addresses matter when a controller is copied. An index past the
end of one of the fixed arrays, or past the end of the instruction vector, is
undefined in the source and ends the run here, as a failed assertion does.
-/

namespace Secpoline

/-- `MAX_HBREAKPOINTS` of `hardware_breakpoints.h`. -/
def maxHbreakpoints : Nat := 4

/-- `struct unsafe_page` of `erim.h`. The vector of unsafe instructions may be
null, and its size is a field of its own that is updated separately. -/
structure UnsafePage where
  address : Nat
  trustedPage : Bool
  currentPerm : Prot
  desiredPerm : Prot
  unsafeInstructions : Option (List Nat)
  unsafeInstructionsSize : Nat
deriving DecidableEq, Repr

/-- The recorded instructions; a null vector holds none. -/
def UnsafePage.instructions (e : UnsafePage) : List Nat := e.unsafeInstructions.getD []

/-- `hbreakpoint_controller`: the addresses watched for each page, in the order
the pages were added. -/
structure HbController where
  maxDynamicBreakpoints : Int
  usedBreakpoints : Int
  staticHbreakpoints : List (List Nat)
  dynamicHbreakpoints : List (List Nat)
deriving DecidableEq, Repr

namespace HbController

/-- The constructor: nothing watched, every register free for dynamic pages. -/
def init : HbController :=
  { maxDynamicBreakpoints := maxHbreakpoints, usedBreakpoints := 0
    staticHbreakpoints := [], dynamicHbreakpoints := [] }

/-- Every address a controller watches. -/
def watched (c : HbController) : List Nat :=
  c.staticHbreakpoints.flatten ++ c.dynamicHbreakpoints.flatten

/-- `add_watched_page`. -/
def addWatchedPage (c : HbController) (page : UnsafePage) (isStatic : Bool) :
    Option HbController :=
  let size := page.unsafeInstructionsSize
  let addresses := page.instructions.take size
  if (size : Int) + c.usedBreakpoints ≤ maxHbreakpoints ∧ size ≤ page.instructions.length then
    if isStatic then
      if (size : Int) ≤ c.maxDynamicBreakpoints ∧
          c.staticHbreakpoints.length < maxHbreakpoints then
        some { c with
          staticHbreakpoints := c.staticHbreakpoints ++ [addresses]
          usedBreakpoints := c.usedBreakpoints + size
          maxDynamicBreakpoints := c.maxDynamicBreakpoints - size }
      else none
    else if c.dynamicHbreakpoints.length < maxHbreakpoints then
      some { c with
        dynamicHbreakpoints := c.dynamicHbreakpoints ++ [addresses]
        usedBreakpoints := c.usedBreakpoints + size }
    else none
  else none

/-- The loop of `remove_dynamic_hbreakpoints` over the dynamic pages, oldest
first, each turn being one `remove_last_page`. It returns the pages left, the
registers still in use and the addresses handed to `set_page_non_executable`. -/
def removeLastPages (n : Int) : List (List Nat) → Int → Option (List (List Nat) × Int × List Nat)
  | [], used => if (maxHbreakpoints : Int) - used < n then none else some ([], used, [])
  | oldest :: rest, used =>
      if (maxHbreakpoints : Int) - used < n then
        match oldest with
        | [] => none
        | first :: _ =>
            (removeLastPages n rest (used - oldest.length)).map
              fun (left, used', evicted) => (left, used', first :: evicted)
      else some (oldest :: rest, used, [])

/-- `remove_dynamic_hbreakpoints`. -/
def removeDynamicHbreakpoints (c : HbController) (n : Int) : Option (HbController × List Nat) :=
  if n ≤ c.maxDynamicBreakpoints then
    (removeLastPages n c.dynamicHbreakpoints c.usedBreakpoints).map
      fun (left, used, evicted) =>
        ({ c with dynamicHbreakpoints := left, usedBreakpoints := used }, evicted)
  else none

/-- `add_breakpoints`, with the addresses of the pages it makes non-executable
on the way. The static branch compares the number of static *pages* with the
number of registers, as the source does. -/
def addBreakpoints (c : HbController) (page : UnsafePage) (isStatic : Bool) :
    Option (HbController × List Nat) :=
  let needed : Int := page.unsafeInstructionsSize
  if isStatic ∧ ¬ (c.staticHbreakpoints.length : Int) + needed ≤ maxHbreakpoints then none
  else if ¬ isStatic ∧ ¬ needed ≤ c.maxDynamicBreakpoints then none
  else if c.usedBreakpoints + needed ≤ maxHbreakpoints then
    (c.addWatchedPage page isStatic).map fun c' => (c', [])
  else
    match c.removeDynamicHbreakpoints needed with
    | none => none
    | some (c', evicted) =>
        (c'.addWatchedPage page isStatic).map fun c'' => (c'', evicted)

/-- `set_all_hbreakpoits` sets every address anew in the calling thread and
asserts that the two counters come out as they were. -/
def setAllHbreakpoits (c : HbController) : Option HbController :=
  let static : Int := c.staticHbreakpoints.flatten.length
  let dynamic : Int := c.dynamicHbreakpoints.flatten.length
  if static + dynamic = c.usedBreakpoints ∧
      (maxHbreakpoints : Int) - static = c.maxDynamicBreakpoints then
    some c
  else none

/-- `remove_all_hbreakpoints` closes every event; the lists keep their entries. -/
def removeAllHbreakpoints (c : HbController) : HbController :=
  { c with usedBreakpoints := 0 }

end HbController

end Secpoline
