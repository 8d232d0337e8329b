import Secpoline.Model.Files
import Secpoline.Model.Libc

/-!
# fd_bitmap and its memory

`FdBitmap` is the bytes of the map that `size` counts. Here is the class with the block that
`map` points to. `calloc` allocates eight bytes, of which `size` counts one; `realloc` makes
room for more, and what it adds holds anything until `memset` clears it. Both can fail: the
result of `realloc` is asserted, that of `calloc` is used as it is.

A call that does not return has failed an assertion, or accessed a byte that is not in the
block.
-/

namespace Secpoline

open Lib

inductive FdStop where
  | assertion
  | outOfBounds
deriving DecidableEq, Repr

/-- What `realloc` answers when it is asked for a size: null, or what the bytes hold that are
new. -/
abbrev Realloc := Nat → Option (Nat → BitVec 8)

structure FdMap where
  map : Option (List (BitVec 8))
  size : Nat
deriving DecidableEq, Repr

/-! ## Bits of a char

In an expression a `char` is an `int`, with the sign of the `char`; what is stored of it is its
low byte. -/

def charOrBit (c : BitVec 8) (i : Nat) : BitVec 8 := (c.signExtend 32 ||| 1#32 <<< i).setWidth 8

def charClearBit (c : BitVec 8) (i : Nat) : BitVec 8 :=
  (c.signExtend 32 &&& ~~~(1#32 <<< i)).setWidth 8

def charReadBit (c : BitVec 8) (i : Nat) : Int := ((c.signExtend 32).sshiftRight i &&& 1#32).toInt

namespace FdMap

/-! ## Memory -/

/-- The bytes that are allocated. -/
def block (m : FdMap) : List (BitVec 8) := m.map.getD []

def load (m : FdMap) (i : Nat) : Except FdStop (BitVec 8) :=
  match m.block[i]? with
  | some c => .ok c
  | none => .error .outOfBounds

def store (m : FdMap) (i : Nat) (c : BitVec 8) : Except FdStop FdMap :=
  if i < m.block.length then .ok { m with map := some (m.block.set i c) } else .error .outOfBounds

/-- `memset(map + i, 0, n)`. -/
def memset (m : FdMap) (i n : Nat) : Except FdStop FdMap :=
  if i + n ≤ m.block.length then
    .ok { m with map := some (m.block.take i ++ List.replicate n 0#8 ++ m.block.drop (i + n)) }
  else .error .outOfBounds

/-- `map = realloc(map, n)`, which has succeeded. -/
def resize (m : FdMap) (n : Nat) (fresh : Nat → BitVec 8) : FdMap :=
  { m with map := some ((List.range n).map fun i => m.block[i]?.getD (fresh i)) }

/-! ## The methods -/

/-- Make room for `byte_index`. -/
def grow (realloc : Realloc) (byteIndex : Nat) (m : FdMap) : Except FdStop FdMap := do
  let newSize := (byteIndex / 8 + 1) * 8 % 2 ^ 64
  match realloc newSize with
  | none => .error .assertion
  | some fresh =>
      let m' ← (m.resize newSize fresh).memset m.size (wsub newSize m.size)
      .ok { m' with size := newSize }

def setBit (realloc : Realloc) (m : FdMap) (index : Nat) : Except FdStop FdMap := do
  let byteIndex := index / 8
  let m ← if byteIndex ≥ m.size then m.grow realloc byteIndex else .ok m
  if m.size > byteIndex then
    let c ← m.load byteIndex
    m.store byteIndex (charOrBit c (index % 8))
  else .error .assertion

def unsetBit (m : FdMap) (index : Nat) : Except FdStop FdMap := do
  let byteIndex := index / 8
  if byteIndex ≥ m.size then .ok m
  else
    let c ← m.load byteIndex
    m.store byteIndex (charClearBit c (index % 8))

def readBit (m : FdMap) (index : Nat) : Except FdStop Int := do
  let byteIndex := index / 8
  if byteIndex ≥ m.size then .ok 0
  else
    let c ← m.load byteIndex
    .ok (charReadBit c (index % 8))

/-- An entry of the directory, and what `realloc` answers should it be asked. -/
def setEntry (m : FdMap) (entry : CString × Realloc) : Except FdStop FdMap :=
  if entry.1.head? = some '.' then .ok m else m.setBit entry.2 (toSizeT (atoi entry.1))

/-- The constructor; `dir` is what can be read of `/proc/self/fd`, if it can be opened. -/
def construct (calloc : Bool) (dir : Option (List (CString × Realloc))) : Except FdStop FdMap :=
  let m : FdMap := { map := if calloc then some (List.replicate 8 0#8) else none, size := 1 }
  match dir with
  | none => .error .assertion
  | some entries => entries.foldlM setEntry m

end FdMap

/-- `/proc/self/fd`: every open descriptor, in order. -/
def procSelfFd (t : FdTable) : List CString :=
  ['.'] :: ['.', '.'] ::
    ((List.range t.length).filter fun n => t.owner n ≠ none).map (Nat.toDigits 10)

/-! ## Calls -/

inductive FdOp where
  | setBit (index : UInt64)
  | unsetBit (index : UInt64)
deriving DecidableEq, Repr

namespace FdOp

def index : FdOp → UInt64
  | .setBit index | .unsetBit index => index

def run (realloc : Realloc) (m : FdMap) : FdOp → Except FdStop FdMap
  | .setBit index => m.setBit realloc index.toNat
  | .unsetBit index => m.unsetBit index.toNat

end FdOp

/-- Calls one after the other, each with what `realloc` answers should it be asked. -/
def FdMap.run (m : FdMap) (calls : List (FdOp × Realloc)) : Except FdStop FdMap :=
  calls.foldlM (fun m c => c.1.run c.2 m) m

/-- The calls that the constructor makes for the names in the directory. -/
def entryOps (names : List CString) : List FdOp :=
  (names.filter fun name => name.head? ≠ some '.').map fun name =>
    .setBit (.ofNat (toSizeT (atoi name)))

end Secpoline
