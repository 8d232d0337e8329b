import Secpoline.Model.Word
import Mathlib.Data.List.Basic

/-!
# Looking for unsafe instructions

The byte patterns of `erim.h` and the scan of one page in `erim.cpp`. A scan
reads the bytes at and after an address, so memory is a function of the address
and a pattern that begins near the end of a page reads on in the next one.

The loop of `erim_memScanRegion` asks for the first match, records it, and goes
on three bytes after it. A match at the very first byte it looks at is reported
as offset 0, which the loop takes for "nothing found" and stops.
-/

namespace Secpoline

abbrev Mem := Nat → UInt8

/-! ## Patterns -/

/-- `erim_isWRPKRU`. -/
def erimIsWRPKRU (m : Mem) (a : Nat) : Bool :=
  m a == 0x0f && m (a + 1) == 0x01 && m (a + 2) == 0xef

/-- `erim_isXRSTOR`. -/
def erimIsXRSTOR (m : Mem) (a : Nat) : Bool :=
  m a == 0x0f && m (a + 1) == 0xae && (m (a + 2) &&& 0xC0) != 0xC0 &&
    (m (a + 2) &&& 0x38) == 0x28

/-- `erim_isWRGSBASE32`. -/
def erimIsWRGSBASE32 (m : Mem) (a : Nat) : Bool :=
  m a == 0xf3 && m (a + 1) == 0x0f && m (a + 2) == 0xae && (m (a + 3) &&& 0xf8) == 0xd8

/-- `erim_isWRGSBASE64`. -/
def erimIsWRGSBASE64 (m : Mem) (a : Nat) : Bool :=
  m a == 0xf3 && (m (a + 1) &&& 0xf0) == 0x40 && m (a + 2) == 0x0f && m (a + 3) == 0xae &&
    (m (a + 4) &&& 0xf8) == 0xd8

/-- The test the cross-page loops make: any of the four patterns, benign or not. -/
def isUnsafe (m : Mem) (a : Nat) : Bool :=
  erimIsWRPKRU m a || erimIsXRSTOR m a || erimIsWRGSBASE32 m a || erimIsWRGSBASE64 m a

inductive UnsafeType where
  | wrpkru
  | xrstor
  | wrgsbase
deriving DecidableEq, Repr

/-- The tests of `erim_scanMemForWRPKRUXRSTOR` at one offset, in its order. -/
def unsafeType (m : Mem) (a : Nat) : Option UnsafeType :=
  if erimIsWRPKRU m a then some .wrpkru
  else if erimIsXRSTOR m a then some .xrstor
  else if erimIsWRGSBASE32 m a || erimIsWRGSBASE64 m a then some .wrgsbase
  else none

/-! ## Sequences that are known to be harmless -/

/-- The four bytes at an address as a little-endian number. -/
def word32 (m : Mem) (a : Nat) : Nat :=
  (m a).toNat + 0x100 * (m (a + 1)).toNat + 0x10000 * (m (a + 2)).toNat +
    0x1000000 * (m (a + 3)).toNat

/-- `REVOKE_PERMISSIONS` of `gsreldata.h`. -/
def REVOKE_PERMISSIONS : Nat := 0x7FFFFFCB

/-- The bytes at consecutive addresses. -/
def bytesAt (m : Mem) (a : Nat) : List UInt8 → Bool
  | [] => true
  | b :: rest => m a == b && bytesAt m (a + 1) rest

/-- `isBenignXRSTOR`. -/
def isBenignXRSTOR (m : Mem) (a : Nat) : Bool :=
  erimIsXRSTOR m a &&
    bytesAt m (a + 3) [0x89, 0xc2, 0x0f, 0xba, 0xe2, 0x09, 0x73, 0x03, 0x0f, 0x0b, 0xcc]

/-- `isBenignWRPKRU`: a switch to the untrusted domain, or an internal one that
checks the compartment afterwards. -/
def isBenignWRPKRU (m : Mem) (a : Nat) : Bool :=
  (word32 m (a + 4) == REVOKE_PERMISSIONS && erimIsWRPKRU m a && m (a + 3) == 0x3d &&
    bytesAt m (a + 8) [0x74, 0x03, 0x0f, 0x0b, 0xcc]) ||
  (erimIsWRPKRU m a && bytesAt m (a + 3) [0x65, 0x8a, 0x14, 0x25] &&
    word32 m (a + 7) == 0x10 &&
    bytesAt m (a + 11) [0x80, 0xfa, 0x00, 0x74, 0x03, 0x0f, 0x0b, 0xcc])

/-- What the `switch` of `erim_memScanRegion` decides about a match. -/
def nonBenign (m : Mem) (whitelist : List Nat) (a : Nat) : UnsafeType → Bool
  | .wrpkru => !(whitelist.contains a || isBenignWRPKRU m a)
  | .xrstor => !isBenignXRSTOR m a
  | .wrgsbase => true

/-! ## Scanning -/

/-- `erim_scanMemForWRPKRUXRSTOR`: the first match, at an offset below
`length - 3`. -/
def erimScanMemForWRPKRUXRSTOR (m : Mem) (start length : Nat) : Option (Nat × UnsafeType) :=
  (List.range (length - 3)).findSome? fun it => (unsafeType m (start + it)).map fun ty => (it, ty)

/-- The `while(length > 0)` loop of `erim_memScanRegion`. Every turn takes at
least four bytes off the length, which is the fuel. -/
def scanLoop (m : Mem) (whitelist : List Nat) : Nat → Nat → Nat → List Nat
  | 0, _, _ => []
  | fuel + 1, start, length =>
      match erimScanMemForWRPKRUXRSTOR m start length with
      | none => []
      | some (found, ty) =>
          if found = 0 then []
          else
            let rest := scanLoop m whitelist fuel (start + found + 3) (length - (found + 3))
            if nonBenign m whitelist (start + found) ty then (start + found) :: rest else rest

/-- The unsafe instructions that a scan of the page at `start` records. -/
@[irreducible] def scanPage (m : Mem) (whitelist : List Nat) (start : Nat) : List Nat :=
  scanLoop m whitelist 4096 start 4096

/-! ## Reads behind the page

A test reads one byte after the other and stops at the first that differs. So the
bytes before `stop` decide whether it reads there or behind, where nothing may be
mapped. -/

/-- Comparing the bytes at consecutive addresses reads at or behind `stop`. -/
def bytesReach (m : Mem) (stop a : Nat) : List UInt8 → Bool
  | [] => false
  | b :: rest => decide (stop ≤ a) || (m a == b && bytesReach m stop (a + 1) rest)

/-- `erim_isWRGSBASE64` reads its fifth byte there. The other patterns have four at
most, which is what the bound of the search leaves room for. -/
def erimIsWRGSBASE64Reaches (m : Mem) (stop a : Nat) : Bool :=
  m a == 0xf3 && (m (a + 1) &&& 0xf0) == 0x40 && m (a + 2) == 0x0f && m (a + 3) == 0xae &&
    decide (stop ≤ a + 4)

def isBenignXRSTORReaches (m : Mem) (stop a : Nat) : Bool :=
  erimIsXRSTOR m a &&
    bytesReach m stop (a + 3) [0x89, 0xc2, 0x0f, 0xba, 0xe2, 0x09, 0x73, 0x03, 0x0f, 0x0b, 0xcc]

/-- `isBenignWRPKRU` compares the word behind the fourth byte before anything else. -/
def isBenignWRPKRUReaches (m : Mem) (stop a : Nat) : Bool :=
  decide (stop ≤ a + 7) ||
  (word32 m (a + 4) == REVOKE_PERMISSIONS && erimIsWRPKRU m a && m (a + 3) == 0x3d &&
    bytesReach m stop (a + 8) [0x74, 0x03, 0x0f, 0x0b, 0xcc]) ||
  (erimIsWRPKRU m a && bytesAt m (a + 3) [0x65, 0x8a, 0x14, 0x25] &&
    (decide (stop ≤ a + 10) || (word32 m (a + 7) == 0x10 &&
      bytesReach m stop (a + 11) [0x80, 0xfa, 0x00, 0x74, 0x03, 0x0f, 0x0b, 0xcc])))

/-- What the `switch` of `erim_memScanRegion` reads. -/
def judgeReaches (m : Mem) (whitelist : List Nat) (stop a : Nat) : UnsafeType → Bool
  | .wrpkru => !whitelist.contains a && isBenignWRPKRUReaches m stop a
  | .xrstor => isBenignXRSTORReaches m stop a
  | .wrgsbase => false

/-- What the loop reads: a search makes its tests up to the first match. -/
def scanLoopReaches (m : Mem) (whitelist : List Nat) (stop : Nat) : Nat → Nat → Nat → Bool
  | 0, _, _ => false
  | fuel + 1, start, length =>
      let tests (n : Nat) :=
        (List.range n).any fun it => erimIsWRGSBASE64Reaches m stop (start + it)
      match erimScanMemForWRPKRUXRSTOR m start length with
      | none => tests (length - 3)
      | some (found, ty) =>
          tests (found + 1) ||
            if found = 0 then false
            else
              judgeReaches m whitelist stop (start + found) ty ||
                scanLoopReaches m whitelist stop fuel (start + found + 3) (length - (found + 3))

/-- A scan of the page at `start` reads behind the page. -/
@[irreducible] def scanReaches (m : Mem) (whitelist : List Nat) (start : Nat) : Bool :=
  scanLoopReaches m whitelist (start + 4096) 4096 start 4096

/-- The scan of the page at `start`, with or without a page behind it; `none` is a
fault. -/
def scanPageOrFault (m : Mem) (nextMapped : Bool) (whitelist : List Nat) (start : Nat) :
    Option (List Nat) :=
  if nextMapped || !scanReaches m whitelist start then some (scanPage m whitelist start) else none

end Secpoline
