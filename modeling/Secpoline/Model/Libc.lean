import Secpoline.Lib.Text
import Secpoline.Model.Word

/-!
# Numbers in strings

`strtol` and `strtoll` skip white space, take a sign and as many digits as there are, and
stop at the largest `long` or the smallest. Where there are no digits the number is zero and
nothing is read.
-/

namespace Secpoline

open Lib

/-- `isspace`. -/
def isSpace (c : Char) : Bool := c = ' ' || (decide ('\t' ≤ c) && decide (c ≤ '\r'))

/-- A text without its sign. -/
def unsigned (s : CString) : CString :=
  if s.head? = some '-' ∨ s.head? = some '+' then s.tail else s

/-- `strtol` over the way in which digits are read: the number, and what is behind it. -/
def strtolWith (digits : CString → Option (Nat × CString)) (s : CString) : Int × CString :=
  let t := s.dropWhile isSpace
  match digits (unsigned t) with
  | none => (0, s)
  | some (n, rest) =>
      (if t.head? = some '-' then max (-n) (-2 ^ 63) else min n (2 ^ 63 - 1), rest)

def decimalDigits (s : CString) : Option (Nat × CString) :=
  let digits := s.takeWhile Char.isDigit
  if digits = [] then none else some (Nat.ofDigitChars 10 digits 0, s.dropWhile Char.isDigit)

def beginsHex (s : CString) : Bool := s.head?.any fun c => (hexValue c).isSome

/-- A `0x` counts only before a digit. -/
def unprefixed (s : CString) : CString :=
  if s.head? = some '0' ∧ (s[1]? = some 'x' ∨ s[1]? = some 'X') ∧ beginsHex (s.drop 2) then s.drop 2
  else s

def hexadecimalDigits (s : CString) : Option (Nat × CString) :=
  if beginsHex (unprefixed s) then some (parseHex 0 (unprefixed s)) else none

/-- `strtoll(s, &s, 16)`. -/
def strtollHex (s : CString) : Int × CString := strtolWith hexadecimalDigits s

/-- `(int) strtol(s, NULL, 10)`. -/
def atoi (s : CString) : Int := (strtolWith decimalDigits s).1.bmod (2 ^ 32)

end Secpoline
