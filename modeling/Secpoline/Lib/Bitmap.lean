import Mathlib.Data.List.Basic

/-!
# Bitmaps in a list of bytes

A bitmap is a list of bytes; bit `i` is bit `i % 8` of byte `i / 8`, and bits
past the end read as false. The three ways to change one are to append zero
bytes, to set a bit and to clear a bit; each lemma says what every bit of the
result reads.
-/

namespace Secpoline.Lib

/-- The bit at index `i`. -/
def getBit (bytes : List (BitVec 8)) (i : Nat) : Bool :=
  match bytes[i / 8]? with
  | none => false
  | some b => b.getLsbD (i % 8)

/-- `byte |= 1 << (i % 8)` at byte `i / 8`. -/
def orBit (bytes : List (BitVec 8)) (i : Nat) : List (BitVec 8) :=
  bytes.modify (i / 8) fun b => b ||| (1#8 <<< (i % 8))

/-- `byte &= ~(1 << (i % 8))` at byte `i / 8`. -/
def clearBit (bytes : List (BitVec 8)) (i : Nat) : List (BitVec 8) :=
  bytes.modify (i / 8) fun b => b &&& ~~~(1#8 <<< (i % 8))

/-- Append zero bytes up to the given length. -/
def padTo (bytes : List (BitVec 8)) (n : Nat) : List (BitVec 8) :=
  bytes ++ List.replicate (n - bytes.length) 0#8

variable {bytes : List (BitVec 8)} {i j n : Nat}

theorem getBit_padTo : getBit (padTo bytes n) i = getBit bytes i := by
  unfold getBit padTo
  by_cases hlt : i / 8 < bytes.length
  · rw [List.getElem?_append_left hlt]
  · rw [List.getElem?_append_right (by omega), List.getElem?_replicate,
      List.getElem?_eq_none (by omega)]
    by_cases hpad : i / 8 - bytes.length < n - bytes.length <;> simp [hpad]

/-- The mask of bit `i` at the position of bit `j` in its byte. -/
theorem mask_getLsbD (hj : j < 8) :
    (1#8 <<< i).getLsbD j = decide (j = i) := by
  rw [BitVec.getLsbD_shiftLeft]
  by_cases hji : j < i
  · simp [hji, hj]
    omega
  · simp [hji, hj]
    omega

theorem getBit_orBit (hlen : i / 8 < bytes.length) :
    getBit (orBit bytes i) j = (decide (j = i) || getBit bytes j) := by
  unfold getBit orBit
  rw [List.getElem?_modify]
  by_cases hbyte : i / 8 = j / 8
  · have hlenj : j / 8 < bytes.length := by omega
    rw [List.getElem?_eq_getElem hlenj]
    simp only [hbyte, if_true, Option.map_eq_map, Option.map_some, BitVec.getLsbD_or]
    rw [mask_getLsbD (by omega), Bool.or_comm]
    congr 1
    exact decide_eq_decide.mpr (by omega)
  · have hne : j ≠ i := fun h => hbyte (by rw [h])
    simp [hbyte, hne]

theorem getBit_clearBit :
    getBit (clearBit bytes i) j = (decide (j ≠ i) && getBit bytes j) := by
  unfold getBit clearBit
  rw [List.getElem?_modify]
  by_cases hbyte : i / 8 = j / 8
  · by_cases hlenj : j / 8 < bytes.length
    · rw [List.getElem?_eq_getElem hlenj]
      simp only [hbyte, if_true, Option.map_eq_map, Option.map_some, BitVec.getLsbD_and,
        BitVec.getLsbD_not]
      rw [mask_getLsbD (by omega), Bool.and_comm]
      have hpos : decide (j % 8 < 8) = true := by simp; omega
      rw [hpos, Bool.true_and]
      congr 1
      rw [← decide_not]
      exact decide_eq_decide.mpr (by omega)
    · rw [List.getElem?_eq_none (by omega)]
      simp
  · have hne : j ≠ i := fun h => hbyte (by rw [h])
    simp [hbyte, hne]

end Secpoline.Lib
