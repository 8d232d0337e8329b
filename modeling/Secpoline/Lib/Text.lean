import Mathlib.Algebra.Group.Nat.Defs

/-!
# Text as lists of characters

Numbers in hexadecimal, lines, and words that occur in a text. What is printed is
read back: a number up to the first character that is no digit, and lines up to
the ends of lines.
-/

namespace Secpoline.Lib

/-! ## Numbers -/

def hexValue (c : Char) : Option Nat :=
  if '0' ≤ c ∧ c ≤ '9' then some (c.toNat - '0'.toNat)
  else if 'a' ≤ c ∧ c ≤ 'f' then some (c.toNat - 'a'.toNat + 10)
  else if 'A' ≤ c ∧ c ≤ 'F' then some (c.toNat - 'A'.toNat + 10)
  else none

/-- Read digits after those that gave `acc`: the number, and what is behind it. -/
def parseHex (acc : Nat) : List Char → Nat × List Char
  | [] => (acc, [])
  | c :: cs =>
      match hexValue c with
      | some d => parseHex (16 * acc + d) cs
      | none => (acc, c :: cs)

def hexDigit (d : Nat) : Char :=
  if d < 10 then .ofNat ('0'.toNat + d) else .ofNat ('a'.toNat + d - 10)

/-- The last `fuel` digits of a number without leading zeros, before `cs`. -/
def hexDigits : Nat → Nat → List Char → List Char
  | 0, _, cs => cs
  | fuel + 1, n, cs => if n = 0 then cs else hexDigits fuel (n / 16) (hexDigit (n % 16) :: cs)

/-- `%08lx`. -/
def hexString (n : Nat) : List Char :=
  let digits := hexDigits 16 n []
  List.replicate (8 - digits.length) '0' ++ digits

theorem hexValue_hexDigit {d : Nat} (h : d < 16) : hexValue (hexDigit d) = some d := by
  have hall : ∀ d : Fin 16, hexValue (hexDigit d) = some d.val := by decide
  exact hall ⟨d, h⟩

theorem parseHex_replicate (k : Nat) (cs : List Char) :
    parseHex 0 (List.replicate k '0' ++ cs) = parseHex 0 cs := by
  induction k with
  | zero => rfl
  | succ k ih => exact ih

theorem hexDigits_append (fuel n : Nat) (cs cs' : List Char) :
    hexDigits fuel n cs ++ cs' = hexDigits fuel n (cs ++ cs') := by
  induction fuel generalizing n cs with
  | zero => rfl
  | succ fuel ih =>
      unfold hexDigits
      split
      · rfl
      · exact ih _ _

theorem parseHex_hexDigits {fuel n : Nat} (h : n < 16 ^ fuel) (cs : List Char) :
    parseHex 0 (hexDigits fuel n cs) = parseHex n cs := by
  induction fuel generalizing n cs with
  | zero =>
      rw [Nat.lt_one_iff.mp h]
      rfl
  | succ fuel ih =>
      unfold hexDigits
      split
      · rename_i hn
        rw [hn]
      · have hdiv : n / 16 < 16 ^ fuel := by
          rw [Nat.pow_succ] at h
          omega
        rw [ih hdiv, parseHex, hexValue_hexDigit (Nat.mod_lt n (by omega))]
        dsimp only
        rw [Nat.div_add_mod]

/-- A number is read back, up to what is no digit. -/
theorem parseHex_hexString {n : Nat} (h : n < 2 ^ 64) {c : Char} (hc : hexValue c = none)
    (cs : List Char) : parseHex 0 (hexString n ++ c :: cs) = (n, c :: cs) := by
  unfold hexString
  dsimp only
  rw [List.append_assoc, parseHex_replicate, hexDigits_append, parseHex_hexDigits h,
    List.nil_append, parseHex, hc]

theorem hexValue_of_mem_hexDigits {fuel n : Nat} {c : Char} {cs : List Char}
    (h : c ∈ hexDigits fuel n cs) : hexValue c ≠ none ∨ c ∈ cs := by
  induction fuel generalizing n cs with
  | zero => exact .inr h
  | succ fuel ih =>
      unfold hexDigits at h
      split at h
      · exact .inr h
      · rcases ih h with h | h
        · exact .inl h
        · rcases List.mem_cons.mp h with rfl | h
          · rw [hexValue_hexDigit (Nat.mod_lt n (by omega))]
            exact .inl nofun
          · exact .inr h

/-- Only digits are printed. -/
theorem hexValue_of_mem_hexString {n : Nat} {c : Char} (h : c ∈ hexString n) :
    hexValue c ≠ none := by
  rcases List.mem_append.mp h with h | h
  · rw [List.eq_of_mem_replicate h]
    decide
  · exact (hexValue_of_mem_hexDigits h).resolve_right nofun

/-! ## Lines -/

/-- The lines of a text; the last one need not be ended. -/
def splitLines : List Char → List (List Char)
  | [] => []
  | c :: cs =>
      if c = '\n' then [] :: splitLines cs
      else
        match splitLines cs with
        | [] => [[c]]
        | line :: lines => (c :: line) :: lines

theorem splitLines_append {line : List Char} (h : '\n' ∉ line) (text : List Char) :
    splitLines (line ++ '\n' :: text) = line :: splitLines text := by
  induction line with
  | nil => rfl
  | cons c line ih =>
      have hc : c ≠ '\n' := fun hc => h (hc ▸ List.mem_cons_self)
      have hline : '\n' ∉ line := fun hmem => h (List.mem_cons_of_mem _ hmem)
      rw [List.cons_append, splitLines, if_neg hc, ih hline]

theorem splitLines_flatMap {α : Type} {f : α → List Char} {l : List α}
    (h : ∀ a ∈ l, '\n' ∉ f a) : splitLines (l.flatMap fun a => f a ++ ['\n']) = l.map f := by
  induction l with
  | nil => rfl
  | cons a l ih =>
      rw [List.flatMap_cons, List.append_assoc, List.singleton_append,
        splitLines_append (h a List.mem_cons_self), List.map_cons,
        ih fun b hb => h b (List.mem_cons_of_mem _ hb)]

/-! ## Pieces -/

/-- A text cut behind every end of a line and wherever `n + 1` characters have come together;
`room` is how many may follow the next one. -/
def cutFrom (n : Nat) : Nat → List Char → List (List Char)
  | _, [] => []
  | room, c :: cs =>
      if c = '\n' ∨ room = 0 then [c] :: cutFrom n n cs
      else
        match cutFrom n (room - 1) cs with
        | [] => [[c]]
        | piece :: pieces => (c :: piece) :: pieces

/-- A line is cut by its length alone. -/
theorem cutFrom_line {n : Nat} {line : List Char} (h : '\n' ∉ line) (room : Nat) :
    cutFrom n room (line ++ ['\n']) =
      (line ++ ['\n']).take (room + 1) :: cutFrom n n ((line ++ ['\n']).drop (room + 1)) := by
  induction line generalizing room with
  | nil => rw [List.nil_append, cutFrom, if_pos (.inl rfl), List.take_succ_cons, List.take_nil,
      List.drop_succ_cons, List.drop_nil]
  | cons c line ih =>
      obtain ⟨hc, hline⟩ := not_or.mp (mt List.mem_cons.mpr h)
      rw [List.cons_append, cutFrom]
      cases room with
      | zero => rw [if_pos (.inr rfl), List.take_succ_cons, List.take_zero, List.drop_succ_cons,
          List.drop_zero]
      | succ room =>
          rw [if_neg (by simp [Ne.symm hc]), Nat.add_sub_cancel, ih hline room, List.take_succ_cons,
            List.drop_succ_cons]

theorem cutFrom_ne_nil {n room : Nat} {text : List Char} (h : text ≠ []) :
    cutFrom n room text ≠ [] := by
  cases text with
  | nil => exact absurd rfl h
  | cons c cs =>
      rw [cutFrom]
      split
      · exact List.cons_ne_nil _ _
      · split <;> exact List.cons_ne_nil _ _

/-- Nothing is kept from one line to the next. -/
theorem cutFrom_append (n room : Nat) (line text : List Char) :
    cutFrom n room (line ++ '\n' :: text) = cutFrom n room (line ++ ['\n']) ++
      cutFrom n n text := by
  induction line generalizing room with
  | nil => rw [List.nil_append, List.nil_append, cutFrom, cutFrom, if_pos (.inl rfl),
      if_pos (.inl rfl)]; rfl
  | cons c line ih =>
      rw [List.cons_append, List.cons_append, cutFrom, cutFrom]
      split
      · rw [ih n]
        rfl
      · rw [ih (room - 1)]
        cases hcut : cutFrom n (room - 1) (line ++ ['\n']) with
        | nil => exact absurd hcut (cutFrom_ne_nil (by simp))
        | cons piece pieces => rfl

/-! ## Words -/

/-- `word` occurs in a text. -/
def occurs (word : List Char) : List Char → Bool
  | [] => word.isEmpty
  | c :: cs => word.isPrefixOf (c :: cs) || occurs word cs

theorem occurs_cons {word text : List Char} (h : occurs word text = true) (c : Char) :
    occurs word (c :: text) = true := by
  rw [occurs, h, Bool.or_true]

theorem occurs_append {word text : List Char} (h : occurs word text = true) (before : List Char) :
    occurs word (before ++ text) = true := by
  induction before with
  | nil => exact h
  | cons c before ih => exact occurs_cons ih c

theorem occurs_iff {word text : List Char} : occurs word text = true ↔ word <:+: text := by
  induction text with
  | nil => rw [occurs, List.isEmpty_iff, List.infix_nil]
  | cons c text ih => rw [occurs, Bool.or_eq_true, ih, List.isPrefixOf_iff_prefix,
      List.infix_cons_iff]

end Secpoline.Lib
