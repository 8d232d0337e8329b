import Mathlib.Data.List.Basic

/-!
# Collecting neighbours into runs

A loop goes over the numbers from 0 on and puts them into pieces: consecutive
ones that are good into a run, each bad one into a piece of its own. Whether a
number is bad is known too late in one case, when the next number turns out to
straddle it; the loop then takes it out of the open run again.

`turn` is one turn of that loop. Its parameter says whether a run that has been
closed because of a straddle is begun anew. Either way there is a case in which
the open run is left where it was: then it lags behind, and its pieces are about
numbers that have had theirs. What saves the loop is a number that straddles its
predecessor and is bad itself, since the open run is thrown away there.
-/

namespace Secpoline.Lib

/-- The numbers `first`, ..., `first + count - 1`, and whether they are good. -/
structure Piece where
  first : Nat
  count : Nat
  good : Bool
deriving DecidableEq, Repr

/-- The run that is being collected. -/
structure OpenRun where
  first : Option Nat
  count : Nat
deriving DecidableEq, Repr

/-- One turn, for number `i`: whether it is bad, and whether it straddles the one
before. -/
def turn (restart : Bool) (g : OpenRun) (i : Nat) (own straddles : Bool) :
    List Piece × OpenRun :=
  let first := g.first.getD i
  let cut := straddles && g.count != 0
  let count := if cut then g.count - 1 else g.count
  let close := (own || straddles) && count != 0
  ((if cut then [⟨i - 1, 1, false⟩] else []) ++ (if close then [⟨first, count, true⟩] else []) ++
      (if own then [⟨i, 1, false⟩] else []),
    if own then ⟨none, 0⟩
    else if close && restart then ⟨some i, 1⟩
    else ⟨some first, count + 1⟩)

/-- The same for the pieces so far and the open run. -/
def takeTurn (restart : Bool) (own straddles : Nat → Bool) (s : List Piece × OpenRun) (i : Nat) :
    List Piece × OpenRun :=
  let t := turn restart s.2 i (own i) (straddles i)
  (s.1 ++ t.1, t.2)

/-- The pieces after `i` turns, and the open run. -/
def turns (restart : Bool) (own straddles : Nat → Bool) : Nat → List Piece × OpenRun
  | 0 => ([], ⟨none, 0⟩)
  | i + 1 => takeTurn restart own straddles (turns restart own straddles i) i

/-- The piece for the run that is still open at the end. -/
def lastPiece (g : OpenRun) : List Piece :=
  if g.count ≠ 0 then [⟨g.first.getD 0, g.count, true⟩] else []

/-- All pieces for the numbers below `n`. -/
def pieces (restart : Bool) (own straddles : Nat → Bool) (n : Nat) : List Piece :=
  let s := turns restart own straddles n
  s.1 ++ lastPiece s.2

/-- What the pieces say about a number, in their order. -/
def marks (l : List Piece) (j : Nat) : List Bool :=
  (l.filter fun p => decide (p.first ≤ j ∧ j < p.first + p.count)).map (·.good)

/-- A number below `n` is bad, or straddled by the next. -/
def flagged (own straddles : Nat → Bool) (n j : Nat) : Bool :=
  own j || (decide (j + 1 < n) && straddles (j + 1))

/-- The open run is left where it was: number `i` straddles its predecessor, and
neither is bad. If a closed run is begun anew, this also takes that the open run
has only one number in it. -/
def Slips (restart : Bool) (own straddles : Nat → Bool) (i : Nat) : Prop :=
  0 < i ∧ straddles i = true ∧ own i = false ∧ own (i - 1) = false ∧
    (restart = true → i = 1 ∨ own (i - 2) = true ∨ straddles (i - 1) = true)

/-- From `i` on every number straddles its predecessor until there is a bad one. -/
def Recovers (own straddles : Nat → Bool) (n i : Nat) : Prop :=
  ∃ j, i < j ∧ j < n ∧ own j = true ∧ ∀ k, i < k → k ≤ j → straddles k = true

/-- How the marks of a number are read. -/
structure Reading (restart : Bool) (Done : List Bool → Bool → Prop) : Prop where
  single : ∀ b, Done [b] b
  spoiled : ∀ l t, Done l false → ¬ Done (l ++ true :: List.replicate t true) false
  again : restart = false → ∀ l, Done l true → Done (l ++ [true]) true

section
variable {l l' : List Piece} {j : Nat}

@[simp] theorem marks_nil : marks [] j = [] := rfl

@[simp] theorem marks_append : marks (l ++ l') j = marks l j ++ marks l' j := by
  simp [marks, List.filter_append]

theorem marks_piece {p : Piece} :
    marks [p] j = if p.first ≤ j ∧ j < p.first + p.count then [p.good] else [] := by
  unfold marks
  by_cases h : p.first ≤ j ∧ j < p.first + p.count
  · rw [if_pos h, List.filter_cons_of_pos (by simpa using h)]
    rfl
  · rw [if_neg h, List.filter_cons_of_neg (by simpa using h)]
    rfl

/-- The marks of a run, which is no piece if it is empty. -/
theorem marks_run {f c : Nat} {b : Bool} :
    marks (if c ≠ 0 then [⟨f, c, b⟩] else []) j = if f ≤ j ∧ j < f + c then [b] else [] := by
  by_cases hc : c ≠ 0
  · rw [if_pos hc, marks_piece]
  · rw [if_neg hc, marks_nil, if_neg (by omega)]

end

/-! ## What a turn does -/

section
variable {restart : Bool} {g : OpenRun} {i : Nat}

theorem turn_plain : turn restart g i false false = ([], ⟨some (g.first.getD i), g.count + 1⟩) := by
  simp [turn]

theorem turn_own :
    turn restart g i true false =
      ((if g.count ≠ 0 then [⟨g.first.getD i, g.count, true⟩] else []) ++ [⟨i, 1, false⟩],
        ⟨none, 0⟩) := by
  simp [turn]

/-- A straddle while the open run is empty changes nothing. -/
theorem turn_straddles_empty {own : Bool} (hg : g.count = 0) :
    turn restart g i own true = turn restart g i own false := by
  simp [turn, hg]

theorem turn_straddles (hg : g.count ≠ 0) :
    turn restart g i false true =
      ([⟨i - 1, 1, false⟩] ++
          (if g.count - 1 ≠ 0 then [⟨g.first.getD i, g.count - 1, true⟩] else []),
        if g.count - 1 ≠ 0 ∧ restart = true then ⟨some i, 1⟩
        else ⟨some (g.first.getD i), g.count⟩) := by
  have hcount : g.count - 1 + 1 = g.count := by omega
  simp [turn, hg, hcount]

theorem turn_straddles_own (hg : g.count ≠ 0) :
    turn restart g i true true =
      ([⟨i - 1, 1, false⟩] ++
          (if g.count - 1 ≠ 0 then [⟨g.first.getD i, g.count - 1, true⟩] else []) ++
            [⟨i, 1, false⟩],
        ⟨none, 0⟩) := by
  simp [turn, hg]

end

/-! ## Nothing is put into a piece before its turn -/

theorem marks_eq_nil {l : List Piece} {j : Nat} (h : ∀ p ∈ l, p.first + p.count ≤ j) :
    marks l j = [] := by
  unfold marks
  rw [List.filter_eq_nil_iff.mpr fun p hp => ?_]
  · rfl
  · have := h p hp
    simp only [decide_eq_true_eq]
    omega

theorem turn_below {restart own straddles : Bool} {g : OpenRun} {i : Nat}
    (h : g.first.getD i + g.count ≤ i) :
    (∀ p ∈ (turn restart g i own straddles).1, p.first + p.count ≤ i + 1) ∧
      (turn restart g i own straddles).2.first.getD (i + 1) +
        (turn restart g i own straddles).2.count ≤ i + 1 := by
  unfold turn
  refine ⟨fun p hp => ?_, ?_⟩
  · simp only [List.mem_append, List.mem_ite_nil_right, List.mem_singleton] at hp
    rcases hp with (⟨hcut, rfl⟩ | ⟨-, rfl⟩) | ⟨-, rfl⟩ <;> grind
  · cases own <;> grind

theorem turns_below {restart : Bool} {own straddles : Nat → Bool} {i : Nat} :
    (∀ p ∈ (turns restart own straddles i).1, p.first + p.count ≤ i) ∧
      (turns restart own straddles i).2.first.getD i + (turns restart own straddles i).2.count ≤
        i := by
  induction i with
  | zero => exact ⟨nofun, Nat.le_refl 0⟩
  | succ i ih =>
      obtain ⟨hold, hrun⟩ := ih
      obtain ⟨hnew, hnext⟩ := @turn_below restart (own i) (straddles i) _ _ hrun
      refine ⟨fun p hp => ?_, hnext⟩
      rcases List.mem_append.mp hp with hp | hp
      · have := hold p hp
        omega
      · exact hnew p hp

theorem turn_first {restart own straddles : Bool} {g : OpenRun} {i : Nat}
    (h : (turn restart g i own straddles).2.first = none) :
    (turn restart g i own straddles).2.count = 0 := by
  cases own with
  | true => rfl
  | false =>
      cases straddles with
      | false => cases h
      | true =>
          by_cases hg : g.count = 0
          · rw [turn_straddles_empty hg] at h
            cases h
          · rw [turn_straddles hg] at h
            dsimp only at h
            split at h <;> cases h

/-- A run that has not begun is empty. -/
theorem turns_first {restart : Bool} {own straddles : Nat → Bool} {i : Nat}
    (h : (turns restart own straddles i).2.first = none) :
    (turns restart own straddles i).2.count = 0 := by
  cases i with
  | zero => rfl
  | succ i => exact turn_first h

theorem turn_begins {restart own straddles : Bool} {g : OpenRun} {i f : Nat}
    (h : (turn restart g i own straddles).2.first = some f) :
    own = false ∧ (f = i ∨ g.first = some f) := by
  obtain ⟨first, count⟩ := g
  unfold turn at h
  cases own with
  | true => cases h
  | false =>
      refine ⟨rfl, ?_⟩
      cases first <;> grind

/-- No run begins at a first number that is bad. -/
theorem turns_first_pos {restart : Bool} {own straddles : Nat → Bool} (h : own 0 = true) (i : Nat) :
    (turns restart own straddles i).2.first ≠ some 0 := by
  induction i with
  | zero => nofun
  | succ i ih =>
      intro hfirst
      obtain ⟨hown, hi | hfirst⟩ := turn_begins hfirst
      · rw [← hi, h] at hown
        cases hown
      · exact ih hfirst

/-- No piece goes beyond the end. -/
theorem pieces_below {restart : Bool} {own straddles : Nat → Bool} {n : Nat} {p : Piece}
    (h : p ∈ pieces restart own straddles n) : p.first + p.count ≤ n := by
  obtain ⟨hpieces, hrun⟩ := @turns_below restart own straddles n
  rcases List.mem_append.mp h with h | h
  · exact hpieces p h
  · unfold lastPiece at h
    split at h
    · rename_i hcount
      cases List.mem_singleton.mp h
      obtain ⟨f, hf⟩ := Option.ne_none_iff_exists'.mp (hcount ∘ turns_first)
      rw [hf] at hrun ⊢
      exact hrun
    · cases h

/-! ## On track -/

section
variable (restart : Bool) (own straddles : Nat → Bool) (n : Nat) (Done : List Bool → Bool → Prop)

/-- The numbers below `i` have the right marks, the others have none. -/
structure Settled (l : List Piece) (i : Nat) : Prop where
  done : ∀ j < i, Done (marks l j) (!flagged own straddles n j)
  unmarked : ∀ j, i ≤ j → marks l j = []

/-- The open run ends before number `i`, and everything before it is settled. -/
structure OnTrack (s : List Piece × OpenRun) (i : Nat) : Prop where
  le : s.2.count ≤ i
  first : s.2.first.getD i = i - s.2.count
  settled : Settled own straddles n Done s.1 (i - s.2.count)
  plain : ∀ j, i - s.2.count ≤ j → j < i →
    own j = false ∧ (j + 1 < i → straddles (j + 1) = false)
  begins : i - s.2.count = 0 ∨ own (i - s.2.count - 1) = true ∨
    (restart = true ∧ straddles (i - s.2.count) = true ∧ s.2.count ≠ 0)

/-- The open run ends too early: everything but number `i - 1` is settled, and the
last number of the run has been flagged. -/
structure Behind (s : List Piece × OpenRun) (i : Nat) : Prop where
  run : ∃ f, s.2.first = some f ∧ f + s.2.count < i ∧
    flagged own straddles n (f + s.2.count - 1) = true ∧
    ∀ j, f ≤ j → j < f + s.2.count - 1 → flagged own straddles n j = false
  pos : s.2.count ≠ 0
  settled : Settled own straddles n Done s.1 (i - 1)
  pending : own (i - 1) = false
  single : restart = true → s.2.count = 1

/-- A number that was flagged and settled has been put into a run, or is in the open
one. -/
def Spoiled (s : List Piece × OpenRun) (i : Nat) : Prop :=
  ∃ p, p + 1 < i ∧ i ≤ n ∧ flagged own straddles n p = true ∧
    ((∃ l t, Done l false ∧ marks s.1 p = l ++ true :: List.replicate t true) ∨
      Done (marks s.1 p) false ∧ ∃ f, s.2.first = some f ∧ f ≤ p ∧ p + 1 < f + s.2.count)

end

section
variable {restart : Bool} {own straddles : Nat → Bool} {n i : Nat} {Done : List Bool → Bool → Prop}
  {s : List Piece × OpenRun} {l : List Piece}

theorem flagged_own (h : own i = true) : flagged own straddles n i = true := by
  unfold flagged
  rw [h]
  rfl

theorem flagged_straddled (hi : 0 < i) (hn : i < n) (h : straddles i = true) :
    flagged own straddles n (i - 1) = true := by
  unfold flagged
  rw [Nat.sub_add_cancel hi, h, decide_eq_true hn]
  exact Bool.or_true _

theorem not_flagged {j : Nat} (h : own j = false) (h' : straddles (j + 1) = false) :
    flagged own straddles n j = false := by
  unfold flagged
  rw [h, h', Bool.and_false]
  rfl

/-- Marks that are added to a settled list. -/
theorem Settled.append {l' : List Piece} {i' : Nat} (h : Settled own straddles n Done l i)
    (hle : i ≤ i') (hold : ∀ j < i, marks l' j = [])
    (hnew : ∀ j, i ≤ j → j < i' → Done (marks l' j) (!flagged own straddles n j))
    (hnone : ∀ j, i' ≤ j → marks l' j = []) : Settled own straddles n Done (l ++ l') i' := by
  refine ⟨fun j hj => ?_, fun j hj => ?_⟩
  · rw [marks_append]
    by_cases hji : j < i
    · rw [hold j hji, List.append_nil]
      exact h.done j hji
    · rw [h.unmarked j (by omega), List.nil_append]
      exact hnew j (by omega) hj
  · rw [marks_append, h.unmarked j (by omega), hnone j hj]
    rfl

section
variable (hd : Reading restart Done)
include hd

/-- A bad number gets a piece of its own. -/
theorem Settled.bad (h : Settled own straddles n Done l i) (hown : own i = true) :
    Settled own straddles n Done (l ++ [⟨i, 1, false⟩]) (i + 1) := by
  refine h.append (by omega) (fun j hj => ?_) (fun j h₁ h₂ => ?_) fun j hj => ?_
  · rw [marks_piece, if_neg (by dsimp only; omega)]
  · obtain rfl : j = i := by omega
    rw [marks_piece, if_pos (by dsimp only; omega), flagged_own hown]
    exact hd.single false
  · rw [marks_piece, if_neg (by dsimp only; omega)]

/-- The open run is closed, and the number before `i` is not straddled. -/
theorem OnTrack.close (h : OnTrack restart own straddles n Done s i)
    (hstraddles : s.2.count ≠ 0 → straddles i = false) :
    Settled own straddles n Done
      (s.1 ++ if s.2.count ≠ 0 then [⟨s.2.first.getD i, s.2.count, true⟩] else []) i := by
  have hle := h.le
  rw [h.first]
  refine h.settled.append (by omega) (fun j hj => ?_) (fun j h₁ h₂ => ?_) fun j hj => ?_
  · rw [marks_run, if_neg (by omega)]
  · rw [marks_run, if_pos (by omega)]
    obtain ⟨hown, hnext⟩ := h.plain j h₁ h₂
    rw [not_flagged hown]
    · exact hd.single true
    · by_cases hlast : j + 1 = i
      · rw [hlast]
        exact hstraddles (by omega)
      · exact hnext (by omega)
  · rw [marks_run, if_neg (by omega)]

/-- The open run is closed, and the number before `i` is straddled. -/
theorem OnTrack.cut (h : OnTrack restart own straddles n Done s i) (hn : i < n)
    (hpos : s.2.count ≠ 0) (hstraddles : straddles i = true) :
    Settled own straddles n Done
      (s.1 ++ ([⟨i - 1, 1, false⟩] ++
        (if s.2.count - 1 ≠ 0 then [⟨s.2.first.getD i, s.2.count - 1, true⟩] else []))) i := by
  have hle := h.le
  rw [h.first]
  refine h.settled.append (by omega) (fun j hj => ?_) (fun j h₁ h₂ => ?_) fun j hj => ?_
  · rw [marks_append, marks_piece, marks_run, if_neg (by dsimp only; omega), if_neg (by omega)]
    rfl
  · rw [marks_append, marks_piece, marks_run]
    by_cases hlast : j = i - 1
    · rw [if_pos (by dsimp only; omega), if_neg (by omega), hlast,
        flagged_straddled (by omega) hn hstraddles]
      exact hd.single false
    · obtain ⟨hown, hnext⟩ := h.plain j h₁ h₂
      rw [if_neg (by dsimp only; omega), if_pos (by omega), not_flagged hown (hnext (by omega))]
      exact hd.single true
  · rw [marks_append, marks_piece, marks_run, if_neg (by dsimp only; omega), if_neg (by omega)]
    rfl

omit hd in
/-- On track, a slip can be told from the open run. -/
theorem OnTrack.slips_iff (h : OnTrack restart own straddles n Done s i) :
    Slips restart own straddles i ↔
      straddles i = true ∧ own i = false ∧ s.2.count ≠ 0 ∧ (restart = true → s.2.count = 1) := by
  have hle := h.le
  constructor
  · rintro ⟨hpos, hstraddles, hown, hbefore, hsingle⟩
    have hcount : s.2.count ≠ 0 := by
      intro hzero
      rcases h.begins with hb | hb | ⟨_, _, hb⟩
      · omega
      · rw [hzero, Nat.sub_zero, hbefore] at hb
        cases hb
      · exact hb hzero
    refine ⟨hstraddles, hown, hcount, fun hr => ?_⟩
    by_contra hne
    obtain ⟨hown', hnext⟩ := h.plain (i - 2) (by omega) (by omega)
    rw [show i - 2 + 1 = i - 1 by omega] at hnext
    rcases hsingle hr with hi | ho | hst
    · omega
    · rw [hown'] at ho
      cases ho
    · rw [hnext (by omega)] at hst
      cases hst
  · rintro ⟨hstraddles, hown, hcount, hsingle⟩
    refine ⟨by omega, hstraddles, hown, (h.plain (i - 1) (by omega) (by omega)).1, fun hr => ?_⟩
    rcases h.begins with hb | hb | ⟨_, hb, _⟩
    · exact .inl (by have := hsingle hr; omega)
    · rw [hsingle hr, Nat.sub_sub] at hb
      exact .inr (.inl hb)
    · rw [hsingle hr] at hb
      exact .inr (.inr hb)

omit hd in
/-- A number that is neither bad nor takes anything out of the open run joins it. -/
theorem OnTrack.join (h : OnTrack restart own straddles n Done s i) (hown : own i = false)
    (hstraddles : s.2.count ≠ 0 → straddles i = false) :
    OnTrack restart own straddles n Done (s.1, ⟨some (s.2.first.getD i), s.2.count + 1⟩)
      (i + 1) := by
  have hle := h.le
  have hbegin : i + 1 - (s.2.count + 1) = i - s.2.count := by omega
  refine ⟨by dsimp only; omega, ?_, ?_, fun j h₁ h₂ => ?_, ?_⟩
  · rw [hbegin]
    exact h.first
  · rw [hbegin]
    exact h.settled
  · rw [hbegin] at h₁
    by_cases hj : j = i
    · exact ⟨hj ▸ hown, by omega⟩
    · obtain ⟨hown', hnext⟩ := h.plain j h₁ (by omega)
      refine ⟨hown', fun _ => ?_⟩
      by_cases hlast : j + 1 = i
      · rw [hlast]
        exact hstraddles (by omega)
      · exact hnext (by omega)
  · rw [hbegin]
    exact h.begins.imp id (Or.imp id fun ⟨h₁, h₂, _⟩ => ⟨h₁, h₂, Nat.succ_ne_zero _⟩)

omit hd in
/-- Once everything is settled up to a bad number there is no open run. -/
theorem Settled.onTrack (h : Settled own straddles n Done l (i + 1)) (hown : own i = true) :
    OnTrack restart own straddles n Done (l, ⟨none, 0⟩) (i + 1) :=
  ⟨Nat.zero_le _, rfl, h, fun j h₁ h₂ => by dsimp only at h₁; omega, .inr (.inl hown)⟩

theorem OnTrack.next (h : OnTrack restart own straddles n Done s i) (hn : i < n)
    (hslip : ¬ Slips restart own straddles i) :
    OnTrack restart own straddles n Done (takeTurn restart own straddles s i) (i + 1) := by
  rw [h.slips_iff] at hslip
  unfold takeTurn
  by_cases hcut : straddles i = true ∧ s.2.count ≠ 0
  · obtain ⟨hstraddles, hcount⟩ := hcut
    have hset := h.cut hd hn hcount hstraddles
    rw [hstraddles]
    cases hown : own i with
    | true =>
        rw [turn_straddles_own hcount]
        dsimp only
        rw [← List.append_assoc]
        exact (hset.bad hd hown).onTrack hown
    | false =>
        -- a closed run begins anew at this number
        have hrestart : restart = true ∧ s.2.count ≠ 1 := by
          by_contra hno
          refine hslip ⟨hstraddles, hown, hcount, fun hr => ?_⟩
          by_contra hne
          exact hno ⟨hr, hne⟩
        rw [turn_straddles hcount, if_pos (show s.2.count - 1 ≠ 0 ∧ restart = true from
          ⟨by omega, hrestart.1⟩)]
        refine ⟨by dsimp only; omega, rfl, hset, fun j h₁ h₂ => ?_, .inr (.inr ?_)⟩
        · dsimp only at h₁
          obtain rfl : j = i := by omega
          exact ⟨hown, by omega⟩
        · exact ⟨hrestart.1, hstraddles, Nat.one_ne_zero⟩
  · have hst : s.2.count ≠ 0 → straddles i = false := by
      intro hc
      cases hs : straddles i with
      | false => rfl
      | true => exact absurd ⟨hs, hc⟩ hcut
    have hturn : turn restart s.2 i (own i) (straddles i) = turn restart s.2 i (own i) false := by
      cases hs : straddles i with
      | false => rfl
      | true =>
          refine turn_straddles_empty ?_
          by_contra hc
          exact hcut ⟨hs, hc⟩
    rw [hturn]
    cases hown : own i with
    | true =>
        rw [turn_own]
        dsimp only
        rw [← List.append_assoc]
        exact ((h.close hd hst).bad hd hown).onTrack hown
    | false =>
        rw [turn_plain]
        dsimp only
        rw [List.append_nil]
        exact h.join hown hst

theorem OnTrack.slip (h : OnTrack restart own straddles n Done s i) (hn : i < n)
    (hslip : Slips restart own straddles i) :
    Behind restart own straddles n Done (takeTurn restart own straddles s i) (i + 1) := by
  obtain ⟨hstraddles, hown, hcount, hsingle⟩ := h.slips_iff.mp hslip
  have hle := h.le
  have hstay : ¬ (s.2.count - 1 ≠ 0 ∧ restart = true) := by
    rintro ⟨hne, hr⟩
    rw [hsingle hr] at hne
    exact hne rfl
  unfold takeTurn
  rw [hstraddles, hown, turn_straddles hcount, if_neg hstay]
  refine ⟨⟨_, rfl, ?_, ?_, fun j h₁ h₂ => ?_⟩, hcount, ?_, ?_, hsingle⟩
  · rw [h.first]
    dsimp only
    omega
  · rw [h.first]
    dsimp only
    rw [show i - s.2.count + s.2.count - 1 = i - 1 by omega]
    exact flagged_straddled (by omega) hn hstraddles
  · rw [h.first] at h₁ h₂
    dsimp only at h₂
    obtain ⟨hown', hnext⟩ := h.plain j h₁ (by omega)
    exact not_flagged hown' (hnext (by omega))
  · exact h.cut hd hn hcount hstraddles
  · exact hown

/-! ## Behind -/

/-- The pending number is straddled, and what is left of the run is marked again. -/
theorem Behind.cut (h : Behind restart own straddles n Done s i) (hn : i < n)
    (hstraddles : straddles i = true) :
    Settled own straddles n Done
      (s.1 ++ ([⟨i - 1, 1, false⟩] ++
        (if s.2.count - 1 ≠ 0 then [⟨s.2.first.getD i, s.2.count - 1, true⟩] else []))) i := by
  obtain ⟨f, hf, hshort, _, hplain⟩ := h.run
  rw [hf, Option.getD_some]
  refine ⟨fun j hj => ?_, fun j hj => ?_⟩
  · rw [marks_append, marks_append, marks_piece, marks_run]
    by_cases hlast : j = i - 1
    · rw [h.settled.unmarked j (by omega), if_pos (by dsimp only; omega), if_neg (by omega), hlast,
        flagged_straddled (by omega) hn hstraddles]
      exact hd.single false
    rw [if_neg (by dsimp only; omega), List.nil_append]
    have hdone := h.settled.done j (by omega)
    split
    · rename_i hin
      have hfree := hplain j hin.1 (by omega)
      have hrestart : restart = false := by
        cases hr : restart with
        | false => rfl
        | true =>
            have := h.single hr
            omega
      rw [hfree] at hdone ⊢
      exact hd.again hrestart _ hdone
    · rw [List.append_nil]
      exact hdone
  · rw [marks_append, marks_append, marks_piece, marks_run, h.settled.unmarked j (by omega),
      if_neg (by dsimp only; omega), if_neg (by omega)]
    rfl

/-- A straddle by a bad number brings the loop back on track. -/
theorem Behind.recover (h : Behind restart own straddles n Done s i) (hn : i < n)
    (hstraddles : straddles i = true) (hown : own i = true) :
    OnTrack restart own straddles n Done (takeTurn restart own straddles s i) (i + 1) := by
  unfold takeTurn
  rw [hstraddles, hown, turn_straddles_own h.pos]
  dsimp only
  rw [← List.append_assoc]
  exact ((h.cut hd hn hstraddles).bad hd hown).onTrack hown

/-- A straddle by another number leaves it behind. -/
theorem Behind.stay (h : Behind restart own straddles n Done s i) (hn : i < n)
    (hstraddles : straddles i = true) (hown : own i = false) :
    Behind restart own straddles n Done (takeTurn restart own straddles s i) (i + 1) := by
  obtain ⟨f, hf, hshort, hflagged, hplain⟩ := h.run
  have hstay : ¬ (s.2.count - 1 ≠ 0 ∧ restart = true) := by
    rintro ⟨hne, hr⟩
    rw [h.single hr] at hne
    exact hne rfl
  have hset := h.cut hd hn hstraddles
  unfold takeTurn
  rw [hstraddles, hown, turn_straddles h.pos, if_neg hstay]
  refine ⟨⟨f, ?_, by dsimp only; omega, hflagged, hplain⟩, h.pos, hset, hown, h.single⟩
  dsimp only
  rw [hf]
  rfl

end

/-- Without a straddle the last number of the run gets into it once more. -/
theorem Behind.spoil (h : Behind restart own straddles n Done s i) (hn : i < n)
    (hstraddles : straddles i = false) :
    Spoiled own straddles n Done (takeTurn restart own straddles s i) (i + 1) := by
  obtain ⟨f, hf, hshort, hflagged, _⟩ := h.run
  have hpos := h.pos
  have hdone := h.settled.done (f + s.2.count - 1) (by omega)
  rw [hflagged] at hdone
  refine ⟨f + s.2.count - 1, by omega, by omega, hflagged, ?_⟩
  unfold takeTurn
  rw [hstraddles]
  cases own i with
  | true =>
      refine .inl ⟨marks s.1 (f + s.2.count - 1), 0, hdone, ?_⟩
      rw [turn_own, hf, Option.getD_some, marks_append, marks_append, marks_run, marks_piece,
        if_pos (by omega), if_neg (by dsimp only; omega)]
      rfl
  | false =>
      refine .inr ⟨?_, f, ?_, by omega, ?_⟩
      · rw [turn_plain]
        dsimp only
        rw [List.append_nil]
        exact hdone
      · rw [turn_plain, hf]
        rfl
      · rw [turn_plain]
        dsimp only
        omega

/-! ## Spoiled -/

theorem marks_run_good {f c p : Nat} :
    ∃ t, marks (if c ≠ 0 then [⟨f, c, true⟩] else []) p = List.replicate t true := by
  rw [marks_run]
  split
  · exact ⟨1, rfl⟩
  · exact ⟨0, rfl⟩

/-- Whatever a turn says about numbers further back is that they are good. -/
theorem marks_turn {g : OpenRun} {b straddles : Bool} {p : Nat} (hp : p + 1 < i) :
    ∃ t, marks (turn restart g i b straddles).1 p = List.replicate t true := by
  have hone : ∀ q, p < q → marks [⟨q, 1, false⟩] p = [] := by
    intro q hq
    rw [marks_piece, if_neg (by dsimp only; omega)]
  have hrun : ∀ {f c : Nat} {close : Bool},
      ∃ t, marks (if close = true then [⟨f, c, true⟩] else []) p = List.replicate t true := by
    intro f c close
    cases close with
    | false => exact ⟨0, rfl⟩
    | true =>
        rw [if_pos rfl, marks_piece]
        split
        · exact ⟨1, rfl⟩
        · exact ⟨0, rfl⟩
  have hif : ∀ {c : Bool} {q : Nat}, p < q →
      marks (if c = true then [⟨q, 1, false⟩] else []) p = [] := by
    intro c q hq
    cases c with
    | false => rfl
    | true => exact hone q hq
  unfold turn
  dsimp only
  rw [marks_append, marks_append, hif (by omega), hif (by omega), List.nil_append, List.append_nil]
  exact hrun

theorem replicate_marks {l' : List Bool} {t t' : Nat} :
    l' ++ true :: List.replicate t true ++ List.replicate t' true =
      l' ++ true :: List.replicate (t + t') true := by
  rw [List.append_assoc, List.cons_append, List.replicate_append_replicate]

theorem Spoiled.next (h : Spoiled own straddles n Done s i) (hn : i < n) :
    Spoiled own straddles n Done (takeTurn restart own straddles s i) (i + 1) := by
  obtain ⟨p, hp, _, hflagged, h⟩ := h
  refine ⟨p, by omega, by omega, hflagged, ?_⟩
  unfold takeTurn
  rcases h with ⟨l, t, hdone, hl⟩ | ⟨hdone, f, hf, hfp, hlast⟩
  · obtain ⟨t', ht'⟩ : ∃ t', marks (turn restart s.2 i (own i) (straddles i)).1 p =
        List.replicate t' true := marks_turn hp
    refine .inl ⟨l, t + t', hdone, ?_⟩
    rw [marks_append, hl, ht', replicate_marks]
  · have hmark : ∀ {c : Nat}, p < f + c → marks [⟨f, c, true⟩] p = [true] := by
      intro c hc
      rw [marks_piece, if_pos ⟨hfp, hc⟩]
    have hcount : s.2.count ≠ 0 := by omega
    cases hs : straddles i with
    | true =>
        refine .inl ⟨marks s.1 p, 0, hdone, ?_⟩
        cases own i with
        | true =>
            rw [turn_straddles_own hcount, hf, Option.getD_some]
            rw [if_pos (by omega)]
            rw [marks_append, marks_append, marks_append, hmark (by omega), marks_piece,
              marks_piece, if_neg (by dsimp only; omega), if_neg (by dsimp only; omega)]
            rfl
        | false =>
            rw [turn_straddles hcount, hf, Option.getD_some]
            rw [if_pos (by omega)]
            rw [marks_append, marks_append, hmark (by omega), marks_piece,
              if_neg (by dsimp only; omega)]
            rfl
    | false =>
        cases own i with
        | true =>
            refine .inl ⟨marks s.1 p, 0, hdone, ?_⟩
            rw [turn_own, hf, Option.getD_some, if_pos hcount, marks_append, marks_append,
              hmark (by omega), marks_piece, if_neg (by dsimp only; omega)]
            rfl
        | false =>
            refine .inr ⟨?_, f, ?_, hfp, ?_⟩
            · rw [turn_plain]
              dsimp only
              rw [List.append_nil]
              exact hdone
            · rw [turn_plain, hf]
              rfl
            · rw [turn_plain]
              dsimp only
              omega

/-! ## All turns -/

section
variable (restart own straddles n Done)

/-- Every number gets the marks it should. -/
def Complete : Prop :=
  ∀ j < n, Done (marks (pieces restart own straddles n) j) (!flagged own straddles n j)

end

section
variable (hd : Reading restart Done)
include hd

theorem Spoiled.not_complete {d : Nat} (hi : i + d = n)
    (h : Spoiled own straddles n Done (turns restart own straddles i) i) :
    ¬ Complete restart own straddles n Done := by
  induction d generalizing i with
  | succ d ih => exact ih (by omega) (h.next (by omega))
  | zero =>
      obtain rfl : i = n := hi
      intro hc
      obtain ⟨p, hp, _, hflagged, h⟩ := h
      have hlast := hc p (by omega)
      unfold pieces at hlast
      dsimp only at hlast
      rw [hflagged, marks_append] at hlast
      unfold lastPiece at hlast
      rcases h with ⟨l, t, hdone, hl⟩ | ⟨hdone, f, hf, hfp, hcount⟩
      · obtain ⟨t', ht'⟩ := marks_run_good
          (f := (turns restart own straddles i).2.first.getD 0)
          (c := (turns restart own straddles i).2.count) (p := p)
        rw [hl, ht', replicate_marks] at hlast
        exact hd.spoiled l _ hdone hlast
      · rw [marks_run, hf, Option.getD_some, if_pos ⟨hfp, by omega⟩] at hlast
        exact hd.spoiled _ 0 hdone hlast

theorem OnTrack.complete
    (h : OnTrack restart own straddles n Done (turns restart own straddles n) n) :
    Complete restart own straddles n Done := by
  have hset := h.settled
  have hle := h.le
  intro j hj
  unfold pieces lastPiece
  dsimp only
  have hfirst : (turns restart own straddles n).2.count ≠ 0 →
      (turns restart own straddles n).2.first.getD 0 =
        n - (turns restart own straddles n).2.count := by
    intro hc
    rw [← h.first]
    cases hf : (turns restart own straddles n).2.first with
    | some f => rfl
    | none =>
        have := h.first
        rw [hf, Option.getD_none] at this
        omega
  rw [marks_append, marks_run]
  by_cases hlast : j < n - (turns restart own straddles n).2.count
  · rw [if_neg fun hin => ?_, List.append_nil]
    · exact hset.done j hlast
    · rw [hfirst (by omega)] at hin
      omega
  · obtain ⟨hown, hnext⟩ := h.plain j (by omega) hj
    rw [hset.unmarked j (by omega), hfirst (by omega), if_pos (by omega)]
    have hfree : flagged own straddles n j = false := by
      unfold flagged
      rw [hown, Bool.false_or, Bool.and_eq_false_iff, decide_eq_false_iff_not]
      by_cases hj' : j + 1 < n
      · exact .inr (hnext hj')
      · exact .inl hj'
    rw [hfree]
    exact hd.single true

theorem Behind.not_complete
    (h : Behind restart own straddles n Done (turns restart own straddles n) n) :
    ¬ Complete restart own straddles n Done := by
  obtain ⟨f, hf, hshort, hflagged, _⟩ := h.run
  have hpos := h.pos
  intro hc
  have hdone := h.settled.done (f + (turns restart own straddles n).2.count - 1) (by omega)
  have hlast := hc (f + (turns restart own straddles n).2.count - 1) (by omega)
  unfold pieces lastPiece at hlast
  dsimp only at hlast
  rw [hflagged] at hdone
  rw [hflagged, marks_append, marks_run, hf, Option.getD_some, if_pos (by omega)] at hlast
  exact hd.spoiled _ 0 hdone hlast

end

/-- One more number that straddles. -/
theorem recovers_step (hi : 0 < i) (hstraddles : straddles i = true) (hown : own i = false) :
    Recovers own straddles n (i - 1) ↔ Recovers own straddles n i := by
  constructor
  · rintro ⟨j, h₁, h₂, hj, h₃⟩
    have hne : j ≠ i := by
      rintro rfl
      rw [hown] at hj
      cases hj
    exact ⟨j, by omega, h₂, hj, fun k hk => h₃ k (by omega)⟩
  · rintro ⟨j, h₁, h₂, hj, h₃⟩
    refine ⟨j, by omega, h₂, hj, fun k hk hkj => ?_⟩
    by_cases hki : k = i
    · rw [hki]
      exact hstraddles
    · exact h₃ k (by omega) hkj

/-- The loop has at turn `i` what it takes, from there on. -/
theorem complete_from (hd : Reading restart Done) {d : Nat} (hi : i + d = n) :
    (OnTrack restart own straddles n Done (turns restart own straddles i) i →
      (Complete restart own straddles n Done ↔
        ∀ k, i ≤ k → k < n → Slips restart own straddles k → Recovers own straddles n k)) ∧
    (Behind restart own straddles n Done (turns restart own straddles i) i →
      (Complete restart own straddles n Done ↔ Recovers own straddles n (i - 1) ∧
        ∀ k, i ≤ k → k < n → Slips restart own straddles k → Recovers own straddles n k)) := by
  induction d generalizing i with
  | zero =>
      obtain rfl : i = n := hi
      refine ⟨fun h => ⟨fun _ k h₁ h₂ => by omega, fun _ => h.complete hd⟩,
        fun h => ⟨fun hc => absurd hc (h.not_complete hd), fun hr => ?_⟩⟩
      obtain ⟨j, h₁, h₂, _⟩ := hr.1
      obtain ⟨f, _, hshort, _⟩ := h.run
      omega
  | succ d ih =>
      obtain ⟨ihTrack, ihBehind⟩ := ih (i := i + 1) (by omega)
      have hturn : turns restart own straddles (i + 1) =
          takeTurn restart own straddles (turns restart own straddles i) i := rfl
      rw [hturn] at ihTrack ihBehind
      have hfirst : (∀ k, i ≤ k → k < n → Slips restart own straddles k →
            Recovers own straddles n k) ↔
          (Slips restart own straddles i → Recovers own straddles n i) ∧
            ∀ k, i + 1 ≤ k → k < n → Slips restart own straddles k →
              Recovers own straddles n k := by
        constructor
        · exact fun h => ⟨h i (Nat.le_refl i) (by omega), fun k hk => h k (by omega)⟩
        · intro h k hk
          by_cases hki : k = i
          · subst hki
            exact fun _ => h.1
          · exact h.2 k (by omega)
      rw [hfirst]
      refine ⟨fun h => ?_, fun h => ?_⟩
      · by_cases hslip : Slips restart own straddles i
        · rw [ihBehind (h.slip hd (by omega) hslip), Nat.add_sub_cancel]
          exact ⟨fun hr => ⟨fun _ => hr.1, hr.2⟩, fun hr => ⟨hr.1 hslip, hr.2⟩⟩
        · rw [ihTrack (h.next hd (by omega) hslip)]
          exact ⟨fun hr => ⟨fun hs => absurd hs hslip, hr⟩, fun hr => hr.2⟩
      · obtain ⟨f, _, hshort, _⟩ := h.run
        have hpos := h.pos
        cases hs : straddles i with
        | false =>
            have hspoiled := h.spoil (by omega) hs
            rw [← hturn] at hspoiled
            refine ⟨fun hc => absurd hc (hspoiled.not_complete hd (d := d) (by omega)),
              fun hr => ?_⟩
            obtain ⟨j, h₁, h₂, _, h₃⟩ := hr.1
            have := h₃ i (by omega) (by omega)
            rw [hs] at this
            cases this
        | true =>
            cases hown : own i with
            | true =>
                rw [ihTrack (h.recover hd (by omega) hs hown)]
                refine ⟨fun hr => ⟨⟨i, by omega, by omega, hown, fun k h₁ h₂ => ?_⟩,
                  fun hslip => ?_, hr⟩, fun hr => hr.2.2⟩
                · rw [show k = i by omega]
                  exact hs
                · rw [hslip.2.2.1] at hown
                  cases hown
            | false =>
                rw [ihBehind (h.stay hd (by omega) hs hown), Nat.add_sub_cancel,
                  recovers_step (by omega) hs hown]
                exact ⟨fun hr => ⟨hr.1, fun _ => hr.1, hr.2⟩, fun hr => ⟨hr.1, hr.2.2⟩⟩

/-- Every number gets the marks it should if and only if the loop recovers from
every slip. -/
theorem complete_iff (hd : Reading restart Done) :
    Complete restart own straddles n Done ↔
      ∀ i < n, Slips restart own straddles i → Recovers own straddles n i := by
  have hinit : OnTrack restart own straddles n Done (turns restart own straddles 0) 0 :=
    ⟨Nat.le_refl 0, rfl, ⟨fun j hj => (nomatch hj), fun _ _ => rfl⟩, fun j _ hj => (nomatch hj),
      .inl rfl⟩
  rw [(complete_from hd (Nat.zero_add n)).1 hinit]
  exact ⟨fun h i hi => h i (Nat.zero_le i) hi, fun h i _ hi => h i hi⟩

end

end Secpoline.Lib
