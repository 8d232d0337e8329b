import Secpoline.Model.Dispatch
import Mathlib.Data.List.Induction
import Mathlib.Tactic.FinCases

/-!
# Which handlers a system call runs

A table that `add_handler` has filled is known from the calls: each array holds, in
order, what was registered for it, and a null pointer behind (`Filled`). A packed row
then holds the prehandlers, the main handler and the posthandlers, five pointers at
most, and null pointers in what is left of it (`generate2dHandlerList_row`).

A full row has none left. The loop then goes on in the next row, which always begins
with a handler, or behind the array. And what is returned is the value of the last
handler that was called, which need not be the main handler.
-/

namespace Secpoline.Dispatch

open Lib

/-! ## What was registered -/

section
variable {H : Type}

/-- The functions that the calls register for a system call in one of the arrays. -/
def registered (calls : List (HandlerCall H)) (how : HandlerType) (n : Int) : List H :=
  (calls.filter fun c => c.syscallNo = n ∧ c.how = how).map HandlerCall.func

/-- The main handler that the calls leave; the last one to register it decides. -/
def registeredMain (default : H) (calls : List (HandlerCall H)) (n : Int) : H :=
  (((calls.filter fun c => c.syscallNo = n ∧ (c.how = .mainHandler ∨ c.how = .emulateLater)).map
    HandlerCall.func).getLast?).getD default

/-- An array of the table that holds the functions. -/
def Holds (handlers : List (Option H)) (functions : List H) : Prop :=
  functions.length ≤ MAX_SYSCALL_HANDLER_DEPTH ∧
    handlers = terminated functions
      (List.replicate (MAX_SYSCALL_HANDLER_DEPTH - functions.length) none)

/-- An entry of the table that holds these handlers. -/
structure RowHolds (row : SyscallHandlersStruct H) (pre : List H) (main : H) (post : List H) :
    Prop where
  pre : Holds row.prehandlers pre
  main : row.mainHandler = main
  post : Holds row.posthandlers post

/-- The table holds what the calls registered. -/
def Filled (default : H) (calls : List (HandlerCall H)) (table : HandlerTable H) : Prop :=
  ∀ n : Nat, RowHolds (table n) (registered calls .prehandler n) (registeredMain default calls n)
    (registered calls .posthandler n)

theorem holds_nil : Holds (List.replicate (MAX_SYSCALL_HANDLER_DEPTH + 1) none) ([] : List H) :=
  ⟨Nat.zero_le _, rfl⟩

theorem enterHandler_holds {handlers handlers' : List (Option H)} {functions : List H} {func : H}
    (h : Holds handlers functions) (he : enterHandler handlers func = some handlers') :
    Holds handlers' (functions ++ [func]) := by
  obtain ⟨-, rfl⟩ := h
  simp only [enterHandler, findIdx?_terminated] at he
  split at he
  · next hlt =>
      cases he
      have hsub : MAX_SYSCALL_HANDLER_DEPTH - functions.length =
          (MAX_SYSCALL_HANDLER_DEPTH - (functions ++ [func]).length) + 1 := by
        simp
        omega
      refine ⟨by simpa using Nat.succ_le_of_lt hlt, ?_⟩
      rw [hsub, List.replicate_succ, set_terminated]
  · cases he

theorem registered_append (calls : List (HandlerCall H)) (c : HandlerCall H) (how : HandlerType)
    (n : Int) :
    registered (calls ++ [c]) how n =
      registered calls how n ++ (if c.syscallNo = n ∧ c.how = how then [c.func] else []) := by
  by_cases h : c.syscallNo = n ∧ c.how = how
  · simp [registered, h]
  · simp [registered, h, -not_and]

theorem registeredMain_append (default : H) (calls : List (HandlerCall H)) (c : HandlerCall H)
    (n : Int) :
    registeredMain default (calls ++ [c]) n =
      if c.syscallNo = n ∧ (c.how = .mainHandler ∨ c.how = .emulateLater) then c.func
      else registeredMain default calls n := by
  by_cases h : c.syscallNo = n ∧ (c.how = .mainHandler ∨ c.how = .emulateLater)
  · simp [registeredMain, h]
  · simp [registeredMain, h, -not_and, -not_or]

variable [DecidableEq H] {default : H}

theorem enterRow_holds {row row' : SyscallHandlersStruct H} {pre post : List H} {main func : H}
    {how : HandlerType} (h : RowHolds row pre main post)
    (he : enterRow default row func how = some row') :
    RowHolds row' (pre ++ if how = .prehandler then [func] else [])
      (if how = .mainHandler ∨ how = .emulateLater then func else main)
      (post ++ if how = .posthandler then [func] else []) := by
  obtain ⟨hpre, hmain, hpost⟩ := h
  cases how with
  | prehandler =>
      obtain ⟨handlers, hh, rfl⟩ := Option.map_eq_some_iff.mp he
      exact ⟨enterHandler_holds hpre hh, by simpa using hmain, by simpa using hpost⟩
  | posthandler =>
      obtain ⟨handlers, hh, rfl⟩ := Option.map_eq_some_iff.mp he
      exact ⟨by simpa using hpre, by simpa using hmain, enterHandler_holds hpost hh⟩
  | mainHandler =>
      simp only [enterRow] at he
      split at he
      · cases he
        exact ⟨by simpa using hpre, by simp, by simpa using hpost⟩
      · cases he
  | emulateLater =>
      simp only [enterRow] at he
      split at he
      · cases he
        exact ⟨by simpa using hpre, by simp, by simpa using hpost⟩
      · cases he

/-- One call adds its function and nothing else. -/
theorem addHandler_filled {calls : List (HandlerCall H)} {table table' : HandlerTable H}
    {c : HandlerCall H} (h : Filled default calls table)
    (ha : addHandler default table c = some table') : Filled default (calls ++ [c]) table' := by
  intro n
  simp only [registered_append, registeredMain_append]
  simp only [addHandler] at ha
  split at ha
  · next hno =>
      obtain ⟨row, hrow, rfl⟩ := Option.map_eq_some_iff.mp ha
      by_cases hn : n = c.syscallNo.toNat
      · subst hn
        have hcast : c.syscallNo = (c.syscallNo.toNat : Int) := (Int.toNat_of_nonneg hno.2).symm
        simpa [← hcast] using enterRow_holds (h c.syscallNo.toNat) hrow
      · have hcast : c.syscallNo ≠ (n : Int) := by omega
        simpa [hn, hcast] using h n
  · cases ha

theorem addHandlers_filled {calls : List (HandlerCall H)} {table : HandlerTable H}
    (h : addHandlers default calls = some table) : Filled default calls table := by
  induction calls using List.reverseRecOn generalizing table with
  | nil =>
      cases h
      exact fun n => ⟨holds_nil, rfl, holds_nil⟩
  | append_singleton calls c ih =>
      simp only [addHandlers, List.foldlM_append, List.foldlM_cons, List.foldlM_nil, bind_pure] at h
      obtain ⟨table₁, h₁, h₂⟩ := Option.bind_eq_some_iff.mp h
      exact addHandler_filled (ih h₁) h₂

end

/-! ## Rows -/

section
variable {H : Type} {list : HandlerList H}

theorem handlerRow_eq : handlerRow = 5 := rfl

theorem writeFrom_outside {hs : List H} {position x : Int}
    (h : x < position ∨ position + hs.length ≤ x) : writeFrom position hs list x = list x := by
  induction hs generalizing position list with
  | nil => rfl
  | cons a hs ih =>
      simp only [List.length_cons] at h
      rw [writeFrom, ih (by omega), Function.update_of_ne (by omega)]

theorem writeFrom_inside {hs : List H} {position : Int} {i : Nat} (h : i < hs.length) :
    writeFrom position hs list (position + i) = some hs[i] := by
  induction hs generalizing position list i with
  | nil => exact absurd h (by simp)
  | cons a hs ih =>
      cases i with
      | zero =>
          rw [writeFrom, writeFrom_outside (.inl (by omega))]
          simp
      | succ i =>
          have hstep : position + ((i + 1 : Nat) : Int) = position + 1 + i := by omega
          rw [writeFrom, hstep, ih (by simpa using h)]
          rfl

/-- Five pointers at most, so a row is written inside of itself. -/
theorem RowHolds.length_le {row : SyscallHandlersStruct H} {pre post : List H} {main : H}
    (h : RowHolds row pre main post) :
    rowHandlers row = pre ++ main :: post ∧ (rowHandlers row).length ≤ handlerRow := by
  obtain ⟨⟨hpre, hpre'⟩, hmain, hpost, hpost'⟩ := h
  have hrow : rowHandlers row = pre ++ main :: post := by
    simp [rowHandlers, hpre', hmain, hpost']
  refine ⟨hrow, ?_⟩
  simp only [hrow, List.length_append, List.length_cons, handlerRow]
  omega

theorem generateRows_outside {table : HandlerTable H} {default : H} {calls : List (HandlerCall H)}
    (h : Filled default calls table) {n : Nat} {x : Int} (hx : x < 0 ∨ handlerRow * n ≤ x) :
    generateRows table list n x = list x := by
  induction n with
  | zero => rfl
  | succ n ih =>
      have hlen := (h n).length_le.2
      simp only [handlerRow_eq] at hlen hx ih
      rw [generateRows, writeFrom_outside (by rw [handlerRow_eq]; omega), ih (by omega)]

/-- The row of a system call: its handlers, and what was there before in the rest. -/
theorem generateRows_row {table : HandlerTable H} {default : H} {calls : List (HandlerCall H)}
    (h : Filled default calls table) {n k : Nat} (hk : k < n) {i : Nat} (hi : i < handlerRow) :
    generateRows table list n (handlerRow * k + i) =
      ((rowHandlers (table k))[i]?).or (list (handlerRow * k + i)) := by
  induction n with
  | zero => exact absurd hk (Nat.not_lt_zero _)
  | succ n ih =>
      rcases Nat.lt_succ_iff_lt_or_eq.mp hk with hlt | rfl
      · have hbefore : (handlerRow * k + i : Int) < handlerRow * n := by
          simp only [handlerRow_eq] at hi ⊢
          omega
        rw [generateRows, writeFrom_outside (.inl hbefore), ih hlt]
      · have hlen := (h k).length_le.2
        rw [generateRows]
        by_cases hin : i < (rowHandlers (table k)).length
        · rw [writeFrom_inside hin, List.getElem?_eq_getElem hin]
          rfl
        · rw [writeFrom_outside (.inr (by omega)),
            generateRows_outside h (.inr (Int.le_add_of_nonneg_right (by omega))),
            List.getElem?_eq_none (by omega)]
          rfl

end

/-! ## Calling handlers in order -/

section
variable {H σ : Type} (call : H → σ → Option (σ × Quad))

/-- One handler after the other, up to one that does not return: those that were called, and
the state and the value of the last one in the end. -/
def runAll : List H → σ → Quad → List H × Option (σ × Quad)
  | [], s, ret => ([], some (s, ret))
  | h :: rest, s, _ =>
      match call h s with
      | none => ([h], none)
      | some (s', r) => (h :: (runAll rest s' r).1, (runAll rest s' r).2)

/-- What a system call should do: its prehandlers, its main handler, its posthandlers, and
the value of the main handler. -/
def expected (pre : List H) (main : H) (post : List H) (s : σ) : List H × Option (σ × Quad) :=
  match (runAll call pre s 0).2 with
  | none => ((runAll call pre s 0).1, none)
  | some (s₁, _) =>
      match call main s₁ with
      | none => (pre ++ [main], none)
      | some (s₂, decision) =>
          (pre ++ main :: (runAll call post s₂ decision).1,
            (runAll call post s₂ decision).2.map fun r => (r.1, decision))

/-- All handlers return, the main handler with the one value and the last one with the
other. -/
def Returns (pre : List H) (main : H) (post : List H) (s : σ) (decision last : Quad) : Prop :=
  ∃ s₁ r₁ s₂ s₃, (runAll call pre s 0).2 = some (s₁, r₁) ∧ call main s₁ = some (s₂, decision) ∧
    (runAll call post s₂ decision).2 = some (s₃, last)

variable {call} {hs pre post : List H} {main : H} {s s' : σ} {r r' : Quad}

theorem runAll_ran (h : (runAll call hs s r).2 = some (s', r')) : (runAll call hs s r).1 = hs := by
  induction hs generalizing s r with
  | nil => rfl
  | cons a hs ih =>
      simp only [runAll] at h ⊢
      cases hc : call a s with
      | none => simp [hc] at h
      | some out => simp [hc] at h ⊢; exact ih h

theorem runAll_append_some (h : (runAll call pre s r).2 = some (s', r')) :
    runAll call (pre ++ hs) s r =
      (pre ++ (runAll call hs s' r').1, (runAll call hs s' r').2) := by
  induction pre generalizing s r with
  | nil =>
      cases h
      rfl
  | cons a pre ih =>
      simp only [runAll, List.cons_append] at h ⊢
      cases hc : call a s with
      | none => simp [hc] at h
      | some out =>
          simp only [hc] at h ⊢
          rw [ih h]

theorem runAll_append_none (h : (runAll call pre s r).2 = none) :
    runAll call (pre ++ hs) s r = ((runAll call pre s r).1, none) := by
  induction pre generalizing s r with
  | nil => cases h
  | cons a pre ih =>
      simp only [runAll, List.cons_append] at h ⊢
      cases hc : call a s with
      | none => rfl
      | some out =>
          simp only [hc] at h ⊢
          rw [ih h]

theorem runAll_ne_nil (h : (runAll call hs s r).2 = none) : (runAll call hs s r).1 ≠ [] := by
  cases hs with
  | nil => cases h
  | cons a hs =>
      simp only [runAll]
      cases call a s <;> simp

theorem runAll_ret (h : hs ≠ []) (r r' : Quad) : runAll call hs s r = runAll call hs s r' := by
  cases hs with
  | nil => exact absurd rfl h
  | cons a hs => rfl

/-- Either some handler does not return, or they all do. -/
theorem runAll_cases (call : H → σ → Option (σ × Quad)) (pre : List H) (main : H) (post : List H)
    (s : σ) :
    (∃ ran, ran ≠ [] ∧ runAll call (pre ++ main :: post) s 0 = (ran, none) ∧
      expected call pre main post s = (ran, none) ∧
      ∀ decision last, ¬ Returns call pre main post s decision last) ∨
    (∃ s' decision last, runAll call (pre ++ main :: post) s 0 =
        (pre ++ main :: post, some (s', last)) ∧
      expected call pre main post s = (pre ++ main :: post, some (s', decision)) ∧
      Returns call pre main post s decision last ∧
      ∀ decision' last', Returns call pre main post s decision' last' →
        decision' = decision ∧ last' = last) := by
  cases hpre : (runAll call pre s 0).2 with
  | none =>
      refine .inl ⟨(runAll call pre s 0).1, runAll_ne_nil hpre, runAll_append_none hpre, ?_, ?_⟩
      · simp only [expected, hpre]
      · rintro d l ⟨s₁, r₁, s₂, s₃, h₁, -⟩
        cases hpre.symm.trans h₁
  | some out₁ =>
      obtain ⟨s₁, r₁⟩ := out₁
      rw [runAll_append_some hpre]
      cases hmain : call main s₁ with
      | none =>
          refine .inl ⟨pre ++ [main], by simp, ?_, ?_, ?_⟩
          · simp [runAll, hmain]
          · simp only [expected, hpre, hmain]
          · rintro d l ⟨s₁', r₁', s₂, s₃, h₁, h₂, -⟩
            cases hpre.symm.trans h₁
            cases hmain.symm.trans h₂
      | some out₂ =>
          obtain ⟨s₂, d⟩ := out₂
          cases hpost : (runAll call post s₂ d).2 with
          | none =>
              refine .inl ⟨pre ++ main :: (runAll call post s₂ d).1, by simp, ?_, ?_, ?_⟩
              · simp [runAll, hmain, hpost]
              · simp only [expected, hpre, hmain, hpost, Option.map_none]
              · rintro d' l ⟨s₁', r₁', s₂', s₃, h₁, h₂, h₃⟩
                cases hpre.symm.trans h₁
                cases hmain.symm.trans h₂
                cases hpost.symm.trans h₃
          | some out₃ =>
              obtain ⟨s₃, l⟩ := out₃
              refine .inr ⟨s₃, d, l, ?_, ?_, ⟨s₁, r₁, s₂, s₃, hpre, hmain, hpost⟩, ?_⟩
              · simp [runAll, hmain, hpost, runAll_ran hpost]
              · simp only [expected, hpre, hmain, hpost, runAll_ran hpost, Option.map_some]
              · rintro d' l' ⟨s₁', r₁', s₂', s₃', h₁, h₂, h₃⟩
                cases hpre.symm.trans h₁
                cases hmain.symm.trans h₂
                cases hpost.symm.trans h₃
                exact ⟨rfl, rfl⟩

end

/-! ## The loop -/

section
variable {H σ : Type} {call : H → σ → Option (σ × Quad)} {list : HandlerList H} {hs : List H}
  {position : Int} {s s' : σ} {r r' : Quad} {fuel : Nat} {ran : List H}

/-- The handlers stand at the position and behind it. -/
def RowAt (list : HandlerList H) (position : Int) (hs : List H) : Prop :=
  ∀ i (hi : i < hs.length), list (position + i) = some hs[i]

theorem rowAt_cons {a : H} :
    RowAt list position (a :: hs) ↔ list position = some a ∧ RowAt list (position + 1) hs := by
  constructor
  · intro h
    refine ⟨(congrArg list (by omega)).trans (h 0 (Nat.succ_pos _)), fun i hi => ?_⟩
    rw [show position + 1 + (i : Int) = position + (i + 1 : Nat) by omega, h (i + 1) (by simpa)]
    rfl
  · rintro ⟨hfirst, hrest⟩ i hi
    cases i with
    | zero => simpa using hfirst
    | succ i =>
        rw [show position + ((i + 1 : Nat) : Int) = position + 1 + i by omega,
          hrest i (by simpa using hi)]
        rfl

theorem handlerLoop_fuel {ret : BitVec 32} {out : List H × Option (σ × Quad)}
    (h : handlerLoop call list fuel position s ret = some out) (more : Nat) :
    handlerLoop call list (fuel + more) position s ret = some out := by
  induction fuel generalizing position s ret out with
  | zero => cases h
  | succ fuel ih =>
      rw [show fuel + 1 + more = fuel + more + 1 by omega]
      simp only [handlerLoop] at h ⊢
      cases hl : list position with
      | none => rwa [hl] at h
      | some a =>
          simp only [hl] at h ⊢
          cases hc : call a s with
          | none => rwa [hc] at h
          | some out' =>
              simp only [hc] at h ⊢
              obtain ⟨out₁, h₁, rfl⟩ := Option.map_eq_some_iff.mp h
              rw [ih h₁]
              rfl

/-- Some handlers in a row of which one does not return. -/
theorem handlerLoop_stops (hl : RowAt list position hs)
    (hrun : runAll call hs s r = (ran, none)) :
    handlerLoop call list hs.length position s (r.setWidth 32) = some (ran, none) := by
  induction hs generalizing position s r ran with
  | nil => cases hrun
  | cons a hs ih =>
      obtain ⟨hfirst, hrest⟩ := rowAt_cons.mp hl
      simp only [runAll] at hrun
      simp only [List.length_cons, handlerLoop, hfirst]
      cases hc : call a s with
      | none => simp_all
      | some out =>
          simp only [hc, Prod.mk.injEq] at hrun
          obtain ⟨rfl, hnone⟩ := hrun
          have hout : runAll call hs out.1 out.2 = ((runAll call hs out.1 out.2).1, none) :=
            Prod.ext rfl hnone
          simp only [ih hrest hout]
          rfl

/-- Some handlers in a row that all return: the loop goes on behind them. -/
theorem handlerLoop_passes (hl : RowAt list position hs)
    (hrun : (runAll call hs s r).2 = some (s', r')) :
    handlerLoop call list (hs.length + fuel) position s (r.setWidth 32) =
      (handlerLoop call list fuel (position + hs.length) s' (r'.setWidth 32)).map
        fun out => (hs ++ out.1, out.2) := by
  induction hs generalizing position s r with
  | nil =>
      cases hrun
      simp
  | cons a hs ih =>
      obtain ⟨hfirst, hrest⟩ := rowAt_cons.mp hl
      simp only [runAll] at hrun
      rw [List.length_cons, show hs.length + 1 + fuel = hs.length + fuel + 1 by omega]
      simp only [handlerLoop, hfirst]
      cases hc : call a s with
      | none => simp [hc] at hrun
      | some out =>
          simp only [hc] at hrun
          simp only [ih hrest hrun, Option.map_map]
          rw [show position + 1 + (hs.length : Int) = position + (hs.length + 1 : Nat) by omega]
          rfl

theorem handlerLoop_ran {ret : BitVec 32} {out : List H × Option (σ × Quad)} {a : H}
    (ha : list position = some a) (h : handlerLoop call list fuel position s ret = some out) :
    out.1 ≠ [] := by
  cases fuel with
  | zero => cases h
  | succ fuel =>
      simp only [handlerLoop, ha] at h
      cases hc : call a s with
      | none =>
          simp only [hc, Option.some.injEq] at h
          simp [← h]
      | some out' =>
          simp only [hc] at h
          obtain ⟨out₁, -, rfl⟩ := Option.map_eq_some_iff.mp h
          simp

end

/-! ## What a system call runs -/

section
variable {H σ : Type} {call : H → σ → Option (σ × Quad)} {default : H}
  {calls : List (HandlerCall H)} {table : HandlerTable H} {around : HandlerList H} {n : Nat} {s : σ}

theorem generate2dHandlerList_row (h : Filled default calls table) (hn : n < MAX_VALID_SYSCALL_NUM)
    {i : Nat} (hi : i < handlerRow) :
    generate2dHandlerList table around (handlerRow * n + i) =
      (registered calls .prehandler n ++ registeredMain default calls n ::
        registered calls .posthandler n)[i]? := by
  have hmax : MAX_VALID_SYSCALL_NUM = 463 := rfl
  have hinside : (0 : Int) ≤ handlerRow * n + i ∧
      (handlerRow * n + i : Int) < handlerRow * MAX_VALID_SYSCALL_NUM := by
    simp only [handlerRow_eq, hmax] at hn hi ⊢
    omega
  rw [generate2dHandlerList, generateRows_row h hn hi, (h n).length_le.1, blankList, if_pos hinside,
    Option.or_none]

theorem generate2dHandlerList_outside (h : Filled default calls table) {x : Int}
    (hx : x < 0 ∨ handlerRow * MAX_VALID_SYSCALL_NUM ≤ x) :
    generate2dHandlerList table around x = around x := by
  rw [generate2dHandlerList, generateRows_outside h hx, blankList, if_neg (by omega)]

/-- The handlers of a system call. -/
def handlersOf (default : H) (calls : List (HandlerCall H)) (n : Int) : List H :=
  registered calls .prehandler n ++ registeredMain default calls n ::
    registered calls .posthandler n

theorem handlersOf_rowAt (h : Filled default calls table) (hn : n < MAX_VALID_SYSCALL_NUM) :
    RowAt (generate2dHandlerList table around) (handlerRow * n) (handlersOf default calls n) := by
  intro i hi
  have hlen := (h n).length_le
  rw [hlen.1] at hlen
  rw [generate2dHandlerList_row h hn (Nat.lt_of_lt_of_le hi hlen.2)]
  exact List.getElem?_eq_getElem hi

/-- Behind the handlers is a null pointer if the row is not full. -/
theorem behind_row (h : Filled default calls table) (hn : n < MAX_VALID_SYSCALL_NUM)
    (hlen : (handlersOf default calls n).length < handlerRow) :
    generate2dHandlerList table around
      (handlerRow * n + (handlersOf default calls n).length) = none := by
  rw [generate2dHandlerList_row h hn hlen]
  exact List.getElem?_eq_none (Nat.le_refl _)

/-- Behind a full row is the next one, or memory that is not the array's. -/
theorem behind_full_row (h : Filled default calls table) (hn : n < MAX_VALID_SYSCALL_NUM)
    (hlen : (handlersOf default calls n).length = handlerRow) :
    ∃ a, generate2dHandlerList table (fun _ => some default)
      (handlerRow * n + (handlersOf default calls n).length) = some a := by
  have hnext : (handlerRow * n + (handlersOf default calls n).length : Int) =
      handlerRow * (n + 1 : Nat) + (0 : Nat) := by
    simp only [hlen, handlerRow_eq]
    omega
  rw [hnext]
  by_cases hlast : n + 1 < MAX_VALID_SYSCALL_NUM
  · rw [generate2dHandlerList_row h hlast (by decide)]
    cases registered calls .prehandler (n + 1 : Nat) with
    | nil => exact ⟨_, rfl⟩
    | cons a rest => exact ⟨a, rfl⟩
  · rw [generate2dHandlerList_outside h (.inr ?_)]
    · exact ⟨default, rfl⟩
    · have hmax : MAX_VALID_SYSCALL_NUM = 463 := rfl
      simp only [handlerRow_eq, hmax] at hn hlast ⊢
      omega

theorem expected_ran {pre post : List H} {main : H} : (expected call pre main post s).1 ≠ [] := by
  rcases runAll_cases call pre main post s with
    ⟨ran, hran, -, he, -⟩ | ⟨s', d, l, -, he, -⟩
  · rw [he]
    exact hran
  · rw [he]
    simp

theorem handlersOf_ne_nil {n : Int} : handlersOf default calls n ≠ [] := by
  simp [handlersOf]

theorem secpolineSyscallHandler_eq {list : HandlerList H} {fuel : Nat}
    (hn : n < MAX_VALID_SYSCALL_NUM) {ret : BitVec 32} :
    secpolineSyscallHandler call list fuel n s ret =
      handlerLoop call list fuel (handlerRow * n) s ((ret.setWidth 64).setWidth 32) := by
  have hhigh : (n : Int) < MAX_VALID_SYSCALL_NUM := by omega
  simp [secpolineSyscallHandler, hhigh]

theorem dispatch_stops (h : Filled default calls table) (hn : n < MAX_VALID_SYSCALL_NUM)
    {ran : List H} (hrun : runAll call (handlersOf default calls n) s 0 = (ran, none))
    (around : HandlerList H) (ret : BitVec 32) :
    ∃ fuel, secpolineSyscallHandler call (generate2dHandlerList table around) fuel n s ret =
      some (ran, none) := by
  refine ⟨(handlersOf default calls n).length, ?_⟩
  rw [secpolineSyscallHandler_eq hn]
  exact handlerLoop_stops (handlersOf_rowAt h hn) ((runAll_ret handlersOf_ne_nil _ _).trans hrun)

/-- If all handlers return, the loop comes to what is behind them. -/
theorem dispatch_passes (h : Filled default calls table) (hn : n < MAX_VALID_SYSCALL_NUM) {s' : σ}
    {last : Quad}
    (hrun : runAll call (handlersOf default calls n) s 0 =
      (handlersOf default calls n, some (s', last)))
    (around : HandlerList H) (ret : BitVec 32) (fuel : Nat) :
    secpolineSyscallHandler call (generate2dHandlerList table around)
        ((handlersOf default calls n).length + fuel) n s ret =
      (handlerLoop call (generate2dHandlerList table around) fuel
        (handlerRow * n + (handlersOf default calls n).length) s' (last.setWidth 32)).map
          fun out => (handlersOf default calls n ++ out.1, out.2) := by
  rw [secpolineSyscallHandler_eq hn]
  refine handlerLoop_passes (handlersOf_rowAt h hn) ?_
  rw [runAll_ret handlersOf_ne_nil _ 0, hrun]

theorem dispatch_returns (h : Filled default calls table) (hn : n < MAX_VALID_SYSCALL_NUM) {s' : σ}
    {last : Quad}
    (hrun : runAll call (handlersOf default calls n) s 0 =
      (handlersOf default calls n, some (s', last)))
    (hlen : (handlersOf default calls n).length < handlerRow) (around : HandlerList H)
    (ret : BitVec 32) (fuel : Nat) :
    secpolineSyscallHandler call (generate2dHandlerList table around)
        ((handlersOf default calls n).length + (fuel + 1)) n s ret =
      some (handlersOf default calls n, some (s', (last.setWidth 32).signExtend 64)) := by
  rw [dispatch_passes h hn hrun]
  simp [handlerLoop, behind_row h hn hlen]

theorem dispatch_overruns (h : Filled default calls table) (hn : n < MAX_VALID_SYSCALL_NUM) {s' : σ}
    {last : Quad}
    (hrun : runAll call (handlersOf default calls n) s 0 =
      (handlersOf default calls n, some (s', last)))
    (hlen : (handlersOf default calls n).length = handlerRow) (ret : BitVec 32) (fuel : Nat)
    (out : Option (σ × Quad)) :
    secpolineSyscallHandler call (generate2dHandlerList table fun _ => some default)
        ((handlersOf default calls n).length + fuel) n s ret ≠
      some (handlersOf default calls n, out) := by
  intro he
  rw [dispatch_passes h hn hrun] at he
  obtain ⟨out', hout, he⟩ := Option.map_eq_some_iff.mp he
  obtain ⟨a, ha⟩ := behind_full_row h hn hlen
  exact handlerLoop_ran ha hout (by simpa using congrArg Prod.fst he)

theorem secpolineSyscallHandler_fuel {list : HandlerList H} {fuel : Nat} {n : Int} {ret : BitVec 32}
    {out : List H × Option (σ × Quad)}
    (h : secpolineSyscallHandler call list fuel n s ret = some out) (more : Nat) :
    secpolineSyscallHandler call list (fuel + more) n s ret = some out := by
  simp only [secpolineSyscallHandler] at h ⊢
  split at h
  · next hn =>
      rw [if_pos hn]
      exact handlerLoop_fuel h more
  · next hn =>
      rw [if_neg hn]
      exact h

variable [DecidableEq H]

/-- Whatever is in memory around the array, a system call runs its handlers in order and
returns the value of its main handler, exactly if it has an entry in the table, and if they
all return, then its row is not full and the last of them returns what the main
handler returned. -/
theorem dispatch_exact_iff (default : H) (calls : List (HandlerCall H)) (table : HandlerTable H)
    (htable : addHandlers default calls = some table) (call : H → σ → Option (σ × Quad)) (n : Int)
    (s : σ) :
    (∀ around ret, ∃ fuel,
      secpolineSyscallHandler call (generate2dHandlerList table around) fuel n s ret =
        some (expected call (registered calls .prehandler n) (registeredMain default calls n)
          (registered calls .posthandler n) s)) ↔
    (0 ≤ n ∧ n < MAX_VALID_SYSCALL_NUM) ∧
      ∀ decision last, Returns call (registered calls .prehandler n)
          (registeredMain default calls n) (registered calls .posthandler n) s decision last →
        (registered calls .prehandler n).length + (registered calls .posthandler n).length <
            2 * MAX_SYSCALL_HANDLER_DEPTH ∧
          (last.setWidth 32).signExtend 64 = decision := by
  have hfilled := addHandlers_filled htable
  constructor
  · intro hexact
    have hlow : 0 ≤ n := by
      by_contra hneg
      obtain ⟨fuel, hfuel⟩ := hexact (fun _ => none) 0
      have hnull : generate2dHandlerList table (fun _ => none) (handlerRow * n) = none :=
        generate2dHandlerList_outside hfilled (.inl (by rw [handlerRow_eq]; omega))
      have hmax : n < MAX_VALID_SYSCALL_NUM := by
        simp only [MAX_VALID_SYSCALL_NUM]
        omega
      cases fuel with
      | zero => simp [secpolineSyscallHandler, hmax, handlerLoop] at hfuel
      | succ fuel =>
          simp only [secpolineSyscallHandler, hmax, if_true, handlerLoop, hnull,
            Option.some.injEq] at hfuel
          exact expected_ran (congrArg Prod.fst hfuel).symm
    have hhigh : n < MAX_VALID_SYSCALL_NUM := by
      by_contra hge
      obtain ⟨fuel, hfuel⟩ := hexact (fun _ => none) 0
      simp only [secpolineSyscallHandler, hge, if_false, Option.some.injEq] at hfuel
      exact expected_ran (congrArg Prod.fst hfuel).symm
    refine ⟨⟨hlow, hhigh⟩, fun decision last hreturns => ?_⟩
    obtain ⟨n, rfl⟩ := Int.eq_ofNat_of_zero_le hlow
    have hn : n < MAX_VALID_SYSCALL_NUM := by omega
    have hlen := (hfilled n).length_le
    rw [hlen.1] at hlen
    obtain ⟨ran, -, -, -, hnone⟩ | ⟨s', d, l, hrun, hexp, -, hunique⟩ :=
      runAll_cases call (registered calls .prehandler n) (registeredMain default calls n)
        (registered calls .posthandler n) s
    · exact absurd hreturns (hnone decision last)
    obtain ⟨rfl, rfl⟩ := hunique decision last hreturns
    obtain ⟨fuel, hfuel⟩ := hexact (fun _ => some default) 0
    rw [hexp] at hfuel
    have hmore := secpolineSyscallHandler_fuel hfuel ((handlersOf default calls n).length + 1)
    rw [show fuel + ((handlersOf default calls n).length + 1) =
      (handlersOf default calls n).length + (fuel + 1) by omega] at hmore
    rcases Nat.lt_or_eq_of_le hlen.2 with hlt | hfull
    · rw [dispatch_returns hfilled hn hrun hlt] at hmore
      simp only [Option.some.injEq, Prod.mk.injEq, true_and] at hmore
      refine ⟨?_, hmore.2⟩
      simp only [List.length_append, List.length_cons, handlerRow] at hlt
      omega
    · exact absurd hmore (dispatch_overruns hfilled hn hrun hfull _ _ _)
  · rintro ⟨⟨hlow, hhigh⟩, hfine⟩ around ret
    obtain ⟨n, rfl⟩ := Int.eq_ofNat_of_zero_le hlow
    have hn : n < MAX_VALID_SYSCALL_NUM := by omega
    obtain ⟨ran, -, hrun, hexp, -⟩ | ⟨s', d, l, hrun, hexp, hreturns, -⟩ :=
      runAll_cases call (registered calls .prehandler n) (registeredMain default calls n)
        (registered calls .posthandler n) s
    · rw [hexp]
      exact dispatch_stops hfilled hn hrun around ret
    · obtain ⟨hlen, hdecision⟩ := hfine d l hreturns
      have hlt : (handlersOf default calls n).length < handlerRow := by
        simp only [handlersOf, List.length_append, List.length_cons, handlerRow]
        omega
      rw [hexp, ← hdecision]
      exact ⟨_, dispatch_returns hfilled hn hrun hlt around ret 0⟩

end

/-- Every handler returns; `clone` asks for its call to be emulated. -/
def someReturns (h : HandlerName) (s : Unit) : Option (Unit × Quad) :=
  some (s, if h = .clone then 1 else 0)

/-- `dup`: a prehandler, the default handler, a posthandler. -/
theorem dispatch_exact_dup :
    ∃ table, addHandlers .default initialiseSyscallHandlers = some table ∧
      ∀ around ret, ∃ fuel,
        secpolineSyscallHandler someReturns (generate2dHandlerList table around) fuel 32 () ret =
          some ([.fdFirstArgumentPrehandler, .default, .saveUntrustedFd], some ((), 0)) := by
  have hsome : (addHandlers .default initialiseSyscallHandlers).isSome = true := by decide +kernel
  obtain ⟨table, htable⟩ := Option.isSome_iff_exists.mp hsome
  have hexpected : expected someReturns (registered initialiseSyscallHandlers .prehandler 32)
      (registeredMain .default initialiseSyscallHandlers 32)
      (registered initialiseSyscallHandlers .posthandler 32) () =
      ([.fdFirstArgumentPrehandler, .default, .saveUntrustedFd], some ((), 0)) := by decide +kernel
  have key := dispatch_exact_iff HandlerName.default initialiseSyscallHandlers table htable
    someReturns 32 ()
  rw [hexpected] at key
  refine ⟨table, htable, key.mpr ⟨by simp [MAX_VALID_SYSCALL_NUM], ?_⟩⟩
  rintro decision last ⟨s₁, r₁, s₂, s₃, -, hmain, hpost⟩
  have hmain' : registeredMain .default initialiseSyscallHandlers 32 = .default := by decide +kernel
  have hpost' : registered initialiseSyscallHandlers .posthandler 32 = [.saveUntrustedFd] := by
    decide +kernel
  rw [hmain'] at hmain
  rw [hpost'] at hpost
  cases hmain
  cases hpost
  exact ⟨by decide +kernel, by decide⟩

/-- Two prehandlers and two posthandlers for `fstat`. -/
def fullRow : List (HandlerCall HandlerName) :=
  [⟨5, .fdFirstArgumentPrehandler, .prehandler⟩, ⟨5, .fdFirstThirdArgumentPrehandler, .prehandler⟩,
   ⟨5, .close, .mainHandler⟩, ⟨5, .saveUntrustedFd, .posthandler⟩,
   ⟨5, .saveUntrustedFd, .posthandler⟩]

/-- `clone`, with a posthandler that was registered afterwards. -/
def postClone : List (HandlerCall HandlerName) :=
  [⟨nrClone, .clone, .emulateLater⟩, ⟨nrClone, .saveUntrustedFd, .posthandler⟩]

/-- With a full row `fstat` goes on to run the handler of `lstat`, and with a posthandler
`clone` is not emulated although its main handler asks for it. -/
theorem dispatch_overruns_fstat :
    (addHandlers .default fullRow).map (fun table => secpolineSyscallHandler someReturns
        (generate2dHandlerList table fun _ => none) 7 5 () 0) =
      some (some ([.fdFirstArgumentPrehandler, .fdFirstThirdArgumentPrehandler, .close,
        .saveUntrustedFd, .saveUntrustedFd, .default], some ((), 0))) ∧
    expected someReturns (registered fullRow .prehandler 5) (registeredMain .default fullRow 5)
        (registered fullRow .posthandler 5) () =
      ([.fdFirstArgumentPrehandler, .fdFirstThirdArgumentPrehandler, .close, .saveUntrustedFd,
        .saveUntrustedFd], some ((), 0)) ∧
    (addHandlers .default postClone).map (fun table => secpolineSyscallHandler someReturns
        (generate2dHandlerList table fun _ => none) 3 nrClone () 0) =
      some (some ([.clone, .saveUntrustedFd], some ((), 0))) ∧
    expected someReturns (registered postClone .prehandler nrClone)
        (registeredMain .default postClone nrClone) (registered postClone .posthandler nrClone) () =
      ([.clone, .saveUntrustedFd], some ((), 1)) :=
  ⟨by decide +kernel, by decide +kernel, by decide +kernel, by decide +kernel⟩

/-! ## The table of `initialise_syscall_handlers` -/

section
variable {H : Type}

theorem registered_append_list (calls calls' : List (HandlerCall H)) (how : HandlerType) (n : Int) :
    registered (calls ++ calls') how n = registered calls how n ++ registered calls' how n := by
  simp [registered]

/-- One handler for several system calls. -/
theorem registered_addToAll {l : List Nat} (hl : l.Nodup) (func : H) (how how' : HandlerType)
    (n : Nat) :
    registered (addToAll l func how) how' n = if how = how' ∧ n ∈ l then [func] else [] := by
  induction l with
  | nil => simp [registered, addToAll]
  | cons m l ih =>
      obtain ⟨hm, hl⟩ := List.nodup_cons.mp hl
      have hcons : addToAll (m :: l) func how =
          [{ syscallNo := m, func, how }] ++ addToAll l func how := rfl
      rw [hcons, registered_append_list, ih hl]
      by_cases hhow : how = how'
      · by_cases hn : m = n
        · subst hn
          simp [registered, hhow, hm]
        · have hcast : (m : Int) ≠ n := by omega
          simp [registered, hhow, hcast, Ne.symm hn]
      · simp [registered, hhow]

end

theorem registered_mainHandlers {how : HandlerType} (hhow : how ≠ .mainHandler) (n : Int) :
    registered (mainHandlers.map fun m => { syscallNo := m.1, func := m.2, how := .mainHandler })
      how n = [] := by
  simp only [registered, List.map_eq_nil_iff, List.filter_eq_nil_iff, List.mem_map]
  rintro c ⟨m, -, rfl⟩
  simp [Ne.symm hhow]

/-- What is registered for an array, group by group. -/
theorem registered_initialise {how : HandlerType} (hhow : how = .prehandler ∨ how = .posthandler)
    (n : Nat) :
    registered initialiseSyscallHandlers how n =
      (if HandlerType.posthandler = how ∧ n ∈ fdCreators then [HandlerName.saveUntrustedFd]
        else []) ++
      (if HandlerType.prehandler = how ∧ n ∈ fdUsers then [HandlerName.fdFirstArgumentPrehandler]
        else []) ++
      (if HandlerType.prehandler = how ∧ n ∈ fdUsersSecondArgument then
        [HandlerName.fdSecondArgumentPrehandler] else []) ++
      (if HandlerType.prehandler = how ∧ n ∈ fdUsersFirstSecondArgument then
        [HandlerName.fdFirstSecondArgumentPrehandler] else []) ++
      (if HandlerType.prehandler = how ∧ n ∈ fdUsersFirstThirdArgument then
        [HandlerName.fdFirstThirdArgumentPrehandler] else []) := by
  have hmain : how ≠ .mainHandler := by rcases hhow with rfl | rfl <;> decide
  have hclone : registered [⟨nrClone, HandlerName.clone, .emulateLater⟩] how n = [] := by
    rcases hhow with rfl | rfl <;> simp [registered]
  simp only [initialiseSyscallHandlers, registered_append_list, registered_mainHandlers hmain,
    hclone,
    registered_addToAll (l := fdCreators) (by decide),
    registered_addToAll (l := fdUsers) (by decide),
    registered_addToAll (l := fdUsersSecondArgument) (by decide),
    registered_addToAll (l := fdUsersFirstSecondArgument) (by decide),
    registered_addToAll (l := fdUsersFirstThirdArgument) (by decide), List.append_nil]

theorem denote_prehandlers (n : Nat) :
    (registered initialiseSyscallHandlers .prehandler n).map HandlerName.denote =
      prehandlers n := by
  rw [registered_initialise (.inl rfl)]
  simp [apply_ite (List.map HandlerName.denote), HandlerName.denote, prehandlers]

theorem denote_posthandlers (n : Nat) :
    (registered initialiseSyscallHandlers .posthandler n).map HandlerName.denote =
      posthandlers n := by
  rw [registered_initialise (.inr rfl)]
  simp [apply_ite (List.map HandlerName.denote), HandlerName.denote, posthandlers]

/-- The system calls with a main handler of their own. -/
def mainCalls : List (Nat × HandlerName) := mainHandlers ++ [(nrClone, .clone)]

theorem registeredMain_mem :
    ∀ m ∈ mainCalls, registeredMain .default initialiseSyscallHandlers m.1 = m.2 := by
  decide +kernel

theorem mainHandler_mem : ∀ m ∈ mainCalls, mainHandler m.1 = m.2.denote := by
  intro m hm
  fin_cases hm <;> rfl

theorem registeredMain_other {n : Nat} (hn : n ∉ mainCalls.map Prod.fst) :
    registeredMain .default initialiseSyscallHandlers n = .default := by
  have hmem : ∀ c ∈ initialiseSyscallHandlers, c.how = .mainHandler ∨ c.how = .emulateLater →
      ∃ m ∈ mainCalls.map Prod.fst, (m : Int) = c.syscallNo := by
    decide +kernel
  have hnone : initialiseSyscallHandlers.filter (fun c =>
      c.syscallNo = (n : Int) ∧ (c.how = .mainHandler ∨ c.how = .emulateLater)) = [] := by
    simp only [List.filter_eq_nil_iff, decide_eq_true_eq]
    rintro c hc ⟨hcall, hhow⟩
    obtain ⟨m, hm, he⟩ := hmem c hc hhow
    rw [hcall] at he
    exact hn (Int.ofNat_inj.mp he ▸ hm)
  rw [registeredMain, hnone]
  rfl

theorem mainHandler_other {n : Nat} (hn : n ∉ mainCalls.map Prod.fst) :
    mainHandler n = resultHandler := by
  have hgroup : ∀ l : List Nat, l ⊆ mainCalls.map Prod.fst → n ∉ l := fun l hl hmem => hn (hl hmem)
  have hone : ∀ m : Nat, m ∈ mainCalls.map Prod.fst → n ≠ m := fun m hm he => hn (he ▸ hm)
  simp only [mainHandler, hone _ (show nrMprotect ∈ _ by decide),
    hone _ (show nrMremap ∈ _ by decide), hone _ (show nrClone ∈ _ by decide),
    hone _ (show nrMmap ∈ _ by decide), hone _ (show nrMunmap ∈ _ by decide),
    hone _ (show nrExecve ∈ _ by decide), hone _ (show nrRtSigprocmask ∈ _ by decide),
    hgroup openCalls (by decide), hgroup prctlCalls (by decide), hgroup abortingCalls (by decide),
    hgroup notImplementedCalls (by decide), if_false]

theorem denote_main (n : Nat) :
    (registeredMain .default initialiseSyscallHandlers n).denote = mainHandler n := by
  by_cases hn : n ∈ mainCalls.map Prod.fst
  · obtain ⟨m, hm, rfl⟩ := List.mem_map.mp hn
    rw [registeredMain_mem m hm, mainHandler_mem m hm]
  · rw [registeredMain_other hn, mainHandler_other hn]
    rfl

theorem denote_handlersOf (n : Nat) :
    (handlersOf .default initialiseSyscallHandlers n).map HandlerName.denote =
      syscallHandlerList n := by
  simp only [handlersOf, List.map_append, List.map_cons, denote_prehandlers, denote_main,
    denote_posthandlers, syscallHandlerList]

/-- Two prehandlers at most, as everywhere, but only one posthandler. -/
theorem handlersOf_short {table : HandlerTable HandlerName}
    (h : Filled .default initialiseSyscallHandlers table) (n : Nat) :
    (handlersOf .default initialiseSyscallHandlers n).length < handlerRow := by
  have hpre := (h n).pre.1
  have hpost : (registered initialiseSyscallHandlers .posthandler n).length ≤ 1 := by
    rw [← List.length_map HandlerName.denote, denote_posthandlers, posthandlers]
    split <;> simp
  simp only [handlersOf, List.length_append, List.length_cons, handlerRow]
  simp only [MAX_SYSCALL_HANDLER_DEPTH] at hpre ⊢
  omega

theorem runAll_denote (env : SyscallEnv) (hs : List HandlerName) (gprs : GpFrame) (r : Quad) :
    (runAll (fun h gprs => h.denote env gprs) hs gprs r).2 =
      runHandlers env (hs.map HandlerName.denote) gprs r := by
  induction hs generalizing gprs r with
  | nil => rfl
  | cons h hs ih =>
      simp only [runAll, List.map_cons, runHandlers]
      cases h.denote env gprs with
      | none => rfl
      | some out => exact ih out.1 out.2

/-- With the handlers that `initialise_syscall_handlers` registers, the packed list is the
list of handlers by system call, and the dispatcher is the one that the assembly is
proved against; what it returns passes through an `int`. -/
theorem secpolineSyscallHandler_dispatches {table : HandlerTable HandlerName}
    (htable : addHandlers .default initialiseSyscallHandlers = some table) (env : SyscallEnv)
    (gprs : GpFrame) (hn : (gprs .rax).toNat < MAX_VALID_SYSCALL_NUM)
    (around : HandlerList HandlerName) (ret : BitVec 32) :
    ∃ fuel ran,
      secpolineSyscallHandler (fun h gprs => h.denote env gprs)
          (generate2dHandlerList table around) fuel (gprs .rax).toNat gprs ret =
        some (ran, (Secpoline.secpolineSyscallHandler env gprs).map
          fun out => (out.1, (out.2.setWidth 32).signExtend 64)) := by
  have hfilled := addHandlers_filled htable
  have hrun := runAll_denote env (handlersOf .default initialiseSyscallHandlers (gprs .rax).toNat)
    gprs 0
  rw [denote_handlersOf] at hrun
  rw [Secpoline.secpolineSyscallHandler, if_pos hn, ← hrun]
  cases hout : (runAll (fun h gprs => h.denote env gprs)
      (handlersOf .default initialiseSyscallHandlers (gprs .rax).toNat) gprs 0).2 with
  | none =>
      obtain ⟨fuel, hfuel⟩ := dispatch_stops hfilled hn (Prod.ext rfl hout) around ret
      exact ⟨fuel, _, hfuel⟩
  | some out =>
      obtain ⟨gprs', last⟩ := out
      exact ⟨_, _, dispatch_returns hfilled hn (Prod.ext (runAll_ran hout) hout)
        (handlersOf_short hfilled _) around ret 0⟩

theorem secpolineSyscallHandler_dispatches_dup :
    ∃ table, addHandlers .default initialiseSyscallHandlers = some table ∧
      ∀ env, ∃ fuel ran, secpolineSyscallHandler (fun h => HandlerName.denote h env)
          (generate2dHandlerList table fun _ => none) fuel (32#64).toNat (fun _ => 32) 0 =
        some (ran, (Secpoline.secpolineSyscallHandler env fun _ => 32).map
          fun out => (out.1, (out.2.setWidth 32).signExtend 64)) := by
  have hsome : (addHandlers .default initialiseSyscallHandlers).isSome = true := by decide +kernel
  obtain ⟨table, htable⟩ := Option.isSome_iff_exists.mp hsome
  exact ⟨table, htable, fun env =>
    secpolineSyscallHandler_dispatches htable env (fun _ => 32) (by decide) _ 0⟩

end Secpoline.Dispatch
