import Secpoline.Lib.Grouping
import Secpoline.Lib.Log
import Secpoline.Proofs.Scan
import Secpoline.Proofs.ScanLoops

/-!
# How the pages of a mapping are grouped

`scan_exec_mapping` and `scan_exec_mapping_mprotect` scan the pages of a mapping
one after the other and re-protect them in groups. What a scan says about a page
is two bits: whether the page holds an unsafe instruction, and whether one that
begins on the page before runs into it. Everything else the two functions do is
decided by these bits, and is the loop of `Lib.Grouping`: the one for a new
mapping begins a group anew when it has closed one, the other does not.
-/

namespace Secpoline

open Lib Lib.Prog

/-! ## What a scan does besides -/

/-- The operations of a scan of the page at `start`. It re-protects the next page,
and the previous one if it is the first of its mapping. -/
def ScanOp (start : Nat) (prev : Prev) : Op → Prop
  | .addPage .. | .updateMprotect .. | .inline _ => False
  | .wrapper c _ => (∃ prot, c = .mprotect (wadd start 4096) 4096 prot none) ∨
      (prev = .null ∧ 4096 ≤ start ∧ ∃ prot, c = .mprotect (start - 4096) 4096 prot none)
  | _ => True

section
variable {start : Nat} {perm unsafePerm : Prot} {trustedPage : Bool} {prev : Prev} {nb : Neighbour}
  {whitelist : List Nat}

/-- A program whose operations are those of a scan. -/
def Scans {α : Type} (start : Nat) (prev : Prev) (p : M α) (Q : α → Prop) : Prop :=
  p.Respects (fun _ _ => True) (ScanOp start prev) Q

theorem scans_perform {e : Op} {Q : Resp e → Prop} (he : ScanOp start prev e) (h : ∀ r, Q r) :
    Scans start prev (perform e) Q :=
  respects_call.mpr fun r _ => ⟨he, h r⟩

theorem scans_ite {α : Type} {c : Prop} [Decidable c] {p q : M α} {Q : α → Prop}
    (ht : c → Scans start prev p Q) (hf : ¬ c → Scans start prev q Q) :
    Scans start prev (if c then p else q) Q := by
  split
  · exact ht ‹_›
  · exact hf ‹_›

/-- Where the neighbours of a page are, as far as they are re-protected. -/
structure Neighbour.Near (nb : Neighbour) (start : Nat) (prev : Prev) : Prop where
  prev : ∀ page, nb.prev = some page → prev = .null → page = start - 4096 ∧ 4096 ≤ start
  next : ∀ page, nb.next = some page → page = wadd start 4096

theorem erimPrev_scans :
    Scans start prev (erimPrev start perm trustedPage prev) (Neighbour.Near · start prev) := by
  cases prev with
  | null =>
      refine scans_ite (fun hge => ?_) (fun _ => respects_pure.mpr ⟨nofun, nofun⟩)
      refine respects_seq.mpr (scans_perform trivial fun g => ?_)
      split
      · exact respects_pure.mpr ⟨fun page h _ => ⟨(Option.some.inj h).symm, hge⟩, nofun⟩
      · exact respects_pure.mpr ⟨nofun, nofun⟩
  | page address => exact respects_pure.mpr ⟨nofun, nofun⟩
  | flagged => trivial

theorem erimNext_scans {before : Neighbour} (h : before.Near start prev) :
    Scans start prev (erimNext start before) (Neighbour.Near · start prev) := by
  refine respects_seq.mpr (scans_perform trivial fun g => ?_)
  split
  · exact respects_pure.mpr ⟨h.prev, fun page h => (Option.some.inj h).symm⟩
  · exact respects_pure.mpr h

/-- A scan that is given a previous page may flag it, one that is given none
re-protects what it finds there. -/
theorem erimScanPrev_scans (h : nb.Near start prev) :
    Scans start prev (erimScanPrev start nb perm unsafePerm trustedPage prev) fun r =>
      r = prev ∨ (r = .flagged ∧ prev ≠ .null) := by
  unfold erimScanPrev
  split
  · rename_i page hpage
    refine respects_fold (fun r offset hr => ?_) (.inl rfl)
    refine respects_seq.mpr (scans_perform trivial fun m => scans_ite (fun _ => ?_) (fun _ => ?_))
    · refine respects_seq.mpr (scans_perform trivial fun _ => ?_)
      split
      · have hnull : prev = .null := hr.elim Eq.symm fun hr => nomatch hr.1
        obtain ⟨hpage, hge⟩ := h.prev page (nonNull_some.mp hpage).1 hnull
        refine respects_seq.mpr (respects_seq.mpr (scans_perform ?_ fun _ => ?_))
        · exact .inr ⟨hnull, hge, _, by rw [hpage]⟩
        · exact respects_require.mpr fun _ => respects_pure.mpr (.inl hnull.symm)
      · rename_i hne
        refine respects_pure.mpr (.inr ⟨rfl, fun hnull => ?_⟩)
        rcases hr with hr | hr
        · exact hne (hr.trans hnull)
        · exact hr.2 hnull
    · exact respects_pure.mpr hr
  · exact respects_pure.mpr (.inl rfl)

theorem erimScanNext_scans (h : nb.Near start prev) :
    Scans start prev (erimScanNext nb perm unsafePerm trustedPage) fun _ => True := by
  unfold erimScanNext
  split
  · rename_i page hpage
    refine respects_fold (fun _ offset _ => ?_) trivial
    refine respects_seq.mpr (scans_perform trivial fun m => ?_)
    refine respects_whenever.mpr ⟨fun _ => ?_, fun _ => trivial⟩
    refine respects_seq.mpr (scans_perform trivial fun _ => ?_)
    refine respects_seq.mpr (scans_perform ?_ fun _ => respects_require.mpr fun _ => trivial)
    exact .inl ⟨_, by rw [h.next page (nonNull_some.mp hpage).1]⟩
  · exact respects_pure.mpr trivial

theorem erimRecord_scans {instructions : List Nat} :
    Scans start prev (erimRecord start perm unsafePerm trustedPage instructions) fun _ => True := by
  refine scans_ite (fun _ => ?_) (fun _ => ?_)
  · exact respects_seq.mpr (scans_perform trivial fun _ => trivial)
  · exact respects_seq.mpr (scans_perform trivial fun _ => trivial)

theorem erimMemScanRegion_scans :
    Scans start prev (erimMemScanRegion start whitelist perm unsafePerm trustedPage prev) fun r =>
      r.2 = prev ∨ (r.2 = .flagged ∧ prev ≠ .null) := by
  refine respects_seq.mpr (erimPrev_scans.mono fun before hbefore => ?_)
  refine respects_seq.mpr ((erimNext_scans hbefore).mono fun nb hnb => ?_)
  refine respects_seq.mpr ((erimScanPrev_scans hnb).mono fun r hr => ?_)
  refine respects_seq.mpr ((erimScanNext_scans hnb).mono fun _ _ => ?_)
  refine respects_seq.mpr (scans_perform trivial fun m => ?_)
  exact respects_seq.mpr (erimRecord_scans.mono fun _ _ => respects_pure.mpr hr)

end

/-! ## The verdicts -/

/-- The address of page `i` of a mapping. -/
def pageAt (start i : Nat) : Nat := start + 4096 * i

/-- What `prev_page` is when page `i` of a mapping is scanned. -/
def prevOf (start : Nat) : Nat → Prev
  | 0 => .null
  | i + 1 => .page (pageAt start i)

/-- The scan of page `i` of a mapping. -/
def scanOf (start : Nat) (whitelist : List Nat) (prot : Prot) (i : Nat) : M (Bool × Prev) :=
  erimMemScanRegion (pageAt start i) whitelist prot prot.noExec false (prevOf start i)

/-- What has been performed when the loop comes to page `i`. -/
def turnsHistory (answer : List Op → (e : Op) → Resp e) (before : List Op)
    (body : Group → Nat → M Group) (start i : Nat) : List Op :=
  before ++ ((fold body ((List.range i).map (pageAt start))
    { start := 0, size := 0, prev := .null }).log answer before).1

/-- The scan of page `i`, when the loop comes to it, says whether the page itself is
unsafe, and whether an instruction of the page before runs into it. At the first page
there is no page of the mapping before. -/
def Verdicts (answer : List Op → (e : Op) → Resp e) (before : List Op)
    (body : Group → Nat → M Group) (start n : Nat) (whitelist : List Nat) (prot : Prot)
    (own straddles : Nat → Bool) : Prop :=
  ∀ i < n, ((scanOf start whitelist prot i).log answer
    (turnsHistory answer before body start i)).2 =
    some (own i, if 0 < i ∧ straddles i then .flagged else prevOf start i)

/-! ## One turn -/

/-- The loop variables before page `i`, for the run that is being collected. -/
def Group.ofRun (start i : Nat) (o : OpenRun) : Group :=
  { start := (o.first.map (pageAt start)).getD 0, size := 4096 * o.count, prev := prevOf start i }

/-- The first page of the run is not taken for `NULL`. -/
def Visible (start : Nat) (o : OpenRun) : Prop :=
  (o.first = none → o.count = 0) ∧ ∀ f, o.first = some f → pageAt start f ≠ 0

/-- The loop does not come to a second page with a group that begins at address 0. -/
def NullSafe (start n : Nat) (own : Nat → Bool) : Prop :=
  start = 0 → n ≤ 1 ∨ own 0 = true

/-- The protection for a page that is good, or not. -/
def protOf (prot unsafeProt : Prot) (good : Bool) : Prot := if good then prot else unsafeProt

/-- The operations for a piece: both functions make a pair of calls for a range. -/
def pieceOps (ops : Nat → Nat → Prot → List Op) (start : Nat) (prot unsafeProt : Prot)
    (p : Piece) : List Op :=
  ops (pageAt start p.first) (4096 * p.count) (protOf prot unsafeProt p.good)

section
variable {answer : List Op → (e : Op) → Resp e} {before : List Op} {start i c f : Nat}
  {prot unsafeProt : Prot} {ops : Nat → Nat → Prot → List Op} {put : Nat → Nat → Prot → M Unit}
  {prev : Prev} {s : Bool}

theorem openAt_logs {o : OpenRun} (h : Visible start o) :
    Logs answer before ((Group.ofRun start i o).openAt (pageAt start i)) []
      (pageAt start (o.first.getD i)) := by
  unfold Group.openAt Group.ofRun
  cases hf : o.first with
  | none =>
      dsimp only [Option.map_none, Option.getD_none]
      rw [if_pos rfl, h.1 hf]
      exact (logs_require rfl).seq logs_pure
  | some f =>
      dsimp only [Option.map_some, Option.getD_some]
      rw [if_neg (h.2 f hf)]
      exact logs_pure

/-- The operations of a turn are those of its pieces, in their order. -/
theorem turn_flatMap {restart own : Bool} {o : OpenRun} {F : Piece → List Op} :
    (turn restart o i own s).1.flatMap F =
      (if s && o.count != 0 then [⟨i - 1, 1, false⟩] else []).flatMap F ++
        ((if (own || s) && (if s && o.count != 0 then o.count - 1 else o.count) != 0 then
            [⟨o.first.getD i, if s && o.count != 0 then o.count - 1 else o.count, true⟩]
          else []).flatMap F ++
        (if own then [⟨i, 1, false⟩] else []).flatMap F) := by
  unfold turn
  rw [List.flatMap_append, List.flatMap_append, List.append_assoc]

/-- The loop variables after a turn. -/
theorem ofRun_turn {restart own : Bool} {o : OpenRun} {count : Nat} {close : Bool}
    (hcount : count = if s && o.count != 0 then o.count - 1 else o.count)
    (hclose : close = ((own || s) && count != 0)) :
    Group.ofRun start (i + 1) (turn restart o i own s).2 =
      if own then { start := 0, size := 0, prev := .page (pageAt start i) }
      else
        { start := if close && restart then pageAt start i else pageAt start (o.first.getD i)
          size := (if close && restart then 0 else 4096 * count) + 4096
          prev := .page (pageAt start i) } := by
  have hrun : (turn restart o i own s).2 =
      if own then ⟨none, 0⟩ else if close && restart then ⟨some i, 1⟩
      else ⟨some (o.first.getD i), count + 1⟩ := by
    subst hcount hclose
    rfl
  rw [hrun]
  cases own with
  | true => rfl
  | false => cases close && restart <;> rfl

/-- A turn of the loop does what `turn` says, from the verdict on the page: first come the
operations of the scan, then those of the pieces. -/
def TakesTurns (answer : List Op → (e : Op) → Resp e) (restart : Bool) (start : Nat)
    (whitelist : List Nat) (prot : Prot) (F : Piece → List Op)
    (body : Group → Nat → M Group) : Prop :=
  ∀ before i o l own prev s, Logs answer before (scanOf start whitelist prot i) l (own, prev) →
    (prev = .flagged ↔ s = true) → (o.count ≠ 0 → 0 < i) → Visible start o →
    Logs answer before (body (.ofRun start i o) (pageAt start i))
      (l ++ (turn restart o i own s).1.flatMap F) (.ofRun start (i + 1) (turn restart o i own s).2)

section
variable (hput : ∀ before s z p, Logs answer before (put s z p) (ops s z p) ())
include hput

theorem closeFlagged_logs (hs : prev = .flagged ↔ s = true) (hi : c ≠ 0 → 0 < i) :
    Logs answer before (closeFlagged put unsafeProt (pageAt start i) prev (4096 * c))
      ((if s && c != 0 then [⟨i - 1, 1, false⟩] else []).flatMap
        (pieceOps ops start prot unsafeProt))
      (4096 * (if s && c != 0 then c - 1 else c)) := by
  unfold closeFlagged
  by_cases h : s = true ∧ c ≠ 0
  · have hcut : (s && c != 0) = true := by simpa using h
    have hpage : pageAt start i - 4096 = pageAt start (i - 1) := by
      have := hi h.2
      unfold pageAt
      omega
    rw [if_pos ⟨hs.mpr h.1, by omega⟩, if_pos hcut, if_pos hcut, hpage, Nat.mul_sub]
    exact (hput _ _ _ _).seq logs_pure
  · have hcut : ¬ (s && c != 0) = true := by simpa using h
    rw [if_neg fun h' => h ⟨hs.mp h'.1, by omega⟩, if_neg hcut, if_neg hcut]
    exact logs_pure

theorem closeOpenGroup_logs {restart close : Bool} :
    Logs answer before
      (closeOpenGroup put restart prot (pageAt start i) (pageAt start f) close (4096 * c))
      ((if close && c != 0 then [⟨f, c, true⟩] else []).flatMap
        (pieceOps ops start prot unsafeProt))
      (if close && c != 0 && restart then pageAt start i else pageAt start f,
        if close && c != 0 && restart then 0 else 4096 * c) := by
  unfold closeOpenGroup
  by_cases h : close = true ∧ c ≠ 0
  · have hclose : (close && c != 0) = true := by simpa using h
    rw [if_pos ⟨h.1, by omega⟩, if_pos hclose, hclose, Bool.true_and]
    refine (hput _ _ _ _).seq ?_
    cases restart <;> exact logs_pure
  · have hclose : (close && c != 0) = false := by simpa using h
    rw [if_neg fun h' => h ⟨h'.1, by omega⟩, hclose]
    exact logs_pure

/-- The page itself, if it is unsafe. -/
theorem own_logs {own : Bool} {g g' : Group} :
    Logs answer before
      (if own then do
          put (pageAt start i) 4096 unsafeProt
          pure g
        else pure g')
      ((if own then [⟨i, 1, false⟩] else []).flatMap (pieceOps ops start prot unsafeProt))
      (if own then g else g') := by
  cases own with
  | false => exact logs_pure
  | true => exact (hput _ _ _ _).seq logs_pure

theorem scanGroupsPage_turns {restart : Bool} {allowList : List Nat} :
    TakesTurns answer restart start allowList prot (pieceOps ops start prot unsafeProt)
      (scanGroupsPage put restart allowList prot unsafeProt) := by
  intro before i o l own prev s hscan hs hi ho
  have hclose : (own || prev == .flagged) = (own || s) := by
    rw [Bool.eq_iff_iff.mpr (beq_iff_eq.trans hs)]
  unfold scanGroupsPage
  rw [turn_flatMap, ofRun_turn rfl rfl]
  refine (openAt_logs ho).seq_nil (hscan.seq ((closeFlagged_logs hput hs hi).seq ?_))
  rw [hclose]
  exact (closeOpenGroup_logs hput).seq (own_logs hput)

end

end

/-! ## The loop -/

section
variable (restart : Bool) (own straddles : Nat → Bool) (F : Piece → List Op)
  (scanLog : Nat → List Op)

/-- The operations of the first `i` turns. -/
def turnsLog : Nat → List Op
  | 0 => []
  | i + 1 => turnsLog i ++ (scanLog i ++
      (turn restart (turns restart own straddles i).2 i (own i) (straddles i)).1.flatMap F)

/-- All operations. -/
def wholeLog (n : Nat) : List Op :=
  turnsLog restart own straddles F scanLog n ++
    (lastPiece (turns restart own straddles n).2).flatMap F

end

section
variable {restart : Bool} {own straddles : Nat → Bool} {n : Nat} {F : Piece → List Op}
  {scanLog : Nat → List Op} {e : Op}

theorem mem_turnsLog (h : e ∈ turnsLog restart own straddles F scanLog n) :
    (∃ i < n, e ∈ scanLog i) ∨ ∃ p ∈ (turns restart own straddles n).1, e ∈ F p := by
  induction n with
  | zero => cases h
  | succ n ih =>
      rcases List.mem_append.mp h with h | h
      · rcases ih h with ⟨i, hi, h⟩ | ⟨p, hp, h⟩
        · exact .inl ⟨i, Nat.lt_succ_of_lt hi, h⟩
        · exact .inr ⟨p, List.mem_append_left _ hp, h⟩
      · rcases List.mem_append.mp h with h | h
        · exact .inl ⟨n, Nat.lt_succ_self n, h⟩
        · obtain ⟨p, hp, h⟩ := List.mem_flatMap.mp h
          exact .inr ⟨p, List.mem_append_right _ hp, h⟩

theorem mem_wholeLog (h : e ∈ wholeLog restart own straddles F scanLog n) :
    (∃ i < n, e ∈ scanLog i) ∨ ∃ p ∈ pieces restart own straddles n, e ∈ F p := by
  rcases List.mem_append.mp h with h | h
  · exact (mem_turnsLog h).imp_right fun ⟨p, hp, h⟩ => ⟨p, List.mem_append_left _ hp, h⟩
  · obtain ⟨p, hp, h⟩ := List.mem_flatMap.mp h
    exact .inr ⟨p, List.mem_append_right _ hp, h⟩

end

section
variable {answer : List Op → (e : Op) → Resp e} {before : List Op} {start n : Nat}
  {prot unsafeProt : Prot} {restart : Bool} {ops : Nat → Nat → Prot → List Op}
  {put : Nat → Nat → Prot → M Unit}

/-- The group that is still open at the end. -/
theorem last_logs (hput : ∀ before s z p, Logs answer before (put s z p) (ops s z p) ())
    {o : OpenRun} (ho : o.first = none → o.count = 0) {i : Nat} :
    Logs answer before
      (whenever ((Group.ofRun start i o).size ≠ 0)
        (put (Group.ofRun start i o).start (Group.ofRun start i o).size prot))
      ((lastPiece o).flatMap (pieceOps ops start prot unsafeProt)) () := by
  unfold whenever lastPiece Group.ofRun
  by_cases hc : o.count ≠ 0
  · obtain ⟨f, hf⟩ := Option.ne_none_iff_exists'.mp (hc ∘ ho)
    rw [if_pos (by dsimp only; omega), if_pos hc, hf, List.flatMap_singleton]
    exact hput _ _ _ _
  · rw [if_neg (by dsimp only; omega), if_neg hc]
    exact logs_ret

end

/-! ## What the calls say about a page -/

/-- A range and the protection a call gives it. -/
structure Region where
  start : Nat
  size : Nat
  prot : Prot
deriving DecidableEq, Repr

/-- The ranges given to `add_page`. -/
def added : Op → Option Region
  | .addPage start size prot .. => some ⟨start, size, prot⟩
  | _ => none

/-- The ranges given to `pkey_mprotect` by `inline_syscall6`. -/
def keyed : Op → Option Region
  | .inline (.mprotect start size prot (some _)) => some ⟨start, size, prot⟩
  | _ => none

/-- The ranges given to `mprotect` by `syscall_wrapper`. -/
def reprotected : Op → Option Region
  | .wrapper (.mprotect start size prot _) _ => some ⟨start, size, prot⟩
  | _ => none

/-- The ranges given to `update_mprotect`. -/
def updated : Op → Option Region
  | .updateMprotect start size prot _ => some ⟨start, size, prot⟩
  | _ => none

/-- The protections that calls of one kind give to the page at an address, in their
order. -/
def protsAt (kind : Op → Option Region) (l : List Op) (address : Nat) : List Prot :=
  ((l.filterMap kind).filter fun r =>
    decide (r.start ≤ address ∧ address < r.start + r.size)).map (·.prot)

section
variable {kind : Op → Option Region} {l l' : List Op} {address start j : Nat}
  {prot unsafeProt : Prot} {ops : Nat → Nat → Prot → List Op}

theorem protsAt_append :
    protsAt kind (l ++ l') address = protsAt kind l address ++ protsAt kind l' address := by
  unfold protsAt
  rw [List.filterMap_append, List.filter_append, List.map_append]

theorem protsAt_eq_nil
    (h : ∀ e ∈ l, ∀ r, kind e = some r → ¬ (r.start ≤ address ∧ address < r.start + r.size)) :
    protsAt kind l address = [] := by
  unfold protsAt
  rw [List.filter_eq_nil_iff.mpr, List.map_nil]
  intro r hr
  obtain ⟨e, he, her⟩ := List.mem_filterMap.mp hr
  simpa using h e he r her

theorem protsAt_piece (hops : ∀ s z p, (ops s z p).filterMap kind = [⟨s, z, p⟩]) (p : Piece) :
    protsAt kind (pieceOps ops start prot unsafeProt p) (pageAt start j) =
      (marks [p] j).map (protOf prot unsafeProt) := by
  unfold protsAt pieceOps marks
  rw [hops]
  have hiff : (pageAt start p.first ≤ pageAt start j ∧
      pageAt start j < pageAt start p.first + 4096 * p.count) ↔
      (p.first ≤ j ∧ j < p.first + p.count) := by
    unfold pageAt
    omega
  simp only [List.filter_cons, hiff]
  split <;> rfl

theorem protsAt_pieces (hops : ∀ s z p, (ops s z p).filterMap kind = [⟨s, z, p⟩])
    (l : List Piece) :
    protsAt kind (l.flatMap (pieceOps ops start prot unsafeProt)) (pageAt start j) =
      (marks l j).map (protOf prot unsafeProt) := by
  induction l with
  | nil => rfl
  | cons p l ih =>
      rw [List.flatMap_cons, protsAt_append, protsAt_piece hops, ih, ← List.map_append,
        ← marks_append, List.singleton_append]

end

section
variable {kind : Op → Option Region} {start n j : Nat} {prot unsafeProt : Prot}
  {ops : Nat → Nat → Prot → List Op} {restart : Bool} {own straddles : Nat → Bool}
  {scanLog : Nat → List Op}

/-- The calls of the scans come before those of the loop: before turn `i` nothing
has been said about page `i` and the pages behind it. -/
theorem protsAt_turnsLog (hops : ∀ s z p, (ops s z p).filterMap kind = [⟨s, z, p⟩])
    (hscan : ∀ i < n, ∀ j ≤ i, protsAt kind (scanLog i) (pageAt start j) = []) {i : Nat}
    (hi : i ≤ n) :
    protsAt kind
        (turnsLog restart own straddles (pieceOps ops start prot unsafeProt) scanLog i)
        (pageAt start j) =
      protsAt kind ((List.range i).flatMap scanLog) (pageAt start j) ++
        (marks (turns restart own straddles i).1 j).map (protOf prot unsafeProt) := by
  induction i with
  | zero => rfl
  | succ i ih =>
      have hmarks : marks (turns restart own straddles (i + 1)).1 j =
          marks (turns restart own straddles i).1 j ++ marks (turn restart
            (turns restart own straddles i).2 i (own i) (straddles i)).1 j := marks_append
      rw [turnsLog, protsAt_append, protsAt_append, ih (by omega), protsAt_pieces hops,
        List.range_succ, List.flatMap_append, protsAt_append, hmarks, List.map_append,
        List.flatMap_singleton]
      rcases Nat.lt_or_ge i j with hj | hj
      · rw [marks_eq_nil fun p hp => Nat.le_trans (turns_below.1 p hp) (Nat.le_of_lt hj)]
        simp only [List.map_nil, List.append_nil, List.nil_append, List.append_assoc]
      · rw [hscan i hi j hj]
        simp only [List.append_nil, List.nil_append, List.append_assoc]

theorem protsAt_wholeLog (hops : ∀ s z p, (ops s z p).filterMap kind = [⟨s, z, p⟩])
    (hscan : ∀ i < n, ∀ j ≤ i, protsAt kind (scanLog i) (pageAt start j) = []) :
    protsAt kind
        (wholeLog restart own straddles (pieceOps ops start prot unsafeProt) scanLog n)
        (pageAt start j) =
      protsAt kind ((List.range n).flatMap scanLog) (pageAt start j) ++
        (marks (pieces restart own straddles n) j).map (protOf prot unsafeProt) := by
  have hmarks : marks (pieces restart own straddles n) j =
      marks (turns restart own straddles n).1 j ++
        marks (lastPiece (turns restart own straddles n).2) j := marks_append
  rw [wholeLog, protsAt_append, protsAt_turnsLog hops hscan (Nat.le_refl n),
    protsAt_pieces hops, hmarks, List.map_append, List.append_assoc]

end

/-! ## The calls of the scans -/

section
variable {answer : List Op → (e : Op) → Resp e} {before : List Op} {body : Group → Nat → M Group}
  {start n : Nat} {whitelist : List Nat} {prot : Prot} {own straddles : Nat → Bool}

/-- The operations of the scan of page `i`. -/
def scanLog (answer : List Op → (e : Op) → Resp e) (before : List Op)
    (body : Group → Nat → M Group) (start : Nat) (whitelist : List Nat) (prot : Prot) (i : Nat) :
    List Op :=
  ((scanOf start whitelist prot i).log answer (turnsHistory answer before body start i)).1

theorem Verdicts.logs (h : Verdicts answer before body start n whitelist prot own straddles)
    {i : Nat} (hi : i < n) :
    Logs answer (turnsHistory answer before body start i) (scanOf start whitelist prot i)
      (scanLog answer before body start whitelist prot i)
      (own i, if 0 < i ∧ straddles i then .flagged else prevOf start i) :=
  Prod.ext rfl (h i hi)

theorem Verdicts.scanOp (h : Verdicts answer before body start n whitelist prot own straddles)
    {i : Nat} (hi : i < n) {e : Op} (he : e ∈ scanLog answer before body start whitelist prot i) :
    ScanOp (pageAt start i) (prevOf start i) e :=
  ((h.logs hi).respects erimMemScanRegion_scans fun _ _ => trivial).1 e he

/-- Calls that no scan makes. -/
theorem Verdicts.quiet (h : Verdicts answer before body start n whitelist prot own straddles)
    {kind : Op → Option Region} (hkind : ∀ page prev e, ScanOp page prev e → kind e = none)
    {i : Nat} (hi : i < n) {address : Nat} :
    protsAt kind (scanLog answer before body start whitelist prot i) address = [] := by
  refine protsAt_eq_nil fun e he r hr => ?_
  rw [hkind _ _ e (h.scanOp hi he)] at hr
  cases hr

theorem protsAt_scans_nil {kind : Op → Option Region} {scanLog : Nat → List Op} {address : Nat}
    (h : ∀ i < n, protsAt kind (scanLog i) address = []) :
    protsAt kind ((List.range n).flatMap scanLog) address = [] := by
  induction n with
  | zero => rfl
  | succ n ih =>
      rw [List.range_succ, List.flatMap_append, protsAt_append, List.flatMap_singleton,
        ih fun i hi => h i (by omega), h n (by omega)]
      rfl

/-- A scan re-protects only the next page, or the one before the mapping. -/
theorem Verdicts.reprotected (h : Verdicts answer before body start n whitelist prot own straddles)
    (hspace : start + 4096 * n < 2 ^ 64) {i j : Nat} (hi : i < n) (hj : j ≤ i) :
    protsAt reprotected (scanLog answer before body start whitelist prot i) (pageAt start j) =
      [] := by
  refine protsAt_eq_nil fun e he r hr => ?_
  have hop := h.scanOp hi he
  have hnext : wadd (pageAt start i) 4096 = pageAt start (i + 1) := by
    unfold wadd pageAt
    omega
  cases e with
  | wrapper c cid =>
      rcases hop with ⟨p, rfl⟩ | ⟨hprev, hge, p, rfl⟩
      · rw [← Option.some.inj hr, hnext]
        unfold pageAt
        dsimp only
        omega
      · rw [← Option.some.inj hr]
        have hi : i = 0 := by
          cases i with
          | zero => rfl
          | succ i => cases hprev
        subst hi
        unfold pageAt at hge ⊢
        dsimp only
        omega
  | _ => cases hr

end

/-! ## Examples of verdicts -/

/-- A scan, if nothing it asks for depends on what was performed before. -/
theorem erimMemScanRegion_verdict {answer : List Op → (e : Op) → Resp e} {before : List Op}
    {start : Nat} {whitelist found : List Nat} {perm unsafePerm : Prot} {trustedPage own : Bool}
    {prev prev' : Prev} {nb nb' : Neighbour}
    (hbefore : ∀ before, ((erimPrev start perm trustedPage prev).log answer before).2 = some nb)
    (hnb : ∀ before, ((erimNext start nb).log answer before).2 = some nb')
    (hprev : ∀ before,
      ((erimScanPrev start nb' perm unsafePerm trustedPage prev).log answer before).2 = some prev')
    (hnext : ∀ before, ((erimScanNext nb' perm unsafePerm trustedPage).log answer before).2 =
      some ())
    (hpage : ∀ before, scanPage (answer before (.scan start whitelist unsafePerm)) whitelist start =
      found) (hown : decide (found ≠ []) = own) :
    ((erimMemScanRegion start whitelist perm unsafePerm trustedPage prev).log answer before).2 =
      some (own, prev') := by
  subst hown
  unfold erimMemScanRegion
  rw [log_seq_snd (hbefore _), log_seq_snd (hnb _), log_seq_snd (hprev _), log_seq_snd (hnext _),
    log_seq_snd (a := answer _ (.scan start whitelist unsafePerm)) rfl, hpage]
  cases found <;> rfl

/-- Answers for a process with this memory and these tracked pages, in which every
call succeeds. -/
def answerOf (m : Mem) (tracked : List Op → Nat → Option VirtPage) (before : List Op) :
    (e : Op) → Resp e
  | .inline _ | .wrapper .. => (0 : Int)
  | .isMultithreaded | .lookupRange .. => false
  | .lookupAddr address _ => tracked before address
  | .lookupRangeAllowGaps .. | .addPage .. | .removePage .. | .updateMprotect ..
  | .updateSize .. => (0 : Int)
  | .findUnsafePage _ => none
  | .readPrev .. | .readNext .. | .scan .. => m
  | .hardwareBreakpoints => .init
  | .readFile .. | .setMultithreaded | .addUnsafePage .. | .updateUnsafePage ..
  | .updateUnsafeInstruction .. | .setCurrentPerm .. | .lockUnsafePages | .unlockUnsafePages
  | .setHardwareBreakpoints _ | .checkReadable _ | .rewriteSyscall _ => ()

/-- A WRPKRU that begins in the last byte of the page at 0x10000. -/
def straddlingMem : Mem := fun x =>
  if x = 0x10fff then 0x0f else if x = 0x11000 then 0x01 else if x = 0x11001 then 0xef else 0

/-- One that begins in the last byte of the page at 0x11000, and one on the page behind. -/
def unsafeMem : Mem := fun x =>
  if x = 0x11fff ∨ x = 0x12100 then 0x0f else if x = 0x12000 ∨ x = 0x12101 then 0x01
  else if x = 0x12001 ∨ x = 0x12102 then 0xef else 0

/-- The pages of a mapping that the application has made readable. -/
def readablePages (_ : List Op) (address : Nat) : Option VirtPage :=
  if 0x10000 ≤ address ∧ address < 0x13000 then
    some { start := 0x10000, size := 0x3000, prot := PROT_READ, flags := 0, cid := TS_APPLICATION
           node := 0 }
  else none

theorem scanPage_straddlingMem {i : Nat} :
    scanPage straddlingMem [] (pageAt 0x10000 i) = [] := by
  refine scanPage_eq_nil fun o ho h => ?_
  rcases isUnsafe_begins h with h | h
  all_goals
    unfold straddlingMem pageAt at h
    grind

theorem scanPage_unsafeMem {i : Nat} (hi : i < 2) :
    scanPage unsafeMem [] (pageAt 0x10000 i) = [] := by
  refine scanPage_eq_nil fun o ho h => ?_
  rcases isUnsafe_begins h with h | h
  all_goals
    unfold unsafeMem pageAt at h
    grind

theorem scanPage_unsafeMem_last : scanPage unsafeMem [] (pageAt 0x10000 2) = [0x12100] := by
  decide +kernel

section
variable {before : List Op} {body : Group → Nat → M Group}
  {tracked : List Op → Nat → Option VirtPage}
  (h : tracked = (fun _ _ => none) ∨ tracked = readablePages)
include h

/-- A new mapping or one whose pages are tracked, with the straddle only. -/
theorem verdicts_straddling :
    Verdicts (answerOf straddlingMem tracked) before body 0x10000 (pageCount 0x2000) []
      (PROT_READ ||| PROT_EXEC) (fun _ => false) (· == 1) := by
  intro i hi
  rcases h with rfl | rfl
  all_goals
    rcases i with _ | _ | i
    · exact erimMemScanRegion_verdict (fun _ => rfl) (fun _ => rfl) (fun _ => rfl) (fun _ => rfl)
        (fun _ => scanPage_straddlingMem) rfl
    · exact erimMemScanRegion_verdict (fun _ => rfl) (fun _ => rfl) (fun _ => rfl) (fun _ => rfl)
        (fun _ => scanPage_straddlingMem) rfl
    · exact absurd hi (by unfold pageCount; omega)

/-- One with a straddle into an unsafe page. -/
theorem verdicts_flagged :
    Verdicts (answerOf unsafeMem tracked) before body 0x10000 (pageCount 0x3000) []
      (PROT_READ ||| PROT_EXEC) (· == 2) (· == 2) := by
  intro i hi
  rcases h with rfl | rfl
  all_goals
    rcases i with _ | _ | _ | i
    · exact erimMemScanRegion_verdict (fun _ => rfl) (fun _ => rfl) (fun _ => rfl) (fun _ => rfl)
        (fun _ => scanPage_unsafeMem (by decide)) rfl
    · exact erimMemScanRegion_verdict (fun _ => rfl) (fun _ => rfl) (fun _ => rfl) (fun _ => rfl)
        (fun _ => scanPage_unsafeMem (by decide)) rfl
    · exact erimMemScanRegion_verdict (fun _ => rfl) (fun _ => rfl) (fun _ => rfl) (fun _ => rfl)
        (fun _ => scanPage_unsafeMem_last) rfl
    · exact absurd hi (by unfold pageCount; omega)

end

/-! ## The two functions -/

/-- The calls of `scan_exec_mapping` for a range. -/
def addOps (flags cid : Int) (mapFixed : Bool) (key start size : Nat) (prot : Prot) : List Op :=
  [.addPage start size prot flags cid mapFixed, .inline (.mprotect start size prot (some key))]

/-- The calls of `scan_exec_mapping_mprotect` for a range. -/
def protectOps (cid : Int) (start size : Nat) (prot : Prot) : List Op :=
  [.wrapper (.mprotect start size prot none) cid, .updateMprotect start size prot cid]

/-- The protection that page `j` of `n` should end with. -/
def verdictProt (own straddles : Nat → Bool) (n : Nat) (prot unsafeProt : Prot) (j : Nat) : Prot :=
  if flagged own straddles n j then unsafeProt else prot

section
variable {answer : List Op → (e : Op) → Resp e} {before : List Op} {start size : Nat}
  {prot unsafeProt : Prot} {flags cid : Int} {mapFixed : Bool} {key : Nat} {allowList : List Nat}
  {own straddles : Nat → Bool} {body : Group → Nat → M Group}

theorem expectZero_logs {p : M Int} {l : List Op} {r : Int} (h : Logs answer before p l r)
    (hr : r = 0) : Logs answer before (expectZero p) l () := by
  have hlog := h.seq (f := fun r => require (r = 0)) (logs_require hr)
  rwa [List.append_nil] at hlog

theorem addGroup_logs {z : Nat}
    (hadd : ∀ before, answer before (.addPage start z prot flags cid mapFixed) = (0 : Int))
    (hprotect : ∀ before, answer before (.inline (.mprotect start z prot (some key))) = (0 : Int)) :
    Logs answer before (addGroup start z prot flags cid mapFixed key)
      (addOps flags cid mapFixed key start z prot) () := by
  show Logs answer _ _ ([_] ++ [_]) ()
  exact (expectZero_logs logs_call (hadd _)).seq (expectZero_logs logs_call (hprotect _))

theorem protectGroup_logs {z : Nat}
    (hprotect : ∀ before, answer before (.wrapper (.mprotect start z prot none) cid) = (0 : Int))
    (hupdate : ∀ before, answer before (.updateMprotect start z prot cid) = (0 : Int)) :
    Logs answer before (protectGroup start z prot cid) (protectOps cid start z prot) () := by
  show Logs answer _ _ ([_] ++ [_]) ()
  exact (expectZero_logs logs_call (hprotect _)).seq (expectZero_logs logs_call (hupdate _))

theorem pageLoop_pageAt (hspace : start + 4096 * pageCount size < 2 ^ 64) :
    pageLoop start size = (List.range (pageCount size)).map (pageAt start) := by
  have hsize : size ≤ 4096 * pageCount size := by
    unfold pageCount
    omega
  have hstop : wadd start size = start + size := Nat.mod_eq_of_lt (by omega)
  unfold pageLoop
  rw [hstop, Nat.add_sub_cancel_left]
  rfl

theorem prevOf_ne_flagged (i : Nat) : prevOf start i ≠ .flagged := by
  cases i <;> exact nofun

/-- What a scan leaves in `prev_page`, as the bit that decides the turn. -/
theorem flagged_iff {i : Nat} {s : Bool} :
    (if 0 < i ∧ s then Prev.flagged else prevOf start i) = .flagged ↔
      (decide (0 < i) && s) = true := by
  rw [Bool.and_eq_true, decide_eq_true_eq]
  by_cases h : 0 < i ∧ s = true
  · rw [if_pos h]
    exact iff_of_true rfl h
  · rw [if_neg h]
    exact iff_of_false (prevOf_ne_flagged i) h

theorem turn_decide {restart own s : Bool} {o : OpenRun} {i : Nat} (ho : o.count ≠ 0 → 0 < i) :
    turn restart o i own (decide (0 < i) && s) = turn restart o i own s := by
  by_cases hi : 0 < i
  · rw [decide_eq_true hi, Bool.true_and]
  · rw [decide_eq_false hi, Bool.false_and]
    have hcount : o.count = 0 := by_contra fun h => hi (ho h)
    cases s with
    | false => rfl
    | true => rw [turn_straddles_empty hcount]

theorem NullSafe.visible {restart : Bool} {n i : Nat} (h : NullSafe start n own) (hi : i < n) :
    Visible start (turns restart own straddles i).2 := by
  refine ⟨turns_first, fun f hf hzero => ?_⟩
  unfold pageAt at hzero
  rcases h (by omega) with hn | hown
  · obtain rfl : i = 0 := by omega
    cases hf
  · obtain rfl : f = 0 := by omega
    exact turns_first_pos hown i hf

section
variable {n : Nat} {restart : Bool} {F : Piece → List Op} {body : Group → Nat → M Group}
  (hbody : TakesTurns answer restart start allowList prot F body)
  (hv : Verdicts answer before body start n allowList prot own straddles)
include hbody hv

theorem Verdicts.turn {i : Nat} (hi : i < n)
    (ho : Visible start (turns restart own straddles i).2) :
    Logs answer (turnsHistory answer before body start i)
      (body (.ofRun start i (turns restart own straddles i).2) (pageAt start i))
      (scanLog answer before body start allowList prot i ++
        (Lib.turn restart (turns restart own straddles i).2 i (own i) (straddles i)).1.flatMap F)
      (.ofRun start (i + 1) (turns restart own straddles (i + 1)).2) := by
  have hcount : (turns restart own straddles i).2.count ≠ 0 → 0 < i := fun hcount =>
    Nat.pos_of_ne_zero fun hi => hcount (by rw [hi]; rfl)
  have hturn := hbody _ i _ _ _ _ _ (hv.logs hi) flagged_iff hcount ho
  rwa [turn_decide hcount] at hturn

theorem Verdicts.fold_logs (hnull : NullSafe start n own) :
    Logs answer before
      (fold body ((List.range n).map (pageAt start)) { start := 0, size := 0, prev := .null })
      (turnsLog restart own straddles F (scanLog answer before body start allowList prot) n)
      (.ofRun start n (turns restart own straddles n).2) := by
  have hfirst (m : Nat) (hm : m ≤ n) : Logs answer before
      (fold body ((List.range m).map (pageAt start)) { start := 0, size := 0, prev := .null })
      (turnsLog restart own straddles F (scanLog answer before body start allowList prot) m)
      (.ofRun start m (turns restart own straddles m).2) := by
    induction m with
    | zero => exact logs_ret
    | succ m ih =>
        have hlog := ih (by omega)
        have hturn := hv.turn hbody hm (hnull.visible hm)
        rw [turnsHistory, show Prog.log _ _ _ = _ from hlog] at hturn
        exact hlog.fold_succ hturn
  exact hfirst n (Nat.le_refl n)

/-- With a group that begins at address 0 the second turn fails. -/
theorem Verdicts.nullSafe {l : List Op} {g : Group}
    (hshape : ∃ rest : Group → Nat → Nat → M Group, ∀ g page,
      body g page = g.openAt page >>= rest g page)
    (hl : Logs answer before (fold body ((List.range n).map (pageAt start))
      { start := 0, size := 0, prev := .null }) l g) : NullSafe start n own := by
  rintro rfl
  by_contra hbad
  obtain ⟨hn, hown⟩ := not_or.mp hbad
  have hfirst := hv.turn hbody (i := 0) (by omega) ⟨fun _ => rfl, nofun⟩
  rw [turnsHistory, show Prog.log _ _ (fold _ ((List.range 0).map _) _) = ([], _) from rfl,
    List.append_nil] at hfirst
  obtain ⟨n, rfl⟩ : ∃ m, n = m + 2 := ⟨n - 2, by omega⟩
  rw [List.range_succ_eq_map, List.range_succ_eq_map] at hl
  obtain ⟨l₁, g₁, l₂, h₁, hrest, -⟩ := hl.of_bind
  obtain ⟨-, rfl⟩ := hfirst.unique h₁
  obtain ⟨l₂, g₂, l₃, h₂, -, -⟩ := hrest.of_bind
  obtain ⟨rest, hshape⟩ := hshape
  rw [hshape] at h₂
  obtain ⟨l₄, page, l₅, hopen, -, -⟩ := h₂.of_seq
  have hrun : (turns restart own straddles 1).2 = ⟨some 0, 1⟩ := by
    simp [turns, takeTurn, Lib.turn, Bool.eq_false_iff.mpr hown]
  rw [hrun] at hopen
  have hopen : Logs answer _ (require (4096 * 1 = 0) >>= fun _ => pure _) l₄ page := hopen
  obtain ⟨l₆, _, l₇, hrequire, -, -⟩ := hopen.of_seq
  exact absurd hrequire.of_require.1 (by decide)

end

section
variable {put : Nat → Nat → Prot → M Unit} {ops : Nat → Nat → Prot → List Op} {restart : Bool}
  (hspace : start + 4096 * pageCount size < 2 ^ 64)
  (hput : ∀ before s z p, Logs answer before (put s z p) (ops s z p) ())
  (hv : Verdicts answer before (scanGroupsPage put restart allowList prot unsafeProt) start
    (pageCount size) allowList prot own straddles)
include hspace hput hv

theorem scanGroups_logs (hnull : NullSafe start (pageCount size) own) :
    Logs answer before (scanGroups put restart allowList prot unsafeProt start size)
      (wholeLog restart own straddles (pieceOps ops start prot unsafeProt)
        (scanLog answer before (scanGroupsPage put restart allowList prot unsafeProt) start
          allowList prot) (pageCount size)) () := by
  unfold scanGroups
  rw [pageLoop_pageAt hspace]
  exact (hv.fold_logs (scanGroupsPage_turns hput) hnull).seq (last_logs hput turns_first)

theorem scanGroups_nullSafe {l : List Op}
    (hl : Logs answer before (scanGroups put restart allowList prot unsafeProt start size) l ()) :
    NullSafe start (pageCount size) own := by
  unfold scanGroups at hl
  rw [pageLoop_pageAt hspace] at hl
  obtain ⟨_, _, _, hfold, -, -⟩ := hl.of_seq
  exact hv.nullSafe (scanGroupsPage_turns hput) ⟨_, fun _ _ => rfl⟩ hfold

end

/-- Every page of the mapping is added once and re-protected once, with the
protection that the verdicts ask for. -/
def Tiles (l : List Op) (start n : Nat) (prot unsafeProt : Prot) (own straddles : Nat → Bool) :
    Prop :=
  ∀ j < n,
    protsAt added l (pageAt start j) = [verdictProt own straddles n prot unsafeProt j] ∧
    protsAt keyed l (pageAt start j) = [verdictProt own straddles n prot unsafeProt j]

/-- The last protection every page is given, in the kernel and in the page manager,
is the one that the verdicts ask for. -/
def Ends (l : List Op) (start n : Nat) (prot unsafeProt : Prot) (own straddles : Nat → Bool) :
    Prop :=
  ∀ j < n,
    (protsAt reprotected l (pageAt start j)).getLast? =
      some (verdictProt own straddles n prot unsafeProt j) ∧
    (protsAt updated l (pageAt start j)).getLast? =
      some (verdictProt own straddles n prot unsafeProt j)

theorem verdictProt_eq {n j : Nat} :
    verdictProt own straddles n prot unsafeProt j =
      protOf prot unsafeProt (!flagged own straddles n j) := by
  unfold verdictProt protOf
  cases flagged own straddles n j <;> rfl

theorem protOf_injective (hprot : prot ≠ unsafeProt) :
    Function.Injective (protOf prot unsafeProt) := by
  intro b b' h
  cases b <;> cases b'
  · rfl
  · exact absurd h.symm hprot
  · exact absurd h hprot
  · rfl

theorem exactly_reading : Reading true fun l b => l = [b] where
  single _ := rfl
  spoiled l t hl h := by
    subst hl
    cases List.tail_eq_of_cons_eq h
  again := nofun

theorem last_reading : Reading false fun l b => l.getLast? = some b where
  single _ := rfl
  spoiled l t _ h := by
    rw [List.getLast?_append, ← List.replicate_succ, List.getLast?_replicate] at h
    cases h
  again _ l _ := by simp

/-- Calls that no scan makes say about a page what the pieces say. -/
theorem Verdicts.protsAt_quiet {n j : Nat} {restart : Bool} {kind : Op → Option Region}
    {ops : Nat → Nat → Prot → List Op}
    (hv : Verdicts answer before body start n allowList prot own straddles)
    (hops : ∀ s z p, (ops s z p).filterMap kind = [⟨s, z, p⟩])
    (hkind : ∀ page prev e, ScanOp page prev e → kind e = none) :
    protsAt kind (wholeLog restart own straddles (pieceOps ops start prot unsafeProt)
        (scanLog answer before body start allowList prot) n) (pageAt start j) =
      (marks (pieces restart own straddles n) j).map (protOf prot unsafeProt) := by
  rw [protsAt_wholeLog hops fun i hi _ _ => hv.quiet hkind hi,
    protsAt_scans_nil fun i hi => hv.quiet hkind hi, List.nil_append]

theorem scanOp_not_added (page : Nat) (prev : Prev) (e : Op) (h : ScanOp page prev e) :
    added e = none := by
  cases e with
  | addPage => exact h.elim
  | _ => rfl

theorem scanOp_not_keyed (page : Nat) (prev : Prev) (e : Op) (h : ScanOp page prev e) :
    keyed e = none := by
  cases e with
  | inline => exact h.elim
  | _ => rfl

theorem scanOp_not_updated (page : Nat) (prev : Prev) (e : Op) (h : ScanOp page prev e) :
    updated e = none := by
  cases e with
  | updateMprotect => exact h.elim
  | _ => rfl

/-- `scan_exec_mapping` tiles its mapping if and only if it does not take address 0 for
`NULL` and every straddle that leaves the open group where it was is followed by straddles up
to an unsafe page. -/
theorem scanExecMapping_tiles_iff (hspace : start + 4096 * pageCount size < 2 ^ 64)
    (hkey : getPkey cid = some key) (hprot : prot ≠ unsafeProt)
    (hadd : ∀ before s z p, answer before (.addPage s z p flags cid mapFixed) = (0 : Int))
    (hprotect : ∀ before s z p, answer before (.inline (.mprotect s z p (some key))) = (0 : Int))
    (hv : Verdicts answer before
      (scanExecMappingPage allowList prot unsafeProt flags cid mapFixed key) start (pageCount size)
      allowList prot own straddles) :
    (∃ l, Logs answer before
        (scanExecMapping start size prot unsafeProt flags mapFixed cid allowList) l () ∧
      Tiles l start (pageCount size) prot unsafeProt own straddles) ↔
      NullSafe start (pageCount size) own ∧
        ∀ i < pageCount size, Slips true own straddles i →
          Recovers own straddles (pageCount size) i := by
  have hput before s z p : Logs answer before (addGroup s z p flags cid mapFixed key) _ () :=
    addGroup_logs (hadd · s z p) (hprotect · s z p)
  rw [scanExecMappingPage_eq] at hv
  rw [scanExecMapping_eq, hkey]
  by_cases hnull : NullSafe start (pageCount size) own
  · rw [and_iff_right hnull, (scanGroups_logs hspace hput hv hnull).exists_iff,
      ← complete_iff exactly_reading]
    unfold Tiles Complete
    refine forall₂_congr fun j _ => ?_
    rw [hv.protsAt_quiet (fun _ _ _ => rfl) scanOp_not_added,
      hv.protsAt_quiet (fun _ _ _ => rfl) scanOp_not_keyed, and_self, verdictProt_eq,
      ← List.map_singleton, (List.map_injective_iff.mpr (protOf_injective hprot)).eq_iff]
  · refine iff_of_false (fun ⟨l, hl, _⟩ => hnull ?_) fun h => hnull h.1
    exact scanGroups_nullSafe hspace hput hv hl

/-- The last of three pages is unsafe, and the one before it is straddled. -/
theorem scanExecMapping_tiles_unsafe :
    ∃ l, Logs (answerOf unsafeMem fun _ _ => none) []
        (scanExecMapping 0x10000 0x3000 (PROT_READ ||| PROT_EXEC) PROT_READ 0 true
          TS_APPLICATION []) l () ∧
      Tiles l 0x10000 (pageCount 0x3000) (PROT_READ ||| PROT_EXEC) PROT_READ (· == 2) (· == 2) :=
  (scanExecMapping_tiles_iff (by decide) rfl (by decide) (fun _ _ _ _ => rfl)
    (fun _ _ _ _ => rfl) (verdicts_flagged (.inl rfl))).mpr
    ⟨nofun, fun i _ h => by rw [Slips, h.2.1] at h; cases h.2.2.1⟩

/-- The first page is added twice, the second one not at all. -/
theorem scanExecMapping_not_tiles :
    ¬ ∃ l, Logs (answerOf straddlingMem fun _ _ => none) []
        (scanExecMapping 0x10000 0x2000 (PROT_READ ||| PROT_EXEC) PROT_READ 0 true
          TS_APPLICATION []) l () ∧
      Tiles l 0x10000 (pageCount 0x2000) (PROT_READ ||| PROT_EXEC) PROT_READ (fun _ => false)
        (· == 1) := by
  rintro ⟨l, hl, h⟩
  have hv := @verdicts_straddling [] (scanExecMappingPage [] (PROT_READ ||| PROT_EXEC) PROT_READ 0
    TS_APPLICATION true UNTRUSTED_MPKEY) _ (.inl rfl)
  rw [scanExecMappingPage_eq] at hv
  rw [scanExecMapping_eq] at hl
  obtain ⟨rfl, -⟩ := Logs.unique (scanGroups_logs (by decide)
    (fun _ s z p => addGroup_logs (fun _ => rfl) fun _ => rfl) hv nofun) hl
  have hfirst := (h 0 (by decide)).1
  rw [hv.protsAt_quiet (fun _ _ _ => rfl) scanOp_not_added] at hfirst
  exact absurd hfirst (by decide)

/-- `scan_exec_mapping_mprotect` leaves every page with the protection it should
have if and only if it does not take address 0 for `NULL` and every straddle between pages
that are not unsafe is followed by straddles up to an unsafe page. -/
theorem scanExecMappingMprotect_ends_iff (hspace : start + 4096 * pageCount size < 2 ^ 64)
    (hkey : getPkey cid = some key) (hprot : prot ≠ unsafeProt)
    (hprotect : ∀ before s z p,
      answer before (.wrapper (.mprotect s z p none) cid) = (0 : Int))
    (hupdate : ∀ before s z p, answer before (.updateMprotect s z p cid) = (0 : Int))
    (hv : Verdicts answer before (scanExecMappingMprotectPage allowList prot unsafeProt cid) start
      (pageCount size) allowList prot own straddles) :
    (∃ l, Logs answer before
        (scanExecMappingMprotect start size prot unsafeProt cid allowList) l () ∧
      Ends l start (pageCount size) prot unsafeProt own straddles) ↔
      NullSafe start (pageCount size) own ∧
        ∀ i < pageCount size, Slips false own straddles i →
          Recovers own straddles (pageCount size) i := by
  have hput before s z p : Logs answer before (protectGroup s z p cid) _ () :=
    protectGroup_logs (hprotect · s z p) (hupdate · s z p)
  rw [scanExecMappingMprotectPage_eq] at hv
  rw [scanExecMappingMprotect_eq, hkey]
  by_cases hnull : NullSafe start (pageCount size) own
  · rw [and_iff_right hnull, (scanGroups_logs hspace hput hv hnull).exists_iff,
      ← complete_iff last_reading]
    unfold Ends Complete
    refine forall₂_congr fun j _ => ?_
    rw [hv.protsAt_quiet (fun _ _ _ => rfl) scanOp_not_updated, verdictProt_eq,
      protsAt_wholeLog (fun _ _ _ => rfl) fun i hi j hj => hv.reprotected hspace hi hj,
      List.getLast?_append, List.getLast?_map]
    -- what the scans did to the page comes before what the loop does
    refine ⟨fun h => ?_, fun h => ?_⟩
    · exact Option.map_injective (protOf_injective hprot) h.2
    · rw [h]
      exact ⟨rfl, rfl⟩
  · refine iff_of_false (fun ⟨l, hl, _⟩ => hnull ?_) fun h => hnull h.1
    exact scanGroups_nullSafe hspace hput hv hl

/-- The last of three pages is unsafe, and the one before it is straddled. -/
theorem scanExecMappingMprotect_ends_unsafe :
    ∃ l, Logs (answerOf unsafeMem readablePages) []
        (scanExecMappingMprotect 0x10000 0x3000 (PROT_READ ||| PROT_EXEC) PROT_READ
          TS_APPLICATION []) l () ∧
      Ends l 0x10000 (pageCount 0x3000) (PROT_READ ||| PROT_EXEC) PROT_READ (· == 2) (· == 2) :=
  (scanExecMappingMprotect_ends_iff (by decide) rfl (by decide) (fun _ _ _ _ => rfl)
    (fun _ _ _ _ => rfl) (verdicts_flagged (.inr rfl))).mpr
    ⟨nofun, fun i _ h => by rw [Slips, h.2.1] at h; cases h.2.2.1⟩

/-- The first page, where the WRPKRU begins, ends as an executable one. -/
theorem scanExecMappingMprotect_not_ends :
    ¬ ∃ l, Logs (answerOf straddlingMem readablePages) []
        (scanExecMappingMprotect 0x10000 0x2000 (PROT_READ ||| PROT_EXEC) PROT_READ
          TS_APPLICATION []) l () ∧
      Ends l 0x10000 (pageCount 0x2000) (PROT_READ ||| PROT_EXEC) PROT_READ (fun _ => false)
        (· == 1) := by
  rintro ⟨l, hl, h⟩
  have hv := @verdicts_straddling [] (scanExecMappingMprotectPage [] (PROT_READ ||| PROT_EXEC)
    PROT_READ TS_APPLICATION) _ (.inr rfl)
  rw [scanExecMappingMprotectPage_eq] at hv
  rw [scanExecMappingMprotect_eq] at hl
  obtain ⟨rfl, -⟩ := Logs.unique (scanGroups_logs (by decide)
    (fun _ s z p => protectGroup_logs (fun _ => rfl) fun _ => rfl) hv nofun) hl
  have hfirst := (h 0 (by decide)).2
  rw [hv.protsAt_quiet (fun _ _ _ => rfl) scanOp_not_updated] at hfirst
  exact absurd hfirst (by decide)

end

end Secpoline
