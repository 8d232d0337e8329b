import Secpoline.Model.FdMap
import Secpoline.Proofs.Files

/-!
# fd_bitmap is a set

What counts of the memory of an `fd_bitmap` are the bytes below `size`: `FdMap.Represents` says
that they are allocated and that they are the bytes of an `FdBitmap`. Every method does to them
what it does to the `FdBitmap`, so a bit is set exactly if the last call for its index has set
it.

The class does not survive every call. A bit is set in a map that has room for it, and for an
index like that of a negative descriptor there is no such map: `realloc` fails, and so does the
assertion behind it.
-/

namespace Secpoline

open Lib

/-! ## Bits of a char -/

section Chars

variable {c : BitVec 8} {i : Nat}

theorem charOrBit_eq : charOrBit c i = c ||| 1#8 <<< i := by
  refine BitVec.eq_of_getLsbD_eq fun j hj => ?_
  have hlow : j < 32 := by omega
  simp [charOrBit, BitVec.getElem_signExtend, hj, hlow]

theorem charClearBit_eq : charClearBit c i = c &&& ~~~(1#8 <<< i) := by
  refine BitVec.eq_of_getLsbD_eq fun j hj => ?_
  have hlow : j < 32 := by omega
  simp [charClearBit, BitVec.getElem_signExtend, hj, hlow]

theorem charReadBit_eq (hi : i < 8) : charReadBit c i = if c.getLsbD i then 1 else 0 := by
  have hall : ∀ c : BitVec 8, ∀ i : Fin 8,
      charReadBit c i = if c.getLsbD i then 1 else 0 := by decide +kernel
  exact hall c ⟨i, hi⟩

end Chars

/-! ## The memory and the bits -/

/-- The bytes that `size` counts are allocated, and they are those of `b`. -/
structure FdMap.Represents (m : FdMap) (b : FdBitmap) : Prop where
  counted : m.size ≤ m.block.length
  bytes : m.block.take m.size = b.bytes

namespace FdMap

variable {m : FdMap} {b : FdBitmap} {realloc : Realloc} {i n index byteIndex : Nat}

theorem Represents.length (h : m.Represents b) : b.bytes.length = m.size := by
  rw [← h.bytes, List.length_take, Nat.min_eq_left h.counted]

theorem Represents.load (h : m.Represents b) (hi : i < m.size) :
    ∃ c, b.bytes[i]? = some c ∧ m.load i = .ok c := by
  have hlt : i < m.block.length := Nat.lt_of_lt_of_le hi h.counted
  refine ⟨m.block[i], ?_, ?_⟩
  · rw [← h.bytes, List.getElem?_take_of_lt hi, List.getElem?_eq_getElem hlt]
  · rw [FdMap.load, List.getElem?_eq_getElem hlt]

/-- A byte that is counted can be changed. -/
theorem Represents.change (h : m.Represents b) (hi : i < m.size) (f : BitVec 8 → BitVec 8) :
    ∃ m', (m.load i >>= fun c => m.store i (f c)) = .ok m' ∧
      m'.Represents ⟨b.bytes.modify i f⟩ := by
  obtain ⟨c, hc, hload⟩ := h.load hi
  have hlt : i < m.block.length := Nat.lt_of_lt_of_le hi h.counted
  refine ⟨⟨some (m.block.set i (f c)), m.size⟩, ?_, ?_, ?_⟩
  · rw [hload]
    exact if_pos hlt
  · simpa [block] using h.counted
  · show (m.block.set i (f c)).take m.size = b.bytes.modify i f
    rw [List.take_set, h.bytes, List.modify_eq_set_getElem?, hc]
    rfl

/-- `realloc` keeps the bytes that are counted. -/
theorem resize_take {fresh : Nat → BitVec 8} (hcounted : m.size ≤ m.block.length)
    (hle : m.size ≤ n) :
    (m.resize n fresh).block.take m.size = m.block.take m.size := by
  refine List.ext_getElem? fun i => ?_
  by_cases hi : i < m.size
  · have hlt : i < m.block.length := by omega
    have hn : i < n := by omega
    rw [List.getElem?_take_of_lt hi, List.getElem?_take_of_lt hi, List.getElem?_eq_getElem hlt]
    show ((List.range n).map _)[i]? = _
    rw [List.getElem?_map, List.getElem?_range hn, Option.map_some, List.getElem?_eq_getElem hlt,
      Option.getD_some]
  · rw [List.getElem?_eq_none (by simp; omega), List.getElem?_eq_none (by simp; omega)]

/-- The bytes that are counted stay, those behind them are cleared. -/
theorem Represents.grow (h : m.Represents b) (hroom : m.size ≤ byteIndex) (hlt : byteIndex < 2 ^ 61)
    {fresh : Nat → BitVec 8} (hanswer : realloc ((byteIndex / 8 + 1) * 8) = some fresh) :
    ∃ m', m.grow realloc byteIndex = .ok m' ∧ m'.size = (byteIndex / 8 + 1) * 8 ∧
      m'.Represents ⟨padTo b.bytes ((byteIndex / 8 + 1) * 8)⟩ := by
  have hsize : (byteIndex / 8 + 1) * 8 % 2 ^ 64 = (byteIndex / 8 + 1) * 8 := by omega
  generalize hn : (byteIndex / 8 + 1) * 8 = n at hsize hanswer ⊢
  have hle : m.size ≤ n := by omega
  have hsub : wsub n m.size = n - m.size := by
    unfold wsub
    omega
  have hlength : (m.resize n fresh).block.length = n := by simp [block, resize]
  have hend : m.size + (n - m.size) = n := by omega
  refine ⟨⟨some (b.bytes ++ List.replicate (n - m.size) 0#8), n⟩, ?_, rfl, ?_⟩
  · rw [FdMap.grow, hn, hsize, hanswer]
    dsimp only
    rw [hsub, memset, if_pos (by omega), hend, List.drop_eq_nil_of_le (by omega), List.append_nil,
      resize_take h.counted hle, h.bytes]
    rfl
  · have hbytes : n ≤ (b.bytes ++ List.replicate (n - m.size) 0#8).length := by
      rw [List.length_append, List.length_replicate, h.length]
      omega
    refine ⟨hbytes, ?_⟩
    show (b.bytes ++ List.replicate (n - m.size) 0#8).take n = padTo b.bytes n
    rw [padTo, h.length, List.take_of_length_le]
    rw [List.length_append, List.length_replicate, h.length]
    omega

/-! ## The methods -/

variable (realloc) in
theorem setBit_room (h : index / 8 < m.size) : m.setBit realloc index =
    (m.load (index / 8) >>= fun c => m.store (index / 8) (charOrBit c (index % 8))) := by
  rw [FdMap.setBit, if_neg (Nat.not_le.mpr h)]
  exact if_pos h

variable (realloc) in
theorem Represents.setBit_room (h : m.Represents b) (hroom : index / 8 < m.size) :
    ∃ m', m.setBit realloc index = .ok m' ∧ m'.Represents ⟨orBit b.bytes index⟩ := by
  rw [FdMap.setBit_room realloc hroom]
  simp only [charOrBit_eq]
  exact h.change hroom _

theorem setBit_refused (hindex : index < 2 ^ 64) (hroom : m.size ≤ index / 8)
    (hanswer : realloc ((index / 8 / 8 + 1) * 8) = none) :
    m.setBit realloc index = .error .assertion := by
  have hsize : (index / 8 / 8 + 1) * 8 % 2 ^ 64 = (index / 8 / 8 + 1) * 8 := by omega
  rw [FdMap.setBit, if_pos hroom, FdMap.grow, hsize, hanswer]
  rfl

variable (realloc) in
/-- Setting a bit fails only where there is no memory for it. -/
theorem Represents.setBit (h : m.Represents b) (hindex : index < 2 ^ 64) :
    (∃ m', m.setBit realloc index = .ok m' ∧ m'.Represents (b.setBit index)) ∨
      (m.setBit realloc index = .error .assertion ∧ realloc ((index / 8 / 8 + 1) * 8) = none) := by
  unfold FdBitmap.setBit
  dsimp only
  rw [h.length]
  by_cases hroom : index / 8 ≥ m.size
  · rw [if_pos hroom]
    cases hanswer : realloc ((index / 8 / 8 + 1) * 8) with
    | none => exact .inr ⟨setBit_refused hindex hroom hanswer, rfl⟩
    | some fresh =>
        obtain ⟨m', hgrow, hsize, h'⟩ := h.grow hroom (by omega) hanswer
        have hlt : index / 8 < m'.size := by omega
        obtain ⟨m'', hset, h''⟩ := h'.setBit_room realloc hlt
        refine .inl ⟨m'', ?_, h''⟩
        rw [← hset, FdMap.setBit_room realloc hlt, FdMap.setBit, if_pos hroom, hgrow]
        exact if_pos hlt
  · rw [if_neg hroom]
    exact .inl (h.setBit_room realloc (by omega))

theorem Represents.unsetBit (h : m.Represents b) :
    ∃ m', m.unsetBit index = .ok m' ∧ m'.Represents (b.unsetBit index) := by
  unfold FdMap.unsetBit FdBitmap.unsetBit
  dsimp only
  rw [h.length]
  split
  · exact ⟨m, rfl, h⟩
  · simp only [charClearBit_eq]
    exact h.change (by omega) _

theorem Represents.readBit (h : m.Represents b) :
    m.readBit index = .ok (if b.readBit index then 1 else 0) := by
  unfold FdMap.readBit FdBitmap.readBit getBit
  dsimp only
  split
  · next hout =>
      rw [List.getElem?_eq_none (h.length ▸ hout)]
      rfl
  · obtain ⟨c, hc, hload⟩ := h.load (i := index / 8) (by omega)
    rw [hload, hc]
    exact congrArg Except.ok (charReadBit_eq (by omega))

end FdMap

/-! ## Runs -/

def FdOp.apply (b : FdBitmap) : FdOp → FdBitmap
  | .setBit index => b.setBit index.toNat
  | .unsetBit index => b.unsetBit index.toNat

/-- If `realloc` is asked for the memory that the call needs, it succeeds. -/
def FdOp.Granted (realloc : Realloc) : FdOp → Prop
  | .setBit index => (realloc ((index.toNat / 8 / 8 + 1) * 8)).isSome = true
  | .unsetBit _ => True

/-- The last call for the index sets its bit. -/
def LastSet (ops : List FdOp) (i : UInt64) : Prop :=
  ∃ before after, ops = before ++ .setBit i :: after ∧ ∀ op ∈ after, op.index ≠ i

namespace FdMap

variable {m m₀ : FdMap} {b : FdBitmap} {calls : List (FdOp × Realloc)} {i : UInt64}

theorem Represents.op {realloc : Realloc} (h : m.Represents b) (op : FdOp) :
    (∃ m', op.run realloc m = .ok m' ∧ m'.Represents (op.apply b)) ∨
      (op.run realloc m = .error .assertion ∧ ¬ op.Granted realloc) := by
  cases op with
  | setBit index =>
      refine (h.setBit realloc index.toNat_lt).imp_right fun hfail => ⟨hfail.1, ?_⟩
      simp [FdOp.Granted, hfail.2]
  | unsetBit index => exact .inl h.unsetBit

theorem run_cons {op : FdOp} {realloc : Realloc} :
    m.run ((op, realloc) :: calls) = op.run realloc m >>= fun m' => m'.run calls :=
  List.foldlM_cons

theorem run_append {calls' : List (FdOp × Realloc)} :
    m.run (calls ++ calls') = m.run calls >>= fun m' => m'.run calls' :=
  List.foldlM_append

/-- A call that asks for memory and does not get it is the last. -/
theorem run_refused {before after : List (FdOp × Realloc)} {realloc : Realloc}
    (hrun : m₀.run before = .ok m) (hroom : m.size ≤ i.toNat / 8)
    (hrefused : ¬ (FdOp.setBit i).Granted realloc) :
    m₀.run (before ++ (.setBit i, realloc) :: after) = .error .assertion := by
  have hanswer : realloc ((i.toNat / 8 / 8 + 1) * 8) = none := by
    simpa [FdOp.Granted] using hrefused
  rw [run_append, hrun]
  show m.run ((.setBit i, realloc) :: after) = _
  rw [run_cons, FdOp.run, setBit_refused i.toNat_lt hroom hanswer]
  rfl

/-- A run goes on until `realloc` fails. -/
theorem Represents.run (h : m.Represents b) (calls : List (FdOp × Realloc)) :
    (∃ m', m.run calls = .ok m' ∧ m'.Represents ((calls.map Prod.fst).foldl FdOp.apply b)) ∨
      (m.run calls = .error .assertion ∧ ∃ c ∈ calls, ¬ c.1.Granted c.2) := by
  induction calls generalizing m b with
  | nil => exact .inl ⟨m, rfl, h⟩
  | cons c calls ih =>
      obtain ⟨op, realloc⟩ := c
      rw [run_cons]
      rcases h.op op with ⟨m', hop, h'⟩ | ⟨hop, hrefused⟩
      · rw [hop]
        rcases ih h' with hdone | ⟨hfail, c, hc, hrefused⟩
        · exact .inl hdone
        · exact .inr ⟨hfail, c, List.mem_cons_of_mem _ hc, hrefused⟩
      · rw [hop]
        exact .inr ⟨rfl, _, List.mem_cons_self, hrefused⟩

end FdMap

theorem not_lastSet_nil {i : UInt64} : ¬ LastSet [] i := fun ⟨_, _, h, _⟩ => by simp at h

theorem lastSet_cons {ops : List FdOp} {op : FdOp} {i : UInt64} :
    LastSet (op :: ops) i ↔ LastSet ops i ∨ (op = .setBit i ∧ ∀ op' ∈ ops, op'.index ≠ i) := by
  constructor
  · rintro ⟨before, after, heq, hlast⟩
    cases before with
    | nil =>
        cases heq
        exact .inr ⟨rfl, hlast⟩
    | cons op' before =>
        cases heq
        exact .inl ⟨before, after, rfl, hlast⟩
  · rintro (⟨before, after, rfl, hlast⟩ | ⟨rfl, hlast⟩)
    · exact ⟨op :: before, after, rfl, hlast⟩
    · exact ⟨[], ops, rfl, hlast⟩

/-- A call changes the bit of its index and no other. -/
theorem FdOp.readBit_apply {b : FdBitmap} {op : FdOp} {i : UInt64} :
    (op.apply b).readBit i.toNat = true ↔
      op = .setBit i ∨ (op.index ≠ i ∧ b.readBit i.toNat = true) := by
  cases op with
  | setBit index =>
      rw [apply, FdBitmap.readBit_setBit, Bool.or_eq_true, decide_eq_true_eq, UInt64.toNat_inj]
      by_cases h : i = index
      · simp [h]
      · simp [h, FdOp.index, Ne.symm h]
  | unsetBit index =>
      rw [apply, FdBitmap.readBit_unsetBit, Bool.and_eq_true, decide_eq_true_eq, ne_eq,
        UInt64.toNat_inj]
      constructor
      · rintro ⟨h, hb⟩
        exact .inr ⟨Ne.symm h, hb⟩
      · rintro (h | ⟨h, hb⟩)
        · cases h
        · exact ⟨Ne.symm h, hb⟩

theorem readBit_foldl_apply (ops : List FdOp) (b : FdBitmap) (i : UInt64) :
    (ops.foldl FdOp.apply b).readBit i.toNat = true ↔
      LastSet ops i ∨ (b.readBit i.toNat = true ∧ ∀ op ∈ ops, op.index ≠ i) := by
  induction ops generalizing b with
  | nil => simp [not_lastSet_nil]
  | cons op ops ih =>
      rw [List.foldl_cons, ih, FdOp.readBit_apply, lastSet_cons, List.forall_mem_cons]
      tauto

/-! ## The constructor -/

theorem atoi_lt (name : CString) : toSizeT (atoi name) < 2 ^ 64 := by
  have hlow : -(2 ^ 31 : Int) ≤ atoi name := Int.le_bmod (by decide)
  have hhigh : atoi name < 2 ^ 31 := Int.bmod_lt (by decide)
  unfold toSizeT
  split <;> omega

theorem entryOps_cons {name : CString} {names : List CString} : entryOps (name :: names) =
    if name.head? = some '.' then entryOps names
    else .setBit (.ofNat (toSizeT (atoi name))) :: entryOps names := by
  unfold entryOps
  by_cases h : name.head? = some '.' <;> simp [h]

theorem FdMap.Represents.entries {m m' : FdMap} {b : FdBitmap} {entries : List (CString × Realloc)}
    (h : m.Represents b) (hrun : entries.foldlM setEntry m = .ok m') :
    m'.Represents ((entryOps (entries.map Prod.fst)).foldl FdOp.apply b) := by
  induction entries generalizing m b with
  | nil =>
      cases hrun
      exact h
  | cons entry entries ih =>
      obtain ⟨name, realloc⟩ := entry
      rw [List.foldlM_cons, setEntry] at hrun
      rw [List.map_cons, entryOps_cons]
      split at hrun
      · next hdot =>
          rw [if_pos hdot]
          exact ih h hrun
      · next hdot =>
          rw [if_neg hdot, List.foldl_cons]
          have hindex := atoi_lt name
          rcases h.setBit realloc hindex with ⟨m₁, hset, h₁⟩ | ⟨hset, -⟩
          · rw [hset] at hrun
            refine ih ?_ hrun
            rw [FdOp.apply, UInt64.toNat_ofNat', Nat.mod_eq_of_lt hindex]
            exact h₁
          · rw [hset] at hrun
            cases hrun

/-- The directory is open while it is read, so there is a descriptor zero. -/
theorem procSelfFd_open (t : FdTable) (o : FdOwner) :
    ∃ rest, procSelfFd (t.put t.lowestFree (some o)) = ['.'] :: ['.', '.'] :: ['0'] :: rest := by
  have hzero : (t.put t.lowestFree (some o)).owner 0 ≠ none := by
    rw [FdTable.owner_put]
    split
    · exact nofun
    · next hne =>
        cases t with
        | nil => exact absurd rfl hne
        | cons x t =>
            cases x with
            | none => exact absurd rfl hne
            | some x => exact nofun
  have hlength : (t.put t.lowestFree (some o)).length ≠ 0 := by
    intro h
    rw [List.length_eq_zero_iff] at h
    exact hzero (by rw [h]; rfl)
  obtain ⟨n, hn⟩ := Nat.exists_eq_succ_of_ne_zero hlength
  rw [procSelfFd, hn, List.range_succ_eq_map, List.filter_cons, if_pos (decide_eq_true hzero),
    List.map_cons]
  exact ⟨_, rfl⟩

/-- After a failed `calloc` the bit of descriptor zero is written to a null pointer. -/
theorem FdMap.construct_calloc {calloc : Bool} {t : FdTable} {entries : List (CString × Realloc)}
    {m : FdMap} (hdir : entries.map Prod.fst = procSelfFd (t.put t.lowestFree (some .monitor)))
    (h : construct calloc (some entries) = .ok m) : calloc = true := by
  obtain ⟨rest, hrest⟩ := procSelfFd_open t .monitor
  rw [hrest] at hdir
  match entries, hdir with
  | (_, _) :: (_, _) :: (_, realloc) :: entries, hdir =>
      simp only [List.map_cons, List.cons.injEq] at hdir
      obtain ⟨rfl, rfl, rfl, -⟩ := hdir
      cases calloc with
      | true => rfl
      | false =>
          have hnull : FdMap.setEntry ⟨none, 1⟩ (['0'], realloc) = .error .outOfBounds := by
            rw [setEntry, if_neg (show ¬ ['0'].head? = some '.' by decide),
              show toSizeT (atoi ['0']) = 0 by decide]
            rfl
          change (FdMap.setEntry ⟨none, 1⟩ (['0'], realloc) >>= _) = _ at h
          rw [hnull] at h
          cases h

theorem FdMap.represents_construct {calloc : Bool} {t : FdTable}
    {entries : List (CString × Realloc)}
    {m : FdMap} (hdir : entries.map Prod.fst = procSelfFd (t.put t.lowestFree (some .monitor)))
    (h : construct calloc (some entries) = .ok m) :
    m.Represents ((entryOps (entries.map Prod.fst)).foldl FdOp.apply .empty) := by
  obtain rfl := construct_calloc hdir h
  have hempty : FdMap.Represents ⟨some (List.replicate 8 0#8), 1⟩ .empty := ⟨by decide, rfl⟩
  exact hempty.entries h

/-! ## A set -/

/-- The indices whose last call has set them are in the map, and it takes more memory without
gaining or losing one. -/
structure FdMap.IsSet (m : FdMap) (ops : List FdOp) : Prop where
  member : ∀ i, m.readBit i.toNat = .ok 1 ↔ LastSet ops i
  other : ∀ i, m.readBit i.toNat = .ok 0 ↔ ¬ LastSet ops i
  beyond : ∀ i : UInt64, m.block.length ≤ i.toNat / 8 → m.readBit i.toNat = .ok 0
  grows : ∀ (i : UInt64) (realloc : Realloc) (m' : FdMap), m.size ≤ i.toNat / 8 →
    m.grow realloc (i.toNat / 8) = .ok m' → ∀ j, m'.readBit j = m.readBit j

/-- A map that has grown reads as before. -/
theorem FdMap.Represents.readBit_grow {m m' : FdMap} {b : FdBitmap} {realloc : Realloc}
    {byteIndex : Nat} (h : m.Represents b) (hroom : m.size ≤ byteIndex) (hlt : byteIndex < 2 ^ 61)
    (hgrow : m.grow realloc byteIndex = .ok m') (j : Nat) : m'.readBit j = m.readBit j := by
  have hsize : (byteIndex / 8 + 1) * 8 % 2 ^ 64 = (byteIndex / 8 + 1) * 8 := by omega
  cases hanswer : realloc ((byteIndex / 8 + 1) * 8) with
  | none =>
      rw [FdMap.grow, hsize, hanswer] at hgrow
      cases hgrow
  | some fresh =>
      obtain ⟨m'', hgrow', -, h'⟩ := h.grow hroom hlt hanswer
      rw [hgrow] at hgrow'
      cases hgrow'
      rw [h'.readBit, h.readBit, FdBitmap.readBit, getBit_padTo]
      rfl

theorem FdMap.Represents.isSet {m : FdMap} {ops : List FdOp}
    (h : m.Represents (ops.foldl FdOp.apply .empty)) : m.IsSet ops := by
  have hbit (i : UInt64) :
      (ops.foldl FdOp.apply .empty).readBit i.toNat = true ↔ LastSet ops i := by
    rw [readBit_foldl_apply, FdBitmap.readBit_empty]
    simp
  refine ⟨fun i => ?_, fun i => ?_, fun i hout => ?_, fun i realloc m' hroom hgrow j => ?_⟩
  · rw [← hbit, h.readBit]
    split <;> simp_all
  · rw [← hbit, h.readBit]
    split <;> simp_all
  · exact if_pos (Nat.le_trans h.counted hout)
  · have := i.toNat_lt
    exact h.readBit_grow hroom (by omega) hgrow j

/-- After the constructor, a run of calls goes on as long as there is memory and no longer, no
access is outside of the block, and what is left is the set that the calls describe. -/
theorem fdMap_isSet {calloc : Bool} {inherited : FdTable} {entries : List (CString × Realloc)}
    {m₀ : FdMap}
    (hdir : entries.map Prod.fst = procSelfFd (inherited.put inherited.lowestFree (some .monitor)))
    (h₀ : FdMap.construct calloc (some entries) = .ok m₀) (calls : List (FdOp × Realloc)) :
    (∀ m, m₀.run calls = .ok m →
        m.IsSet (entryOps (entries.map Prod.fst) ++ calls.map Prod.fst)) ∧
      ((∀ c ∈ calls, c.1.Granted c.2) → ∃ m, m₀.run calls = .ok m) ∧
      (∀ e, m₀.run calls = .error e → e = .assertion ∧ ∃ c ∈ calls, ¬ c.1.Granted c.2) ∧
      ∀ before i realloc after m, calls = before ++ (.setBit i, realloc) :: after →
        m₀.run before = .ok m → m.size ≤ i.toNat / 8 → ¬ (FdOp.setBit i).Granted realloc →
        m₀.run calls = .error .assertion := by
  have h := FdMap.represents_construct hdir h₀
  refine ⟨fun m heq => ?_, fun hall => ?_, fun e heq => ?_, ?_⟩
  · rcases h.run calls with ⟨m', hrun, hm⟩ | ⟨hrun, -⟩
    · cases hrun.symm.trans heq
      rw [← List.foldl_append] at hm
      exact hm.isSet
    · cases hrun.symm.trans heq
  · rcases h.run calls with ⟨m, hrun, -⟩ | ⟨-, c, hc, hrefused⟩
    · exact ⟨m, hrun⟩
    · exact absurd (hall c hc) hrefused
  · rcases h.run calls with ⟨m, hrun, -⟩ | ⟨hrun, c, hc, hrefused⟩
    · cases hrun.symm.trans heq
    · cases hrun.symm.trans heq
      exact ⟨rfl, c, hc, hrefused⟩
  · rintro before i realloc after m rfl hrun hroom hrefused
    exact FdMap.run_refused hrun hroom hrefused

/-- A process with three descriptors, as `/proc/self/fd` lists them with that of the directory. -/
def threeFds : FdTable := [some .application, some .application, some .application]

def threeFdEntries : List (CString × Realloc) :=
  (procSelfFd (threeFds.put threeFds.lowestFree (some .monitor))).map fun name =>
    (name, fun _ => none)

theorem threeFdEntries_construct :
    FdMap.construct true (some threeFdEntries) = .ok ⟨some [15, 0, 0, 0, 0, 0, 0, 0], 1⟩ := by
  rfl

theorem fdMap_isSet_threeFds :
    ∃ m, FdMap.run ⟨some [15, 0, 0, 0, 0, 0, 0, 0], 1⟩
        [(.setBit 9, fun _ => some fun _ => 255), (.unsetBit 1, fun _ => some fun _ => 255)] =
          .ok m ∧
      m.readBit 9 = .ok 1 ∧ m.readBit 1 = .ok 0 := by
  obtain ⟨hset, hruns, -⟩ := fdMap_isSet
    (show threeFdEntries.map Prod.fst =
      procSelfFd (threeFds.put threeFds.lowestFree (some .monitor)) from rfl)
    threeFdEntries_construct
    [(.setBit 9, fun _ => some fun _ => 255), (.unsetBit 1, fun _ => some fun _ => 255)]
  obtain ⟨m, hm⟩ := hruns (by simp [FdOp.Granted])
  have hops : entryOps (threeFdEntries.map Prod.fst) ++ [.setBit 9, .unsetBit 1] =
      [.setBit 0, .setBit 1, .setBit 2, .setBit 3, .setBit 9, .unsetBit 1] := rfl
  have hlast :
      ¬ LastSet (entryOps (threeFdEntries.map Prod.fst) ++ [.setBit 9, .unsetBit 1]) 1 := by
    simp [hops, lastSet_cons, not_lastSet_nil, FdOp.index]
  exact ⟨m, hm, ((hset m hm).member 9).mpr ⟨_, [.unsetBit 1], by rfl, by decide⟩,
    ((hset m hm).other 1).mpr hlast⟩

/-- There is no memory for the bit of descriptor -1. -/
theorem fdMap_huge_index :
    FdMap.construct true (some threeFdEntries) = .ok ⟨some [15, 0, 0, 0, 0, 0, 0, 0], 1⟩ ∧
      ∀ realloc : Realloc, (∀ n, 2 ^ 47 ≤ n → realloc n = none) →
        FdMap.run ⟨some [15, 0, 0, 0, 0, 0, 0, 0], 1⟩ [(.setBit (.ofNat (toSizeT (-1))), realloc)] =
          .error .assertion := by
  refine ⟨threeFdEntries_construct, fun realloc hnone => ?_⟩
  have hindex : (UInt64.ofNat (toSizeT (-1))).toNat = 2 ^ 64 - 1 := by decide
  have hnull : realloc (((2 ^ 64 - 1) / 8 / 8 + 1) * 8 % 2 ^ 64) = none := hnone _ (by decide)
  rw [FdMap.run_cons, FdOp.run, hindex, FdMap.setBit, if_pos (by decide), FdMap.grow, hnull]
  rfl

end Secpoline
