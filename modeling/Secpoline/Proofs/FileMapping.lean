import Secpoline.Model.FileMapping
import Secpoline.Model.System

/-!
# When a mapping is a snapshot of the file

As long as no call fails, the loop keeps the bytes that it has read at the front of the
mapping and the position of the file behind them (`readLoop_snapshot`). A call that fails
changes nothing of what the monitor returns: no comparison sees it. So what is asked of a
mapping holds exactly if no call fails, or there are none (`mmap_faithful_iff`).

A mapping that is to be anonymous is filled from the file all the same if a descriptor is
given with it.
-/

namespace Secpoline

variable {size offset fuel fuel' k readlen : Nat} {answers : Nat → ReadAnswer}
  {file : Option OpenFile} {f : OpenFile} {m : Contents}

/-! ## Kernel calls -/

theorem isFailure_word (e : Errno) : isFailure e.word = true := by
  have hlt : 2 ^ 64 - 4096 < 2 ^ 64 - e.number := by
    have := e.lt
    omega
  exact decide_eq_true hlt

theorem Errno.word_ne_zero (e : Errno) : e.word ≠ 0 := by
  have hlt := e.lt
  simp only [Errno.word]
  omega

theorem not_isFailure {r : Nat} (h : r < 2 ^ 63) : isFailure r = false := by
  have hle : ¬ 2 ^ 64 - 4096 < r := by omega
  exact decide_eq_false hle

theorem kernelLseek_ok {whence : Whence} {error : Option Errno}
    (h : isFailure (kernelLseek file offset whence error).1 = false) :
    ∃ f, file = some f ∧ error = none ∧ f.target offset whence < 2 ^ 63 := by
  match file, error with
  | none, _ => exact absurd (isFailure_word EBADF) (ne_true_of_eq_false h)
  | some f, some e => exact absurd (isFailure_word e) (ne_true_of_eq_false h)
  | some f, none =>
      refine ⟨f, rfl, rfl, ?_⟩
      by_contra hpos
      simp only [kernelLseek, dif_neg hpos] at h
      exact absurd h (by decide)

theorem kernelLseek_eq {whence : Whence} (h : f.target offset whence < 2 ^ 63) :
    kernelLseek (some f) offset whence none =
      (f.target offset whence, some { f with pos := f.target offset whence, pos_lt := h }) :=
  dif_pos h

/-- A read that does not fail delivers the next bytes of the file. -/
theorem kernelRead_ok {count : Nat} {answer : ReadAnswer}
    (h : isFailure (kernelRead (some f) count answer).curlen = false) :
    ∃ n, answer = .deliver n := by
  cases answer with
  | error e => exact absurd (isFailure_word e) (ne_true_of_eq_false h)
  | deliver n => exact ⟨n, rfl⟩

theorem OpenFile.delivered_getD {count n j : Nat} (h : j < (f.delivered count n).length) :
    (f.delivered count n).getD j 0 = f.byteAt (f.pos + j) := by
  rw [delivered, List.length_take] at h
  have hj : j < min count (max 1 n) := by omega
  simp only [delivered, byteAt, List.getD_eq_getElem?_getD, List.getElem?_take, if_pos hj,
    List.getElem?_drop]

/-- Nothing is delivered at the end of the file only. -/
theorem OpenFile.byteAt_of_delivered {count n i : Nat} (hcount : 0 < count)
    (h : (f.delivered count n).length = 0) (hi : f.pos ≤ i) : f.byteAt i = 0 := by
  rw [delivered, List.length_take, List.length_drop] at h
  have hlen : f.bytes.length ≤ i := by omega
  simp only [byteAt, List.getD_eq_getElem?_getD, List.getElem?_eq_none hlen, Option.getD_none]

/-! ## The loop -/

theorem readLoop_full (h : size ≤ readlen) :
    readLoop size answers (fuel + 1) k readlen file m = ⟨[], some (file, m)⟩ := by
  simp only [readLoop, if_neg (Nat.not_lt.mpr h)]

theorem readLoop_last (h : readlen < size)
    (hzero : (kernelRead file (size - readlen) (answers k)).curlen = 0) :
    readLoop size answers (fuel + 1) k readlen file m =
      ⟨[0], some ((kernelRead file (size - readlen) (answers k)).file,
        m.put readlen (kernelRead file (size - readlen) (answers k)).data)⟩ := by
  simp only [readLoop, if_pos h, if_pos hzero]

theorem readLoop_next (h : readlen < size) {r : ReadResult}
    (hr : kernelRead file (size - readlen) (answers k) = r) (hne : r.curlen ≠ 0) :
    readLoop size answers (fuel + 1) k readlen file m =
      ⟨r.curlen :: (readLoop size answers fuel (k + 1) (wadd readlen r.curlen) r.file
          (m.put readlen r.data)).results,
        (readLoop size answers fuel (k + 1) (wadd readlen r.curlen) r.file
          (m.put readlen r.data)).ended⟩ := by
  simp only [readLoop, if_pos h, hr, if_neg hne]

/-- The front of the mapping is what has been read, and the rest still zero. -/
def SnapshotTo (f : OpenFile) (offset readlen : Nat) (m : Contents) : Prop :=
  ∀ i, m i = if i < readlen then f.byteAt (offset + i) else 0

theorem SnapshotTo.put {count n : Nat} (h : SnapshotTo f offset readlen m)
    (hpos : f.pos = offset + readlen) :
    SnapshotTo (f.advance count n) offset (readlen + (f.delivered count n).length)
      (m.put readlen (f.delivered count n)) := by
  intro i
  have hbyte (j : Nat) : (f.advance count n).byteAt j = f.byteAt j := rfl
  simp only [Contents.put, hbyte]
  split
  · next hi =>
      rw [if_pos hi.2, OpenFile.delivered_getD (by omega), hpos]
      congr 1
      omega
  · next hi =>
      rw [h i]
      by_cases hlt : i < readlen
      · rw [if_pos hlt, if_pos (by omega)]
      · rw [if_neg hlt, if_neg (by omega)]

/-- If no read fails, the loop ends, and the mapping is a snapshot of the file. -/
theorem readLoop_snapshot (hfuel : size - readlen < fuel) (hle : readlen ≤ size)
    (hpos : f.pos = offset + readlen) (hm : SnapshotTo f offset readlen m)
    (hok : ∀ r ∈ (readLoop size answers fuel k readlen (some f) m).results, isFailure r = false) :
    ∃ f' m', (readLoop size answers fuel k readlen (some f) m).ended = some (some f', m') ∧
      ∀ i < size, m' i = f.byteAt (offset + i) := by
  induction fuel generalizing k readlen f m with
  | zero => exact absurd hfuel (Nat.not_lt_zero _)
  | succ fuel ih =>
      by_cases hlt : readlen < size
      · by_cases hzero : (kernelRead (some f) (size - readlen) (answers k)).curlen = 0
        · -- the end of the file
          have hok₀ : isFailure (kernelRead (some f) (size - readlen) (answers k)).curlen =
              false := by
            rw [hzero]
            rfl
          obtain ⟨n, hn⟩ := kernelRead_ok hok₀
          rw [hn] at hzero
          have hnil : f.delivered (size - readlen) n = [] := List.length_eq_zero_iff.mp hzero
          rw [readLoop_last hlt (hn ▸ hzero), hn]
          refine ⟨_, _, rfl, fun i hi => ?_⟩
          show m.put readlen (f.delivered (size - readlen) n) i = _
          rw [hm.put hpos i, hnil]
          by_cases hi : i < readlen
          · exact if_pos hi
          · rw [OpenFile.byteAt_of_delivered (by omega) hzero (by omega)]
            exact if_neg hi
        · have hfirst := hok
          rw [readLoop_next hlt rfl hzero] at hok hfirst ⊢
          obtain ⟨n, hn⟩ := kernelRead_ok (hfirst _ List.mem_cons_self)
          rw [hn] at hok hzero ⊢
          have hlen : (f.delivered (size - readlen) n).length ≤ size - readlen := by
            rw [OpenFile.delivered, List.length_take]
            omega
          have hadd : wadd readlen (f.delivered (size - readlen) n).length =
              readlen + (f.delivered (size - readlen) n).length := by
            have hlt := (f.advance (size - readlen) n).pos_lt
            simp only [OpenFile.advance] at hlt
            exact Nat.mod_eq_of_lt (by omega)
          have hpos' : (f.advance (size - readlen) n).pos =
              offset + (readlen + (f.delivered (size - readlen) n).length) := by
            rw [← Nat.add_assoc, ← hpos]
            rfl
          have hne : (f.delivered (size - readlen) n).length ≠ 0 := hzero
          have hrest := fun r hr => hok r (List.mem_cons_of_mem _ hr)
          simp only [kernelRead, hadd] at hrest ⊢
          exact ih (by omega) (by omega) hpos' (hm.put hpos) hrest
      · rw [readLoop_full (Nat.not_lt.mp hlt)]
        refine ⟨f, m, rfl, fun i hi => ?_⟩
        rw [hm i, if_pos (by omega)]

/-- A read that delivers nothing is the last one. -/
theorem readLoop_stops {pre post : List Nat}
    (h : (readLoop size answers fuel k readlen file m).results = pre ++ 0 :: post) : post = [] := by
  induction fuel generalizing k readlen file m pre with
  | zero => simp [readLoop] at h
  | succ fuel ih =>
      by_cases hlt : readlen < size
      · by_cases hzero : (kernelRead file (size - readlen) (answers k)).curlen = 0
        · rw [readLoop_last hlt hzero] at h
          cases pre with
          | nil => exact (List.cons.inj h).2.symm
          | cons p pre => simp at h
        · rw [readLoop_next hlt rfl hzero] at h
          cases pre with
          | nil => exact absurd (List.cons.inj h).1 hzero
          | cons p pre => exact ih (List.cons.inj h).2
      · rw [readLoop_full (Nat.not_lt.mp hlt)] at h
        simp at h

/-- More fuel adds calls, and none once the loop has ended. -/
theorem readLoop_fuel (h : (readLoop size answers fuel k readlen file m).ended ≠ none)
    {r : Nat} (hr : r ∈ (readLoop size answers fuel' k readlen file m).results) :
    r ∈ (readLoop size answers fuel k readlen file m).results := by
  induction fuel generalizing fuel' k readlen file m with
  | zero => exact absurd rfl h
  | succ fuel ih =>
      cases fuel' with
      | zero => cases hr
      | succ fuel' =>
          by_cases hlt : readlen < size
          · by_cases hzero : (kernelRead file (size - readlen) (answers k)).curlen = 0
            · rw [readLoop_last hlt hzero] at hr ⊢
              exact hr
            · rw [readLoop_next hlt rfl hzero] at h hr ⊢
              rcases List.mem_cons.mp hr with hr | hr
              · exact hr ▸ List.mem_cons_self
              · exact List.mem_cons_of_mem _ (ih h hr)
          · rw [readLoop_full (Nat.not_lt.mp hlt)] at hr
            cases hr

theorem readLoop_unique (h : (readLoop size answers fuel k readlen file m).ended ≠ none)
    (h' : (readLoop size answers fuel' k readlen file m).ended ≠ none) :
    readLoop size answers fuel k readlen file m = readLoop size answers fuel' k readlen file m := by
  induction fuel generalizing fuel' k readlen file m with
  | zero => exact absurd rfl h
  | succ fuel ih =>
      cases fuel' with
      | zero => exact absurd rfl h'
      | succ fuel' =>
          by_cases hlt : readlen < size
          · by_cases hzero : (kernelRead file (size - readlen) (answers k)).curlen = 0
            · rw [readLoop_last hlt hzero, readLoop_last hlt hzero]
            · rw [readLoop_next hlt rfl hzero] at h h' ⊢
              rw [readLoop_next hlt rfl hzero, ih h h']
          · rw [readLoop_full (Nat.not_lt.mp hlt), readLoop_full (Nat.not_lt.mp hlt)]

/-! ## What is asked of a mapping -/

/-- A call that has returned. -/
structure FaithfulReturn (anonymous : Bool) (size offset : Nat) (file : Option OpenFile)
    (result : Int) (seeks reads : List Nat) (file' : Option OpenFile) (contents : Contents) :
    Prop where
  contents : 0 < result → ∀ i < size,
    contents i = if anonymous then 0 else (file.map (·.byteAt (offset + i))).getD 0
  reported : ∀ r ∈ seeks ++ reads, isFailure r = true → result < 0
  stops : ∀ pre r post, reads = pre ++ r :: post → r = 0 ∨ isFailure r = true → post = []
  restored : file'.map OpenFile.pos = file.map OpenFile.pos

def MmapRun.Faithful (anonymous : Bool) (size offset : Nat) (file : Option OpenFile) :
    MmapRun → Prop
  | .aborts => True
  | .returns result seeks reads file' contents =>
      FaithfulReturn anonymous size offset file result seeks reads file' contents
  | .running _ => False

/-- No call of `lseek` or `read` fails. -/
structure Undisturbed (size offset : Nat) (answers : MmapAnswers) (f : OpenFile) : Prop where
  cur : answers.cur = none
  set : answers.set = none
  offset_lt : offset < 2 ^ 63
  reads : ∀ fuel, ∀ r ∈ (readLoop size answers.reads fuel 0 0
    (kernelLseek (some f) offset .SEEK_SET none).2 fun _ => 0).results, isFailure r = false
  restore : answers.restore = none

/-- Nothing is mapped: the arguments are not accepted. -/
def refusedMapping (start size flags : Nat) (cid : Int) (allowed : Bool) : Prop :=
  getPkey cid = none ∨ hasFlag flags MAP_HUGETLB ∨ size = 0 ∨ start % 4096 ≠ 0 ∨
    hasFlag flags MAP_FIXED ∧ ¬ allowed

/-- The calls that give what is asked. -/
inductive MapsFaithfully (start size flags : Nat) (fd : Int) (offset : Nat) (cid : Int)
    (allowed : Bool) (answers : MmapAnswers) (file : Option OpenFile) : Prop where
  | refused (h : refusedMapping start size flags cid allowed)
  | noFile (h : fd = -1 ∨ fd = 0)
  | unmapped (e : Errno) (h : answers.mmap = .error e)
  | filled (f : OpenFile) (hfile : file = some f) (h : Undisturbed size offset answers f)
      (hzero : hasFlag flags MAP_ANONYMOUS = true → ∀ i < size, f.byteAt (offset + i) = 0)

/-- A call that returns at once. -/
theorem faithfulReturn_nothing {anonymous : Bool} {result : Int} {contents : Contents}
    (h : 0 < result → anonymous = true ∧ contents = fun _ => 0) :
    FaithfulReturn anonymous size offset file result [] [] file contents := by
  refine ⟨fun hpos i _ => ?_, nofun, fun pre r post hreads => ?_, rfl⟩
  · obtain ⟨hanon, hzero⟩ := h hpos
    rw [hzero, hanon]
    rfl
  · cases pre <;> cases hreads

theorem kernelLseek_cur : kernelLseek (some f) 0 .SEEK_CUR none = (f.pos, some f) := by
  have hlt := f.pos_lt
  have htarget : f.target 0 .SEEK_CUR = f.pos := Nat.mod_eq_of_lt (by omega)
  rw [kernelLseek_eq (htarget ▸ hlt)]
  simp only [htarget]

theorem kernelLseek_set (h : offset < 2 ^ 63) :
    kernelLseek (some f) offset .SEEK_SET none =
      (offset, some { f with pos := offset, pos_lt := h }) :=
  dif_pos h

/-- The loop of a call, where the file has been positioned. -/
def fillRun (size offset : Nat) (answers : MmapAnswers) (file : Option OpenFile) (fuel : Nat) :
    ReadRun :=
  readLoop size answers.reads fuel 0 0
    (kernelLseek (kernelLseek file 0 .SEEK_CUR answers.cur).2 offset .SEEK_SET answers.set).2
    fun _ => 0

theorem fillRun_unique {answers : MmapAnswers} {e e' : Option OpenFile × Contents}
    (h : (fillRun size offset answers file fuel).ended = some e)
    (h' : (fillRun size offset answers file fuel').ended = some e') : e = e' := by
  have hrun : fillRun size offset answers file fuel = fillRun size offset answers file fuel' :=
    readLoop_unique (fun hnone => nomatch h.symm.trans hnone)
      (fun hnone => nomatch h'.symm.trans hnone)
  rw [hrun, h'] at h
  exact (Option.some.inj h).symm

section
variable {answers : MmapAnswers} {address : Nat} {pos : 0 < address}
  (hmmap : answers.mmap = .mapped address pos)
include hmmap

theorem mapFile_running (h : (fillRun size offset answers file fuel).ended = none) :
    mapFile size offset answers file fuel =
      .running (fillRun size offset answers file fuel).results := by
  simp only [fillRun] at h
  simp only [mapFile, hmmap, h, fillRun]

theorem mapFile_returns {f' : Option OpenFile} {m' : Contents}
    (h : (fillRun size offset answers file fuel).ended = some (f', m')) :
    mapFile size offset answers file fuel =
      .returns address
        [(kernelLseek file 0 .SEEK_CUR answers.cur).1,
          (kernelLseek (kernelLseek file 0 .SEEK_CUR answers.cur).2 offset .SEEK_SET
            answers.set).1,
          (kernelLseek f' (kernelLseek file 0 .SEEK_CUR answers.cur).1 .SEEK_SET
            answers.restore).1]
        (fillRun size offset answers file fuel).results
        (kernelLseek f' (kernelLseek file 0 .SEEK_CUR answers.cur).1 .SEEK_SET answers.restore).2
        m' := by
  simp only [fillRun] at h
  simp only [mapFile, hmmap, h, fillRun]

end

section
variable {answers : MmapAnswers} {anonymous : Bool}

/-- The loop if no call fails. -/
theorem Undisturbed.fillRun (h : Undisturbed size offset answers f) :
    ∃ f' m', (fillRun size offset answers (some f) (size + 1)).ended = some (some f', m') ∧
      ∀ i < size, m' i = f.byteAt (offset + i) := by
  have hreads := h.reads (size + 1)
  rw [kernelLseek_set h.offset_lt] at hreads
  rw [Secpoline.fillRun, h.cur, kernelLseek_cur, h.set, kernelLseek_set h.offset_lt]
  exact readLoop_snapshot (by omega) (Nat.zero_le _) rfl (fun i => rfl) hreads

theorem mapFile_faithful (h : Undisturbed size offset answers f)
    (hzero : anonymous = true → ∀ i < size, f.byteAt (offset + i) = 0) :
    (mapFile size offset answers (some f) (size + 1)).Faithful anonymous size offset (some f) := by
  cases hmmap : answers.mmap with
  | error e =>
      simp only [mapFile, hmmap]
      exact faithfulReturn_nothing fun hpos => absurd hpos (by omega)
  | mapped address pos =>
      obtain ⟨f', m', hended, hm'⟩ := h.fillRun
      have hreads : ∀ r ∈ (fillRun size offset answers (some f) (size + 1)).results,
          isFailure r = false := by
        rw [fillRun, h.cur, kernelLseek_cur, h.set]
        exact h.reads (size + 1)
      rw [mapFile_returns hmmap hended, h.cur, kernelLseek_cur, h.set,
        kernelLseek_set h.offset_lt, h.restore, kernelLseek_set f.pos_lt]
      refine ⟨fun _ i hi => ?_, fun r hr hfail => ?_, fun pre r post hrun hlast => ?_, rfl⟩
      · rw [hm' i hi]
        split
        · next hanon => exact hzero hanon i hi
        · rfl
      · have hok : isFailure r = false := by
          rcases List.mem_append.mp hr with hr | hr
          · simp only [List.mem_cons, List.not_mem_nil, or_false] at hr
            rcases hr with rfl | rfl | rfl
            · exact not_isFailure f.pos_lt
            · exact not_isFailure h.offset_lt
            · exact not_isFailure f.pos_lt
          · exact hreads r hr
        exact absurd hfail (ne_true_of_eq_false hok)
      · rcases hlast with rfl | hfail
        · exact readLoop_stops hrun
        · exact absurd hfail (ne_true_of_eq_false (hreads r (hrun ▸ by simp)))

/-- A call that has mapped pages returns their address, so no other call may have failed. -/
theorem undisturbed_of_faithful {address : Nat} {pos : 0 < address}
    (hmmap : answers.mmap = .mapped address pos)
    (h : (mapFile size offset answers file fuel).Faithful anonymous size offset file) :
    ∃ f, file = some f ∧ Undisturbed size offset answers f ∧
      (anonymous = true → ∀ i < size, f.byteAt (offset + i) = 0) := by
  cases hended : (fillRun size offset answers file fuel).ended with
  | none =>
      rw [mapFile_running hmmap hended] at h
      exact h.elim
  | some e =>
      obtain ⟨f', m'⟩ := e
      rw [mapFile_returns hmmap hended] at h
      have hok : ∀ r ∈ _, isFailure r = false := fun r hr =>
        Bool.eq_false_iff.mpr fun hfail => absurd (h.reported r hr hfail) (by omega)
      simp only [List.cons_append, List.nil_append, List.forall_mem_cons] at hok
      obtain ⟨hseekCur, hseekSet, hseekRestore, hreads⟩ := hok
      obtain ⟨f, rfl, hcur, -⟩ := kernelLseek_ok hseekCur
      rw [hcur, kernelLseek_cur] at hseekSet hseekRestore
      obtain ⟨_, -, hset, hoffset⟩ := kernelLseek_ok hseekSet
      obtain ⟨_, -, hrestore, -⟩ := kernelLseek_ok hseekRestore
      have hun : Undisturbed size offset answers f := by
        refine ⟨hcur, hset, hoffset, fun fuel' r hr => hreads r ?_, hrestore⟩
        simp only [fillRun, hcur, kernelLseek_cur, hset] at hended ⊢
        exact readLoop_fuel (by rw [hended]; exact nofun) hr
      refine ⟨f, rfl, hun, fun hanon i hi => ?_⟩
      obtain ⟨f'', m'', hended', hm''⟩ := hun.fillRun
      have hsame : m' = m'' := congrArg Prod.snd (fillRun_unique hended hended')
      rw [← hm'' i hi, ← hsame]
      have hcontents := h.contents (by omega) i hi
      rwa [if_pos hanon] at hcontents

end

/-- The ways a call can take. -/
inductive MmapWay (start size flags : Nat) (fd : Int) (offset : Nat) (cid : Int) (allowed : Bool)
    (answers : MmapAnswers) (file : Option OpenFile) (fuel : Nat) : MmapRun → Prop where
  | aborts (h : refusedMapping start size flags cid allowed) :
      MmapWay start size flags fd offset cid allowed answers file fuel .aborts
  | refused (h : refusedMapping start size flags cid allowed) :
      MmapWay start size flags fd offset cid allowed answers file fuel
        (.returns (-EINVAL) [] [] file fun _ => 0)
  | mapsFile (h : ¬ refusedMapping start size flags cid allowed) (hfd : fd ≠ -1 ∧ fd ≠ 0) :
      MmapWay start size flags fd offset cid allowed answers file fuel
        (mapFile size offset answers file fuel)
  | noFile (hfd : fd = -1 ∨ fd = 0) (result : Int)
      (hanon : 0 < result → hasFlag flags MAP_ANONYMOUS = true) :
      MmapWay start size flags fd offset cid allowed answers file fuel
        (.returns result [] [] file fun _ => 0)

theorem mmapWay (start size flags : Nat) (fd : Int) (offset : Nat) (cid : Int) (allowed : Bool)
    (answers : MmapAnswers) (file : Option OpenFile) (fuel : Nat) :
    MmapWay start size flags fd offset cid allowed answers file fuel
      (secpolineMmapContents start size flags fd offset cid allowed answers file fuel) := by
  simp only [secpolineMmapContents]
  split
  · next h => exact .refused (.inl h)
  split
  · next h => exact .aborts (.inr (.inl h))
  split
  · next h => exact .refused (.inr (.inr (h.imp_right .inl)))
  split
  · next h => exact .refused (.inr (.inr (.inr (.inr h))))
  · next hkey hhuge hargs hfixed =>
    split
    · next hfd =>
        refine .mapsFile ?_ hfd
        rintro (h | h | h | h | h)
        · exact hkey h
        · exact hhuge h
        · exact hargs (.inl h)
        · exact hargs (.inr h)
        · exact hfixed h
    · next hfd =>
        have hfd' : fd = -1 ∨ fd = 0 := by omega
        split
        · next hanon => exact .noFile hfd' _ fun _ => hanon
        · split <;> exact .noFile hfd' _ fun hpos => absurd hpos (by omega)

/-- The mapping is what is asked for exactly if the arguments are not accepted, no descriptor
is given, the kernel maps nothing, or no call fails that fills the mapping and the mapping
is not to be anonymous (or the file is zero there). -/
theorem mmap_faithful_iff (start size flags : Nat) (fd : Int) (offset : Nat) (cid : Int)
    (allowed : Bool) (answers : MmapAnswers) (file : Option OpenFile) :
    (∃ fuel, (secpolineMmapContents start size flags fd offset cid allowed answers file
        fuel).Faithful (hasFlag flags MAP_ANONYMOUS) size offset file) ↔
      MapsFaithfully start size flags fd offset cid allowed answers file := by
  constructor
  · intro ⟨fuel, h⟩
    have hway := mmapWay start size flags fd offset cid allowed answers file fuel
    generalize secpolineMmapContents start size flags fd offset cid allowed answers file fuel = run
      at h hway
    cases hway with
    | aborts hrefused => exact .refused hrefused
    | refused hrefused => exact .refused hrefused
    | noFile hfd => exact .noFile hfd
    | mapsFile =>
        cases hmmap : answers.mmap with
        | error e => exact .unmapped e hmmap
        | mapped address pos =>
            obtain ⟨f, hfile, hun, hzero⟩ := undisturbed_of_faithful hmmap h
            exact .filled f hfile hun hzero
  · intro h
    refine ⟨size + 1, ?_⟩
    have hway := mmapWay start size flags fd offset cid allowed answers file (size + 1)
    generalize secpolineMmapContents start size flags fd offset cid allowed answers file
      (size + 1) = run at hway ⊢
    cases hway with
    | aborts => trivial
    | refused => exact faithfulReturn_nothing fun hpos => absurd hpos (by decide)
    | noFile _ result hanon => exact faithfulReturn_nothing fun hpos => ⟨hanon hpos, rfl⟩
    | mapsFile haccepted hfd =>
        cases h with
        | refused hrefused => exact absurd hrefused haccepted
        | noFile hno => exact absurd hno (by omega)
        | unmapped e herror =>
            simp only [mapFile, herror]
            exact faithfulReturn_nothing fun hpos => absurd hpos (by omega)
        | filled f hfile hun hzero => exact hfile ▸ mapFile_faithful hun hzero

/-- A call that does not fail, and fills two bytes. -/
def twoBytes : OpenFile := ⟨[65, 66], 1, by decide, by decide⟩

def willing : MmapAnswers := ⟨.mapped 0x10000 (by decide), none, none, fun _ => .deliver 1, none⟩

/-- The first read delivers a byte, and the second one fails. -/
def failing : MmapAnswers :=
  { willing with reads := fun k => if k = 0 then .deliver 1 else .error ⟨5, by decide, by decide⟩ }

/-- A read fails, and the mapping is reported as a success without the byte that could not be
read; and what should be anonymous memory has the contents of a file. -/
theorem mmap_hides_failure :
    (∃ contents,
      secpolineMmapContents 0 4096 MAP_PRIVATE 3 0 TS_APPLICATION true failing (some twoBytes) 3 =
          .returns 0x10000 [1, 0, 1] [1, 2 ^ 64 - 5] (some twoBytes) contents ∧
        contents 1 = 0 ∧ twoBytes.byteAt 1 = 66) ∧
      ∃ contents,
        secpolineMmapContents 0 4096 MAP_ANONYMOUS 3 0 TS_APPLICATION true willing
            (some twoBytes) 4 =
          .returns 0x10000 [1, 0, 1] [1, 1, 0] (some twoBytes) contents ∧ contents 0 = 65 :=
  ⟨⟨_, rfl, rfl, rfl⟩, _, rfl, rfl⟩

/-! ## The memory -/

theorem kernelRead_data_le (file : Option OpenFile) (count : Nat) (answer : ReadAnswer) :
    (kernelRead file count answer).data.length ≤ count := by
  unfold kernelRead
  split
  · exact Nat.zero_le _
  · exact Nat.zero_le _
  · simp only [OpenFile.delivered, List.length_take]
    omega

/-- Only the mapping is written to, also when calls fail. -/
theorem readLoop_frame {e : Option OpenFile × Contents} {i : Nat} (hi : size ≤ i)
    (h : (readLoop size answers fuel k readlen file m).ended = some e) : e.2 i = m i := by
  induction fuel generalizing k readlen file m with
  | zero => cases h
  | succ fuel ih =>
      by_cases hlt : readlen < size
      · have hput : m.put readlen (kernelRead file (size - readlen) (answers k)).data i = m i := by
          have hle := kernelRead_data_le file (size - readlen) (answers k)
          exact if_neg (by omega)
        by_cases hzero : (kernelRead file (size - readlen) (answers k)).curlen = 0
        · rw [readLoop_last hlt hzero] at h
          cases h
          exact hput
        · rw [readLoop_next hlt rfl hzero] at h
          exact (ih h).trans hput
      · rw [readLoop_full (Nat.not_lt.mp hlt)] at h
        cases h
        rfl

/-- The memory with a mapping filled. -/
def Sys.fill (s : Sys) (start size : Nat) (contents : Contents) : Sys :=
  { s with kern := { s.kern with mem := fun x =>
      if start ≤ x ∧ x < start + size then contents (x - start) else s.kern.mem x } }

/-- Whatever the calls leave in the mapping, `mapFileBaked` may have read it. -/
theorem mapFileBaked_runs {s s₁ : Sys} {start : Nat} {fixed : Bool} {cid result : Int}
    (hmmap : s.Step (.wrapper (.mmap start size (PROT_WRITE ||| PROT_READ) fixed) cid) result s₁)
    (hresult : 0 ≤ result) (contents : Contents) :
    Lib.Prog.Runs Sys.Step (mapFileBaked start size fixed cid) s result
      (s₁.fill (toWord result) size contents) := by
  refine .op hmmap ?_
  show Lib.Prog.Runs Sys.Step (if result < 0 then _ else _) _ _ _
  rw [if_neg (by omega)]
  exact .op ⟨⟨0, 0, fun x => contents (x - toWord result)⟩, rfl⟩ .ret

end Secpoline
