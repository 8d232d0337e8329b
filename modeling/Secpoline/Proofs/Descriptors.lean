import Secpoline.Proofs.FileMapping
import Secpoline.Proofs.SyscallHook

/-!
# The descriptors of a system call

Four prehandlers look at the descriptors among the arguments of a call, each at other
places of the array. A descriptor that is not the application's is to make the call fail,
and everything else is to come to the kernel as it was. `mmap` has no prehandler, and reads
from the descriptor itself.

A prehandler that refuses a call writes -1 to the first argument, wherever the descriptor
is that it looked at. What the kernel makes of that depends on the call: it does not look at
the descriptor of an absolute path, and for some calls -1 is a value of its own.
-/

namespace Secpoline

variable {env : SyscallEnv} {serves : Nat → GpFrame → Bool} {allowed : Bool} {n : Nat}
  {gprs : GpFrame}

/-! ## What is asked -/

/-- The places that the prehandler of a call looks at. -/
def descriptorArgs (n : Nat) : List Reg :=
  if n ∈ fdUsers then [.rdi]
  else if n ∈ fdUsersSecondArgument then [.rsi]
  else if n ∈ fdUsersFirstSecondArgument then [.rdi, .rsi]
  else if n ∈ fdUsersFirstThirdArgument then [.rdi, .rdx]
  else []

instance (env : SyscallEnv) (q : Quad) : Decidable (env.Owns q) :=
  inferInstanceAs (Decidable (_ = true))

/-- One of them is a descriptor that is not the application's. -/
def Foreign (env : SyscallEnv) (n : Nat) (gprs : GpFrame) : Prop :=
  ∃ r ∈ descriptorArgs n, 0 ≤ asInt (gprs r) ∧ ¬ env.Owns (gprs r)

instance : Decidable (Foreign env n gprs) :=
  inferInstanceAs (Decidable (∃ r ∈ descriptorArgs n, _))

/-- The results of the calls of `read`. -/
def MmapRun.reads : MmapRun → List Nat
  | .aborts => []
  | .returns _ _ reads _ _ => reads
  | .running reads => reads

/-- Some `read` has delivered bytes. -/
def MmapRun.Delivers (run : MmapRun) : Prop := ∃ r ∈ run.reads, r ≠ 0 ∧ isFailure r = false

/-- `mmap` as the application calls it. -/
def applicationMmap (gprs : GpFrame) (allowed : Bool) (answers : MmapAnswers)
    (file : Option OpenFile) (fuel : Nat) : MmapRun :=
  secpolineMmapContents (gprs .rdi).toNat (roundUp (gprs .rsi).toNat) (gprs .r10).toNat
    (asInt (gprs .r8)) (gprs .r9).toNat TS_APPLICATION allowed answers file fuel

/-- What is asked of call `n` with the arguments `gprs`. `serves` says which calls the kernel
serves. -/
structure Filtered (serves : Nat → GpFrame → Bool) (env : SyscallEnv) (allowed : Bool) (n : Nat)
    (gprs : GpFrame) : Prop where
  kept : ¬ Foreign env n gprs → runHandlers env (prehandlers n) gprs 0 = some (gprs, 0)
  fails : Foreign env n gprs →
    ∃ gprs', runHandlers env (prehandlers n) gprs 0 = some (gprs', 0) ∧ serves n gprs' = false
  mmap : n = nrMmap → ∀ answers file fuel, (asInt (gprs .r8) < 0 → file = none) →
    (applicationMmap gprs allowed answers file fuel).Delivers → env.Owns (gprs .r8)

/-- The calls that get what is asked. The bit of a negative number is so far behind the
others that the bitmap does not have it. -/
structure Filterable (serves : Nat → GpFrame → Bool) (env : SyscallEnv) (allowed : Bool) (n : Nat)
    (gprs : GpFrame) : Prop where
  negative : ¬ Foreign env n gprs → n ∉ fdUsers → gprs .rdi ≠ -1 →
    ∀ r ∈ descriptorArgs n, asInt (gprs r) < 0 → env.Owns (gprs r)
  served : Foreign env n gprs → serves n (Function.update gprs .rdi (-1)) = false
  mmap : n = nrMmap → env.Owns (gprs .r8) ∨ asInt (gprs .r8) ≤ 0 ∨
    refusedMapping (gprs .rdi).toNat (roundUp (gprs .rsi).toNat) (gprs .r10).toNat TS_APPLICATION
      allowed

/-! ## The prehandlers -/

/-- The first prehandler is the only one that lets negative numbers pass. -/
theorem deniesFd_iff :
    DeniesFd env n gprs ↔
      ∃ r ∈ descriptorArgs n, (n ∈ fdUsers → 0 ≤ asInt (gprs r)) ∧ ¬ env.Owns (gprs r) := by
  by_cases h1 : n ∈ fdUsers
  · obtain ⟨h2, h3, h4⟩ := fdUsers_disjoint n h1
    simp [DeniesFd, descriptorArgs, h1, h2, h3, h4]
  by_cases h2 : n ∈ fdUsersSecondArgument
  · obtain ⟨h3, h4⟩ := fdUsersSecond_disjoint n h2
    simp [DeniesFd, descriptorArgs, h1, h2, h3, h4]
  by_cases h3 : n ∈ fdUsersFirstSecondArgument
  · have h4 := fdUsersFirstSecond_disjoint n h3
    simp [DeniesFd, descriptorArgs, h1, h2, h3, h4, imp_iff_not_or]
  · by_cases h4 : n ∈ fdUsersFirstThirdArgument <;>
      simp [DeniesFd, descriptorArgs, h1, h2, h3, h4, imp_iff_not_or]

theorem Foreign.deniesFd (h : Foreign env n gprs) : DeniesFd env n gprs := by
  obtain ⟨r, hr, hpos, howns⟩ := h
  exact deniesFd_iff.mpr ⟨r, hr, fun _ => hpos, howns⟩

theorem runHandlers_denied (env : SyscallEnv) (n : Nat) (gprs : GpFrame) :
    runHandlers env (prehandlers n) gprs 0 = some (denied env n gprs, 0) := by
  have h := runHandlers_prehandlers env n gprs []
  rw [List.append_nil] at h
  exact h

theorem denied_eq_self_iff :
    denied env n gprs = gprs ↔ DeniesFd env n gprs → gprs .rdi = -1 := by
  constructor
  · intro h hdenies
    rw [← h]
    exact denied_pos hdenies
  · intro h
    by_cases hdenies : DeniesFd env n gprs
    · rw [denied, if_pos hdenies]
      exact Function.update_eq_self_iff.mpr (h hdenies).symm
    · exact denied_neg hdenies

theorem kept_iff :
    (¬ Foreign env n gprs → runHandlers env (prehandlers n) gprs 0 = some (gprs, 0)) ↔
      (¬ Foreign env n gprs → n ∉ fdUsers → gprs .rdi ≠ -1 →
        ∀ r ∈ descriptorArgs n, asInt (gprs r) < 0 → env.Owns (gprs r)) := by
  refine imp_congr_right fun hforeign => ?_
  rw [runHandlers_denied]
  simp only [Option.some.injEq, Prod.mk.injEq, and_true, denied_eq_self_iff, deniesFd_iff]
  constructor
  · intro h hn hrdi r hr _
    by_contra howns
    exact hrdi (h ⟨r, hr, fun hmem => absurd hmem hn, howns⟩)
  · rintro h ⟨r, hr, hpos, howns⟩
    by_contra hrdi
    -- a number that is not negative is the application's, as no descriptor is foreign
    have hneg : asInt (gprs r) < 0 := by
      by_contra hge
      exact hforeign ⟨r, hr, Int.not_lt.mp hge, howns⟩
    have hn : n ∉ fdUsers := fun hmem => absurd (hpos hmem) (Int.not_le.mpr hneg)
    exact howns (h hn hrdi r hr hneg)

theorem fails_iff :
    (Foreign env n gprs →
        ∃ gprs', runHandlers env (prehandlers n) gprs 0 = some (gprs', 0) ∧
          serves n gprs' = false) ↔
      (Foreign env n gprs → serves n (Function.update gprs .rdi (-1)) = false) := by
  refine imp_congr_right fun hforeign => ?_
  rw [runHandlers_denied, denied, if_pos hforeign.deniesFd]
  constructor
  · rintro ⟨gprs', heq, hserved⟩
    cases heq
    exact hserved
  · exact fun hserved => ⟨_, rfl, hserved⟩

/-! ## mmap -/

theorem MmapRun.not_delivers {run : MmapRun} (h : run.reads = []) : ¬ run.Delivers := by
  rintro ⟨r, hr, -⟩
  rw [h] at hr
  cases hr

theorem mapFile_reads (size offset : Nat) (answers : MmapAnswers) (file : Option OpenFile)
    (fuel : Nat) :
    (mapFile size offset answers file fuel).reads = [] ∨
      (mapFile size offset answers file fuel).reads =
        (fillRun size offset answers file fuel).results := by
  cases hmmap : answers.mmap with
  | error e => exact .inl (by rw [mapFile, hmmap]; rfl)
  | mapped address pos =>
      right
      cases hended : (fillRun size offset answers file fuel).ended with
      | none => rw [mapFile_running hmmap hended, MmapRun.reads]
      | some e => rw [mapFile_returns hmmap hended, MmapRun.reads]

/-- Nothing is delivered from a descriptor that is not open. -/
theorem readLoop_none {size readlen fuel k : Nat} {answers : Nat → ReadAnswer} {m : Contents} :
    ∀ r ∈ (readLoop size answers fuel k readlen none m).results, isFailure r = true := by
  induction fuel generalizing k readlen m with
  | zero => nofun
  | succ fuel ih =>
      intro r hr
      simp only [readLoop, kernelRead, Errno.word_ne_zero, if_false] at hr
      split at hr
      · rcases List.mem_cons.mp hr with rfl | hrest
        · exact isFailure_word EBADF
        · exact ih r hrest
      · cases hr

theorem mapFile_none {size offset : Nat} {answers : MmapAnswers} {fuel : Nat} :
    ¬ (mapFile size offset answers none fuel).Delivers := by
  rintro ⟨r, hr, -, hok⟩
  rcases mapFile_reads size offset answers none fuel with h | h
  · rw [h] at hr
    cases hr
  · rw [h] at hr
    exact absurd (readLoop_none r hr) (ne_true_of_eq_false hok)

/-- A byte is there to be read, and `lseek` leaves the descriptor where it is. -/
def oneByte : OpenFile := ⟨[0], 0, by decide, by decide⟩

def readable : MmapAnswers := { willing with set := some ⟨29, by decide, by decide⟩ }

theorem mapFile_readable {size offset : Nat} (hsize : 0 < size) :
    (mapFile size offset readable (some oneByte) 1).Delivers := by
  have hread : kernelRead (some oneByte) (size - 0) (readable.reads 0) =
      ⟨1, [0], some (oneByte.advance size 1)⟩ := by
    have hlen : min size 1 = 1 := by omega
    simp only [readable, willing, kernelRead, OpenFile.delivered, Nat.max_self, Nat.sub_zero, hlen]
    rfl
  have hrun : fillRun size offset readable (some oneByte) 1 = ⟨[1], none⟩ := by
    have hcur : (kernelLseek (some oneByte) 0 .SEEK_CUR readable.cur).2 = some oneByte :=
      congrArg Prod.snd kernelLseek_cur
    rw [fillRun, hcur]
    exact readLoop_next hsize hread Nat.one_ne_zero
  rw [mapFile_running rfl (by rw [hrun]), hrun]
  exact ⟨1, List.mem_singleton_self 1, by decide, by decide⟩

theorem mmap_filtered_iff :
    (∀ answers file fuel, (asInt (gprs .r8) < 0 → file = none) →
        (applicationMmap gprs allowed answers file fuel).Delivers → env.Owns (gprs .r8)) ↔
      (env.Owns (gprs .r8) ∨ asInt (gprs .r8) ≤ 0 ∨
        refusedMapping (gprs .rdi).toNat (roundUp (gprs .rsi).toNat) (gprs .r10).toNat
          TS_APPLICATION allowed) := by
  constructor
  · intro h
    by_contra hnot
    simp only [not_or] at hnot
    obtain ⟨howns, hpos, haccepted⟩ := hnot
    refine howns (h readable (some oneByte) 1 (fun hneg => absurd hneg (by omega)) ?_)
    have hway := mmapWay (gprs .rdi).toNat (roundUp (gprs .rsi).toNat) (gprs .r10).toNat
      (asInt (gprs .r8)) (gprs .r9).toNat TS_APPLICATION allowed readable (some oneByte) 1
    rw [applicationMmap]
    generalize secpolineMmapContents _ _ _ _ _ _ _ _ _ _ = run at hway ⊢
    cases hway with
    | aborts hrefused => exact absurd hrefused haccepted
    | refused hrefused => exact absurd hrefused haccepted
    | noFile hfd => exact absurd hfd (by omega)
    | mapsFile =>
        exact mapFile_readable (Nat.pos_of_ne_zero fun hzero =>
          haccepted (.inr (.inr (.inl hzero))))
  · intro h answers file fuel hfile hdelivers
    rcases h with howns | h
    · exact howns
    have hway := mmapWay (gprs .rdi).toNat (roundUp (gprs .rsi).toNat) (gprs .r10).toNat
      (asInt (gprs .r8)) (gprs .r9).toNat TS_APPLICATION allowed answers file fuel
    rw [applicationMmap] at hdelivers
    generalize secpolineMmapContents _ _ _ _ _ _ _ _ _ _ = run at hway hdelivers
    cases hway with
    | aborts => exact absurd hdelivers (MmapRun.not_delivers rfl)
    | refused => exact absurd hdelivers (MmapRun.not_delivers rfl)
    | noFile => exact absurd hdelivers (MmapRun.not_delivers rfl)
    | mapsFile haccepted hfd =>
        have hneg := h.resolve_right haccepted
        rw [hfile (by omega)] at hdelivers
        exact absurd hdelivers mapFile_none

/-! ## The filter -/

/-- A call is filtered as asked unless it has a negative number at a place that another
prehandler than the first one looks at, or it is refused and the kernel serves it with -1 as
its first argument, or it maps a descriptor that is not the application's. -/
theorem filtered_iff (serves : Nat → GpFrame → Bool) (env : SyscallEnv) (allowed : Bool)
    (n : Nat) (gprs : GpFrame) :
    Filtered serves env allowed n gprs ↔ Filterable serves env allowed n gprs := by
  constructor
  · rintro ⟨hkept, hfails, hmmap⟩
    exact ⟨kept_iff.mp hkept, fails_iff.mp hfails, fun hn => mmap_filtered_iff.mp (hmmap hn)⟩
  · rintro ⟨hnegative, hserved, hmmap⟩
    exact ⟨kept_iff.mpr hnegative, fails_iff.mpr hserved,
      fun hn => mmap_filtered_iff.mpr (hmmap hn)⟩

/-- The application has opened 0 to 2. -/
def threeDescriptors : SyscallEnv := readEnv ⟨[0b111#8]⟩

/-- Arguments in the order of a call, and nothing else in the array. -/
def callFrame (rdi rsi rdx r10 r8 : Quad) : GpFrame
  | .rdi => rdi
  | .rsi => rsi
  | .rdx => rdx
  | .r10 => r10
  | .r8 => r8
  | _ => 0

/-- `renameat(AT_FDCWD, .., AT_FDCWD, ..)` does not come to the kernel as it is;
`renameat(AT_FDCWD, "/..", 5, ..)` does with the descriptor of the monitor, and does not fail
in a kernel that does not look at the first one, as the path is absolute; and `mmap` reads
from that descriptor. -/
theorem filter_differs :
    (∃ gprs', runHandlers threeDescriptors (prehandlers 264)
          (callFrame (-100) 0x1000 (-100) 0x2000 0) 0 = some (gprs', 0) ∧
        gprs' .rdi = -1 ∧ ¬ Foreign threeDescriptors 264
          (callFrame (-100) 0x1000 (-100) 0x2000 0)) ∧
      (∀ serves : Nat → GpFrame → Bool, serves 264 (callFrame (-1) 0x1000 5 0x2000 0) = true →
        ¬ Filtered serves threeDescriptors true 264 (callFrame (-100) 0x1000 5 0x2000 0)) ∧
      (applicationMmap (callFrame 0 4096 1 2 5) true readable (some oneByte) 2).Delivers := by
  refine ⟨⟨_, rfl, rfl, by decide⟩, fun serves hserves hfiltered => ?_, ?_⟩
  · obtain ⟨gprs', hrun, hserved⟩ := hfiltered.fails ⟨.rdx, by decide, by decide, by decide⟩
    have hframe : gprs' = callFrame (-1) 0x1000 5 0x2000 0 := by
      cases hrun
      funext r
      cases r <;> rfl
    rw [hframe, hserves] at hserved
    cases hserved
  exact ⟨1, by decide +kernel, by decide, by decide⟩

end Secpoline
