import Secpoline.Lib.NullTerminated
import Secpoline.Proofs.Execve

/-!
# The arrays of an execve

The arrays that are filled and handed to the kernel hold what the handler says it
passes on, each ended by a null pointer (`syscallHandlerExecveArrays_eq`). So it is
enough to see what the handler reads. The arrays of the application end at a null
pointer, too, and there may be nothing behind it. `argv` is counted from its second
element on only after its first one has been looked at; `envp` is counted without
that, and in an environment without variables the null pointer is stepped over.
-/

namespace Secpoline

open Lib

variable {paths : MonitorPaths} {access : CString → Bool} {file : CString}

/-! ## Copying -/

theorem dupStrings_cons_eq (p : Option CString) (ps : CStrings) :
    dupStrings (p :: ps) = p.bind fun s => (dupStrings ps).map (s :: ·) := by
  cases p with
  | none => rfl
  | some s =>
      simp only [dupStrings, List.mapM_cons]
      cases ps.mapM id <;> rfl

theorem dupStrings_map_some (xs : List CString) : dupStrings (xs.map some) = some xs := by
  induction xs with
  | nil => rfl
  | cons x xs ih => rw [List.map_cons, dupStrings_cons_eq, ih]; rfl

theorem putPointer_append (pre : CStrings) (s : CString) (rest : CStrings) :
    putPointer (pre ++ none :: rest) pre.length s = some (pre ++ some s :: rest) := by
  simp [putPointer]

/-- Copying into an array that is still null from the place on. -/
theorem copyPointers_eq (source : CStrings) (offset i n m : Nat) (pre : CStrings)
    (hn : n = 0 ∨ i + n ≤ source.length) (hpre : pre.length = i + offset) :
    copyPointers source offset i n (pre ++ List.replicate (n + m) none) =
      (dupStrings ((source.drop i).take n)).map fun ss =>
        pre ++ ss.map some ++ List.replicate m none := by
  induction n generalizing i pre with
  | zero => simp [copyPointers, dupStrings]
  | succ n ih =>
      have hi : i < source.length := by omega
      rw [List.drop_eq_getElem_cons hi, List.take_succ_cons, dupStrings_cons_eq, copyPointers,
        List.getElem?_eq_getElem hi, Option.join_some]
      cases source[i] with
      | none => rfl
      | some s =>
          have hput : putPointer (pre ++ List.replicate (n + 1 + m) none) (i + offset) s =
              some ((pre ++ [some s]) ++ List.replicate (n + m) none) := by
            rw [Nat.add_right_comm, List.replicate_succ, ← hpre, putPointer_append,
              List.append_assoc]
            rfl
          simp only [hput]
          rw [ih (i + 1) (pre ++ [some s]) (by omega) (by simp [hpre]; omega), Option.bind_some,
            Option.map_map]
          congr 1
          funext ss
          simp

theorem newArgvArray_eq (argv : CStrings) {argc : Nat} (hpos : 0 < argc)
    (hargc : argc = 1 ∨ argc ≤ argv.length) :
    newArgvArray paths file argv argc =
      (dupStrings ((argv.take argc).drop 1)).map fun args =>
        terminated (paths.loader :: paths.secpoline :: file :: args) [] := by
  have hcalloc : callocPointers (argc + 3) =
      none :: none :: none :: List.replicate (argc - 1 + 1) none := by
    rw [Nat.sub_add_cancel hpos]
    rfl
  simp only [newArgvArray, hcalloc]
  rw [List.drop_take]
  exact copyPointers_eq argv 2 1 (argc - 1) 1
    [some paths.loader, some paths.secpoline, some file] (by omega) rfl

theorem sanitizePointers_terminated (xs : List CString) :
    sanitizePointers (terminated xs []) = some (terminated (xs.map sanitizeVar) []) := by
  induction xs with
  | nil => rfl
  | cons x xs ih =>
      show (sanitizePointers (terminated xs [])).map (some (sanitizeVar x) :: ·) = _
      rw [ih]
      rfl

theorem countPointers_le {ps : CStrings} {n : Nat} (h : countPointers ps = some n) :
    n ≤ ps.length := by
  cases ps with
  | nil => cases h
  | cons p ps =>
      obtain ⟨m, hm, rfl⟩ := Option.map_eq_some_iff.mp h
      have hlt := (List.findIdx?_eq_some_iff_findIdx_eq.mp hm).1
      exact Nat.succ_le_succ (Nat.le_of_lt hlt)

theorem newEnvpArray_eq (envp : CStrings) :
    newEnvpArray envp = (newEnvp (some envp)).map (terminated · []) := by
  simp only [newEnvpArray, newEnvp]
  cases hcount : countPointers envp with
  | none => rfl
  | some n =>
      have hcopy := copyPointers_eq envp 0 0 n 1 []
        (.inr (by simpa using countPointers_le hcount)) rfl
      simp only [List.nil_append, List.drop_zero] at hcopy
      simp only [Option.bind_eq_bind, Option.bind_some, callocPointers, hcopy]
      cases dupStrings (envp.take n) with
      | none => rfl
      | some ss => exact sanitizePointers_terminated ss

/-! ## The handler -/

/-- The arrays for what the handler passes on. -/
def ExecveOutcome.arrays (envp : Option CStrings) : ExecveOutcome → ExecveCall
  | .fault => .fault
  | .refused => .refused
  | .exec argv env => .exec (terminated argv []) (envp.map fun _ => terminated env [])

theorem countArgs_pos {argv : Option CStrings} {argc : Nat} (h : countArgs argv = some argc) :
    0 < argc ∧ (argc = 1 ∨ argc ≤ (argv.getD []).length) := by
  unfold countArgs at h
  split at h
  · cases h
    exact ⟨Nat.one_pos, .inl rfl⟩
  · cases h
  · cases h
    exact ⟨Nat.one_pos, .inl rfl⟩
  · next a rest =>
      refine ⟨?_, .inr (countPointers_le h)⟩
      obtain ⟨m, -, rfl⟩ := Option.map_eq_some_iff.mp h
      exact Nat.succ_pos m

/-- What is said of the strings is true of the arrays, each with its null pointer. -/
theorem syscallHandlerExecveArrays_eq (filename : Option CString) (argv envp : Option CStrings) :
    syscallHandlerExecveArrays paths access filename argv envp =
      (syscallHandlerExecve paths access filename argv envp).arrays envp := by
  simp only [syscallHandlerExecveArrays, syscallHandlerExecve]
  cases hargc : countArgs argv with
  | none => rfl
  | some argc =>
      cases filename with
      | none => rfl
      | some file =>
          obtain ⟨hpos, hle⟩ := countArgs_pos hargc
          simp only [newArgvArray_eq (argv.getD []) hpos hle]
          split
          · cases dupStrings (((argv.getD []).take argc).drop 1) with
            | none => cases newEnvp envp <;> rfl
            | some args =>
                cases envp with
                | none => rfl
                | some envp =>
                    simp only [Option.map_some, newEnvpArray_eq]
                    cases newEnvp (some envp) <;> rfl
          · rfl

/-! ## Arrays that end at a null pointer -/

theorem take_terminated (xs : List CString) (rest : CStrings) :
    (terminated xs rest).take xs.length = xs.map some := by
  simp [terminated]

theorem countPointers_terminated (x : CString) (xs : List CString) (rest : CStrings) :
    countPointers (terminated (x :: xs) rest) = some (xs.length + 1) := by
  show ((terminated xs rest).findIdx? Option.isNone).map (· + 1) = _
  rw [findIdx?_terminated]
  rfl

theorem countArgs_terminated (xs : List CString) (rest : CStrings) :
    countArgs (some (terminated xs rest)) = some (xs.length - 1 + 1) := by
  cases xs with
  | nil => rfl
  | cons x xs => exact countPointers_terminated x xs rest

/-- Of the arguments the first one is replaced. -/
theorem dupStrings_args (xs : List CString) (rest : CStrings) :
    dupStrings (((terminated xs rest).take (xs.length - 1 + 1)).drop 1) = some (xs.drop 1) := by
  cases xs with
  | nil => rfl
  | cons x xs =>
      show dupStrings (((terminated (x :: xs) rest).take (x :: xs).length).drop 1) = _
      rw [take_terminated]
      exact dupStrings_map_some xs

theorem newEnvp_terminated (x : CString) (xs : List CString) (rest : CStrings) :
    newEnvp (some (terminated (x :: xs) rest)) = some ((x :: xs).map sanitizeVar) := by
  simp only [newEnvp, countPointers_terminated]
  show (dupStrings ((terminated (x :: xs) rest).take (x :: xs).length)).map _ = _
  rw [take_terminated, dupStrings_map_some]
  rfl

/-! ## What is asked of an execve -/

/-- An entry of the environment that is passed on: of `SECPOLINE_LD_PRELOAD` the value
is left out. -/
def blankPreload (e : CString) : CString :=
  if (secpolineLdPreload ++ ['=']).isPrefixOf e then secpolineLdPreload ++ ['='] else e

/-- The loader is run on the program, with the arguments and the environment that the
application gave. -/
def faithfulExecve (paths : MonitorPaths) (access : CString → Bool) (file : CString)
    (argv envp : Option (List CString)) : ExecveCall :=
  if access file then
    .exec (terminated (paths.loader :: paths.secpoline :: file :: (argv.getD []).drop 1) [])
      (envp.map fun env => terminated (env.map blankPreload) [])
  else .refused

theorem sanitizeVar_eq (e : CString) : sanitizeVar e = blankPreload e := by
  unfold sanitizeVar blankPreload
  by_cases hprefix : (secpolineLdPreload ++ ['=']) <+: e
  · obtain ⟨value, rfl⟩ := hprefix
    have hsplit : splitVar (secpolineLdPreload ++ ['='] ++ value) =
        some (secpolineLdPreload, value) := by
      rw [List.append_assoc]
      exact splitVar_append (by decide)
    rw [hsplit, if_pos (List.isPrefixOf_iff_prefix.mpr (List.prefix_append _ _))]
    exact if_pos rfl
  · rw [if_neg (fun h => hprefix (List.isPrefixOf_iff_prefix.mp h))]
    split
    · next name value hsplit =>
        obtain ⟨rfl, -⟩ := eq_of_splitVar hsplit
        refine if_neg fun hname => hprefix ⟨value, ?_⟩
        rw [hname, List.append_assoc]
        rfl
    · rfl

theorem syscallHandlerExecve_terminated (argv : Option (List CString)) (behind : CStrings)
    (envp : Option CStrings) :
    syscallHandlerExecve paths access (some file) (argv.map (terminated · behind)) envp =
      if access file then
        (newEnvp envp).elim .fault fun env =>
          .exec (paths.loader :: paths.secpoline :: file :: (argv.getD []).drop 1) env
      else .refused := by
  cases argv with
  | none =>
      simp only [syscallHandlerExecve, Option.map_none, countArgs]
      split
      · cases newEnvp envp <;> rfl
      · rfl
  | some xs =>
      simp only [syscallHandlerExecve, Option.map_some, countArgs_terminated, Option.getD_some,
        dupStrings_args]
      split
      · cases newEnvp envp <;> rfl
      · rfl

/-- Whatever is behind the null pointers, none of it is read and everything is passed on,
exactly if the environment is not an empty array. -/
theorem execve_faithful_iff (paths : MonitorPaths) (access : CString → Bool) (file : CString)
    (argv envp : Option (List CString)) :
    (∀ behindArgv behindEnvp,
        syscallHandlerExecveArrays paths access (some file)
            (argv.map (terminated · behindArgv)) (envp.map (terminated · behindEnvp)) =
          faithfulExecve paths access file argv envp) ↔
      (access file = true → envp ≠ some []) := by
  simp only [syscallHandlerExecveArrays_eq, syscallHandlerExecve_terminated, faithfulExecve]
  by_cases haccess : access file = true
  · simp only [haccess, if_true, true_implies]
    match envp with
    | none => exact ⟨fun _ => nofun, fun _ _ _ => rfl⟩
    | some [] =>
        -- nothing can be read behind the null pointer
        exact ⟨fun h => (nomatch (h [] [])), fun h => absurd rfl h⟩
    | some (e :: env) =>
        refine ⟨fun _ => nofun, fun _ _ behindEnvp => ?_⟩
        simp only [Option.map_some, newEnvp_terminated, ExecveOutcome.arrays]
        rw [List.map_congr_left fun e _ => sanitizeVar_eq e]
        rfl
  · simp only [haccess]
    exact ⟨fun _ h => (nomatch h), fun _ _ _ => rfl⟩

/-- What is behind the array decides what the handler does with an environment that has
no variables. -/
theorem execve_faults_empty_environment :
    syscallHandlerExecveArrays ⟨"loader".toList, "secpoline".toList⟩ (fun _ => true)
        (some "prog".toList) none (some (terminated [] [])) = .fault ∧
      faithfulExecve ⟨"loader".toList, "secpoline".toList⟩ (fun _ => true) "prog".toList none
        (some []) =
          .exec (terminated ["loader".toList, "secpoline".toList, "prog".toList] [])
            (some (terminated [] [])) :=
  ⟨rfl, rfl⟩

end Secpoline
