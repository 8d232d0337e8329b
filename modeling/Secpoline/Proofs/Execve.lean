import Secpoline.Model.Execve

/-!
# What an execve of the application comes to

The handler touches one variable only. Every other one reaches the loader as the
application set it, and one of them, `SECPOLINE`, decides whether the loader loads
secpoline at all.
-/

namespace Secpoline

/-! ## Variables -/

theorem splitVar_append {name value : CString} (h : '=' ∉ name) :
    splitVar (name ++ '=' :: value) = some (name, value) := by
  induction name with
  | nil => rfl
  | cons c name ih =>
      have hc : c ≠ '=' := fun hc => h (hc ▸ List.mem_cons_self)
      have hname : '=' ∉ name := fun hmem => h (List.mem_cons_of_mem _ hmem)
      rw [List.cons_append, splitVar, if_neg hc, ih hname]
      rfl

theorem eq_of_splitVar {e name value : CString} (h : splitVar e = some (name, value)) :
    e = name ++ '=' :: value ∧ '=' ∉ name := by
  induction e generalizing name value with
  | nil => cases h
  | cons c cs ih =>
      rw [splitVar] at h
      split at h
      · rename_i hc
        cases h
        exact ⟨congrArg (· :: cs) hc, nofun⟩
      · rename_i hc
        obtain ⟨⟨name', value'⟩, hcs, h⟩ := Option.map_eq_some_iff.mp h
        cases h
        obtain ⟨rfl, hname⟩ := ih hcs
        exact ⟨rfl, fun hmem => (List.mem_cons.mp hmem).elim (fun h => hc h.symm) hname⟩

theorem valueOf_append {name value : CString} (h : '=' ∉ name) (name' : CString) :
    valueOf name' (name ++ '=' :: value) = if name = name' then some value else none := by
  rw [valueOf, splitVar_append h]

/-- One variable is emptied, and the others keep their value. -/
theorem valueOf_sanitizeVar (name e : CString) :
    valueOf name (sanitizeVar e) =
      (valueOf name e).map fun value => if name = secpolineLdPreload then [] else value := by
  unfold sanitizeVar
  split
  · rename_i n value hsplit
    obtain ⟨rfl, hn⟩ := eq_of_splitVar hsplit
    split
    · rename_i hpreload
      rw [valueOf_append hn, valueOf_append hn, hpreload]
      split
      · rename_i hname
        rw [Option.map_some, if_pos hname.symm]
      · rfl
    · rename_i hpreload
      rw [valueOf_append hn]
      split
      · rename_i hname
        rw [Option.map_some, if_neg (hname ▸ hpreload)]
      · rfl
  · rename_i hsplit
    rw [valueOf, hsplit]
    rfl

/-- The loader reads every other variable as the application set it. -/
theorem getenv_sanitizeVar {name : CString} (h : name ≠ secpolineLdPreload) (env : List CString) :
    getenv (env.map sanitizeVar) name = getenv env name := by
  unfold getenv
  rw [List.findSome?_map]
  congr 1
  funext e
  rw [Function.comp_apply, valueOf_sanitizeVar]
  simp only [if_neg h, Option.map_id']

/-! ## The handler -/

/-- The strings of an array. -/
def strings : CStrings → List CString
  | some s :: rest => s :: strings rest
  | _ => []

theorem dupStrings_cons {p : Option CString} {ps : CStrings} {ss : List CString}
    (h : dupStrings (p :: ps) = some ss) :
    ∃ s ss', p = some s ∧ dupStrings ps = some ss' ∧ ss = s :: ss' := by
  unfold dupStrings at h ⊢
  rw [List.mapM_cons] at h
  obtain ⟨s, hp, h⟩ := Option.bind_eq_some_iff.mp h
  obtain ⟨ss', hps, h⟩ := Option.bind_eq_some_iff.mp h
  exact ⟨s, ss', hp, hps, (Option.some.inj h).symm⟩

theorem strings_of_take {ps : CStrings} {n : Nat} {ss : List CString}
    (hn : ps.findIdx? Option.isNone = some n) (hss : dupStrings (ps.take n) = some ss) :
    strings ps = ss := by
  induction ps generalizing n ss with
  | nil => cases hn
  | cons p ps ih =>
      rw [List.findIdx?_cons] at hn
      cases p with
      | none =>
          cases hn
          exact Option.some.inj hss
      | some s =>
          obtain ⟨m, hm, rfl⟩ := Option.map_eq_some_iff.mp hn
          obtain ⟨s', ss', hs, hss', rfl⟩ := dupStrings_cons hss
          cases hs
          rw [strings, ih hm hss']

/-- What the handler passes on is the application's environment, with one variable emptied. -/
theorem newEnvp_eq {envp : Option CStrings} {env : List CString} (h : newEnvp envp = some env) :
    env = (strings (envp.getD [])).map sanitizeVar := by
  unfold newEnvp at h
  split at h
  · exact (Option.some.inj h).symm
  · rename_i ps
    split at h
    · cases h
    · rename_i envpc hcount
      obtain ⟨ss, hss, rfl⟩ := Option.map_eq_some_iff.mp h
      cases ps with
      | nil => cases hcount
      | cons p ps =>
          obtain ⟨n, hn, rfl⟩ := Option.map_eq_some_iff.mp hcount
          obtain ⟨s, ss', rfl, hss', rfl⟩ := dupStrings_cons hss
          rw [Option.getD_some, strings, strings_of_take hn hss']

theorem syscallHandlerExecve_exec {paths : MonitorPaths} {access : CString → Bool}
    {filename : Option CString} {argv envp : Option CStrings} {argv' env' : List CString}
    (h : syscallHandlerExecve paths access filename argv envp = .exec argv' env') :
    (∃ rest, argv' = paths.loader :: paths.secpoline :: rest) ∧
      env' = (strings (envp.getD [])).map sanitizeVar := by
  unfold syscallHandlerExecve at h
  split at h
  · split at h
    · split at h
      · rename_i henv
        cases h
        exact ⟨⟨_, rfl⟩, newEnvp_eq henv⟩
      · cases h
    · cases h
  · cases h

/-! ## The loader -/

theorem loaderMain_eq (paths : MonitorPaths) (rest env : List CString) (fresh : Option CString) :
    loaderMain (paths.loader :: paths.secpoline :: rest) env fresh =
      if getenv env secpolineVar = some disable then .skips
      else .loads (libcLoaderName env) paths.secpoline (updateLdpreload env fresh) := by
  unfold loaderMain
  split
  · rename_i hnone
    rw [hnone]
    rfl
  · rename_i value hvalue
    rw [hvalue]
    by_cases hd : value = disable
    · rw [if_pos (congrArg some hd), if_neg (not_not.mpr hd)]
    · rw [if_neg (fun h => hd (Option.some.inj h)), if_pos hd]
      rfl

/-- The arguments and the environment that the loader gets make it load secpoline
first, without preloading anything into it. -/
structure Interposed (paths : MonitorPaths) (argv env : List CString) : Prop where
  loads : ∀ fresh, ∃ libc environ, loaderMain argv env fresh = .loads libc paths.secpoline environ
  preload : ∀ e ∈ env, ∀ value, valueOf secpolineLdPreload e = some value → value = []

theorem execve_interposed_iff {paths : MonitorPaths} {access : CString → Bool}
    {filename : Option CString} {argv envp : Option CStrings} {argv' env' : List CString}
    (h : syscallHandlerExecve paths access filename argv envp = .exec argv' env') :
    Interposed paths argv' env' ↔
      getenv (strings (envp.getD [])) secpolineVar ≠ some disable := by
  obtain ⟨⟨rest, rfl⟩, rfl⟩ := syscallHandlerExecve_exec h
  have hvar : getenv ((strings (envp.getD [])).map sanitizeVar) secpolineVar =
      getenv (strings (envp.getD [])) secpolineVar :=
    getenv_sanitizeVar (by decide) _
  constructor
  · rintro ⟨hloads, -⟩ hdisable
    obtain ⟨libc, environ, hmain⟩ := hloads none
    rw [loaderMain_eq, hvar, if_pos hdisable] at hmain
    cases hmain
  · intro hne
    refine ⟨fun fresh => ⟨_, _, by rw [loaderMain_eq, hvar, if_neg hne]⟩,
      fun e he value hvalue => ?_⟩
    obtain ⟨e, -, rfl⟩ := List.mem_map.mp he
    rw [valueOf_sanitizeVar] at hvalue
    obtain ⟨value, -, rfl⟩ := Option.map_eq_some_iff.mp hvalue
    exact if_pos rfl

theorem execve_interposed_preload :
    ∃ argv env, syscallHandlerExecve ⟨"loader".toList, "secpoline".toList⟩ (fun _ => true)
        (some "prog".toList) none (some [some "SECPOLINE_LD_PRELOAD=evil.so".toList, none]) =
          .exec argv env ∧
      Interposed ⟨"loader".toList, "secpoline".toList⟩ argv env := by
  refine ⟨_, _, rfl, ?_⟩
  exact (@execve_interposed_iff _ (fun _ => true) (some "prog".toList) none
    (some [some "SECPOLINE_LD_PRELOAD=evil.so".toList, none]) _ _ rfl).mpr (by decide)

/-- The application disables secpoline for the program that it runs. -/
theorem execve_not_interposed :
    ∃ argv env, syscallHandlerExecve ⟨"loader".toList, "secpoline".toList⟩ (fun _ => true)
        (some "prog".toList) none (some [some "SECPOLINE=DISABLE".toList, none]) =
          .exec argv env ∧
      loaderMain argv env none = .skips ∧
      ¬ Interposed ⟨"loader".toList, "secpoline".toList⟩ argv env := by
  refine ⟨_, _, rfl, by decide, fun h => ?_⟩
  obtain ⟨libc, environ, hmain⟩ := h.loads none
  rw [loaderMain_eq, if_pos (by decide)] at hmain
  cases hmain

end Secpoline
