import Secpoline.Lib.NullTerminated
import Secpoline.Proofs.Execve

/-!
# The environment of secpoline

`update_ldpreload` writes place by place: what it puts into the place of a variable
depends on that variable alone (`updateVar`), and the variables that are new come
behind. So the array ends at its last place, and not before, exactly if no variable is
dropped and the last place, which is not written when the array has grown, happens to
be null (`updateLdpreload_eq_terminated`). Everything else is said of the variables in
front of that place, one variable at a time.

The setting that turns rseq off is appended to `GLIBC_TUNABLES` without a colon: it
joins the last setting that is there.
-/

namespace Secpoline

open Lib

variable {env : List CString} {preload fresh : Option CString} {e e' : CString}

/-! ## Settings -/

def rseqOff : CString := "glibc.pthread.rseq=0".toList

/-- The settings of `GLIBC_TUNABLES`. -/
def settings (value : CString) : List CString := value.splitOn ':'

/-- The last one of them; it is empty if the value is, or ends with a colon. -/
def lastSetting (value : CString) : CString := (settings value).getLast?.getD []

theorem settings_ne_nil (value : CString) : settings value ≠ [] := List.splitOnP_ne_nil _ _

theorem settings_cons (c : Char) (value : CString) :
    settings (c :: value) =
      if c = ':' then [] :: settings value else (settings value).modifyHead (c :: ·) := by
  simp only [settings, List.splitOn, List.splitOnP_cons_eq_if_modifyHead, beq_iff_eq]

/-- What is appended joins the last setting. -/
theorem settings_append {w : CString} (hw : ':' ∉ w) (value : CString) :
    settings (value ++ w) = (settings value).dropLast ++ [lastSetting value ++ w] := by
  induction value with
  | nil =>
      show settings w = [w]
      exact List.splitOnP_eq_singleton fun c hc => by
        simpa using fun h : c = ':' => hw (h ▸ hc)
  | cons c value ih =>
      rw [List.cons_append, settings_cons, settings_cons, ih]
      obtain ⟨s, ss, hs⟩ := List.exists_cons_of_ne_nil (settings_ne_nil value)
      simp only [lastSetting, settings_cons, hs]
      split
      · simp
      · cases ss <;> simp

theorem rseqOff_mem_settings (value : CString) :
    rseqOff ∈ settings (value ++ rseqOff) ↔
      rseqOff ∈ (settings value).dropLast ∨ lastSetting value = [] := by
  rw [settings_append (by decide), List.mem_append, List.mem_singleton, List.self_eq_append_left]

/-! ## One variable -/

theorem splitVar_isSome : (splitVar e).isSome ↔ '=' ∈ e := by
  induction e with
  | nil => simp [splitVar]
  | cons c cs ih =>
      simp only [splitVar, List.mem_cons]
      split
      · next hc => simp [hc]
      · next hc => simp [ih, Ne.symm hc]

/-- Neither of the two variables that are changed. -/
def otherVar (e : CString) : Bool :=
  (valueOf ldPreload e).isNone && (valueOf glibcTunables e).isNone

/-- What `updateVar` does, by the name of the variable. -/
inductive Updated (preload : Option CString) : CString → Option CString → Prop where
  | noName {e : CString} (h : '=' ∉ e) : Updated preload e none
  | dropped (value : CString) (h : preload = none) :
      Updated preload (ldPreload ++ '=' :: value) none
  | replaced (value : CString) {v : CString} (h : preload = some v) :
      Updated preload (ldPreload ++ '=' :: value) (some (ldPreload ++ '=' :: v))
  | extended (value : CString) :
      Updated preload (glibcTunables ++ '=' :: value)
        (some (glibcTunables ++ '=' :: (value ++ rseqOff)))
  | other {e : CString} (hname : '=' ∈ e) (h : otherVar e = true) : Updated preload e (some e)

theorem updateVar_updated (preload : Option CString) (e : CString) :
    Updated preload e (updateVar preload e) := by
  simp only [updateVar]
  cases hsplit : splitVar e with
  | none => exact .noName fun h => by simpa [hsplit] using splitVar_isSome.mpr h
  | some p =>
      obtain ⟨name, value⟩ := p
      obtain ⟨rfl, hname⟩ := eq_of_splitVar hsplit
      simp only
      split
      · next hpre =>
          rw [hpre]
          cases preload with
          | none => exact .dropped value rfl
          | some v => exact .replaced value rfl
      · next hpre =>
          split
          · next htun =>
              rw [List.append_assoc, htun]
              exact .extended value
          · next htun =>
              refine .other (by simp) ?_
              simp only [otherVar, valueOf_append hname, if_neg hpre, if_neg htun]
              rfl

theorem valueOf_ldPreload (name value : CString) :
    valueOf name (ldPreload ++ '=' :: value) = if ldPreload = name then some value else none :=
  valueOf_append (by decide) name

theorem valueOf_glibcTunables (name value : CString) :
    valueOf name (glibcTunables ++ '=' :: value) =
      if glibcTunables = name then some value else none :=
  valueOf_append (by decide) name

theorem valueOf_of_other (h : otherVar e = true) :
    valueOf ldPreload e = none ∧ valueOf glibcTunables e = none := by
  simpa [otherVar] using h

theorem updateVar_eq_none :
    updateVar preload e = none ↔
      '=' ∉ e ∨ (valueOf ldPreload e).isSome ∧ preload = none := by
  have hu := updateVar_updated preload e
  generalize updateVar preload e = r at hu ⊢
  cases hu with
  | noName h => simp [h]
  | dropped value h => simp [h, valueOf_ldPreload]
  | replaced value h => simp [h]
  | extended value => simp [valueOf_glibcTunables, show glibcTunables ≠ ldPreload by decide]
  | other hname h => simp [hname, valueOf_of_other h]

theorem updateVar_preload {value : CString} (h : updateVar preload e = some e')
    (hvalue : valueOf ldPreload e' = some value) : preload = some value := by
  have hu := updateVar_updated preload e
  rw [h] at hu
  cases hu with
  | replaced _ hpre => rwa [valueOf_ldPreload, if_pos rfl, ← hpre] at hvalue
  | extended _ =>
      rw [valueOf_glibcTunables, if_neg (by decide)] at hvalue
      cases hvalue
  | other _ hother =>
      rw [(valueOf_of_other hother).1] at hvalue
      cases hvalue

theorem updateVar_tunables (h : updateVar preload e = some e') :
    valueOf glibcTunables e' = (valueOf glibcTunables e).map (· ++ rseqOff) := by
  have hu := updateVar_updated preload e
  rw [h] at hu
  cases hu with
  | replaced value hpre =>
      have hne : ldPreload ≠ glibcTunables := by decide
      simp only [valueOf_ldPreload, if_neg hne, Option.map_none]
  | extended value => simp only [valueOf_glibcTunables, if_true, Option.map_some]
  | other _ hother => simp only [(valueOf_of_other hother).2, Option.map_none]

theorem updateVar_other (hname : '=' ∈ e) :
    (updateVar preload e).toList.filter otherVar = [e].filter otherVar := by
  have hpre (value : CString) : otherVar (ldPreload ++ '=' :: value) = false := by
    simp [otherVar, valueOf_ldPreload]
  have htun (value : CString) : otherVar (glibcTunables ++ '=' :: value) = false := by
    simp [otherVar, valueOf_glibcTunables]
  have hu := updateVar_updated preload e
  generalize updateVar preload e = r at hu ⊢
  cases hu with
  | noName h => exact absurd hname h
  | dropped value h => simp [hpre]
  | replaced value h => simp [hpre]
  | extended value => simp [htun]
  | other _ h => rfl

/-! ## The array -/

/-- The variables that are new. -/
def addedVars (env : List CString) : List CString :=
  (if getenv env glibcTunables = none then [glibcTunables ++ '=' :: rseqOff] else []) ++
    match getenv env ldPreload, getenv env secpolineLdPreload with
    | none, some value => [ldPreload ++ '=' :: value]
    | _, _ => []

theorem updateLdpreload_eq (env : List CString) (fresh : Option CString) :
    updateLdpreload env fresh =
      (env.map (updateVar (getenv env secpolineLdPreload)) ++ (addedVars env).map some) ++
        [if addedVars env = [] then none else fresh] := by
  have hnew : "GLIBC_TUNABLES=glibc.pthread.rseq=0".toList = glibcTunables ++ '=' :: rseqOff := rfl
  simp only [updateLdpreload, addedVars, hnew]
  by_cases htun : getenv env glibcTunables = none
  · simp only [if_pos htun]
    cases getenv env ldPreload <;> cases getenv env secpolineLdPreload <;> simp
  · simp only [if_neg htun]
    cases getenv env ldPreload <;> cases getenv env secpolineLdPreload <;> simp

/-- The variables that the array holds, in their order. -/
def loaderVars (env : List CString) : List CString :=
  env.filterMap (updateVar (getenv env secpolineLdPreload)) ++ addedVars env

/-- No variable is dropped, and the last place is null. -/
theorem updateLdpreload_eq_terminated {vars : List CString} :
    updateLdpreload env fresh = terminated vars [] ↔
      vars = loaderVars env ∧
        (∀ e ∈ env, updateVar (getenv env secpolineLdPreload) e ≠ none) ∧
        (addedVars env = [] ∨ fresh = none) := by
  have hlast : (if addedVars env = [] then none else fresh) = none ↔
      addedVars env = [] ∨ fresh = none := by
    split <;> simp_all
  rw [updateLdpreload_eq, append_singleton_eq_terminated, hlast, and_assoc]
  simp [loaderVars, List.filterMap_map, List.filterMap_append]

/-- The array has grown. -/
theorem addedVars_eq_nil :
    addedVars env = [] ↔
      getenv env glibcTunables ≠ none ∧
        (getenv env ldPreload = none → getenv env secpolineLdPreload = none) := by
  simp only [addedVars, List.append_eq_nil_iff]
  cases getenv env ldPreload <;> cases getenv env secpolineLdPreload <;> simp

theorem mem_addedVars (h : e ∈ addedVars env) :
    (e = glibcTunables ++ '=' :: rseqOff ∧ getenv env glibcTunables = none) ∨
      ∃ value, e = ldPreload ++ '=' :: value ∧ getenv env secpolineLdPreload = some value := by
  simp only [addedVars, List.mem_append] at h
  rcases h with h | h
  · split at h
    · next hnone => exact .inl ⟨List.mem_singleton.mp h, hnone⟩
    · cases h
  · split at h
    · next value _ hvalue => exact .inr ⟨value, List.mem_singleton.mp h, hvalue⟩
    · cases h

/-! ## What is asked of the environment -/

/-- The variables that secpoline is to be started with. -/
structure LoaderEnv (env vars : List CString) : Prop where
  others : vars.filter otherVar = env.filter otherVar
  preload : ∀ e ∈ vars, ∀ value, valueOf ldPreload e = some value →
    getenv env secpolineLdPreload = some value
  tunables : ∃ e ∈ vars, ∃ value, valueOf glibcTunables e = some value ∧ rseqOff ∈ settings value

theorem getenv_eq_none {name : CString} :
    getenv env name = none ↔ ∀ e ∈ env, valueOf name e = none := by
  simp [getenv]

theorem filterMap_updateVar_others (hname : ∀ e ∈ env, '=' ∈ e) :
    (env.filterMap (updateVar preload)).filter otherVar = env.filter otherVar := by
  induction env with
  | nil => rfl
  | cons e env ih =>
      have hcons : (e :: env).filterMap (updateVar preload) =
          (updateVar preload e).toList ++ env.filterMap (updateVar preload) := by
        rw [List.filterMap_cons]
        cases updateVar preload e <;> rfl
      rw [hcons, List.filter_append, updateVar_other (hname e List.mem_cons_self),
        ih fun e he => hname e (List.mem_cons_of_mem _ he), ← List.filter_append,
        List.singleton_append]

theorem addedVars_others : (addedVars env).filter otherVar = [] := by
  refine List.filter_eq_nil_iff.mpr fun e he hother => ?_
  obtain ⟨hpre, htun⟩ := valueOf_of_other hother
  rcases mem_addedVars he with ⟨rfl, -⟩ | ⟨value, rfl, -⟩
  · rw [valueOf_glibcTunables, if_pos rfl] at htun
    cases htun
  · rw [valueOf_ldPreload, if_pos rfl] at hpre
    cases hpre

theorem loaderVars_others (hname : ∀ e ∈ env, '=' ∈ e) :
    (loaderVars env).filter otherVar = env.filter otherVar := by
  rw [loaderVars, List.filter_append, filterMap_updateVar_others hname, addedVars_others,
    List.append_nil]

theorem loaderVars_preload {value : CString} (he : e ∈ loaderVars env)
    (hvalue : valueOf ldPreload e = some value) : getenv env secpolineLdPreload = some value := by
  rcases List.mem_append.mp he with he | he
  · obtain ⟨e₀, -, h⟩ := List.mem_filterMap.mp he
    exact updateVar_preload h hvalue
  · rcases mem_addedVars he with ⟨rfl, -⟩ | ⟨v, rfl, hv⟩
    · rw [valueOf_glibcTunables, if_neg (by decide)] at hvalue
      cases hvalue
    · rwa [valueOf_ldPreload, if_pos rfl, ← hv] at hvalue

/-- A value of `GLIBC_TUNABLES` that the setting can be appended to. -/
def Extensible (value : CString) : Prop :=
  rseqOff ∈ (settings value).dropLast ∨ lastSetting value = []

instance (value : CString) : Decidable (Extensible value) :=
  inferInstanceAs (Decidable (_ ∨ _))

theorem loaderVars_tunables
    (hkept : ∀ e ∈ env, updateVar (getenv env secpolineLdPreload) e ≠ none) :
    (∃ e ∈ loaderVars env, ∃ value,
        valueOf glibcTunables e = some value ∧ rseqOff ∈ settings value) ↔
      (getenv env glibcTunables ≠ none →
        ∃ e ∈ env, ∃ value, valueOf glibcTunables e = some value ∧ Extensible value) := by
  constructor
  · intro ⟨e, he, value, hvalue, hmem⟩ hsome
    rcases List.mem_append.mp he with he | he
    · obtain ⟨e₀, he₀, h⟩ := List.mem_filterMap.mp he
      rw [updateVar_tunables h] at hvalue
      obtain ⟨v, hv, rfl⟩ := Option.map_eq_some_iff.mp hvalue
      exact ⟨e₀, he₀, v, hv, (rseqOff_mem_settings v).mp hmem⟩
    · rcases mem_addedVars he with ⟨-, hnone⟩ | ⟨v, rfl, -⟩
      · exact absurd hnone hsome
      · rw [valueOf_ldPreload, if_neg (by decide)] at hvalue
        cases hvalue
  · intro h
    by_cases hnone : getenv env glibcTunables = none
    · refine ⟨glibcTunables ++ '=' :: rseqOff, List.mem_append_right _ ?_, rseqOff, ?_, by decide⟩
      · simp [addedVars, hnone]
      · rw [valueOf_glibcTunables, if_pos rfl]
    · obtain ⟨e, he, value, hvalue, hext⟩ := h hnone
      obtain ⟨e', he'⟩ := Option.ne_none_iff_exists'.mp (hkept e he)
      refine ⟨e', List.mem_append_left _ (List.mem_filterMap.mpr ⟨e, he, he'⟩), value ++ rseqOff,
        ?_, (rseqOff_mem_settings value).mpr hext⟩
      rw [updateVar_tunables he', hvalue, Option.map_some]

/-- The environments and what the last place holds for which the array is right. -/
structure Loadable (env : List CString) (fresh : Option CString) : Prop where
  named : ∀ e ∈ env, '=' ∈ e
  replaced : getenv env ldPreload ≠ none → getenv env secpolineLdPreload ≠ none
  last : getenv env glibcTunables ≠ none ∧
      (getenv env ldPreload = none → getenv env secpolineLdPreload = none) ∨ fresh = none
  tunables : getenv env glibcTunables ≠ none →
    ∃ e ∈ env, ∃ value, valueOf glibcTunables e = some value ∧ Extensible value

theorem updateVar_ne_none_iff :
    (∀ e ∈ env, updateVar preload e ≠ none) ↔
      (∀ e ∈ env, '=' ∈ e) ∧ (getenv env ldPreload ≠ none → preload ≠ none) := by
  simp only [ne_eq, updateVar_eq_none, getenv_eq_none, not_or, not_and, not_not]
  constructor
  · intro h
    refine ⟨fun e he => (h e he).1, fun hpre => ?_⟩
    push Not at hpre
    obtain ⟨e, he, hvalue⟩ := hpre
    exact (h e he).2 (Option.isSome_iff_ne_none.mpr hvalue)
  · intro ⟨hnamed, hpre⟩ e he
    refine ⟨hnamed e he, fun hvalue => hpre fun hall => ?_⟩
    rw [hall e he] at hvalue
    cases hvalue

/-- The array ends where its size says and holds what it should, exactly if every variable
has a value, no `LD_PRELOAD` is dropped, a last place that is not written happens to be null,
and there are no tunables or the setting can be appended to some of them. -/
theorem loader_env_iff (env : List CString) (fresh : Option CString) :
    (∃ vars, updateLdpreload env fresh = terminated vars [] ∧ LoaderEnv env vars) ↔
      Loadable env fresh := by
  simp only [updateLdpreload_eq_terminated, addedVars_eq_nil]
  constructor
  · intro ⟨vars, ⟨hvars, hkept, hlast⟩, henv⟩
    obtain ⟨hnamed, hreplaced⟩ := updateVar_ne_none_iff.mp hkept
    exact ⟨hnamed, hreplaced, hlast, (loaderVars_tunables hkept).mp (hvars ▸ henv.tunables)⟩
  · intro h
    have hkept := updateVar_ne_none_iff.mpr ⟨h.named, h.replaced⟩
    exact ⟨_, ⟨rfl, hkept, h.last⟩, loaderVars_others h.named,
      fun e he value hvalue => loaderVars_preload he hvalue,
      (loaderVars_tunables hkept).mpr h.tunables⟩

/-- A variable that is dropped leaves a null pointer in its place, with the setting behind
it; and where there are tunables, the setting joins the last one. -/
theorem loader_env_loses_rseq :
    updateLdpreload ["LD_PRELOAD=a.so".toList] none =
        [none, some "GLIBC_TUNABLES=glibc.pthread.rseq=0".toList, none] ∧
      (∀ vars, updateLdpreload ["LD_PRELOAD=a.so".toList] none ≠ terminated vars []) ∧
      updateLdpreload ["GLIBC_TUNABLES=glibc.malloc.check=1".toList] none =
        terminated ["GLIBC_TUNABLES=glibc.malloc.check=1glibc.pthread.rseq=0".toList] [] ∧
      rseqOff ∉ settings "glibc.malloc.check=1glibc.pthread.rseq=0".toList := by
  refine ⟨rfl, fun vars h => ?_, rfl, by decide⟩
  have hvars : [] = upToNull (terminated vars []) := congrArg upToNull h
  rw [upToNull_terminated] at hvars
  cases hvars
  cases h

end Secpoline
