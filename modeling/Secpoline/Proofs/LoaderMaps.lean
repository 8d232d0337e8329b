import Secpoline.Model.LoaderMaps
import Secpoline.Proofs.StartUp

/-!
# The loader's list and what init_page_manager reads

Both parsers read the same text. `init_page_manager` has it in one buffer and goes through it line
by line; the loader sees at most 255 characters at a time. The numbers and the permissions are
always among the first 255 characters of a line, so there the two read the same. They differ in
what comes after: the rest of a long line, which the loader takes for a line of its own, a word
that it does not see with the numbers, a size that does not fit into its `int`, and the `vvar`,
which it joins to what was on the stack.

The loader never records fewer groups for a line than `init_page_manager` reads off it, so no line
makes up for another one, and the two lists are the same only if they are the same line by line.
-/

namespace Secpoline

open Lib

/-! ## Numbers -/

section
variable {c : Char}

theorem le_of_hexValue (h : hexValue c ≠ none) : '0' ≤ c := by
  unfold hexValue at h
  split at h
  · rename_i hc
    exact hc.1
  split at h
  · rename_i hc
    exact Char.le_trans (by decide) hc.1
  split at h
  · rename_i hc
    exact Char.le_trans (by decide) hc.1
  · exact absurd rfl h

/-- A digit is none of the characters that `strtoll` treats in another way. -/
theorem ne_of_hexValue {d : Char} (h : hexValue c ≠ none) (hd : hexValue d = none) : c ≠ d :=
  fun hcd => h (hcd ▸ hd)

theorem isSpace_of_hexValue (h : hexValue c ≠ none) : isSpace c = false := by
  have hle := le_of_hexValue h
  unfold isSpace
  rw [Bool.or_eq_false_iff, Bool.and_eq_false_iff]
  refine ⟨decide_eq_false (ne_of_hexValue h (by decide)), .inr (decide_eq_false fun hr => ?_)⟩
  exact absurd (Char.le_trans hle hr) (by decide)

theorem hexDigits_length_le (fuel n : Nat) (cs : CString) :
    (hexDigits fuel n cs).length ≤ fuel + cs.length := by
  induction fuel generalizing n cs with
  | zero => exact Nat.le_of_eq (Nat.zero_add _).symm
  | succ fuel ih =>
      rw [hexDigits]
      split
      · omega
      · have := ih (n / 16) (hexDigit (n % 16) :: cs)
        rw [List.length_cons] at this
        omega

theorem hexString_length (n : Nat) : 8 ≤ (hexString n).length ∧ (hexString n).length ≤ 16 := by
  have := hexDigits_length_le 16 n []
  unfold hexString
  rw [List.length_append, List.length_replicate]
  rw [List.length_nil] at this
  omega

theorem strtollHex_hexString {n : Nat} (hn : n < 2 ^ 64) (hc : hexValue c = none) (cs : CString) :
    strtollHex (hexString n ++ c :: cs) = (min (n : Int) (2 ^ 63 - 1), c :: cs) := by
  have hparse := parseHex_hexString hn hc cs
  have hdigit {d : Char} (hd : d ∈ hexString n) : hexValue d ≠ none := hexValue_of_mem_hexString hd
  have hlen := (hexString_length n).1
  match hs : hexString n with
  | [] => rw [hs] at hlen; exact absurd hlen (by decide)
  | [_] => rw [hs] at hlen; exact absurd hlen (by simp)
  | a :: b :: ds =>
      rw [hs] at hdigit hparse
      have ha : hexValue a ≠ none := hdigit (by simp)
      have hb : hexValue b ≠ none := hdigit (by simp)
      have hspace : (a :: b :: ds ++ c :: cs).dropWhile isSpace = a :: b :: ds ++ c :: cs := by
        rw [List.cons_append, List.dropWhile_cons_of_neg]
        rw [isSpace_of_hexValue ha]
        exact Bool.false_ne_true
      have hunsigned : unsigned (a :: b :: ds ++ c :: cs) = a :: b :: ds ++ c :: cs := by
        rw [unsigned, if_neg]
        simp [ne_of_hexValue ha (d := '-') (by decide), ne_of_hexValue ha (d := '+') (by decide)]
      have hunprefixed : unprefixed (a :: b :: ds ++ c :: cs) = a :: b :: ds ++ c :: cs := by
        rw [unprefixed, if_neg]
        simp [ne_of_hexValue hb (d := 'x') (by decide), ne_of_hexValue hb (d := 'X') (by decide)]
      have hbegins : beginsHex (a :: b :: ds ++ c :: cs) = true := by
        simpa [beginsHex] using Option.isSome_iff_ne_none.mpr ha
      have hsign : (a :: b :: ds ++ c :: cs).head? ≠ some '-' := by
        simpa using ne_of_hexValue ha (d := '-') (by decide)
      rw [strtollHex, strtolWith, hspace, hunsigned, hexadecimalDigits, hunprefixed,
        if_pos hbegins, hparse]
      dsimp only
      rw [if_neg hsign]

end

/-! ## The pieces of a line -/

namespace Mapping

variable {m : Mapping}

/-- A line up to what the code does not read as a number or a permission. -/
def head (m : Mapping) : CString :=
  hexString m.start ++ '-' :: (hexString m.stop ++ ' ' :: (m.permissions ++ [' ']))

theorem line_eq_head : m.line = m.head ++ (m.info ++ m.name) := by
  simp [line, head]

theorem head_length_le : m.head.length ≤ 255 := by
  have hstart := (hexString_length m.start).2
  have hstop := (hexString_length m.stop).2
  simp only [head, permissions, List.length_append, List.length_cons, List.length_nil]
  omega

/-- What `fgets` reads of the line first. -/
def firstPiece (m : Mapping) : CString := (m.line ++ ['\n']).take 255

def laterPieces (m : Mapping) : List CString := fgetsLines ((m.line ++ ['\n']).drop 255)

theorem firstPiece_eq : ∃ tail, m.firstPiece = m.head ++ tail := by
  refine ⟨((m.info ++ m.name) ++ ['\n']).take (255 - m.head.length), ?_⟩
  rw [firstPiece, line_eq_head, List.append_assoc, List.take_append,
    List.take_of_length_le head_length_le]

theorem laterPieces_of_short (h : m.line.length < 255) : m.laterPieces = [] := by
  rw [laterPieces, List.drop_of_length_le]
  · rfl
  · rw [List.length_append, List.length_singleton]
    exact h

theorem firstPiece_of_short (h : m.line.length < 255) : m.firstPiece = m.line ++ ['\n'] := by
  rw [firstPiece, List.take_of_length_le]
  rw [List.length_append, List.length_singleton]
  exact h

theorem fgetsLines_line (h : m.Printed) :
    fgetsLines (m.line ++ ['\n']) = m.firstPiece :: m.laterPieces :=
  cutFrom_line (newline_notMem_line h) 254

end Mapping

theorem fgetsLines_mapsText {ms : List Mapping} (h : ∀ m ∈ ms, m.Printed) :
    fgetsLines (mapsText ms) = ms.flatMap fun m => m.firstPiece :: m.laterPieces := by
  induction ms with
  | nil => rfl
  | cons m ms ih =>
      obtain ⟨hm, hms⟩ := List.forall_mem_cons.mp h
      rw [List.flatMap_cons, ← ih hms, ← m.fgetsLines_line hm, mapsText, List.flatMap_cons,
        List.append_assoc]
      exact cutFrom_append 254 254 m.line (mapsText ms)

/-! ## Reading a piece -/

section
variable {m : Mapping} {tail : CString}

theorem toWord_min {n : Nat} : toWord (min (n : Int) (2 ^ 63 - 1)) = min n 0x7fffffffffffffff := by
  unfold toWord
  omega

theorem Mapping.Printed.size_eq (h : m.Printed) : wsub m.stop m.start = m.stop - m.start := by
  have hless := h.nonempty
  have hwords := h.words
  unfold wsub
  omega

theorem dropWhile_head :
    (m.head ++ tail).dropWhile (· ≠ ' ') = ' ' :: (m.permissions ++ ' ' :: tail) := by
  have hhex (n : Nat) : ∀ c ∈ hexString n, decide (c ≠ ' ') = true := fun c hc =>
    decide_eq_true (ne_of_hexValue (hexValue_of_mem_hexString hc) (by decide))
  rw [Mapping.head, List.append_assoc, List.dropWhile_append_of_pos (hhex m.start),
    List.cons_append, List.dropWhile_cons_of_pos (by decide), List.append_assoc,
    List.dropWhile_append_of_pos (hhex m.stop),
    List.cons_append, List.dropWhile_cons_of_neg (by decide), List.append_assoc]
  rfl

/-- A piece that has the head of a line is read as the line's beginning. -/
theorem readPiece_head (h : m.Printed) :
    readPiece (m.head ++ tail) =
      if m.name = "[vsyscall]".toList then .ignored
      else if strstr (m.head ++ tail) "vvar" then .vvar m.start (m.stop - m.start)
      else if strstr (m.head ++ tail) "vdso" then .vdso m.start (m.stop - m.start)
      else .mapping m.start (m.stop - m.start) (m.permissions ++ ' ' :: tail) := by
  have hne : m.head ++ tail ≠ [] := by simp [Mapping.head]
  have hstart : strtollHex (m.head ++ tail) =
      (min (m.start : Int) (2 ^ 63 - 1), '-' ::
        (hexString m.stop ++ ' ' :: (m.permissions ++ ' ' :: tail))) := by
    have hhead : m.head ++ tail =
        hexString m.start ++ '-' ::
          (hexString m.stop ++ ' ' :: (m.permissions ++ ' ' :: tail)) := by
      simp [Mapping.head]
    rw [hhead]
    exact strtollHex_hexString (Nat.lt_trans h.nonempty h.words) (by decide) _
  have hperm : (m.permissions ++ ' ' :: tail)[0]? = some 'r' ∨
      (m.permissions ++ ' ' :: tail)[0]? = some '-' := by
    unfold Mapping.permissions
    cases m.read
    · exact .inr rfl
    · exact .inl rfl
  have hless := h.nonempty
  unfold readPiece
  rw [if_neg hne, hstart]
  dsimp only
  rw [toWord_min]
  by_cases hname : m.name = "[vsyscall]".toList
  · have hhigh := h.vsyscall hname
    rw [if_pos hname, if_pos (by omega)]
  · have hlow := h.user hname
    have hend : toWord (strtollHex (hexString m.stop ++ ' ' :: (m.permissions ++ ' ' :: tail))).1 =
        m.stop := by
      rw [strtollHex_hexString h.words (by decide), toWord_min]
      omega
    have hsize : wsub m.stop m.start = m.stop - m.start := h.size_eq
    have hmin : min m.start 0x7fffffffffffffff = m.start := by omega
    rw [if_neg hname, hmin, if_neg (by omega)]
    change readRange (m.head ++ tail) m.start _ = _
    rw [readRange, hend, hsize, dropWhile_head]
    dsimp only
    rw [if_pos hperm]

end

/-! ## The loop -/

def MapsPiece.vvarPart : MapsPiece → Option (Nat × Nat)
  | .vvar start size => some (start, size)
  | _ => none

/-- The parts of the `vvar` follow each other, and the first one what was in memory, if that
was not zero. -/
def VvarFollows (vvar : PageGroup) (parts : List (Nat × Nat)) : Prop :=
  (parts.foldlM (fun vvar part => recordVvar vvar part.1 part.2) vvar).isSome

instance (vvar : PageGroup) (parts : List (Nat × Nat)) : Decidable (VvarFollows vvar parts) :=
  inferInstanceAs (Decidable (_ = true))

theorem vvarFollows_cons {vvar : PageGroup} {start size : Nat} {parts : List (Nat × Nat)} :
    VvarFollows vvar ((start, size) :: parts) ↔
      ∃ vvar', recordVvar vvar start size = some vvar' ∧ VvarFollows vvar' parts := by
  unfold VvarFollows
  rw [List.foldlM_cons]
  cases recordVvar vvar start size with
  | none => exact ⟨nofun, nofun⟩
  | some vvar' => exact ⟨fun h => ⟨vvar', rfl, h⟩, fun ⟨_, heq, h⟩ => by cases heq; exact h⟩

def MapsPiece.group (behind : CString) : MapsPiece → Option PageGroup
  | .mapping start size pagePermissions =>
      some ⟨start, toInt32 size, protOfChars (pagePermissions ++ '\x00' :: behind)⟩
  | _ => none

/-- The groups that the pieces are recorded as. -/
def recorded : CString → List CString → List PageGroup
  | _, [] => []
  | memory, line :: lines =>
      let behind := memory.drop (line.length + 1)
      ((readPiece line).group behind).toList ++ recorded (line ++ '\x00' :: behind) lines

section
variable {s r : MmappedList} {memory line : CString} {lines : List CString}

theorem getMappingsLoop_list (h : getMappingsLoop s memory lines = some r) :
    r.list = s.list ++ recorded memory lines := by
  induction lines generalizing s memory with
  | nil =>
      cases h
      exact (List.append_nil _).symm
  | cons line lines ih =>
      rw [getMappingsLoop] at h
      obtain ⟨s₁, hs₁, hrest⟩ := Option.bind_eq_some_iff.mp h
      rw [ih hrest, recorded]
      cases hpiece : readPiece line with
      | ignored =>
          rw [hpiece] at hs₁
          cases hs₁
          rfl
      | fails =>
          rw [hpiece] at hs₁
          cases hs₁
      | vvar start size =>
          rw [hpiece] at hs₁
          obtain ⟨vvar, -, rfl⟩ := Option.map_eq_some_iff.mp hs₁
          rfl
      | vdso start size =>
          rw [hpiece] at hs₁
          cases hs₁
          rfl
      | mapping start size permissions =>
          rw [hpiece, recordPiece] at hs₁
          split at hs₁ <;> cases hs₁
          exact List.append_assoc _ _ _

theorem getMappingsLoop_isSome (memory : CString) (lines : List CString)
    (hlist : s.list.length ≤ MAX_MMAP_LIST_SIZE) :
    (getMappingsLoop s memory lines).isSome ↔
      (∀ line ∈ lines, readPiece line ≠ .fails) ∧
      VvarFollows s.vvar (lines.filterMap fun line => (readPiece line).vvarPart) ∧
      s.list.length + (recorded memory lines).length ≤ MAX_MMAP_LIST_SIZE := by
  induction lines generalizing s memory with
  | nil => simp [getMappingsLoop, VvarFollows, recorded, hlist]
  | cons line lines ih =>
      rw [getMappingsLoop, recorded, List.filterMap_cons, List.forall_mem_cons]
      cases hpiece : readPiece line with
      | ignored => simpa [recordPiece, MapsPiece.vvarPart, MapsPiece.group] using ih _ hlist
      | fails => simp [recordPiece]
      | vvar start size =>
          rw [recordPiece, MapsPiece.vvarPart]
          dsimp only
          rw [vvarFollows_cons]
          cases hvvar : recordVvar s.vvar start size with
          | none => simp
          | some vvar =>
              rw [Option.map_some, Option.bind_some, ih (s := { s with vvar }) _ hlist]
              simp [MapsPiece.group]
      | vdso start size =>
          have hrest := ih (s := { s with vdso := ⟨start, toInt32 size, PROT_EXEC⟩ })
            (line ++ '\x00' :: memory.drop (line.length + 1)) hlist
          simpa [recordPiece, MapsPiece.vvarPart, MapsPiece.group] using hrest
      | mapping start size permissions =>
          have hlength (g : PageGroup) (l : List PageGroup) :
              s.list.length + (g :: l).length = (s.list ++ [g]).length + l.length := by
            simp [Nat.add_assoc, Nat.add_comm 1]
          rw [recordPiece, MapsPiece.group, Option.toList_some, List.singleton_append, hlength]
          by_cases hroom : s.list.length < MAX_MMAP_LIST_SIZE
          · rw [if_pos hroom, Option.bind_some, ih _ (by rw [List.length_append]; exact hroom)]
            simp [MapsPiece.vvarPart]
          · rw [if_neg hroom]
            refine ⟨nofun, fun h => absurd h.2.2 ?_⟩
            rw [List.length_append, List.length_singleton]
            omega

end

/-! ## Both readers -/

namespace Mapping

/-- What `init_page_manager` reads off the line. -/
def initGroup (m : Mapping) : Option PageGroup :=
  if m.Skipped ∨ m.name = "[vsyscall]".toList then none
  else some ⟨m.start, ((m.stop - m.start : Nat) : Int), m.prot⟩

theorem map_initGroup {m : Mapping} (h : m.Printed) :
    (if m.Skipped ∨ m.name = "[vsyscall]".toList then none else some (m.start, m.stop, m.prot)).map
      (fun x => (⟨x.1, wsub x.2.1 x.1, x.2.2⟩ : PageGroup)) = m.initGroup := by
  have hsize : wsub m.stop m.start = m.stop - m.start := h.size_eq
  unfold initGroup
  split
  · rfl
  · rw [Option.map_some, hsize]

end Mapping

theorem initRecords_mapsText {ms : List Mapping} (h : ∀ m ∈ ms, m.Printed) :
    initRecords (mapsText ms) = some (ms.filterMap Mapping.initGroup) := by
  have hlines : splitLines (mapsText ms) = ms.map Mapping.line :=
    splitLines_flatMap fun m hm => Mapping.newline_notMem_line (h m hm)
  have hreads : (ms.map Mapping.line).mapM initReads = some (ms.map fun m =>
      if m.Skipped ∨ m.name = "[vsyscall]".toList then none
      else some (m.start, m.stop, m.prot)) := by
    clear hlines
    induction ms with
    | nil => rfl
    | cons m ms ih =>
        obtain ⟨hm, hms⟩ := List.forall_mem_cons.mp h
        rw [List.map_cons, List.mapM_cons, initReads_line hm, ih hms]
        rfl
  rw [initRecords, hlines, hreads, Option.map_some]
  change some (((ms.map _).filterMap id).map _) = _
  rw [List.filterMap_map, List.map_filterMap]
  exact congrArg some (List.filterMap_congr fun m hm => m.map_initGroup (h m hm))

section
variable {m : Mapping} {memory behind : CString} {lines : List CString}

theorem recorded_append (memory : CString) (lines lines' : List CString) :
    ∃ memory', recorded memory (lines ++ lines') = recorded memory lines ++
      recorded memory' lines' := by
  induction lines generalizing memory with
  | nil => exact ⟨memory, rfl⟩
  | cons line lines ih =>
      obtain ⟨memory', hrec⟩ := ih (line ++ '\x00' :: memory.drop (line.length + 1))
      refine ⟨memory', ?_⟩
      rw [List.cons_append, recorded, recorded, List.append_assoc, ← hrec]

theorem MapsPiece.group_eq_none {p : MapsPiece} : p.group behind = none ↔ p.group [] = none := by
  cases p <;> simp [MapsPiece.group]

theorem recorded_eq_nil :
    recorded memory lines = [] ↔ ∀ line ∈ lines, (readPiece line).group [] = none := by
  induction lines generalizing memory with
  | nil => simp [recorded]
  | cons line lines ih =>
      rw [recorded, List.append_eq_nil_iff, ih, List.forall_mem_cons, Option.toList_eq_nil_iff,
        MapsPiece.group_eq_none]

/-- A word that is in the first piece is in the line. -/
theorem strstr_firstPiece {word : String} (hword : '\n' ∉ word.toList)
    (h : strstr m.firstPiece word = true) :
    strstr m.line word = true := by
  refine occurs_iff.mpr ?_
  have hin := (occurs_iff.mp h).trans (List.take_prefix 255 (m.line ++ ['\n'])).isInfix
  rcases List.infix_concat_iff.mp hin with hend | hin
  · rcases List.suffix_concat_iff.mp hend with hnil | ⟨t, ht, -⟩
    · rw [hnil]
      exact List.nil_infix
    · exact absurd (ht ▸ List.mem_append_right t List.mem_cons_self) hword
  · exact hin

/-- One of the words is where the loader looks for it. -/
def Mapping.Named (m : Mapping) : Prop :=
  strstr m.firstPiece "vvar" = true ∨ strstr m.firstPiece "vdso" = true

instance : DecidablePred Mapping.Named := fun _ => inferInstanceAs (Decidable (_ ∨ _))

theorem Mapping.Named.skipped (h : m.Named) : m.Skipped := by
  rcases h with h | h
  · exact .inr (strstr_firstPiece (by decide) h)
  · exact .inl (strstr_firstPiece (by decide) h)

/-- What the loader makes of the first piece. -/
theorem readPiece_firstPiece (h : m.Printed) :
    ∃ tail, readPiece m.firstPiece =
      if m.name = "[vsyscall]".toList then .ignored
      else if strstr m.firstPiece "vvar" then .vvar m.start (m.stop - m.start)
      else if strstr m.firstPiece "vdso" then .vdso m.start (m.stop - m.start)
      else .mapping m.start (m.stop - m.start) (m.permissions ++ tail) := by
  obtain ⟨tail, hfirst⟩ := m.firstPiece_eq
  refine ⟨' ' :: tail, ?_⟩
  rw [hfirst]
  exact readPiece_head h

theorem readPiece_firstPiece_ne_fails (h : m.Printed) : readPiece m.firstPiece ≠ .fails := by
  obtain ⟨tail, hpiece⟩ := readPiece_firstPiece h
  rw [hpiece]
  split_ifs <;> exact nofun

theorem group_firstPiece_of_named (h : m.Printed)
    (hnamed : m.Named ∨ m.name = "[vsyscall]".toList) :
    (readPiece m.firstPiece).group behind = none := by
  obtain ⟨tail, hpiece⟩ := readPiece_firstPiece h
  rw [hpiece]
  split_ifs with hname hvvar hvdso
  · rfl
  · rfl
  · rfl
  · exact absurd hnamed (not_or.mpr ⟨not_or.mpr ⟨hvvar, hvdso⟩, hname⟩)

theorem group_firstPiece (h : m.Printed) (hnamed : ¬ m.Named)
    (hname : m.name ≠ "[vsyscall]".toList) :
    (readPiece m.firstPiece).group behind = some ⟨m.start, toInt32 (m.stop - m.start), m.prot⟩ := by
  obtain ⟨tail, hpiece⟩ := readPiece_firstPiece h
  obtain ⟨hvvar, hvdso⟩ := not_or.mp hnamed
  rw [hpiece, if_neg hname, if_neg hvvar, if_neg hvdso, MapsPiece.group, List.append_assoc,
    Mapping.protOfChars_permissions]

theorem toInt32_eq_self {n : Nat} : toInt32 n = n ↔ n < 2 ^ 31 := by
  unfold toInt32
  rw [BitVec.toInt_ofNat', Int.bmod_def]
  omega

/-- The loader and `init_page_manager` make the same of the line, if the loader does not fail. -/
def Mapping.ReadAlike (m : Mapping) : Prop :=
  (∀ piece ∈ m.laterPieces, (readPiece piece).group [] = none) ∧
    (m.name ≠ "[vsyscall]".toList → (m.Skipped → m.Named) ∧
      (¬ m.Skipped → m.stop - m.start < 2 ^ 31))

theorem recorded_line (memory : CString) (h : m.Printed) :
    recorded memory (m.firstPiece :: m.laterPieces) = m.initGroup.toList ↔ m.ReadAlike := by
  rw [recorded, Mapping.initGroup, Mapping.ReadAlike]
  by_cases hname : m.name = "[vsyscall]".toList
  · rw [if_pos (.inr hname), group_firstPiece_of_named h (.inr hname)]
    simp [recorded_eq_nil, hname]
  by_cases hskip : m.Skipped
  · rw [if_pos (.inl hskip)]
    by_cases hnamed : m.Named
    · rw [group_firstPiece_of_named h (.inl hnamed)]
      simp [recorded_eq_nil, hskip, hnamed]
    · rw [group_firstPiece h hnamed hname]
      exact ⟨nofun, fun halike => absurd ((halike.2 hname).1 hskip) hnamed⟩
  · rw [if_neg (not_or.mpr ⟨hskip, hname⟩),
      group_firstPiece h (mt Mapping.Named.skipped hskip) hname,
      Option.toList_some, Option.toList_some, List.singleton_append, List.cons.injEq,
      recorded_eq_nil]
    simp only [PageGroup.mk.injEq, true_and, and_true, toInt32_eq_self]
    constructor
    · rintro ⟨hsize, hlater⟩
      exact ⟨hlater, fun _ => ⟨fun hs => absurd hs hskip, fun _ => hsize⟩⟩
    · rintro ⟨hlater, halike⟩
      exact ⟨(halike hname).2 hskip, hlater⟩

theorem length_le_recorded (memory : CString) (h : m.Printed) :
    m.initGroup.toList.length ≤ (recorded memory (m.firstPiece :: m.laterPieces)).length := by
  rw [Mapping.initGroup]
  split
  · exact Nat.zero_le _
  · rename_i hread
    obtain ⟨hskip, hname⟩ := not_or.mp hread
    rw [recorded, group_firstPiece h (mt Mapping.Named.skipped hskip) hname]
    exact Nat.succ_le_succ (Nat.zero_le _)

end

section
variable {ms : List Mapping}

theorem length_le_recorded_lines (memory : CString) (h : ∀ m ∈ ms, m.Printed) :
    (ms.flatMap fun m => m.initGroup.toList).length ≤
      (recorded memory (ms.flatMap fun m => m.firstPiece :: m.laterPieces)).length := by
  induction ms generalizing memory with
  | nil => exact Nat.zero_le _
  | cons m ms ih =>
      obtain ⟨hm, hms⟩ := List.forall_mem_cons.mp h
      obtain ⟨memory', hrec⟩ := recorded_append memory (m.firstPiece :: m.laterPieces)
        (ms.flatMap fun m => m.firstPiece :: m.laterPieces)
      rw [List.flatMap_cons, List.flatMap_cons, hrec, List.length_append, List.length_append]
      exact Nat.add_le_add (length_le_recorded memory hm) (ih memory' hms)

/-- No line makes up for another: each gives the loader no fewer groups than `init_page_manager`. -/
theorem recorded_lines (memory : CString) (h : ∀ m ∈ ms, m.Printed) :
    recorded memory (ms.flatMap fun m => m.firstPiece :: m.laterPieces) =
      ms.flatMap (fun m => m.initGroup.toList) ↔ ∀ m ∈ ms, m.ReadAlike := by
  induction ms generalizing memory with
  | nil => simp [recorded]
  | cons m ms ih =>
      obtain ⟨hm, hms⟩ := List.forall_mem_cons.mp h
      obtain ⟨memory', hrec⟩ := recorded_append memory (m.firstPiece :: m.laterPieces)
        (ms.flatMap fun m => m.firstPiece :: m.laterPieces)
      rw [List.flatMap_cons, List.flatMap_cons, hrec, List.forall_mem_cons, ← ih memory' hms,
        ← recorded_line memory hm]
      refine ⟨fun heq => ?_, fun ⟨hline, hlines⟩ => by rw [hline, hlines]⟩
      have hsum := congrArg List.length heq
      rw [List.length_append, List.length_append] at hsum
      have hle := length_le_recorded memory hm
      have hle' := length_le_recorded_lines memory' hms
      exact List.append_inj heq (by omega)

/-- It is not taken for a mapping, and the loader does not fail at it. -/
def MapsPiece.Harmless : MapsPiece → Prop
  | .ignored | .vvar .. | .vdso .. => True
  | .fails | .mapping .. => False

theorem MapsPiece.harmless_iff {p : MapsPiece} : p.Harmless ↔ p ≠ .fails ∧ p.group [] = none := by
  cases p <;> simp [MapsPiece.Harmless, MapsPiece.group]

/-- The line is of a kind that the loader reads as it is meant. -/
structure Mapping.FitsLoader (m : Mapping) : Prop where
  /-- What is behind the first 255 characters does not look like a line. -/
  later : ∀ piece ∈ m.laterPieces, (readPiece piece).Harmless
  /-- A line that is left out is known by its first 255 characters. -/
  named : m.name ≠ "[vsyscall]".toList → m.Skipped → m.Named
  /-- The size fits into an `int`. -/
  small : m.name ≠ "[vsyscall]".toList → ¬ m.Skipped → m.stop - m.start < 2 ^ 31

theorem Mapping.fitsLoader_iff {m : Mapping} :
    m.FitsLoader ↔ m.ReadAlike ∧ ∀ piece ∈ m.laterPieces, readPiece piece ≠ .fails := by
  constructor
  · intro h
    refine ⟨⟨fun piece hp => ?_, fun hname => ⟨h.named hname, h.small hname⟩⟩, fun piece hp => ?_⟩
    · exact (MapsPiece.harmless_iff.mp (h.later piece hp)).2
    · exact (MapsPiece.harmless_iff.mp (h.later piece hp)).1
  · rintro ⟨⟨hlater, halike⟩, hfails⟩
    exact ⟨fun piece hp => MapsPiece.harmless_iff.mpr ⟨hfails piece hp, hlater piece hp⟩,
      fun hname => (halike hname).1, fun hname => (halike hname).2⟩

/-- A line that fits into the buffer is read whole. -/
theorem Mapping.fitsLoader_of_short {m : Mapping} (hshort : m.line.length < 255)
    (hsmall : ¬ m.Skipped → m.stop - m.start < 2 ^ 31) : m.FitsLoader := by
  have hword {word : String} (h : strstr m.line word = true) : strstr m.firstPiece word = true := by
    rw [firstPiece_of_short hshort]
    exact occurs_iff.mpr ((occurs_iff.mp h).trans (List.prefix_append _ _).isInfix)
  refine ⟨?_, fun _ hskip => ?_, fun _ => hsmall⟩
  · rw [laterPieces_of_short hshort]
    exact nofun
  · rcases hskip with h | h
    · exact .inr (hword h)
    · exact .inl (hword h)

/-- When the loader records what `init_page_manager` reads. -/
theorem getMappings_agrees (hprinted : ∀ m ∈ ms, m.Printed) (hmany : ms.length ≤ MAX_MMAP_LIST_SIZE)
    (mmappedList : MmappedList) (memory : CString) :
    (∃ r, getMappings mmappedList memory (mapsText ms) = some r ∧
      initRecords (mapsText ms) = some r.list) ↔
      (∀ m ∈ ms, m.FitsLoader) ∧
      VvarFollows mmappedList.vvar ((fgetsLines (mapsText ms)).filterMap fun line =>
        (readPiece line).vvarPart) := by
  have hfails : (∀ line ∈ fgetsLines (mapsText ms), readPiece line ≠ .fails) ↔
      ∀ m ∈ ms, ∀ piece ∈ m.laterPieces, readPiece piece ≠ .fails := by
    rw [fgetsLines_mapsText hprinted, List.forall_mem_flatMap]
    refine forall₂_congr fun m hm => ?_
    rw [List.forall_mem_cons]
    exact and_iff_right (readPiece_firstPiece_ne_fails (hprinted m hm))
  have halike := recorded_lines memory hprinted
  rw [← fgetsLines_mapsText hprinted, ← List.filterMap_eq_flatMap_toList] at halike
  have hsome := getMappingsLoop_isSome (s := { mmappedList with list := [] }) memory
    (fgetsLines (mapsText ms)) (Nat.zero_le _)
  rw [initRecords_mapsText hprinted, getMappings]
  constructor
  · rintro ⟨r, hr, hlist⟩
    rw [hr] at hsome
    obtain ⟨hpieces, hvvar, -⟩ := hsome.mp rfl
    have hsame := (getMappingsLoop_list hr).symm.trans (Option.some.inj hlist).symm
    refine ⟨fun m hm => Mapping.fitsLoader_iff.mpr ⟨halike.mp hsame m hm, hfails.mp hpieces m hm⟩,
      hvvar⟩
  · rintro ⟨hfits, hvvar⟩
    have hsame := halike.mpr fun m hm => (Mapping.fitsLoader_iff.mp (hfits m hm)).1
    have hpieces := hfails.mpr fun m hm => (Mapping.fitsLoader_iff.mp (hfits m hm)).2
    have hlength : (recorded memory (fgetsLines (mapsText ms))).length ≤ MAX_MMAP_LIST_SIZE := by
      rw [hsame]
      exact Nat.le_trans (List.length_filterMap_le _ _) hmany
    obtain ⟨r, hr⟩ :=
      Option.isSome_iff_exists.mp (hsome.mpr ⟨hpieces, hvvar, by simpa using hlength⟩)
    refine ⟨r, hr, ?_⟩
    rw [getMappingsLoop_list hr, hsame]
    rfl

end

/-- What is on the stack before the loop, if it happens to be zero. -/
def clearedList : MmappedList := ⟨[], ⟨0, 0, 0⟩, ⟨0, 0, 0⟩⟩

def vvarMapping : Mapping where
  start := 0x7ffff7fc1000
  stop := 0x7ffff7fc5000
  read := true
  write := false
  exec := false
  shared := false
  info := "00000000 00:00 0 ".toList
  name := "[vvar]".toList

theorem vvarMapping_printed : vvarMapping.Printed :=
  ⟨by decide, by decide, by decide, by decide, fun _ => by decide, fun h => absurd h (by decide)⟩

theorem getMappings_agrees_app :
    ∃ r,
      getMappings clearedList [] (mapsText [codeMapping, vvarMapping, vsyscallMapping]) = some r ∧
      initRecords (mapsText [codeMapping, vvarMapping, vsyscallMapping]) = some r.list := by
  refine (getMappings_agrees (fun m hm => ?_) (by decide) clearedList []).mpr
    ⟨fun m hm => ?_, by decide +kernel⟩
  · simp only [List.mem_cons, List.not_mem_nil, or_false] at hm
    rcases hm with rfl | rfl | rfl
    · exact codeMapping_printed
    · exact vvarMapping_printed
    · exact vsyscallMapping_printed
  · simp only [List.mem_cons, List.not_mem_nil, or_false] at hm
    rcases hm with rfl | rfl | rfl
    · exact Mapping.fitsLoader_of_short (by decide +kernel) fun _ => by decide
    · exact Mapping.fitsLoader_of_short (by decide +kernel) fun _ => by decide
    · exact Mapping.fitsLoader_of_short (by decide +kernel) fun _ => by decide

/-- Two gigabytes. -/
def largeMapping : Mapping :=
  { codeMapping with
    stop := 0x10000 + 2 ^ 31 }

/-- A file with a long path. -/
def longMapping : Mapping :=
  { codeMapping with
    name := '/' :: List.replicate 240 'l' }

/-- A size that is no `int` is recorded as a negative one, the end of a long path is taken for a
line, and so is what was on the stack for a `vvar`. -/
theorem getMappings_differs :
    (largeMapping.Printed ∧
      (getMappings clearedList [] (mapsText [largeMapping])).map MmappedList.list =
        some [⟨0x10000, -2 ^ 31, PROT_READ ||| PROT_EXEC⟩] ∧
      initRecords (mapsText [largeMapping]) = some [⟨0x10000, 2 ^ 31, PROT_READ ||| PROT_EXEC⟩]) ∧
    (longMapping.Printed ∧ getMappings clearedList [] (mapsText [longMapping]) = none ∧
      initRecords (mapsText [longMapping]) = some [⟨0x10000, 0x2000, PROT_READ ||| PROT_EXEC⟩]) ∧
    (vvarMapping.Printed ∧
      getMappings { clearedList with vvar := ⟨1, 0, 0⟩ } [] (mapsText [vvarMapping]) = none ∧
      initRecords (mapsText [vvarMapping]) = some []) := by
  refine ⟨⟨?_, by decide +kernel, by decide +kernel⟩, ⟨?_, by decide +kernel, by decide +kernel⟩,
    vvarMapping_printed, by decide +kernel, by decide +kernel⟩
  · exact ⟨by decide, by decide, by decide, by decide, fun _ => by decide, fun h =>
      absurd h (by decide)⟩
  · exact ⟨by decide, by decide, by decide, by decide, fun _ => by decide, fun h =>
      absurd h (by decide)⟩

end Secpoline
