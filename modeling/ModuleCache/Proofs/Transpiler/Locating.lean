import ModuleCache.Proofs.FileSystem.Operations
import ModuleCache.Transpiler.Locator

/-!
Where the program of a transpiler is found. The rule is that of search paths: a program with a
slash is taken as it is given, and one without is looked for in the directories of the search
path, in their order. What decides here is the count of components instead of the slash. The
two differ for a program whose slashes stand at its end, as in `bin/`: it is one component, so
it is looked for in the search path, and as no file has a slash behind its name it is found
nowhere, whatever stands there.
-/

namespace ModuleCache

namespace Path

theorem slash_mem_iff {text : String} :
    '/' ∈ text.toList ↔ ∃ first rest, pieces ⟨text⟩ = first :: rest ∧ rest ≠ [] := by
  constructor
  · intro h
    obtain ⟨front, back, hcut⟩ := List.append_of_mem h
    have hpieces : pieces ⟨text⟩ = Text.split '/' front ++ Text.split '/' back := by
      simp only [pieces, hcut, Text.split_append_sep]
    obtain ⟨first, rest, hfront⟩ := List.exists_cons_of_ne_nil (Text.split_ne_nil '/' front)
    exact ⟨first, rest ++ Text.split '/' back, by rw [hpieces, hfront]; rfl,
      by simp [Text.split_ne_nil]⟩
  · rintro ⟨first, rest, hpieces, hrest⟩
    by_contra hfree
    have hsingle : pieces ⟨text⟩ = [text.toList] := Text.split_of_not_mem hfree
    rw [hsingle] at hpieces
    exact hrest (List.cons.inj hpieces).2.symm

theorem inner_eq_nil_iff {pieces : List (List Char)} :
    inner pieces = [] ↔ ∀ piece ∈ pieces, isIdle piece = true := by
  simp [inner]

/-- The pieces behind the first one count as far as they name something. -/
theorem length_components {p : Path} {first : List Char} {rest : List (List Char)}
    (hpieces : p.pieces = first :: rest) (hrest : rest ≠ []) :
    p.components.length = (inner rest).length + 1 := by
  rw [components_eq_componentsOf, hpieces, componentsOf, if_neg hrest]
  split
  · rfl
  · split <;> rfl

theorem length_components_le {p : Path} {first : List Char} (hpieces : p.pieces = [first]) :
    p.components.length ≤ 1 := by
  rw [components_eq_componentsOf, hpieces, componentsOf, if_pos rfl]
  split
  · exact Nat.zero_le 1
  · split <;> exact Nat.le_refl 1

end Path

namespace Transpiler

open FileSystem ModuleCache.Path

/-- The text has a slash, and behind the first one nothing stands that names anything. -/
def IsTrailed (program : String) : Prop :=
  ∃ first rest, pieces ⟨program⟩ = first :: rest ∧ rest ≠ [] ∧ ∀ piece ∈ rest, isIdle piece = true

/-- A program has more than one component exactly if it has a slash and something behind it. -/
theorem one_lt_length_components_iff {program : String} :
    1 < (components ⟨program⟩).length ↔ '/' ∈ program.toList ∧ ¬ IsTrailed program := by
  rw [slash_mem_iff]
  constructor
  · intro h
    obtain ⟨first, rest, hpieces⟩ := List.exists_cons_of_ne_nil (pieces_ne_nil ⟨program⟩)
    have hrest : rest ≠ [] := by
      rintro rfl
      exact absurd h (Nat.not_lt.mpr (length_components_le hpieces))
    refine ⟨⟨first, rest, hpieces, hrest⟩, ?_⟩
    rintro ⟨first', rest', hpieces', -, hidle⟩
    obtain ⟨-, rfl⟩ := List.cons.inj (hpieces.symm.trans hpieces')
    rw [length_components hpieces hrest, inner_eq_nil_iff.mpr hidle] at h
    exact absurd h (Nat.lt_irrefl 1)
  · rintro ⟨⟨first, rest, hpieces, hrest⟩, htrailed⟩
    have hnamed : inner rest ≠ [] := fun hnil =>
      htrailed ⟨first, rest, hpieces, hrest, inner_eq_nil_iff.mp hnil⟩
    rw [length_components hpieces hrest]
    exact Nat.succ_lt_succ (List.length_pos_iff.mpr hnamed)

theorem IsTrailed.slash_mem {program : String} (h : IsTrailed program) : '/' ∈ program.toList := by
  obtain ⟨first, rest, hpieces, hrest, -⟩ := h
  exact slash_mem_iff.mpr ⟨first, rest, hpieces, hrest⟩

theorem not_endsInName_of_getLast? {p : Path} {last : List Char}
    (hlast : p.pieces.getLast? = some last) (hidle : isIdle last = true) : ¬ p.EndsInName := by
  rintro ⟨front, final, hpieces, hfinal⟩
  rw [hpieces, List.getLast?_concat, Option.some.injEq] at hlast
  rw [hlast, hidle] at hfinal
  cases hfinal

/-- Nothing is named at the end of a program with trailing slashes, in whatever directory it is
looked for. -/
theorem IsTrailed.not_endsInName_join {program : String} (h : IsTrailed program)
    (directory : Path) : ¬ (directory.join ⟨program⟩).EndsInName := by
  obtain ⟨first, rest, hpieces, hrest, hidle⟩ := h
  have hlast : (pieces ⟨program⟩).getLast? = some (rest.getLast hrest) := by
    rw [hpieces, List.getLast?_cons, List.getLast?_eq_some_getLast hrest, Option.getD_some]
  have hend : isIdle (rest.getLast hrest) = true := hidle _ (List.getLast_mem hrest)
  by_cases habs : isAbsolute ⟨program⟩ = true
  · rw [join, if_pos habs]
    exact not_endsInName_of_getLast? hlast hend
  · refine not_endsInName_of_getLast? ?_ hend
    rw [pieces_join (by simpa using habs), List.getLast?_append, hlast]
    rfl

/-- Only what ends in a name can be executed. -/
theorem endsInName_of_isExecutable {fs : FileSystem} {p : Path} (h : fs.isExecutable p = true) :
    p.EndsInName := by
  unfold isExecutable at h
  split at h
  · next content mode modified hfind => exact endsInName_of_find_file hfind
  · cases h

theorem IsTrailed.not_isExecutable_join {program : String} (h : IsTrailed program)
    (fs : FileSystem) (directory : Path) : fs.isExecutable (directory.join ⟨program⟩) = false :=
  Bool.eq_false_iff.mpr fun hfit =>
    h.not_endsInName_join directory (endsInName_of_isExecutable hfit)

/-! ### The rule of search paths -/

/-- Where a program is looked for by an entry of a search path. An empty entry stands for the
current directory. -/
def candidate (program : String) (entry : Path) : Path :=
  if entry.text = "" then ⟨program⟩ else entry.join ⟨program⟩

theorem join_eq_candidate (program : String) (entry : Path) :
    entry.join ⟨program⟩ = candidate program entry := by
  unfold candidate
  split
  · next hempty =>
      obtain rfl : entry = ⟨""⟩ := congrArg Path.mk hempty
      exact join_empty_left _
  · rfl

/-- The answers of the rule for a program and the entries of a search path. -/
inductive Rule (fs : FileSystem) (program : String) (entries : List Path) :
    Except LocateError Path → Prop where
  /-- With a slash the program itself is taken. -/
  | given (slash : '/' ∈ program.toList) (fit : fs.isExecutable ⟨program⟩ = true) :
      Rule fs program entries (.ok ⟨program⟩)
  | unfit (slash : '/' ∈ program.toList) (unfit : fs.isExecutable ⟨program⟩ = false)
      (there : fs.existsAt ⟨program⟩ = true) :
      Rule fs program entries (.error (.notExecutable ⟨program⟩))
  | absent (slash : '/' ∈ program.toList) (absent : fs.existsAt ⟨program⟩ = false) :
      Rule fs program entries (.error (.notFound program 1))
  /-- Without one the first entry with an executable file decides. What stands in the way of
  that in the entries before is passed over. -/
  | first {before after : List Path} {entry : Path} (bare : '/' ∉ program.toList)
      (cut : entries = before ++ entry :: after)
      (passed : ∀ other ∈ before, fs.isExecutable (candidate program other) = false)
      (fit : fs.isExecutable (candidate program entry) = true) :
      Rule fs program entries (.ok (candidate program entry))
  | nowhere (bare : '/' ∉ program.toList)
      (passed : ∀ entry ∈ entries, fs.isExecutable (candidate program entry) = false) :
      Rule fs program entries (.error (.notFound program entries.length))

/-- With a slash and something behind it, a program is taken as it is given. -/
theorem rule_of_components {fs : FileSystem} {program : String}
    (h : 1 < (components ⟨program⟩).length) (searchPath : Option String) (entries : List Path) :
    Rule fs program entries (locate fs program searchPath) := by
  have hslash := (one_lt_length_components_iff.mp h).1
  unfold locate
  rw [if_pos h]
  split
  · next hfit => exact .given hslash hfit
  · next hunfit =>
      split
      · next hthere => exact .unfit hslash (by simpa using hunfit) hthere
      · next habsent => exact .absent hslash (by simpa using habsent)

/-- Looking through a search path, for a program that is one component. -/
theorem locate_of_component {fs : FileSystem} {program : String}
    (h : ¬ 1 < (components ⟨program⟩).length) (searchPath : Option String) :
    locate fs program searchPath =
      match ((searchDirectories searchPath).map (candidate program)).find? fs.isExecutable with
      | some found => .ok found
      | none => .error (.notFound program (searchDirectories searchPath).length) := by
  have hjoin : (fun entry : Path => entry.join ⟨program⟩) = candidate program :=
    funext (join_eq_candidate program)
  unfold locate
  rw [if_neg h]
  dsimp only
  rw [hjoin]
  cases ((searchDirectories searchPath).map (candidate program)).find? fs.isExecutable with
  | none => simp only [List.length_map]
  | some found => rfl

theorem rule_of_bare {fs : FileSystem} {program : String} (hbare : '/' ∉ program.toList)
    (searchPath : Option String) :
    Rule fs program (searchDirectories searchPath) (locate fs program searchPath) := by
  rw [locate_of_component fun h => hbare (one_lt_length_components_iff.mp h).1]
  cases hfind : ((searchDirectories searchPath).map (candidate program)).find? fs.isExecutable with
  | none =>
      refine .nowhere hbare fun entry hentry => ?_
      simpa using List.find?_eq_none.mp hfind _ (List.mem_map_of_mem hentry)
  | some found =>
      obtain ⟨hfit, passed, later, hcut, hpassed⟩ := List.find?_eq_some_iff_append.mp hfind
      obtain ⟨before, back, hentries, rfl, hback⟩ := List.map_eq_append_iff.mp hcut
      obtain ⟨entry, after, rfl, rfl, rfl⟩ := List.map_eq_cons_iff.mp hback
      refine .first hbare hentries (fun other hother => ?_) hfit
      simpa using hpassed _ (List.mem_map_of_mem hother)

/-- A program with trailing slashes is found nowhere, and counted as looked for in every entry
of the search path. -/
theorem locate_of_isTrailed {program : String} (h : IsTrailed program) (fs : FileSystem)
    (searchPath : Option String) :
    locate fs program searchPath =
      .error (.notFound program (searchDirectories searchPath).length) := by
  have hnone : ((searchDirectories searchPath).map (candidate program)).find? fs.isExecutable =
      none := by
    rw [List.find?_eq_none]
    intro found hfound
    obtain ⟨entry, -, rfl⟩ := List.mem_map.mp hfound
    simp [← join_eq_candidate, h.not_isExecutable_join]
  rw [locate_of_component fun hlong => (one_lt_length_components_iff.mp hlong).2 h, hnone]

/-- The rule says the same of a program with trailing slashes only where nothing stands under
it and one entry was looked at. -/
theorem rule_iff_of_isTrailed {program : String} (h : IsTrailed program) (fs : FileSystem)
    (searchPath : Option String) :
    Rule fs program (searchDirectories searchPath) (locate fs program searchPath) ↔
      fs.existsAt ⟨program⟩ = false ∧ (searchDirectories searchPath).length = 1 := by
  rw [locate_of_isTrailed h]
  constructor
  · intro hrule
    generalize hcount : (searchDirectories searchPath).length = count at hrule
    cases hrule with
    | absent _ habsent => exact ⟨habsent, rfl⟩
    | nowhere hbare _ => exact absurd h.slash_mem hbare
  · rintro ⟨habsent, hcount⟩
    rw [hcount]
    exact .absent h.slash_mem habsent

/-! ### Longer search paths -/

/-- A search path with more at its end. -/
def extended : Option String → String → String
  | none, more => more
  | some path, more => path ++ ":" ++ more

theorem searchDirectories_extended (searchPath : Option String) (more : String) :
    searchDirectories (some (extended searchPath more)) =
      searchDirectories searchPath ++ searchDirectories (some more) := by
  cases searchPath with
  | none => rfl
  | some path => simp [extended, searchDirectories, Text.split_append_sep]

theorem locate_extended {fs : FileSystem} {program : String} {searchPath : Option String}
    {found : Path} (h : locate fs program searchPath = .ok found) (more : String) :
    locate fs program (some (extended searchPath more)) = .ok found := by
  by_cases hlong : 1 < (components ⟨program⟩).length
  · unfold locate at h ⊢
    rw [if_pos hlong] at h ⊢
    exact h
  · rw [locate_of_component hlong] at h ⊢
    rw [searchDirectories_extended, List.map_append, List.find?_append]
    split at h
    · next hfind =>
        rw [hfind]
        exact h
    · cases h

/-- How a program is located, measured by the rule of search paths. -/
structure LocatedByRule (fs : FileSystem) (program : String) (searchPath : Option String) :
    Prop where
  /-- The rule is kept, and for programs with trailing slashes only by chance. -/
  ruled : Rule fs program (searchDirectories searchPath) (locate fs program searchPath) ↔
    (IsTrailed program →
      fs.existsAt ⟨program⟩ = false ∧ (searchDirectories searchPath).length = 1)
  trailed : IsTrailed program → locate fs program searchPath =
    .error (.notFound program (searchDirectories searchPath).length)
  /-- Other programs with a slash are taken as they are given, under every search path. -/
  given : '/' ∈ program.toList → ¬ IsTrailed program →
    ∀ other, locate fs program other = locate fs program searchPath
  /-- What is found goes on to be found when more is put behind the search path. -/
  stable : ∀ found, locate fs program searchPath = .ok found →
    ∀ more, locate fs program (some (extended searchPath more)) = .ok found

/-- A program is located as the rule of search paths says, unless slashes trail it: that one is
looked for in the search path and never found, also where the rule has it that something stands
there. -/
theorem locate_follows_rule (fs : FileSystem) (program : String) (searchPath : Option String) :
    LocatedByRule fs program searchPath where
  ruled := by
    by_cases htrailed : IsTrailed program
    · rw [rule_iff_of_isTrailed htrailed]
      exact ⟨fun h _ => h, fun h => h htrailed⟩
    · refine ⟨fun _ h => absurd h htrailed, fun _ => ?_⟩
      by_cases hslash : '/' ∈ program.toList
      · exact rule_of_components (one_lt_length_components_iff.mpr ⟨hslash, htrailed⟩) _ _
      · exact rule_of_bare hslash _
  trailed htrailed := locate_of_isTrailed htrailed fs searchPath
  given hslash htrailed other := by
    have hlong := one_lt_length_components_iff.mpr ⟨hslash, htrailed⟩
    unfold locate
    rw [if_pos hlong, if_pos hlong]
  stable _ hfound more := locate_extended hfound more

/-- A directory with nothing in it. -/
def binTree : FileSystem := ⟨[([], .directory true 0), (["bin"], .directory true 0)], [], 0, 1⟩

/-- A directory that is given with a slash is reported as missing, though it is there and no
executable file. -/
theorem bin_slash_reported_missing :
    binTree.existsAt ⟨"bin/"⟩ = true ∧
      locate binTree "bin/" none = .error (.notFound "bin/" 0) ∧
      ¬ Rule binTree "bin/" (searchDirectories none) (locate binTree "bin/" none) := by
  have htrailed : IsTrailed "bin/" := ⟨"bin".toList, [[]], by decide, by decide, by decide⟩
  have hthere : binTree.existsAt ⟨"bin/"⟩ = true := by decide
  have hlocated := locate_follows_rule binTree "bin/" none
  refine ⟨hthere, hlocated.trailed htrailed, fun hrule => ?_⟩
  have habsent := (hlocated.ruled.mp hrule htrailed).1
  rw [hthere] at habsent
  cases habsent

end Transpiler
end ModuleCache
