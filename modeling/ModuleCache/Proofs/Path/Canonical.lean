import Mathlib.Data.List.Induction
import ModuleCache.Placement
import ModuleCache.Proofs.Path.Normal

/-!
Normal forms as canonical spellings. A list of components is normal if it has no `.` and nothing
but `..` in front of a `..`; reading it keeps every component as it stands. Reading a path and
then more components is the same as starting from the path's normal form, so a path can be
brought into normal form before or after something is joined to it, and artifacts are placed the
same whichever spelling of a source or of an installation root is given.
-/

namespace ModuleCache.Path

/-- No `.`, and what stands in front of a `..` is a `..`: there is none behind the root or a
name. -/
structure IsNormal (cs : List Component) : Prop where
  here_not_mem : .here ∉ cs
  up_of_up : cs.Pairwise fun c d => d = .up → c = .up

theorem IsNormal.of_append {front back : List Component} (h : IsNormal (front ++ back)) :
    IsNormal front :=
  ⟨fun hmem => h.here_not_mem (List.mem_append_left _ hmem),
    (List.pairwise_append.mp h.up_of_up).1⟩

/-- The last component of a normal list is kept behind the others. -/
theorem normalStep_of_isNormal {cs : List Component} {c : Component} (h : IsNormal (cs ++ [c])) :
    normalStep cs.reverse c = c :: cs.reverse := by
  cases c with
  | root => rfl
  | here => exact absurd (List.mem_append_right _ List.mem_cons_self) h.here_not_mem
  | name text => rfl
  | up =>
      have hup : ∀ d ∈ cs.reverse, d = .up := by
        intro d hd
        obtain ⟨-, -, hcross⟩ := List.pairwise_append.mp h.up_of_up
        exact hcross d (List.mem_reverse.mp hd) .up List.mem_cons_self rfl
      cases hkept : cs.reverse with
      | nil => rfl
      | cons top rest =>
          obtain rfl : top = .up := hup top (by simp [hkept])
          rfl

theorem foldl_normalStep_of_isNormal {cs : List Component} (h : IsNormal cs) :
    cs.foldl normalStep [] = cs.reverse := by
  induction cs using List.reverseRecOn with
  | nil => rfl
  | append_singleton cs c ih =>
      rw [List.foldl_append, ih h.of_append, List.foldl_cons, List.foldl_nil,
        normalStep_of_isNormal h, List.reverse_append]
      rfl

theorem normalComponents_of_isNormal {cs : List Component} (h : IsNormal cs) :
    normalComponents cs = cs := by
  rw [normalComponents, foldl_normalStep_of_isNormal h, List.reverse_reverse]

/-- A normal form is the root, or a run of steps upward, and names behind it. -/
theorem isNormal_normalize (p : Path) : IsNormal p.normalize.components := by
  obtain ⟨start, names, hnormal, hstart⟩ := exists_names_normalize p
  rw [hnormal]
  constructor
  · intro hmem
    rcases List.mem_append.mp hmem with hmem | hmem
    · rcases hstart with rfl | hup
      · simp at hmem
      · cases hup _ hmem
    · simp at hmem
  · refine List.pairwise_append.mpr ⟨?_, ?_, ?_⟩
    · rcases hstart with rfl | hup
      · exact List.pairwise_singleton _ _
      · exact List.pairwise_of_forall_mem_list fun c hc _ _ _ => hup c hc
    · rw [List.pairwise_map]
      exact List.pairwise_of_forall fun _ _ h => by cases h
    · intro c _ d hd hup
      obtain ⟨name, -, rfl⟩ := List.mem_map.mp hd
      cases hup

theorem normalize_normalize (p : Path) : p.normalize.normalize = p.normalize := by
  rw [normalize_eq_iff, components_normalize p.normalize]
  exact normalComponents_of_isNormal (isNormal_normalize p)

/-- The paths that are their own normal form, up to idle pieces, are those whose components are
normal. -/
theorem normalize_same_iff (p : Path) :
    p.normalize.same p = true ↔ IsNormal p.components := by
  rw [same_iff]
  constructor
  · intro h
    rw [← h]
    exact isNormal_normalize p
  · intro h
    rw [components_normalize, normalComponents_of_isNormal h]

/-! ### Joining -/

/-- More components are read behind a normal form as behind the path itself. -/
theorem normalComponents_append (p : Path) (cs : List Component) :
    normalComponents (p.components ++ cs) = normalComponents (p.normalize.components ++ cs) := by
  have hkept : p.normalize.components.foldl normalStep [] = p.components.foldl normalStep [] := by
    rw [foldl_normalStep_of_isNormal (isNormal_normalize p), components_normalize,
      normalComponents, List.reverse_reverse]
  rw [normalComponents, normalComponents, List.foldl_append, List.foldl_append, hkept]

/-- A leading dot is lost in reading, so a relative path is read like its inner components. -/
theorem normalComponents_of_relative {p : Path} (h : p.isAbsolute = false) :
    normalComponents p.components = normalComponents (inner p.pieces) := by
  have hroot : p.components.head? ≠ some .root := by
    intro hhead
    rw [isAbsolute_iff.mpr hhead] at h
    cases h
  rw [components_eq_componentsOf] at hroot ⊢
  cases hp : p.pieces with
  | nil => rfl
  | cons first rest =>
      rw [hp] at hroot
      simp only [componentsOf] at hroot ⊢
      by_cases hempty : first = []
      · by_cases hrest : rest = []
        · simp [hempty, hrest, inner, isIdle]
        · simp [hempty, hrest] at hroot
      · rw [if_neg hempty]
        by_cases hdot : first = ['.']
        · rw [if_pos hdot, inner_cons_idle (by simp [isIdle, hdot])]
          rfl
        · rw [if_neg hdot, inner_cons_of_not_idle (by simp [isIdle, hempty, hdot])]

theorem normalComponents_join (a : Path) {b : Path} (hb : b.isAbsolute = false) :
    normalComponents (a.join b).components =
      normalComponents (a.components ++ inner b.pieces) := by
  by_cases ha : a.text = ""
  · obtain rfl : a = ⟨""⟩ := by cases a; simp_all
    rw [join_empty_left, normalComponents_of_relative hb]
    rfl
  · rw [components_join ha hb]

theorem normalize_join (a b : Path) : (a.join b).normalize = (a.normalize.join b).normalize := by
  by_cases hb : b.isAbsolute = true
  · rw [join, if_pos hb, join, if_pos hb]
  · have hrelative : b.isAbsolute = false := by simpa using hb
    rw [normalize, normalComponents_join a hrelative, normalComponents_append,
      ← normalComponents_join a.normalize hrelative]
    rfl

/-- The normal form of a path is normal, stays as it is, and is the path itself exactly if that is
normal; whatever is joined to a path, an absolute path or one that climbs above it, can as well be
joined to its normal form. So the spelling of a source and that of an installation root make no
difference to where an artifact is placed. -/
theorem normal_form_is_canonical :
    (∀ p : Path, IsNormal p.normalize.components ∧ p.normalize.normalize = p.normalize ∧
      (p.normalize.same p = true ↔ IsNormal p.components)) ∧
    (∀ a b : Path, (a.join b).normalize = (a.normalize.join b).normalize) ∧
    ∀ (root root' source source' : Path) (cacheDir container : String) (extensions : Extensions),
      root.normalize.same root'.normalize = true →
      source.normalize.same source'.normalize = true →
        (Layout.ofRoot root cacheDir container extensions).place source =
          (Layout.ofRoot root' cacheDir container extensions).place source' := by
  refine ⟨fun p => ⟨isNormal_normalize p, normalize_normalize p, normalize_same_iff p⟩,
    normalize_join, ?_⟩
  intro root root' source source' cacheDir container extensions hroot hsource
  have hroots : root.normalize = root'.normalize := normalize_eq_iff.mpr (same_iff.mp hroot)
  have hsources : source.normalize = source'.normalize := normalize_eq_iff.mpr (same_iff.mp hsource)
  rw [Layout.ofRoot, Layout.ofRoot, hroots, Layout.place, Layout.place, hsources]

/-- A source above a root that is itself written with a detour. -/
theorem respelled_paths_placed_alike :
    let root : Path := ⟨"/srv/x/../app/"⟩
    let source : Path := ⟨"/srv/app/../../..//opt/./a.coffee"⟩
    root.normalize.same (⟨"/srv/./app"⟩ : Path).normalize = true ∧
      source.normalize.same (⟨"/opt/a.coffee"⟩ : Path).normalize = true ∧
      (Layout.ofRoot root "c" "lib" .standard).place source =
        (Layout.ofRoot ⟨"/srv/./app"⟩ "c" "lib" .standard).place ⟨"/opt/a.coffee"⟩ := by
  intro root source
  have hroot : root.normalize.same (⟨"/srv/./app"⟩ : Path).normalize = true := by
    decide +kernel
  have hsource : source.normalize.same (⟨"/opt/a.coffee"⟩ : Path).normalize = true := by
    decide +kernel
  exact ⟨hroot, hsource, normal_form_is_canonical.2.2 _ _ _ _ _ _ _ hroot hsource⟩

end ModuleCache.Path
