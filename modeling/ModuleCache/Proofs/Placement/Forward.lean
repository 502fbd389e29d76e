import ModuleCache.Proofs.FileSystem.Reading
import ModuleCache.Proofs.Placement.Shape

/-!
Which way the path of an artifact goes. The root of a cache is a normal form or the front of
one, so it climbs at most at its start; what stands behind the innermost package, or below the
installation root, are names. So the path as a whole climbs only at its start, if the cache
directory is spelled without a step upward.
-/

namespace ModuleCache

open FileSystem

namespace Path

theorem isForward_append {front names : List Component}
    (hfront : front.Pairwise fun c d => c.isName = true → d.isName = true)
    (hnames : ∀ d ∈ names, d.isName = true) :
    (front ++ names).Pairwise fun c d => c.isName = true → d.isName = true :=
  List.pairwise_append.mpr
    ⟨hfront, List.pairwise_of_forall_mem_list fun _ _ d hd _ => hnames d hd,
      fun _ _ d hd _ => hnames d hd⟩

theorem isName_of_isInner {c : Component} (h : c.IsInner) (hup : c ≠ .up) : c.isName = true := by
  cases c with
  | root => exact h.elim
  | here => exact h.elim
  | up => exact absurd rfl hup
  | name text => rfl

/-- A path without a step upward goes forward: only its first component can be no name. -/
theorem isForward_of_up_not_mem {p : Path} (h : .up ∉ p.components) : p.IsForward := by
  have hwf := wellFormed_components p
  unfold IsForward
  cases hp : p.components with
  | nil => exact .nil
  | cons first rest =>
      rw [hp] at h hwf
      rw [← List.singleton_append]
      apply isForward_append (List.pairwise_singleton _ first)
      intro d hd
      apply isName_of_isInner (hwf.2 d hd)
      rintro rfl
      exact h (List.mem_cons_of_mem _ hd)

theorem isForward_join {a b : Path} (ha : a.IsForward) (hb : .up ∉ b.components) :
    (a.join b).IsForward := by
  by_cases habsolute : b.isAbsolute = true
  · rw [join, if_pos habsolute]
    exact isForward_of_up_not_mem hb
  · by_cases htext : a.text = ""
    · obtain rfl : a = ⟨""⟩ := by rw [← htext]
      rw [join_empty_left]
      exact isForward_of_up_not_mem hb
    · unfold IsForward
      rw [components_join htext (by simpa using habsolute)]
      apply isForward_append ha
      intro d hd
      apply isName_of_isInner (isInner_of_mem_inner (fun _ h => not_mem_of_mem_pieces h) hd)
      rintro rfl
      exact hb ((inner_pieces_sublist b).subset hd)

theorem isForward_normalize (p : Path) : p.normalize.IsForward := by
  obtain ⟨start, names, hnormal, hstart⟩ := exists_names_normalize p
  have hidle : ∀ c ∈ start, c.isName = false := by
    intro c hc
    rcases hstart with rfl | hup
    · rw [List.mem_singleton.mp hc]
      rfl
    · rw [hup c hc]
      rfl
  unfold IsForward
  rw [hnormal]
  apply isForward_append
  · apply List.pairwise_of_forall_mem_list
    intro c hc d _ hname
    rw [hidle c hc] at hname
    cases hname
  · intro d hd
    obtain ⟨name, -, rfl⟩ := List.mem_map.mp hd
    rfl

end Path

namespace Layout

open ModuleCache.Path

/-- Behind the innermost package of a source only names follow, even where the container is
a step upward: of several steps it is the last with a package behind it. -/
theorem isName_behind_package {container : String} {p : Path} {name : String} {i : Nat}
    (hname : p.fileName? = some name) (hi : IsBoundary container p.normalize.components i)
    (hlast : ∀ j, IsBoundary container p.normalize.components j → j ≤ i) :
    ∀ c ∈ p.normalize.components.drop (i + 2), c.isName = true := by
  obtain ⟨start, names, hnormal, hstart⟩ := exists_names_normalize p
  have hend := fileName?_eq_some_iff.mp (fileName?_normalize hname)
  rw [hnormal] at hi hlast hend ⊢
  have hbehind : start.length ≤ i + 2 := by
    rcases hstart with rfl | hup
    · simp
    · by_contra hshort
      have hstep : ∀ k, k ≤ i + 1 → (start ++ names.map Component.name)[k]? = some .up := by
        intro k hk
        rw [List.getElem?_append_left (by omega), List.getElem?_eq_getElem (by omega),
          hup _ (List.getElem_mem _)]
      have hnames : names ≠ [] := by
        rintro rfl
        rw [List.map_nil, List.append_nil] at hend
        cases hup _ (List.mem_of_getLast? hend)
      have hcontainer := hi.1
      rw [hstep i (by omega), ← hstep (i + 1) (by omega)] at hcontainer
      have hlength := List.length_pos_iff.mpr hnames
      have hnext := hlast (i + 1) ⟨hcontainer, by simp; omega⟩
      omega
  intro c hc
  rw [List.drop_append, List.drop_eq_nil_of_le hbehind, List.nil_append] at hc
  obtain ⟨text, -, rfl⟩ := List.mem_map.mp (List.mem_of_mem_drop hc)
  rfl

/-- The root of a tracked source's cache goes forward, and the place below it consists of
names. -/
theorem isForward_cut {l : Layout} (hforward : l.installRoot.IsForward) {p : Path}
    {name : String} (hname : p.fileName? = some name) :
    (l.cut p.normalize).1.Pairwise (fun c d => c.isName = true → d.isName = true) ∧
      ∀ c ∈ (l.cut p.normalize).2, c.isName = true := by
  rw [cut]
  rcases packageBoundary?_cases l.container p.normalize.components with
    ⟨i, hi, hlast, hcut⟩ | ⟨-, hcut⟩
  · simp only [hcut, Option.getD_some]
    exact ⟨(isForward_normalize p).sublist (List.take_sublist _ _),
      isName_behind_package hname hi hlast⟩
  · simp only [hcut, Option.getD_none]
    refine ⟨hforward, ?_⟩
    intro c hc
    exact (List.mem_filter.mp hc).2

/-- Where the artifact of a tracked source has a name, its path goes forward. -/
theorem isForward_cache {l : Layout} (hforward : l.installRoot.IsForward)
    (hdown : .up ∉ (⟨l.cacheDir⟩ : Path).components) {p : Path}
    (htracked : l.extensions.isTracked p = true) {name : String}
    (hname : (l.place p).cache.fileName? = some name) : (l.place p).cache.IsForward := by
  obtain ⟨source, -, hsource, -⟩ := extension?_eq_some_iff.mp (isTracked_iff.mp htracked)
  obtain ⟨hroot, hbelow⟩ := isForward_cut hforward hsource
  have htree : (l.tree p.normalize).IsForward := by
    apply isForward_join _ hdown
    unfold IsForward
    rwa [components_home_fst]
  have hjoined : ((l.tree p.normalize).join (ofComponents (l.cut p.normalize).2)).IsForward := by
    unfold IsForward
    by_cases hnil : (l.cut p.normalize).2 = []
    · rw [hnil]
      change ((l.tree p.normalize).join ⟨""⟩).components.Pairwise _
      rw [components_join_empty]
      exact htree
    · rw [components_join_ofComponents _ hnil fun c hc => isInner_of_mem_cut hc]
      exact isForward_append htree hbelow
  rw [place_cache] at hname ⊢
  rw [Extensions.toOutput] at hname ⊢
  by_cases hext : ((l.tree p.normalize).join (ofComponents (l.cut p.normalize).2)).extension? =
      some l.extensions.source
  · obtain ⟨old, stem, hold, hcut⟩ := extension?_eq_some_iff.mp hext
    obtain ⟨isLast, -, hswap, -⟩ := components_swap hold hcut l.extensions.output_bare
    have hend := fileName?_eq_some_iff.mp hname
    rw [hswap, List.getLast?_concat] at hend
    unfold IsForward
    rw [hswap, Option.some.inj hend]
    apply isForward_append (hjoined.sublist (List.dropLast_sublist _))
    intro d hd
    rw [List.mem_singleton.mp hd]
    rfl
  · rw [swap_of_extension?_ne hext]
    exact hjoined

end Layout
end ModuleCache
