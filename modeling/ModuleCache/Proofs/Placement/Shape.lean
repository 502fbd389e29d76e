import ModuleCache.Placement
import ModuleCache.Proofs.Path.Normal
import ModuleCache.Proofs.Path.Suffix

/-!
The shape of an artifact's path. A source in normal form is cut into the root of its
cache and its place below it; the artifact's path is that root, the cache directory and
the place, with the file name at the end renamed. Everything is read off components.
-/

namespace ModuleCache.Layout

open ModuleCache.Path

/-- The container stands at an index with a package and something in it behind it. -/
def IsBoundary (container : String) (cs : List Component) (i : Nat) : Prop :=
  (cs[i]?).map Component.text = some container ∧ i + 2 < cs.length

theorem isBoundary_cons_succ {container : String} {c : Component} {cs : List Component} {i : Nat} :
    IsBoundary container (c :: cs) (i + 1) ↔ IsBoundary container cs i := by
  simp only [IsBoundary, List.getElem?_cons_succ, List.length_cons]
  constructor
  · rintro ⟨hc, hlt⟩
    exact ⟨hc, by omega⟩
  · rintro ⟨hc, hlt⟩
    exact ⟨hc, by omega⟩

theorem two_lt_length_of_isBoundary {container : String} {cs : List Component} {i : Nat}
    (h : IsBoundary container cs i) : 2 < cs.length := by
  have := h.2
  omega

/-- Where none of the later components starts a package, only the first one can. -/
theorem eq_zero_of_isBoundary_cons {container : String} {c : Component} {rest : List Component}
    (hnone : ∀ i, ¬ IsBoundary container rest i) {j : Nat}
    (h : IsBoundary container (c :: rest) j) : j = 0 := by
  cases j with
  | zero => rfl
  | succ j => exact absurd (isBoundary_cons_succ.mp h) (hnone j)

theorem packageBoundary?_eq_none_iff {container : String} {cs : List Component} :
    packageBoundary? container cs = none ↔ ∀ i, ¬ IsBoundary container cs i := by
  induction cs with
  | nil => simp [packageBoundary?, IsBoundary]
  | cons c rest ih =>
      simp only [packageBoundary?]
      cases hrest : packageBoundary? container rest with
      | some cut =>
          obtain ⟨i, hi⟩ : ∃ i, IsBoundary container rest i := by
            by_contra hall
            rw [ih.mpr fun i hi => hall ⟨i, hi⟩] at hrest
            cases hrest
          simpa using ⟨i + 1, isBoundary_cons_succ.mpr hi⟩
      | none =>
          have hzero : (∀ i, ¬ IsBoundary container (c :: rest) i) ↔
              ¬ IsBoundary container (c :: rest) 0 := by
            constructor
            · intro h
              exact h 0
            · intro h i hi
              rw [eq_zero_of_isBoundary_cons (ih.mp hrest) hi] at hi
              exact h hi
          rw [hzero]
          match rest with
          | [] => simp [IsBoundary]
          | [_] => simp [IsBoundary]
          | package :: next :: more =>
              by_cases hc : c.text = container <;> simp [IsBoundary, hc]

/-- The cut at the innermost package: it is made behind the last boundary. -/
theorem packageBoundary?_eq_some_iff {container : String} {cs inside below : List Component} :
    packageBoundary? container cs = some (inside, below) ↔
      ∃ i, IsBoundary container cs i ∧ (∀ j, IsBoundary container cs j → j ≤ i) ∧
        inside = cs.take (i + 2) ∧ below = cs.drop (i + 2) := by
  induction cs generalizing inside below with
  | nil => simp [packageBoundary?, IsBoundary]
  | cons c rest ih =>
      simp only [packageBoundary?]
      cases hrest : packageBoundary? container rest with
      | some cut =>
          obtain ⟨inside', below'⟩ := cut
          obtain ⟨i, hi, hlast, rfl, rfl⟩ := ih.mp hrest
          have hlast' : ∀ j, IsBoundary container (c :: rest) j → j ≤ i + 1 := by
            intro j hj
            cases j with
            | zero => omega
            | succ j => exact Nat.succ_le_succ (hlast j (isBoundary_cons_succ.mp hj))
          constructor
          · intro h
            obtain ⟨rfl, rfl⟩ : c :: rest.take (i + 2) = inside ∧ rest.drop (i + 2) = below := by
              simpa using h
            exact ⟨i + 1, isBoundary_cons_succ.mpr hi, hlast', rfl, rfl⟩
          · rintro ⟨j, hj, hmax, rfl, rfl⟩
            have hji : j = i + 1 :=
              le_antisymm (hlast' j hj) (hmax (i + 1) (isBoundary_cons_succ.mpr hi))
            subst hji
            rfl
      | none =>
          have hsucc : ∀ j, IsBoundary container (c :: rest) j → j = 0 := by
            intro j hj
            exact eq_zero_of_isBoundary_cons (packageBoundary?_eq_none_iff.mp hrest) hj
          match rest with
          | [] =>
              constructor
              · intro h
                cases h
              · rintro ⟨i, hi, -⟩
                exact absurd (two_lt_length_of_isBoundary hi) (by simp)
          | [_] =>
              constructor
              · intro h
                cases h
              · rintro ⟨i, hi, -⟩
                exact absurd (two_lt_length_of_isBoundary hi) (by simp)
          | package :: next :: more =>
              by_cases hc : c.text = container
              · have hzero : IsBoundary container (c :: package :: next :: more) 0 := by
                  simp [IsBoundary, hc]
                simp only [if_pos hc]
                constructor
                · intro h
                  obtain ⟨rfl, rfl⟩ : [c, package] = inside ∧ next :: more = below := by
                    simpa using h
                  exact ⟨0, hzero, fun j hj => (hsucc j hj).le, rfl, rfl⟩
                · rintro ⟨j, hj, -, rfl, rfl⟩
                  rw [hsucc j hj]
                  rfl
              · simp only [if_neg hc]
                constructor
                · intro h
                  cases h
                · rintro ⟨j, hj, -⟩
                  rw [hsucc j hj] at hj
                  exact absurd (by simpa [IsBoundary] using hj) hc

/-- Either a path is cut behind its last boundary, or it has none and is not cut. -/
theorem packageBoundary?_cases (container : String) (cs : List Component) :
    (∃ i, IsBoundary container cs i ∧ (∀ j, IsBoundary container cs j → j ≤ i) ∧
        packageBoundary? container cs = some (cs.take (i + 2), cs.drop (i + 2))) ∨
      (∀ i, ¬ IsBoundary container cs i) ∧ packageBoundary? container cs = none := by
  cases hcut : packageBoundary? container cs with
  | none => exact .inr ⟨packageBoundary?_eq_none_iff.mp hcut, rfl⟩
  | some cut =>
      obtain ⟨inside, below⟩ := cut
      obtain ⟨i, hi, hlast, rfl, rfl⟩ := packageBoundary?_eq_some_iff.mp hcut
      exact .inl ⟨i, hi, hlast, rfl⟩

/-! ### Root and place -/

/-- The components of the root of a source's cache, and those of the place below it. -/
def cut (l : Layout) (source : Path) : List Component × List Component :=
  (packageBoundary? l.container source.components).getD
    (l.installRoot.components, l.belowInstallRoot source)

theorem home_snd (l : Layout) (source : Path) :
    (l.home source).2 = ofComponents (l.cut source).2 := by
  unfold home cut
  cases packageBoundary? l.container source.components <;> rfl

theorem wellFormed_take {cs : List Component} (h : WellFormed cs) (n : Nat) :
    WellFormed (cs.take n) := by
  cases cs with
  | nil => simpa using h
  | cons first rest =>
      cases n with
      | zero => trivial
      | succ n => exact ⟨h.1, fun c hc => h.2 c (List.mem_of_mem_take hc)⟩

theorem components_home_fst (l : Layout) (source : Path) :
    (l.home source).1.components = (l.cut source).1 := by
  unfold home cut
  rcases packageBoundary?_cases l.container source.components with
    ⟨i, -, -, hcut⟩ | ⟨-, hcut⟩
  · rw [hcut]
    exact components_ofComponents (wellFormed_take (wellFormed_components source) _)
  · rw [hcut]
    rfl

theorem isInner_of_isName {cs : List Component} (h : WellFormed cs) {c : Component}
    (hmem : c ∈ cs) (hc : c.isName = true) : c.IsInner := by
  cases cs with
  | nil => cases hmem
  | cons first rest =>
      rcases List.mem_cons.mp hmem with rfl | hrest
      · rcases h.1 with h1 | h1 | h1
        · rw [h1] at hc
          cases hc
        · rw [h1] at hc
          cases hc
        · exact h1
      · exact h.2 c hrest

theorem belowInstallRoot_eq (l : Layout) (source : Path) :
    l.belowInstallRoot source =
      if l.installRoot.components <+: source.components then
        (source.components.drop l.installRoot.components.length).filter (·.isName)
      else source.components.filter (·.isName) := by
  unfold belowInstallRoot componentsBelow?
  by_cases h : l.installRoot.components <+: source.components
  · rw [if_pos h, if_pos (List.isPrefixOf_iff_prefix.mpr h)]
    rfl
  · rw [if_neg h, if_neg fun hp => h (List.isPrefixOf_iff_prefix.mp hp)]
    rfl

theorem isInner_of_mem_cut {l : Layout} {source : Path} {c : Component}
    (h : c ∈ (l.cut source).2) : c.IsInner := by
  have hwf := wellFormed_components source
  rw [cut] at h
  rcases packageBoundary?_cases l.container source.components with
    ⟨i, -, -, hcut⟩ | ⟨-, hcut⟩
  · rw [hcut] at h
    cases hcs : source.components with
    | nil => simp [hcs] at h
    | cons first rest =>
        rw [hcs] at hwf
        simp only [Option.getD_some, hcs, List.drop_succ_cons] at h
        exact hwf.2 c (List.mem_of_mem_drop h)
  · rw [hcut] at h
    simp only [Option.getD_none, belowInstallRoot_eq] at h
    split at h
    · obtain ⟨hmem, hname⟩ := List.mem_filter.mp h
      exact isInner_of_isName hwf (List.mem_of_mem_drop hmem) hname
    · obtain ⟨hmem, hname⟩ := List.mem_filter.mp h
      exact isInner_of_isName hwf hmem hname

theorem components_cut_snd (l : Layout) (source : Path) :
    (ofComponents (l.cut source).2).components = (l.cut source).2 :=
  components_ofComponents (wellFormed_of_isInner fun _ hc => isInner_of_mem_cut hc)

/-- The place of a source below its root ends in the source's name, unless the source is
the installation root. -/
theorem cut_snd_of_name {l : Layout} {source : Path} {front : List Component} {name : String}
    (h : source.components = front ++ [.name name]) :
    ((l.cut source).2 = [] ∧ source.components = l.installRoot.components) ∨
      ∃ before, (l.cut source).2 = before ++ [.name name] := by
  have hdrop : ∀ n, n < source.components.length →
      ∃ before, source.components.drop n = before ++ [.name name] := by
    intro n hn
    rw [h] at hn ⊢
    refine ⟨front.drop n, List.drop_append_of_le_length ?_⟩
    simp at hn
    omega
  rw [cut]
  rcases packageBoundary?_cases l.container source.components with
    ⟨i, hi, -, hcut⟩ | ⟨-, hcut⟩
  · rw [hcut]
    exact .inr (hdrop (i + 2) hi.2)
  · simp only [hcut, Option.getD_none, belowInstallRoot_eq]
    split
    · next hstarts =>
        rcases Nat.lt_or_ge l.installRoot.components.length source.components.length with hlt | hge
        · obtain ⟨before, hbefore⟩ := hdrop _ hlt
          refine .inr ⟨before.filter (·.isName), ?_⟩
          rw [hbefore, List.filter_append]
          rfl
        · exact .inl ⟨by rw [List.drop_eq_nil_of_le hge]; rfl, (hstarts.eq_of_length_le hge).symm⟩
    · refine .inr ⟨front.filter (·.isName), ?_⟩
      rw [h, List.filter_append]
      rfl

/-! ### The artifact and its map -/

/-- The cache directory that holds a source's artifact. -/
def tree (l : Layout) (source : Path) : Path := (l.home source).1.join ⟨l.cacheDir⟩

theorem place_eq (l : Layout) (p : Path) :
    l.place p =
      let cache := l.extensions.toOutput ((l.tree p.normalize).join (l.home p.normalize).2)
      ⟨cache, l.extensions.toMap cache, (l.home p.normalize).1, (l.home p.normalize).2⟩ := by
  unfold place tree
  rcases l.home p.normalize with ⟨root, relative⟩
  rfl

theorem place_cache (l : Layout) (p : Path) :
    (l.place p).cache = l.extensions.toOutput
      ((l.tree p.normalize).join (ofComponents (l.cut p.normalize).2)) := by
  rw [place_eq, ← home_snd]

theorem place_map (l : Layout) (p : Path) :
    (l.place p).map = l.extensions.toMap (l.place p).cache := by
  rw [place_eq]

theorem place_root (l : Layout) (p : Path) : (l.place p).root = (l.home p.normalize).1 := by
  rw [place_eq]

theorem place_relative (l : Layout) (p : Path) :
    (l.place p).relative = ofComponents (l.cut p.normalize).2 := by
  rw [place_eq, ← home_snd]

theorem join_cacheDir_place (l : Layout) (p : Path) :
    (l.place p).root.join ⟨l.cacheDir⟩ = l.tree p.normalize := by
  rw [place_root, tree]

theorem components_place_root (l : Layout) (p : Path) :
    (l.place p).root.components = (l.cut p.normalize).1 := by
  rw [place_root, components_home_fst]

theorem components_place_relative (l : Layout) (p : Path) :
    (l.place p).relative.components = (l.cut p.normalize).2 := by
  rw [place_relative, components_cut_snd]

/-- The artifact and the map of a source that is not its own root: at the end of the place
below the root the suffix of sources gives way to that of artifacts, and this to that of
maps. -/
theorem place_of_last {l : Layout} {p : Path} {front : List Component} {name : String}
    (hbelow : (l.cut p.normalize).2 = front ++ [.name name]) :
    (l.place p).cache.components = (l.tree p.normalize).components ++ front ++
        [resuffixed l.extensions.source l.extensions.output (.name name)] ∧
      (l.place p).map.components = (l.tree p.normalize).components ++ front ++
        [resuffixed l.extensions.output l.extensions.map
          (resuffixed l.extensions.source l.extensions.output (.name name))] ∧
      (l.place p).cache.EndsInName := by
  have hinner : ∀ c ∈ front ++ [Component.name name], c.IsInner := fun c hc =>
    isInner_of_mem_cut (hbelow ▸ hc)
  obtain ⟨-, hends⟩ := fileName?_join_ofComponents (l.tree p.normalize)
    (fun c hc => hinner c (List.mem_append_left _ hc)) (hinner (.name name) (by simp))
  have hjoined := components_join_ofComponents (l.tree p.normalize) (by simp) hinner
  rw [← List.append_assoc] at hjoined
  obtain ⟨hcache, hcacheEnds⟩ := components_swap_of_endsInName l.extensions.source_bare
    l.extensions.output_bare hends hjoined
  rw [← hbelow] at hcache hcacheEnds
  obtain ⟨hmap, -⟩ := components_swap_of_endsInName l.extensions.output_bare
    l.extensions.map_bare hcacheEnds hcache
  rw [place_map, place_cache]
  exact ⟨hcache, hmap, hcacheEnds⟩

/-- The same for a tracked source, by the stem of its name. -/
theorem place_of_name {l : Layout} {p : Path} {name : String} {stem : List Char}
    {front : List Component}
    (hcut : splitExtension name.toList = (stem, some l.extensions.source.toList))
    (hbelow : (l.cut p.normalize).2 = front ++ [.name name]) :
    (l.place p).cache.components = (l.tree p.normalize).components ++ front ++
        [renamed stem true l.extensions.output] ∧
      (l.place p).map.components = (l.tree p.normalize).components ++ front ++
        [renamed stem true l.extensions.map] := by
  obtain ⟨-, -, hstem⟩ := splitExtension_eq_some_iff.mp hcut
  obtain ⟨hcache, hmap, -⟩ := place_of_last hbelow
  rw [resuffixed_of_splitExtension l.extensions.source_bare _ hcut] at hcache hmap
  rw [resuffixed_renamed hstem l.extensions.output_bare] at hmap
  exact ⟨hcache, hmap⟩

/-- An artifact's path that ends in a name has the extension of artifacts. -/
theorem extension?_cache {l : Layout} {p : Path} (htracked : l.extensions.isTracked p = true)
    {name : String} (hname : (l.place p).cache.fileName? = some name)
    (hends : (l.place p).cache.EndsInName) :
    (l.place p).cache.extension? = some l.extensions.output := by
  rw [place_cache] at hname hends ⊢
  by_cases hext : ((l.tree p.normalize).join (ofComponents (l.cut p.normalize).2)).extension? =
      some l.extensions.source
  · exact extension?_swap hext l.extensions.output_bare hname
  · rw [Extensions.toOutput, swap_of_extension?_ne hext] at hends
    obtain ⟨source, stem, hsource, hcut⟩ := extension?_eq_some_iff.mp (isTracked_iff.mp htracked)
    rcases cut_snd_of_name (l := l) (components_eq_of_fileName? (fileName?_normalize hsource))
      with ⟨hnil, -⟩ | ⟨front, hfront⟩
    · rw [hnil] at hends
      exact absurd hends (not_endsInName_join_empty _)
    · have hinner : ∀ c ∈ front, c.IsInner := by
        intro c hc
        have hmem : c ∈ (l.cut p.normalize).2 := by simp [hfront, hc]
        exact isInner_of_mem_cut hmem
      obtain ⟨hfile, -⟩ := fileName?_join_ofComponents (l.tree p.normalize) hinner
        (isName_of_fileName? hsource)
      rw [← hfront] at hfile
      exact absurd (extension?_eq_some_iff.mpr ⟨source, stem, hfile, hcut⟩) hext

/-- A map's path that ends in a name has the extension of maps. -/
theorem extension?_map {l : Layout} {p : Path}
    (hcache : (l.place p).cache.extension? = some l.extensions.output) {name : String}
    (hname : (l.place p).map.fileName? = some name) :
    (l.place p).map.extension? = some l.extensions.map := by
  rw [place_map] at hname ⊢
  exact extension?_swap hcache l.extensions.map_bare hname

end ModuleCache.Layout
