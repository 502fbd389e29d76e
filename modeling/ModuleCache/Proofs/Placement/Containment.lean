import ModuleCache.Proofs.Placement.Packages

/-!
How far artifacts stay inside the cache. The place of a source below the root of its cache
consists of names, and its artifact and its map stand at that place below the cache
directory, their last name under another suffix. One name breaks out: `..coffee` has the
extension `coffee` and nothing but a dot in front of it, and what takes its place is a step
upward. So the artifact of `/srv/app/..coffee` is the directory `/srv/app` itself.
-/

namespace ModuleCache

namespace Path

/-- Behind the components of `base` the path has names only. -/
def IsBelow (p base : Path) : Prop :=
  ∃ names : List String, p.components = base.components ++ names.map .name

theorem exists_names {cs : List Component} (h : ∀ c ∈ cs, c.isName = true) :
    ∃ names : List String, cs = names.map .name := by
  induction cs with
  | nil => exact ⟨[], rfl⟩
  | cons c cs ih =>
      obtain ⟨hc, hcs⟩ := List.forall_mem_cons.mp h
      obtain ⟨names, rfl⟩ := ih hcs
      cases c with
      | root => cases hc
      | here => cases hc
      | up => cases hc
      | name text => exact ⟨text :: names, rfl⟩

theorem resuffixed_eq_up_iff {old new name : String} :
    resuffixed old new (.name name) = .up ↔ name = ".." ++ old := by
  simp [resuffixed]

/-- Where the suffix of artifacts took the place of that of sources, the suffix of maps
finds two dots only if they were there before. -/
theorem resuffixed_resuffixed_eq_up_iff {source output map name : String}
    (hsource : IsBare source) (houtput : IsBare output) :
    resuffixed output map (resuffixed source output (.name name)) = .up ↔
      name = ".." ++ source ∨ name = ".." ++ output := by
  by_cases hcut : (splitExtension name.toList).2 = some source.toList
  · have hsplit : splitExtension name.toList =
        ((splitExtension name.toList).1, some source.toList) := Prod.ext rfl hcut
    obtain ⟨-, -, hstem⟩ := splitExtension_eq_some_iff.mp hsplit
    rw [resuffixed_of_splitExtension hsource output hsplit, resuffixed_renamed hstem houtput,
      ← splitExtension_dots_iff hsource, ← splitExtension_dots_iff houtput, hsplit]
    constructor
    · intro h
      have hdot : (splitExtension name.toList).1 = ['.'] := by simpa [renamed] using h
      exact .inl (by rw [hdot])
    · rintro (h | h) <;> simp [renamed, (Prod.mk.inj h).1]
  · rw [resuffixed_of_splitExtension_ne hsource output hcut, resuffixed_eq_up_iff,
      or_iff_right (ne_dots_of_splitExtension_ne hsource hcut)]

/-- Behind a directory, an entry of it and names, only the last component can step upward. -/
theorem up_mem_drop_iff (above : List Component) {entry last : Component} (names : List String)
    (hentry : entry ≠ .up) :
    Component.up ∈ (above ++ [entry] ++ names.map Component.name ++ [last]).drop above.length ↔
      last = .up := by
  rw [List.append_assoc, List.append_assoc, List.drop_left]
  simp [hentry.symm, eq_comm]

end Path

namespace Layout

open ModuleCache.Path

/-- The place of a source below the root of its cache consists of names, if it does so
behind a container. -/
theorem isName_of_mem_cut {l : Layout} {source : Path} {c : Component}
    (hpackage : ∀ i, IsBoundary l.container source.components i →
      ∀ c ∈ source.components.drop i, c.isName = true)
    (h : c ∈ (l.cut source).2) : c.isName = true := by
  rw [cut] at h
  rcases packageBoundary?_cases l.container source.components with
    ⟨i, hi, -, hcut⟩ | ⟨-, hcut⟩
  · simp only [hcut, Option.getD_some, ← List.drop_drop] at h
    exact hpackage i hi c (List.mem_of_mem_drop h)
  · simp only [hcut, Option.getD_none, belowInstallRoot_eq] at h
    split at h
    · exact (List.mem_filter.mp h).2
    · exact (List.mem_filter.mp h).2

/-- Root and place together are the source again, inside a package and below the
installation root, and nowhere else. -/
theorem cut_append_iff {l : Layout} {source : Path}
    (hnames : ∀ c ∈ (l.cut source).2, c.isName = true) :
    (l.cut source).1 ++ (l.cut source).2 = source.components ↔
      (∃ i, IsBoundary l.container source.components i) ∨ source.IsBelow l.installRoot := by
  rw [cut] at hnames ⊢
  rcases packageBoundary?_cases l.container source.components with
    ⟨i, hi, -, hcut⟩ | ⟨hnone, hcut⟩
  · simp only [hcut, Option.getD_some, List.take_append_drop]
    exact iff_of_true trivial (.inl ⟨i, hi⟩)
  · simp only [hcut, Option.getD_none] at hnames ⊢
    rw [or_iff_right (not_exists.mpr hnone)]
    constructor
    · intro h
      obtain ⟨names, hbelow⟩ := exists_names hnames
      rw [hbelow] at h
      exact ⟨names, h.symm⟩
    · rintro ⟨names, hbelow⟩
      have hprefix : l.installRoot.components <+: source.components :=
        ⟨names.map .name, hbelow.symm⟩
      have hall : (names.map Component.name).filter (·.isName) = names.map .name := by
        rw [List.filter_eq_self]
        simp [Component.isName]
      rw [belowInstallRoot_eq, if_pos hprefix, hbelow, List.drop_left, hall]

end Layout

namespace Settings

open ModuleCache.Path

theorem isName_of_mem_cut (settings : Settings) {source : Path} {c : Component}
    (h : c ∈ (settings.layout.cut source.normalize).2) : c.isName = true := by
  refine Layout.isName_of_mem_cut ?_ h
  rintro i ⟨hi, -⟩
  obtain ⟨container, hget, htext⟩ := Option.map_eq_some_iff.mp hi
  obtain ⟨-, hname⟩ := eq_containerName_of_text (List.mem_of_getElem? hget) htext
  rw [hname] at hget
  exact isName_of_mem_drop_normalize hget

/-- Where the artifact and the map of a source belong: the source has the given name, in the
given directories below the root of its cache. -/
structure Contained (settings : Settings) (source : Path) (directories : List String)
    (name : String) (placed : Placement) : Prop where
  relative : placed.relative.components = (directories ++ [name]).map .name
  cache : placed.cache.components =
    (placed.root.join ⟨settings.cacheDir⟩).components ++ directories.map .name ++
      [resuffixed settings.extensions.source settings.extensions.output (.name name)]
  map : placed.map.components =
    (placed.root.join ⟨settings.cacheDir⟩).components ++ directories.map .name ++
      [resuffixed settings.extensions.output settings.extensions.map
        (resuffixed settings.extensions.source settings.extensions.output (.name name))]
  /-- The artifact's path steps upward below the root only where two dots and the suffix of
  sources are all of the name. -/
  cache_climbs : Component.up ∈ placed.cache.components.drop placed.root.components.length ↔
    name = ".." ++ settings.extensions.source
  map_climbs : Component.up ∈ placed.map.components.drop placed.root.components.length ↔
    name = ".." ++ settings.extensions.source ∨ name = ".." ++ settings.extensions.output
  /-- The root is the innermost package with something in it, or else the installation
  root. -/
  root : (∃ i, Layout.IsBoundary settings.container source.normalize.components i ∧
      (∀ j, Layout.IsBoundary settings.container source.normalize.components j → j ≤ i) ∧
      placed.root = ofComponents (source.normalize.components.take (i + 2))) ∨
    (∀ i, ¬ Layout.IsBoundary settings.container source.normalize.components i) ∧
      placed.root = settings.installRoot.normalize
  rejoined : (placed.root.join placed.relative).same source.normalize = true ↔
    (∃ i, Layout.IsBoundary settings.container source.normalize.components i) ∨
      source.normalize.IsBelow settings.installRoot.normalize

/-- A source that is not its own root is placed inside its cache, unless its name is two
dots and the suffix of sources. -/
theorem contained (settings : Settings) (source : Path)
    (h : (settings.layout.place source).relative.components ≠ []) :
    ∃ directories name,
      settings.Contained source directories name (settings.layout.place source) := by
  have hroot := Layout.components_place_root settings.layout source
  have hrelative := Layout.components_place_relative settings.layout source
  obtain ⟨names, hnames⟩ := exists_names fun c hc =>
    settings.isName_of_mem_cut (c := c) hc
  obtain ⟨directories, name, rfl⟩ : ∃ directories name, names = directories ++ [name] := by
    rcases List.eq_nil_or_concat names with rfl | ⟨directories, name, rfl⟩
    · exact absurd (hrelative.trans hnames) h
    · exact ⟨directories, name, List.concat_eq_append⟩
  have hbelow := hnames
  rw [List.map_append] at hbelow
  obtain ⟨hcache, hmap, -⟩ := Layout.place_of_last (p := source) hbelow
  have htree : (settings.layout.place source).root.join ⟨settings.cacheDir⟩ =
      settings.layout.tree source.normalize := settings.layout.join_cacheDir_place source
  have hentry : settings.layout.cacheEntry ≠ .up := nofun
  refine ⟨directories, name, ?_⟩
  constructor
  case relative => rw [hrelative, hnames]
  case cache => rw [htree, hcache]; rfl
  case map => rw [htree, hmap]; rfl
  case cache_climbs =>
    rw [hcache, components_tree, hroot, up_mem_drop_iff _ _ hentry]
    exact resuffixed_eq_up_iff
  case map_climbs =>
    rw [hmap, components_tree, hroot, up_mem_drop_iff _ _ hentry]
    exact resuffixed_resuffixed_eq_up_iff settings.extensions.source_bare
      settings.extensions.output_bare
  case root => exact settings.layout.place_root_cases source
  case rejoined =>
    have hinner : ∀ c ∈ (settings.layout.place source).relative.components, c.IsInner := by
      rw [hrelative]
      exact fun c hc => Layout.isInner_of_mem_cut hc
    rw [same_iff, components_join_of_isInner _ h hinner, hroot, hrelative]
    exact Layout.cut_append_iff fun c hc => settings.isName_of_mem_cut hc

/-- The artifact of `/srv/app/..coffee` steps out of the cache directory. -/
theorem dots_coffee_climbs :
    let settings := Settings.standard ⟨"/srv/app"⟩
    let placed := settings.layout.place ⟨"/srv/app/..coffee"⟩
    placed.relative.components ≠ [] ∧
      placed.cache.components =
        [.root, .name "srv", .name "app", .name ".roast-cache", .up] := by
  intro settings placed
  have hrelative : placed.relative.components = [.name "..coffee"] := by decide +kernel
  have hsome : placed.relative.components ≠ [] := by simp [hrelative]
  obtain ⟨directories, name, hcontained⟩ := contained settings ⟨"/srv/app/..coffee"⟩ hsome
  obtain ⟨rfl, rfl⟩ : directories = [] ∧ name = "..coffee" := by
    have h := hcontained.relative.symm.trans hrelative
    cases directories <;> simp_all
  exact ⟨hsome, hcontained.cache.trans (by decide)⟩

end Settings
end ModuleCache
