import ModuleCache.Proofs.Placement.Clash
import ModuleCache.Runtime

/-!
When two sources share an artifact. Under the root `/srv/app` the sources `/opt/a.coffee`
and `/srv/app/opt/a.coffee` have one artifact, so artifacts are not keyed one to one by
their sources. The condition below is exact: two different tracked sources share an
artifact, and then also a map, exactly when they clash. The map of one is the artifact of
the other only where, besides, both have lost their names.
-/

namespace ModuleCache

namespace Path

/-- Whatever a swap of extensions does, it does to the last component. -/
theorem exists_components_swap {p : Path} (old : String) {new : String} (hbare : IsBare new)
    {front : List Component} {last : Component} (h : p.components = front ++ [last]) :
    ∃ last', (Extensions.swap old new p).components = front ++ [last'] := by
  by_cases hext : p.extension? = some old
  · obtain ⟨name, stem, hname, hcut⟩ := extension?_eq_some_iff.mp hext
    obtain ⟨isLast, -, hswap, -⟩ := components_swap hname hcut hbare
    rw [h, List.dropLast_concat] at hswap
    exact ⟨_, hswap⟩
  · exact ⟨last, by rw [swap_of_extension?_ne hext, h]⟩

end Path

namespace Settings

open ModuleCache.Path

theorem components_of_isEntryName {text : String} (h : IsEntryName text) :
    (⟨text⟩ : Path).components = [.name (⟨text⟩ : Path).baseName] := by
  unfold IsEntryName at h
  split at h
  · next name hname =>
      have hfile : (⟨text⟩ : Path).fileName? = some name := by
        rw [fileName?_eq_some_iff, hname]
        rfl
      rw [hname, baseName, hfile]
      rfl
  · exact absurd h id

theorem components_cacheDir (settings : Settings) :
    (⟨settings.cacheDir⟩ : Path).components = [settings.layout.cacheEntry] :=
  components_of_isEntryName settings.cacheDir_name

theorem components_tree (settings : Settings) (source : Path) :
    (settings.layout.tree source).components =
      (settings.layout.cut source).1 ++ [settings.layout.cacheEntry] := by
  have hdir := settings.components_cacheDir
  have hinner : ∀ c ∈ (⟨settings.cacheDir⟩ : Path).components, c.IsInner := by
    intro c hc
    have hwf := wellFormed_components ⟨settings.cacheDir⟩
    rw [hdir] at hc hwf
    rw [List.mem_singleton.mp hc]
    rcases hwf.1 with h | h | h
    · cases h
    · cases h
    · exact h
  have hjoin := components_join_of_isInner (settings.layout.home source).1 (by simp [hdir]) hinner
  rw [hdir, Layout.components_home_fst] at hjoin
  exact hjoin

theorem installRoot_components (settings : Settings)
    (hroot : settings.installRoot.isAbsolute = true) :
    ∃ rest, settings.layout.installRoot.components = .root :: rest := by
  obtain ⟨names, -, hnames⟩ := components_normalize_of_isAbsolute hroot
  exact ⟨_, hnames⟩

/-- Root and place of an absolute source. -/
theorem isCut_normalize (settings : Settings) (hroot : settings.installRoot.isAbsolute = true)
    {p : Path} (hp : p.isAbsolute = true) :
    Layout.IsCut settings.layout p.normalize.components (settings.layout.cut p.normalize).1
      (settings.layout.cut p.normalize).2 := by
  obtain ⟨names, -, hnames⟩ := components_normalize_of_isAbsolute hp
  exact Layout.isCut (settings.installRoot_components hroot) hnames

/-- The file name of a tracked path: a stem, a dot and the extension of sources. -/
theorem exists_stem_of_isTracked {e : Extensions} {p : Path} (h : e.isTracked p = true) :
    ∃ name stem, p.fileName? = some name ∧ name = String.ofList (stem ++ '.' :: e.source.toList) ∧
      splitExtension name.toList = (stem, some e.source.toList) ∧
      p.stem? = some (String.ofList stem) := by
  obtain ⟨name, stem, hname, hcut⟩ := extension?_eq_some_iff.mp (isTracked_iff.mp h)
  refine ⟨name, stem, hname, ?_, hcut, ?_⟩
  · rw [← (splitExtension_eq_some_iff.mp hcut).1, String.ofList_toList]
  · simp [stem?, hname, hcut]

/-- The components that a tracked source is led to under an extension. A source that is
the installation root itself is led beside the cache and not into it. -/
inductive LedTo (settings : Settings) (p : Path) (new : String) : List Component → Prop
  | atRoot (last : Component) (hcut : (settings.layout.cut p.normalize).2 = []) :
      LedTo settings p new ((settings.layout.cut p.normalize).1 ++ [last])
  | below (front : List Component) (stem : List Char)
      (hcut : (settings.layout.cut p.normalize).2 =
        front ++ [.name (String.ofList (stem ++ '.' :: settings.extensions.source.toList))])
      (hstem : p.stem? = some (String.ofList stem)) :
      LedTo settings p new
        (((settings.layout.cut p.normalize).1 ++ settings.layout.cacheEntry :: front) ++
          [renamed stem true new])

/-- A tracked source is led to its artifact and to its map. -/
theorem ledTo_place (settings : Settings) {p : Path} (h : settings.extensions.isTracked p = true) :
    settings.LedTo p settings.extensions.output (settings.layout.place p).cache.components ∧
      settings.LedTo p settings.extensions.map (settings.layout.place p).map.components := by
  by_cases hcut : (settings.layout.cut p.normalize).2 = []
  · have hjoined : ((settings.layout.tree p.normalize).join
        (ofComponents (settings.layout.cut p.normalize).2)).components =
          (settings.layout.cut p.normalize).1 ++ [settings.layout.cacheEntry] := by
      rw [hcut, ← settings.components_tree]
      exact components_join_empty _
    obtain ⟨cache, hcache⟩ := exists_components_swap settings.extensions.source
      settings.extensions.output_bare hjoined
    have hcache' : (settings.layout.place p).cache.components =
        (settings.layout.cut p.normalize).1 ++ [cache] := by
      rw [Layout.place_cache]
      exact hcache
    obtain ⟨map, hmap⟩ := exists_components_swap settings.extensions.output
      settings.extensions.map_bare hcache'
    have hmap' : (settings.layout.place p).map.components =
        (settings.layout.cut p.normalize).1 ++ [map] := by
      rw [Layout.place_map]
      exact hmap
    rw [hcache', hmap']
    exact ⟨.atRoot cache hcut, .atRoot map hcut⟩
  · obtain ⟨name, stem, hname, hform, hsplit, hstem⟩ := exists_stem_of_isTracked h
    have hnormal := components_eq_of_fileName? (fileName?_normalize hname)
    obtain ⟨front, hfront⟩ :
        ∃ front, (settings.layout.cut p.normalize).2 = front ++ [.name name] :=
      (Layout.cut_snd_of_name hnormal).resolve_left fun hroot => hcut hroot.1
    obtain ⟨hcache, hmap⟩ := Layout.place_of_name hsplit hfront
    rw [components_tree] at hcache hmap
    rw [hform] at hfront
    have hshape : (settings.layout.cut p.normalize).1 ++ [settings.layout.cacheEntry] ++ front =
        (settings.layout.cut p.normalize).1 ++ settings.layout.cacheEntry :: front := by simp
    rw [hcache, hmap, hshape]
    exact ⟨.below front stem hfront hstem, .below front stem hfront hstem⟩

/-! ### Two sources -/

/-- What ends in one and the same way behind a root and its cache directory. -/
theorem meet_append_iff {R R' front front' : List Component} {k last last' : Component} :
    R ++ k :: (front ++ [last]) = R' ++ k :: (front' ++ [last']) ↔
      R ++ k :: front = R' ++ k :: front' ∧ last = last' := by
  have hsplit : ∀ (R front : List Component) (last : Component),
      R ++ k :: (front ++ [last]) = (R ++ k :: front) ++ [last] := by simp
  rw [hsplit, hsplit]
  exact List.append_singleton_inj

theorem suffixed_inj {stem stem' : List Char} {extension : String} :
    Component.name (String.ofList (stem ++ '.' :: extension.toList)) =
        .name (String.ofList (stem' ++ '.' :: extension.toList)) ↔ stem = stem' := by
  constructor
  · intro h
    exact List.append_cancel_right (String.ofList_inj.mp (Component.name.inj h))
  · rintro rfl
    rfl

theorem installRoot_of_cut_nil {l : Layout} {cs R : List Component} (h : Layout.IsCut l cs R [])
    (hne : cs ≠ [.root]) : cs = l.installRoot.components ∧ R = l.installRoot.components ∧
      ∀ i, ¬ Layout.IsBoundary l.container cs i := by
  cases h with
  | package _ hbelow _ _ => exact absurd rfl hbelow
  | inside hnone h => exact ⟨by simpa using h, rfl, hnone⟩
  | mirrored _ h => exact absurd h hne

/-- The installation root as a source shares no path with another source. -/
theorem no_meet_at_root {l : Layout} {cs ds R R' front : List Component} {last x y : Component}
    (hs : Layout.IsCut l cs R []) (hcs : cs ≠ [.root])
    (ht : Layout.IsCut l ds R' (front ++ [last])) :
    R ++ [x] ≠ (R' ++ l.cacheEntry :: front) ++ [y] := by
  intro h
  have hR : R = R' ++ l.cacheEntry :: front := (List.append_singleton_inj.mp h).1
  obtain ⟨hcs', hroot, hnone⟩ := installRoot_of_cut_nil hs hcs
  cases ht with
  | @package outer _ c p hcontainer _ _ _ =>
      have hboundary := Layout.isBoundary_append outer (p := p) (q := l.cacheEntry) front
        hcontainer
      have hform : outer ++ c :: p :: l.cacheEntry :: front = cs := by
        rw [hcs', ← hroot, hR]
        simp
      rw [hform] at hboundary
      exact hnone _ hboundary
  | inside =>
      rw [hroot] at hR
      simp at hR
  | mirrored =>
      rw [hroot] at hR
      simp at hR

section
variable (settings : Settings) (hroot : settings.installRoot.isAbsolute = true) {s t : Path}
  (hs : s.isAbsolute = true) (ht : t.isAbsolute = true)
  (hsource : settings.extensions.isTracked s = true)
  (hsource' : settings.extensions.isTracked t = true)
include hroot hs ht hsource hsource'

/-- Two different sources are led to one path exactly when they clash and their new names
are the same: under one extension, or where both names are lost. -/
theorem ledTo_eq_iff (hne : s.normalize ≠ t.normalize) {new new' : String} (hnew : IsBare new)
    (hnew' : IsBare new') {x y : List Component} (hx : settings.LedTo s new x)
    (hy : settings.LedTo t new' y) :
    x = y ↔ settings.layout.Clash s.normalize t.normalize ∧ (s.stem? = some "." ∨ new = new') := by
  have hcut := settings.isCut_normalize hroot hs
  have hcut' := settings.isCut_normalize hroot ht
  have hnamed : ∀ {p : Path}, settings.extensions.isTracked p = true →
      p.normalize.components ≠ [.root] := by
    intro p hp h
    obtain ⟨name, -, hname, -⟩ := exists_stem_of_isTracked hp
    have hlast := fileName?_eq_some_iff.mp (fileName?_normalize hname)
    rw [h] at hlast
    simp at hlast
  have hcomponents : s.normalize.components ≠ t.normalize.components := fun h =>
    hne (normalize_eq_iff.mpr h)
  have hmeet : settings.layout.Clash s.normalize t.normalize →
      (settings.layout.cut s.normalize).1 ++
          settings.layout.cacheEntry :: (settings.layout.cut s.normalize).2 =
        (settings.layout.cut t.normalize).1 ++
          settings.layout.cacheEntry :: (settings.layout.cut t.normalize).2 :=
    fun h => h.meet hcut hcut'
  cases hx with
  | atRoot last hnil =>
      rw [hnil] at hcut hmeet
      cases hy with
      | atRoot last' hnil' =>
          rw [hnil'] at hcut'
          obtain ⟨hsroot, -⟩ := installRoot_of_cut_nil hcut (hnamed hsource)
          obtain ⟨htroot, -⟩ := installRoot_of_cut_nil hcut' (hnamed hsource')
          exact absurd (hsroot.trans htroot.symm) hcomponents
      | below front' stem' hbelow' hstem' =>
          rw [hbelow'] at hcut' hmeet
          have hapart := fun x y => no_meet_at_root (x := x) (y := y) hcut (hnamed hsource) hcut'
          constructor
          · intro h
            exact absurd h (hapart _ _)
          · rintro ⟨hclash, -⟩
            have h := hmeet hclash
            exact absurd (by simpa using h) (hapart settings.layout.cacheEntry _)
  | below front stem hbelow hstem =>
      cases hy with
      | atRoot last' hnil' =>
          rw [hnil'] at hcut' hmeet
          rw [hbelow] at hcut hmeet
          have hapart := fun x y => no_meet_at_root (x := x) (y := y) hcut' (hnamed hsource') hcut
          constructor
          · intro h
            exact absurd h.symm (hapart _ _)
          · rintro ⟨hclash, -⟩
            have h := (hmeet hclash).symm
            exact absurd (by simpa using h) (hapart settings.layout.cacheEntry _)
      | below front' stem' hbelow' hstem' =>
          have hclash := Layout.meet_iff_clash hcut hcut' (by simp [hbelow]) (by simp [hbelow'])
            hcomponents
          rw [hbelow, hbelow', meet_append_iff, suffixed_inj] at hclash
          have hdot : s.stem? = some "." ↔ stem = ['.'] := by
            rw [hstem, Option.some.injEq, show "." = String.ofList ['.'] from rfl,
              String.ofList_inj]
          rw [List.append_singleton_inj, renamed_eq_iff hnew hnew', ← hclash, hdot, and_assoc]

/-- Two different tracked sources share their artifact, and share their map, exactly when
they clash; the map of one is the artifact of the other exactly when besides their file
names are two dots and the extension. Where the cache directory is not called like the
package container, one of two sources that clash is mirrored. -/
theorem shared_artifact_iff_clash (hne : s.normalize ≠ t.normalize) :
    ((settings.layout.place s).cache.same (settings.layout.place t).cache = true ↔
        settings.layout.Clash s.normalize t.normalize) ∧
      ((settings.layout.place s).map.same (settings.layout.place t).map = true ↔
        settings.layout.Clash s.normalize t.normalize) ∧
      ((settings.layout.place s).map.same (settings.layout.place t).cache = true ↔
        settings.layout.Clash s.normalize t.normalize ∧ s.stem? = some ".") ∧
      ((settings.layout.place s).cache.same (settings.layout.place t).map = true ↔
        settings.layout.Clash s.normalize t.normalize ∧ s.stem? = some ".") ∧
      (settings.layout.cacheEntry.text ≠ settings.container →
        settings.layout.Clash s.normalize t.normalize →
          settings.layout.IsMirrored s.normalize.components ∨
            settings.layout.IsMirrored t.normalize.components) := by
  obtain ⟨hcache, hmap⟩ := settings.ledTo_place hsource
  obtain ⟨hcache', hmap'⟩ := settings.ledTo_place hsource'
  have hiff := @ledTo_eq_iff settings hroot s t hs ht hsource hsource' hne
  have houtput := settings.extensions.output_bare
  have hbare := settings.extensions.map_bare
  have hdiffer := settings.extensions.output_ne_map
  simp only [same_iff]
  refine ⟨?_, ?_, ?_, ?_, ?_⟩
  · rw [hiff houtput houtput hcache hcache']
    simp
  · rw [hiff hbare hbare hmap hmap']
    simp
  · rw [hiff hbare houtput hmap hcache', or_iff_left hdiffer.symm]
  · rw [hiff houtput hbare hcache hmap', or_iff_left hdiffer]
  · rintro hentry (h | h | h | h)
    · exact .inl h.1
    · exact .inr h.1
    · exact absurd h.1 hentry
    · exact absurd h.1 hentry

end

/-- The source `/opt/a.coffee` outside the root `/srv/app` and the one of the same names
below it have one artifact. -/
theorem shared_artifact_below_srv_app :
    let settings := Settings.standard ⟨"/srv/app"⟩
    settings.installRoot.isAbsolute = true ∧
      (⟨"/opt/a.coffee"⟩ : Path).isAbsolute = true ∧
      (⟨"/srv/app/opt/a.coffee"⟩ : Path).isAbsolute = true ∧
      settings.extensions.isTracked ⟨"/opt/a.coffee"⟩ = true ∧
      settings.extensions.isTracked ⟨"/srv/app/opt/a.coffee"⟩ = true ∧
      (⟨"/opt/a.coffee"⟩ : Path).normalize ≠ (⟨"/srv/app/opt/a.coffee"⟩ : Path).normalize ∧
      (settings.layout.place ⟨"/opt/a.coffee"⟩).cache.same
        (settings.layout.place ⟨"/srv/app/opt/a.coffee"⟩).cache = true := by
  have hmirrored : (Settings.standard ⟨"/srv/app"⟩).layout.IsMirrored
      (⟨"/opt/a.coffee"⟩ : Path).normalize.components :=
    ⟨Layout.packageBoundary?_eq_none_iff.mp (by decide), by decide⟩
  have hclash : (Settings.standard ⟨"/srv/app"⟩).layout.Clash
      (⟨"/opt/a.coffee"⟩ : Path).normalize (⟨"/srv/app/opt/a.coffee"⟩ : Path).normalize :=
    .inl ⟨hmirrored, .inl ⟨.inl (by decide), by decide⟩⟩
  exact ⟨by decide, by decide, by decide, by decide, by decide, by decide,
    (shared_artifact_iff_clash (Settings.standard ⟨"/srv/app"⟩) (by decide) (by decide) (by decide)
      (by decide) (by decide) (by decide)).1.mpr hclash⟩

end Settings
end ModuleCache
