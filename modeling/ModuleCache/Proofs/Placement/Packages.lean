import ModuleCache.Proofs.Placement.Collision

/-!
Which sources belong to a package. The settings ask that the container be one name once it
is read as a path; a package is found by comparing the components of a source with the
container as it is written. So a container is honoured exactly when it is written as the
name it is read as. Behind `vendor/` no package is ever found, although `vendor/` is accepted.
-/

namespace ModuleCache

namespace Path

theorem normalComponents_append_names {below : List Component}
    (h : ∀ c ∈ below, c.isName = true) (cs : List Component) :
    normalComponents (cs ++ below) = normalComponents cs ++ below := by
  induction below generalizing cs with
  | nil => simp
  | cons c below ih =>
      obtain ⟨hc, hbelow⟩ := List.forall_mem_cons.mp h
      cases c with
      | root => cases hc
      | here => cases hc
      | up => cases hc
      | name text =>
          have hsplit : ∀ front : List Component,
              front ++ .name text :: below = front ++ [.name text] ++ below := by simp
          rw [hsplit, ih hbelow, normalComponents_append_name, ← hsplit]

end Path

namespace Layout

open ModuleCache.Path

/-- A package holds what stands behind it, unless a package further inside does. -/
theorem packageBoundary?_of_package {container : String} (outer : List Component)
    {below : List Component} {c p : Component} (hc : c.text = container) (hne : below ≠ [])
    (hbelow : ∀ x ∈ below, x.text ≠ container) (hp : p.text ≠ container ∨ below.length = 1) :
    packageBoundary? container (outer ++ [c, p] ++ below) = some (outer ++ [c, p], below) := by
  have hlength : (outer ++ [c, p]).length = outer.length + 2 := by simp
  refine packageBoundary?_eq_some_iff.mpr ⟨outer.length, ?_, ?_, ?_, ?_⟩
  · obtain ⟨next, more, rfl⟩ := List.exists_cons_of_ne_nil hne
    have hboundary := isBoundary_append outer (p := p) (q := next) more hc
    rwa [List.append_assoc]
  · rintro j ⟨hj, hlt⟩
    apply Nat.le_of_not_lt
    intro hbehind
    obtain ⟨k, rfl⟩ : ∃ k, j = outer.length + (k + 1) := ⟨j - outer.length - 1, by omega⟩
    rw [List.append_assoc, List.getElem?_append_right (by omega), Nat.add_sub_cancel_left] at hj
    rw [List.length_append, hlength] at hlt
    cases k with
    | zero =>
        -- the package would have to be a container itself, with two components behind it
        have hpackage : p.text = container := by simpa using hj
        have hone := hp.resolve_left fun h => h hpackage
        omega
    | succ k =>
        have hinside : (below[k]?).map Component.text = some container := by simpa using hj
        obtain ⟨x, hx, htext⟩ := Option.map_eq_some_iff.mp hinside
        exact hbelow x (List.mem_of_getElem? hx) htext
  · rw [← hlength, List.take_left]
  · rw [← hlength, List.drop_left]

theorem place_of_boundary {l : Layout} {p : Path} {inside below : List Component}
    (h : packageBoundary? l.container p.normalize.components = some (inside, below)) :
    (l.place p).root = ofComponents inside ∧ (l.place p).relative = ofComponents below := by
  rw [place_eq, home, h]
  exact ⟨rfl, rfl⟩

/-- The root of a source's cache: the innermost package with something in it, or else the
installation root. -/
theorem place_root_cases (l : Layout) (p : Path) :
    (∃ i, IsBoundary l.container p.normalize.components i ∧
        (∀ j, IsBoundary l.container p.normalize.components j → j ≤ i) ∧
        (l.place p).root = ofComponents (p.normalize.components.take (i + 2))) ∨
      (∀ i, ¬ IsBoundary l.container p.normalize.components i) ∧
        (l.place p).root = l.installRoot := by
  rcases packageBoundary?_cases l.container p.normalize.components with
    ⟨i, hi, hlast, hcut⟩ | ⟨hnone, hcut⟩
  · exact .inl ⟨i, hi, hlast, (place_of_boundary hcut).1⟩
  · refine .inr ⟨hnone, ?_⟩
    rw [place_root, home, hcut]

end Layout

namespace Settings

open ModuleCache.Path

/-- The name that the container is read as. -/
def containerName (settings : Settings) : String := (⟨settings.container⟩ : Path).baseName

theorem components_container (settings : Settings) :
    (⟨settings.container⟩ : Path).components = [.name settings.containerName] :=
  components_of_isEntryName settings.container_name

/-- A component that is written like the container is the name that this is read as. -/
theorem eq_containerName_of_text {settings : Settings} {p : Path} {c : Component}
    (hmem : c ∈ p.components) (htext : c.text = settings.container) :
    settings.container = settings.containerName ∧ c = .name settings.containerName := by
  have hentry := settings.container_name
  rw [← htext] at hentry
  cases c with
  | root => exact absurd hentry (by decide)
  | here => exact absurd hentry (by decide)
  | up => exact absurd hentry (by decide)
  | name text =>
      have hname : IsName text.toList :=
        Layout.isInner_of_isName (wellFormed_components p) hmem rfl
      have hsingle := components_single hname
      have hread := settings.components_container
      rw [← htext] at hread
      obtain rfl : text = settings.containerName := by
        change (⟨text⟩ : Path).components = _ at hread
        rw [hsingle] at hread
        simpa using hread
      exact ⟨htext.symm, rfl⟩

/-- The package of that name in the container of a directory. -/
def packageAt (settings : Settings) (directory : Path) (package : String) : Path :=
  (directory.join ⟨settings.container⟩).join ⟨package⟩

theorem components_packageAt (settings : Settings) (directory : Path) {package : String}
    (h : IsName package.toList) :
    (settings.packageAt directory package).components =
      directory.components ++ [.name settings.containerName, .name package] := by
  have hcontainer := settings.components_container
  have hinner : ∀ c ∈ (⟨settings.container⟩ : Path).components, c.IsInner := by
    intro c hc
    apply Layout.isInner_of_isName (wellFormed_components _) hc
    rw [hcontainer] at hc
    rw [List.mem_singleton.mp hc]
    rfl
  rw [packageAt, components_join_single _ h,
    components_join_of_isInner directory (by simp [hcontainer]) hinner, hcontainer]
  simp

theorem components_join_names (a : Path) {r : Path} (hne : r.components ≠ [])
    (hnames : ∀ c ∈ r.components, c.isName = true) :
    (a.join r).components = a.components ++ r.components :=
  components_join_of_isInner a hne fun c hc =>
    Layout.isInner_of_isName (wellFormed_components r) hc (hnames c hc)

/-- Behind a container that is written as its name, sources belong to their package. -/
theorem place_in_package {settings : Settings} (hbare : settings.container = settings.containerName)
    {home r : Path} {outer below : List Component} {package : String}
    (hhome : home.components = outer ++ [.name settings.containerName, .name package])
    (hr : r.components = home.components ++ below) (hne : below ≠ [])
    (hbelow : ∀ c ∈ below, c.isName = true ∧ c ≠ .name settings.containerName)
    (hpackage : package ≠ settings.containerName ∨ below.length = 1) :
    (settings.layout.place r).root = home.normalize ∧
      (settings.layout.place r).relative = ofComponents below := by
  have hnormal : normalComponents home.components =
      normalComponents outer ++ [.name settings.containerName, .name package] := by
    rw [hhome]
    exact normalComponents_append_names (by simp [Component.isName]) outer
  have hsource : r.normalize.components =
      normalComponents outer ++ [.name settings.containerName, .name package] ++ below := by
    rw [components_normalize, hr, normalComponents_append_names (fun c hc => (hbelow c hc).1),
      hnormal]
  have hother : ∀ c ∈ below, c.text ≠ settings.container := by
    intro c hc htext
    obtain ⟨hname, hne⟩ := hbelow c hc
    cases c with
    | root => cases hname
    | here => cases hname
    | up => cases hname
    | name text => exact hne (by rw [← hbare, ← htext]; rfl)
  have hcut : Layout.packageBoundary? settings.layout.container r.normalize.components =
      some (normalComponents outer ++ [.name settings.containerName, .name package], below) := by
    rw [hsource]
    refine Layout.packageBoundary?_of_package _ hbare.symm hne hother ?_
    change package ≠ settings.container ∨ _
    rwa [hbare]
  obtain ⟨hroot, hrelative⟩ := Layout.place_of_boundary hcut
  rw [hroot, Path.normalize, hnormal]
  exact ⟨rfl, hrelative⟩

/-- Under a container that is written as its name, what stands in a package belongs to that
package, with its place inside it; a package called like the container is one only for a
file right in it, and is itself the container of what stands deeper. A container that is
written otherwise marks no package at all: every source belongs to the installation root. -/
theorem package_roots (settings : Settings) :
    (settings.container = settings.containerName →
      ∀ (directory r : Path) (package : String), IsName package.toList → r.components ≠ [] →
        (∀ c ∈ r.components, c.isName = true ∧ c ≠ .name settings.containerName) →
        let home := settings.packageAt directory package
        let placed := settings.layout.place (home.join r)
        (package ≠ settings.containerName ∨ r.components.length = 1 →
          placed.root = home.normalize ∧ placed.relative.same r = true) ∧
        ∀ inner rest, package = settings.containerName → r.components = .name inner :: rest →
          rest ≠ [] →
          placed.root = (home.join ⟨inner⟩).normalize ∧ placed.relative.components = rest) ∧
    (settings.container ≠ settings.containerName →
      ∀ source, (settings.layout.place source).root = settings.installRoot.normalize) := by
  constructor
  · intro hbare directory r package hpackage hne hnames home placed
    have hhome := settings.components_packageAt directory hpackage
    have hwf := wellFormed_components r
    have hsource : (home.join r).components = home.components ++ r.components :=
      components_join_names home hne fun c hc => (hnames c hc).1
    constructor
    · intro hone
      obtain ⟨hroot, hrelative⟩ := place_in_package hbare hhome hsource hne hnames hone
      refine ⟨hroot, ?_⟩
      rw [same_iff, hrelative, components_ofComponents hwf]
    · intro inner rest hsame hr hrest
      rw [hr] at hwf hnames
      obtain ⟨⟨-, hinner⟩, hbelow⟩ := List.forall_mem_cons.mp hnames
      have hname : IsName inner.toList :=
        Layout.isInner_of_isName hwf List.mem_cons_self rfl
      have hhome' : (home.join ⟨inner⟩).components =
          directory.components ++ [.name settings.containerName] ++
            [.name settings.containerName, .name inner] := by
        rw [components_join_single home hname, hhome, hsame]
        simp
      have hsource' : (home.join r).components = (home.join ⟨inner⟩).components ++ rest := by
        rw [hsource, hr, components_join_single home hname]
        simp
      obtain ⟨hroot, hrelative⟩ := place_in_package hbare hhome' hsource' hrest hbelow
        (.inl fun h => hinner (by rw [h]))
      refine ⟨hroot, ?_⟩
      rw [hrelative, components_ofComponents (wellFormed_of_isInner hwf.2)]
  · intro hspelled source
    rcases settings.layout.place_root_cases source with ⟨i, ⟨hi, -⟩, -⟩ | ⟨-, hroot⟩
    · obtain ⟨c, hc, htext⟩ := Option.map_eq_some_iff.mp hi
      exact absurd (eq_containerName_of_text (List.mem_of_getElem? hc) htext).1 hspelled
    · exact hroot

/-- With `vendor/` as their container the settings are accepted, and the package `pkg` is
none. -/
theorem vendor_slash_marks_no_package :
    ∃ settings : Settings,
      ofText "[layout]\npackage_container = \"vendor/\"\n" ⟨"/srv/app"⟩ {} = .ok settings ∧
        settings.container = "vendor/" ∧
        (settings.layout.place ⟨"/srv/app/vendor/pkg/lib/a.coffee"⟩).root = ⟨"/srv/app"⟩ := by
  have haccepted :
      (ofText "[layout]\npackage_container = \"vendor/\"\n" ⟨"/srv/app"⟩ {}).toOption.map
          (fun settings => (settings.container, settings.installRoot)) =
        some ("vendor/", ⟨"/srv/app"⟩) := by decide +kernel
  cases hread : ofText "[layout]\npackage_container = \"vendor/\"\n" ⟨"/srv/app"⟩ {} with
  | error e =>
      rw [hread] at haccepted
      cases haccepted
  | ok settings =>
      rw [hread] at haccepted
      obtain ⟨hcontainer, hroot⟩ := Prod.mk.inj (Option.some.inj haccepted)
      refine ⟨settings, rfl, hcontainer, ?_⟩
      have hspelled : settings.container ≠ settings.containerName := by
        rw [containerName, hcontainer]
        decide
      rw [(package_roots settings).2 hspelled, hroot]
      decide

end Settings
end ModuleCache
