import ModuleCache.Proofs.Maps.Loads

/-!
Artifacts and maps over whole runs of a loader. After a load that compiled a file and wrote
its artifact, the map in its place is the one written then or the one that was there
before: nothing removes a map that its artifact has outlived, and the chain reads it.
-/

namespace ModuleCache

open FileSystem

variable {host : Host} {l : Layout} {files : Path → Prop} {base : Address} {process : Nat}

/-- In the place of a source's map there is the given map, or nothing. -/
def Layout.MapBelongs (l : Layout) (fs : FileSystem) (p : Path) (own : Option String) : Prop :=
  l.map? fs p = none ∨ ∃ text, own = some text ∧ l.map? fs p = some text.toUTF8

/-- A load that opens to code is the run of that code, and its closing. -/
theorem require_of_opening {depth : Nat} {s s' : Session} {p : Path} {code : String}
    {loaded : Loaded} (hopen : (s.opening host.transpiler p).2 = .ok code)
    (h : Session.require host depth s p = some (s', loaded)) :
    ∃ inner ran, Session.execute host (Session.require host inner)
        (s.opening host.transpiler p).1 code p = some (ran, loaded) ∧
      s' = (s.route p).closing p ran := by
  obtain ⟨ran, hs', ⟨error, hfailed, -⟩ | ⟨opened, own, inner, -, hown, hran⟩ |
    ⟨opened, error, handler, inner, -, hfailed, -⟩⟩ := Session.require_eq_some h
  · rw [hfailed] at hopen
    cases hopen
  · rw [hown] at hopen ⊢
    rw [← Except.ok.inj hopen]
    exact ⟨inner, ran, hran, hs'⟩
  · rw [hfailed] at hopen
    cases hopen

/-- After a load that compiled a file and wrote its artifact, the content in the place of
its map is that of the map that was written with it, and if none was, what it was before. -/
theorem map?_of_persists (hdistinct : l.Distinct files base process)
    (hsteady : Steady host l files) {depth : Nat} {s s' : Session} {p : Path} {c : Compilation}
    {loaded : Loaded}
    (hs : Ready l base process s) (hp : files p) (hpersists : s.Persists host.transpiler l p c)
    (hload : Session.require host depth s p = some (s', loaded)) :
    s'.files.IsTree ∧
      if c.mapWritten then
        ∃ text, c.map? l p = some text ∧ l.map? s'.files p = some text.toUTF8
      else l.map? s'.files p = l.map? s.files p := by
  obtain ⟨hcode, hstored, hloads⟩ := hpersists.opening hs.installed.hook
  have hready := hs.opening hsteady p
  obtain ⟨inner, ran, hran, rfl⟩ := require_of_opening hcode hload
  have hguarded : Guarded l base process p (l.map? (c.stored host.transpiler l s.files p).fs p)
      (s.opening host.transpiler p).1 := ⟨hready, hloads, by rw [hstored]⟩
  -- the code that runs loads other files, and their maps are not in this place
  have hmaintained := maintained_guarded hdistinct hsteady hp
    (l.map? (c.stored host.transpiler l s.files p).fs p)
  have hafter := hmaintained.execute (hmaintained.require inner) hguarded hran
  rw [Session.files_closing]
  refine ⟨hafter.tree, ?_⟩
  rw [hafter.map]
  have hbase : (host.transpiler.run s.files (l.request p c.source)).fs.current = base :=
    (hsteady.current _ _).trans hs.current
  have hprocess : (host.transpiler.run s.files (l.request p c.source)).fs.process = process :=
    (hsteady.process _ _).trans hs.process
  have hwrite := map?_write hdistinct hbase hprocess hp hpersists.written
  unfold Compilation.stored
  rw [hsteady.maps _ _ p hp] at hwrite
  exact hwrite

/-- After a load that compiled a file and wrote its artifact, the map on disk belongs to
the artifact exactly if it was written with it, or the one that was there before belongs to
it. What the chain retrieves for the file is the map that was written, and else the one that
was there before. -/
theorem Runtime.map_belongs_iff {settings : Settings} {located : Located} {evaluator : Evaluator}
    {style : Progress.Style} {start : FileSystem} {published published' : Trace.Published}
    {rt : Runtime} {notes : Journal}
    (hinit : Runtime.init settings located evaluator style start published =
      (.ok rt, published', notes))
    (htree : start.IsTree)
    (hdistinct : settings.layout.Distinct files start.current start.process)
    (hsteady : Steady rt.host settings.layout files) {depth : Nat} {s s' : Session} {p : Path}
    {c : Compilation} {loaded : Loaded}
    (hstarts : Starts rt.host (Deed.LoadsOnly (InPlay settings.layout files)) Edited rt.session
      depth s p)
    (htracked : settings.layout.extensions.isTracked p = true)
    (hpersists : s.Persists rt.host.transpiler settings.layout p c)
    (hload : Session.require rt.host depth s p = some (s', loaded)) :
    (settings.layout.MapBelongs s'.files p (c.map? settings.layout p) ↔
      c.mapWritten = true ∨ settings.layout.MapBelongs s.files p (c.map? settings.layout p)) ∧
    ∀ q found, q.normalize = p.normalize → rt.chain.retrieve s'.files q = some found →
      if c.mapWritten then c.map? settings.layout p = some found.map
      else settings.layout.map? s.files p = some found.map.toUTF8 := by
  obtain ⟨hinstalled, hfiles, hchain⟩ := Runtime.init_eq_ok hinit
  have hstart : Ready settings.layout start.current start.process rt.session :=
    ⟨hinstalled, by rw [hfiles], by rw [hfiles], by rw [hfiles]; exact htree⟩
  obtain ⟨hp, hs⟩ := hstarts.holds (maintained_ready hsteady)
    (fun hs hedited => hs.of_edited hedited) hstart
  obtain ⟨htree', hmap⟩ := map?_of_persists hdistinct hsteady hs (hp htracked) hpersists hload
  constructor
  · unfold Layout.MapBelongs
    cases hwritten : c.mapWritten with
    | true =>
        rw [hwritten, if_pos rfl] at hmap
        exact iff_of_true (.inr hmap) (.inl rfl)
    | false =>
        rw [hwritten, if_neg Bool.false_ne_true] at hmap
        simp [hmap]
  · intro q found hnormal hfound
    rw [hchain] at hfound
    obtain ⟨hq, hread, -⟩ := Runtime.retrieve_chainFor.mp hfound
    have hcontent := map?_of_readText htree' hq hread
    rw [map?_of_normalize_eq hnormal] at hcontent
    split
    · next hwritten =>
        rw [if_pos hwritten] at hmap
        obtain ⟨text, hown, hmap⟩ := hmap
        rw [hcontent] at hmap
        rw [hown, toUTF8_inj (Option.some.inj hmap)]
    · next hwritten =>
        rw [if_neg hwritten, hcontent] at hmap
        exact hmap.symm

/-- A source, and the map of an artifact that is gone. -/
def olderMap : FileSystem where
  nodes := [([], .directory true 0), (["a.coffee"], .file "x".toUTF8 0o644 1),
    ([".roast-cache"], .directory true 0), ([".roast-cache", "a.map"], .file "{}".toUTF8 0o644 1)]
  current := []
  now := 2
  process := 1

/-- A loader over these files whose transpiler gives no maps. -/
def maplessRuntime : Runtime := .standard markingHost olderMap

/-- The older map stays beside the artifact that is compiled without one. -/
theorem older_map_outlives_artifact :
    ∃ s' m, Session.require maplessRuntime.host 1 maplessRuntime.session (.load ⟨"/a.coffee"⟩) =
        some (s', .ok m) ∧
      ¬ (Settings.standard ⟨"/"⟩).layout.MapBelongs s'.files ⟨"/a.coffee"⟩ none := by
  obtain ⟨s', m, hload⟩ : ∃ s' m, Session.require maplessRuntime.host 1 maplessRuntime.session
      (.load ⟨"/a.coffee"⟩) = some (s', .ok m) := exists_require_eq_ok (by decide)
  obtain ⟨notes, hinit⟩ : ∃ notes, Runtime.init (.standard ⟨"/"⟩) (.ok markingHost.transpiler, [])
      markingHost.evaluator .silent olderMap none = (.ok maplessRuntime, _, notes) :=
    Runtime.init_standard markingHost olderMap
  have hdistinct : (Settings.standard ⟨"/"⟩).layout.Distinct (· = ⟨"/a.coffee"⟩)
      olderMap.current olderMap.process := by
    apply Layout.Distinct.of_extensions
    · rintro p rfl
      decide
    · rintro p q rfl rfl hne
      exact absurd hne (by decide)
    · decide
  have hsteady : Steady maplessRuntime.host (Settings.standard ⟨"/"⟩).layout (· = ⟨"/a.coffee"⟩) :=
    ⟨fun _ _ => rfl, fun _ _ => rfl, fun _ _ => id, fun _ _ _ _ => rfl, fun _ _ => trivial⟩
  have hpersists : maplessRuntime.session.Persists maplessRuntime.host.transpiler
      (Settings.standard ⟨"/"⟩).layout ⟨"/a.coffee"⟩ ⟨"x", ⟨"// x", none⟩, false⟩ :=
    ⟨⟨0, _, _, rfl⟩, fun h => absurd h (by decide), rfl, rfl, rfl⟩
  have hbelongs := (Runtime.map_belongs_iff hinit (isTree_of_entries (by decide)) hdistinct hsteady
    (.top 1 .start fun _ => rfl) (by decide) hpersists hload).1
  have holder : ((Settings.standard ⟨"/"⟩).layout.map? maplessRuntime.session.files
      ⟨"/a.coffee"⟩).isSome = true := by decide
  refine ⟨s', m, hload, ?_⟩
  intro h
  rcases hbelongs.mp h with hwritten | hnone | ⟨text, hown, -⟩
  · cases hwritten
  · rw [hnone] at holder
    cases holder
  · cases hown

end ModuleCache
