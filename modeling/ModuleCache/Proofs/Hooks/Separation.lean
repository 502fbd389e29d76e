import ModuleCache.Proofs.Hooks.Verdict
import ModuleCache.Proofs.Placement.Collision
import ModuleCache.Proofs.Placement.Forward

/-!
Loads of different files do not get into each other's way. A load changes the artifact and the
map of its own source; the directories that it makes on the way show through no other path, as
a path that climbs only at its start finds a file wherever one stands at its end. So files
whose artifacts have places of their own come to the same in whatever order they are loaded.
-/

namespace ModuleCache

open FileSystem ModuleCache.Path

/-- Between two file systems nothing is different but the artifact and the map of one source:
no other file, no source, and no artifact with another place. -/
structure Layout.Spares (l : Layout) (p : Path) (fs fs' : FileSystem) : Prop where
  current : fs'.current = fs.current
  files : ∀ a ∉ l.keptAt fs.current p, fs'.fileAt? a = fs.fileAt? a
  sources : ∀ q, l.extensions.isTracked q = true → fs.isFile q = true →
    fs'.fileFound? q = fs.fileFound? q
  artifacts : ∀ q, l.extensions.isTracked q = true →
    addressFrom fs.current (l.place p).cache ≠ addressFrom fs.current (l.place q).cache →
    fs'.fileFound? (l.place q).cache = fs.fileFound? (l.place q).cache

/-- Different files that one hook loads, which hands no file on to another hook. Their artifacts
have places of their own, and nobody uses the temporary names. -/
structure Session.Separated (l : Layout) (index : Nat) (ps : List Path) (s : Session) : Prop where
  hook : ∃ hook, s.hooks[index]? = some hook ∧ hook.layout = l ∧
    ∀ other, hook.fallback ≠ some (.hook other)
  slot : s.registry.handler? l.extensions.source = some (.hook index)
  /-- The installation root is a normal form. -/
  root : ∃ root : Path, l.installRoot = root.normalize
  /-- The cache directory is spelled without a step upward. -/
  downward : .up ∉ (⟨l.cacheDir⟩ : Path).components
  tree : s.files.IsTree
  current : s.files.IsDirectoryAt s.files.current
  tracked : ∀ p ∈ ps, l.extensions.isTracked p = true
  sources : ∀ p ∈ ps, s.files.isFile p = true
  artifacts : ps.Pairwise fun p q =>
    addressFrom s.files.current (l.place p).cache ≠ addressFrom s.files.current (l.place q).cache
  scratch : ∀ p ∈ ps, ∀ a ∈ l.scratchAt s.files.current s.files.process p,
    s.files.fileAt? a = none ∧ ∀ q ∈ ps, a ≠ addressFrom s.files.current (l.place q).cache ∧
      a ≠ addressFrom s.files.current (l.place q).map

namespace Layout

variable {l : Layout} {base : Address} {p q : Path}

theorem mem_keptAt {a : Address} (h : a ∈ l.keptAt base p) :
    l.artifactAt? base p = some a ∨ l.mapAt? base p = some a := by
  simpa [keptAt] using h

theorem source_not_mem_keptAt (htracked : l.extensions.isTracked q = true) :
    addressFrom base q ∉ l.keptAt base p := by
  have hsource : addressExtension? (addressFrom base q) = some l.extensions.source :=
    addressExtension?_source htracked
  intro hmem
  rcases mem_keptAt hmem with hartifact | hmap
  · rw [addressExtension?_artifactAt? hartifact] at hsource
    exact l.extensions.source_ne_output (Option.some.inj hsource).symm
  · obtain ⟨-, hext, haddress⟩ := mapAt?_eq_some hmap
    rw [haddress, addressExtension?_addressFrom hext] at hsource
    exact l.extensions.source_ne_map (Option.some.inj hsource).symm

theorem artifact_not_mem_keptAt
    (hne : addressFrom base (l.place p).cache ≠ addressFrom base (l.place q).cache)
    (hcache : (l.place q).cache.extension? = some l.extensions.output) :
    addressFrom base (l.place q).cache ∉ l.keptAt base p := by
  intro hmem
  rcases mem_keptAt hmem with hartifact | hmap
  · exact hne (artifactAt?_eq_some hartifact).2.symm
  · exact mapAt?_ne_artifact hmap hcache rfl

/-- What a load may leave behind spares everything else. -/
theorem spares_of_leaves (hroot : ∃ root : Path, l.installRoot = root.normalize)
    (hdown : .up ∉ (⟨l.cacheDir⟩ : Path).components) {fs fs' : FileSystem} (htree : fs.IsTree)
    (hstart : fs.IsDirectoryAt fs.current) (h : Leaves fs fs' (l.keptAt fs.current p)) :
    l.Spares p fs fs' where
  current := h.current
  files := h.files
  sources := by
    intro q htracked hfile
    obtain ⟨file, hfound⟩ := isFile_iff.mp hfile
    rw [hfound]
    exact h.fileFound?_of_some (source_not_mem_keptAt htracked) hfound
  artifacts := by
    intro q htracked hne
    apply h.fileFound?_eq htree hstart
    intro name hname hends
    obtain ⟨root, hroot⟩ := hroot
    have hforward : l.installRoot.IsForward := hroot ▸ isForward_normalize root
    exact ⟨isForward_cache hforward hdown htracked hname,
      artifact_not_mem_keptAt hne (extension?_cache htracked hname hends)⟩

theorem Spares.isFile {fs fs' : FileSystem} (h : l.Spares p fs fs')
    (htracked : l.extensions.isTracked q = true) (hfile : fs.isFile q = true) :
    fs'.isFile q = true := by
  rw [isFile_iff] at hfile ⊢
  rwa [h.sources q htracked (isFile_iff.mpr hfile)]

end Layout

/-- Settings allow no step upward in the cache directory. -/
theorem Settings.up_not_mem_cacheDir (settings : Settings) :
    .up ∉ (⟨settings.layout.cacheDir⟩ : Path).components := by
  have hentry := components_of_isEntryName settings.cacheDir_name
  rw [Settings.layout, Layout.ofRoot, hentry]
  simp

namespace Session

variable {host : Host} {l : Layout} {index : Nat} {ps : List Path} {s : Session}

theorem Separated.scratchFree (h : Separated l index ps s) {p : Path} (hp : p ∈ ps) :
    l.ScratchFree s.files p :=
  fun a ha => ⟨(h.scratch p hp a ha).1, (h.scratch p hp a ha).2 p hp⟩

/-- What a load leaves behind leaves the files separated. -/
theorem Separated.of_leaves (h : Separated l index ps s) {p : Path} (hp : p ∈ ps) {s' : Session}
    (hhook : ∃ hook, s'.hooks[index]? = some hook ∧ hook.layout = l ∧
      ∀ other, hook.fallback ≠ some (.hook other))
    (hregistry : s'.registry = s.registry)
    (hleaves : Leaves s.files s'.files (l.keptAt s.files.current p)) :
    Separated l index ps s' := by
  have hspares := Layout.spares_of_leaves h.root h.downward h.tree h.current hleaves
  have hcurrent := hleaves.current
  refine ⟨hhook, hregistry ▸ h.slot, h.root, h.downward, hleaves.tree h.tree, ?_, h.tracked, ?_,
    ?_, ?_⟩
  · rw [hcurrent]
    exact hleaves.directories _ h.current
  · intro q hq
    exact hspares.isFile (h.tracked q hq) (h.sources q hq)
  · rw [hcurrent]
    exact h.artifacts
  · rw [hcurrent, hleaves.process]
    intro q hq a ha
    obtain ⟨hnone, hothers⟩ := h.scratch q hq a ha
    refine ⟨?_, hothers⟩
    rw [hspares.files a, hnone]
    intro hmem
    rcases Layout.mem_keptAt hmem with hartifact | hmap
    · exact (hothers p hp).1 (artifactAt?_eq_some hartifact).2
    · exact (hothers p hp).2 (mapAt?_eq_some hmap).2.2

/-- One load among separated files ends, spares the others, and leaves the hook what it was but
for its counters. -/
theorem Separated.load (h : Separated l index ps s) (ht : host.transpiler.IsFunction)
    (hscripts : ∀ code file, (host.evaluator code file).Does Deed.RecordsOnly) (depth : Nat)
    {p : Path} (hp : p ∈ ps) {hook : Hook} (hhook : s.hooks[index]? = some hook) :
    ∃ s' counted,
      require host (depth + 1) s p = some (s', (hook.verdict host s.files p).loaded) ∧
      s.verdict index s' (hook.verdict host s.files p).loaded = hook.verdict host s.files p ∧
      s'.hooks[index]? = some { hook with counters := hook.counters + counted } ∧
      Separated l index ps s' ∧ l.Spares p s.files s'.files := by
  have htracked := h.tracked p hp
  obtain ⟨hook', hhook', hlayout, hown⟩ := h.hook
  obtain rfl : hook' = hook := Option.some.inj (hhook'.symm.trans hhook)
  have hhandler : s.registry.handler? (p.extension?.getD "") = some (.hook index) := by
    rw [isTracked_iff.mp htracked]
    exact h.slot
  obtain ⟨s', counted, hload, hverdict, hregistry, hafter, hfiles⟩ :=
    require_of_hook ht hscripts depth hhandler hhook hown
  have hleaves : Leaves s.files s'.files (l.keptAt s.files.current p) := by
    rcases hfiles with hsame | hcourse
    · rw [hsame]
      exact (Leaves.refl _).mono (by simp)
    · rw [hcourse, hlayout]
      exact Layout.leaves_course ht htracked (h.scratchFree hp)
  exact ⟨s', counted, hload, hverdict, hafter,
    h.of_leaves hp ⟨_, hafter, hlayout, hown⟩ hregistry hleaves,
    Layout.spares_of_leaves h.root h.downward h.tree h.current hleaves⟩

/-- Loads files one after another and says what each load came to. -/
def loadEach (host : Host) (depth index : Nat) : Session → List Path →
    Option (Session × List Verdict)
  | s, [] => some (s, [])
  | s, p :: rest => do
    let (mid, loaded) ← require host depth s p
    let (s', verdicts) ← loadEach host depth index mid rest
    pure (s', s.verdict index mid loaded :: verdicts)

/-- Loaded one after another, separated files come to what each comes to alone. -/
theorem Separated.loadEach_eq (h : Separated l index ps s) (ht : host.transpiler.IsFunction)
    (hscripts : ∀ code file, (host.evaluator code file).Does Deed.RecordsOnly) (depth : Nat)
    {hook : Hook} (hhook : s.hooks[index]? = some hook) {qs : List Path} (hsub : qs ⊆ ps)
    (hdifferent : qs.Pairwise fun p q => addressFrom s.files.current (l.place p).cache ≠
      addressFrom s.files.current (l.place q).cache) :
    ∃ s', loadEach host (depth + 1) index s qs =
      some (s', qs.map (hook.verdict host s.files)) := by
  induction qs generalizing s hook with
  | nil => exact ⟨s, rfl⟩
  | cons q rest ih =>
      obtain ⟨hq, hrest⟩ := List.cons_subset.mp hsub
      obtain ⟨hne, hdifferent⟩ := List.pairwise_cons.mp hdifferent
      obtain ⟨mid, counted, hload, hverdict, hhook', hmid, hspares⟩ :=
        h.load ht hscripts depth hq hhook
      have hlayout : hook.layout = l := by
        obtain ⟨hook', hhook', hlayout, -⟩ := h.hook
        rw [← hlayout, Option.some.inj (hhook'.symm.trans hhook)]
      rw [← hspares.current] at hdifferent
      obtain ⟨s', heach⟩ := ih hmid hhook' hrest hdifferent
      -- the file that was loaded first decides nothing about the others
      have hsame : rest.map (Hook.verdict { hook with counters := hook.counters + counted } host
          mid.files) = rest.map (hook.verdict host s.files) := by
        apply List.map_congr_left
        intro r hr
        have htracked := h.tracked r (hrest hr)
        have hfile := h.sources r (hrest hr)
        have hfound := hspares.sources r htracked hfile
        refine Hook.verdict_congr ht rfl rfl rfl (Store.serve?_congr hfile hfound ?_)
          (readText_of_fileFound? hfound hfile)
        rw [hlayout]
        exact hspares.artifacts r htracked (hne r hr)
      refine ⟨s', ?_⟩
      unfold loadEach
      rw [hload]
      dsimp only [Option.bind_eq_bind, Option.bind_some]
      rw [heach, hverdict, hsame]
      rfl

/-- Loads of different files do not interfere, where code only records. From any files and any
state of the cache, each load of a file in the list ends and changes no other file than the
artifact and the map of its own source; and whichever of the files are loaded, in whatever
order, each comes to the same module or the same error, by the same decision to serve, to
compile or to fall back. -/
theorem loads_do_not_interfere (ht : host.transpiler.IsFunction)
    (hscripts : ∀ code file, (host.evaluator code file).Does Deed.RecordsOnly)
    (h : Separated l index ps s) (depth : Nat) :
    (∀ p ∈ ps, ∃ s' loaded, require host (depth + 1) s p = some (s', loaded) ∧
      Separated l index ps s' ∧ l.Spares p s.files s'.files) ∧
    ∃ verdict : Path → Verdict, ∀ qs : List Path, qs.Subperm ps →
      ∃ s', loadEach host (depth + 1) index s qs = some (s', qs.map verdict) := by
  obtain ⟨hook, hhook, hlayout, -⟩ := h.hook
  constructor
  · intro p hp
    obtain ⟨s', -, hload, -, -, hseparated, hspares⟩ := h.load ht hscripts depth hp hhook
    exact ⟨s', _, hload, hseparated, hspares⟩
  · refine ⟨hook.verdict host s.files, ?_⟩
    rintro qs ⟨chosen, horder, hchosen⟩
    refine h.loadEach_eq ht hscripts depth hhook ?_ ?_
    · intro q hq
      exact hchosen.subset (horder.symm.subset hq)
    · exact (horder.pairwise_iff fun hne heq => hne heq.symm).mp (h.artifacts.sublist hchosen)

/-- A source, and another one in a directory that is called as the artifact of the first. -/
def nested : Session :=
  loaderOf (Settings.standard ⟨"/"⟩).layout [(["a.coffee"], .file "x".toUTF8 0o644 1),
    (["a.js"], .directory true 0), (["a.js", "b.coffee"], .file "y".toUTF8 0o644 1)]

/-- The artifact of the one source stands where the other one needs a directory: whichever is
loaded first keeps its place, and both come to the same as ever. -/
theorem nested_artifacts_do_not_interfere :
    (∀ p ∈ [(⟨"/a.coffee"⟩ : Path), ⟨"/a.js/b.coffee"⟩], ∃ s' loaded,
      require markingHost 1 nested p = some (s', loaded) ∧
      Separated (Settings.standard ⟨"/"⟩).layout 0 [⟨"/a.coffee"⟩, ⟨"/a.js/b.coffee"⟩] s' ∧
      (Settings.standard ⟨"/"⟩).layout.Spares p nested.files s'.files) ∧
    ∃ verdict : Path → Verdict, ∀ qs : List Path, qs.Subperm [⟨"/a.coffee"⟩, ⟨"/a.js/b.coffee"⟩] →
      ∃ s', loadEach markingHost 1 0 nested qs = some (s', qs.map verdict) := by
  have hseparated : Separated (Settings.standard ⟨"/"⟩).layout 0
      [⟨"/a.coffee"⟩, ⟨"/a.js/b.coffee"⟩] nested :=
    { hook := ⟨_, rfl, rfl, fun _ h => nomatch h⟩
      slot := rfl
      root := ⟨_, rfl⟩
      downward := Settings.up_not_mem_cacheDir _
      tree := isTree_of_entries (by decide +kernel)
      current := ⟨true, 0, rfl⟩
      tracked := by decide +kernel
      sources := by decide +kernel
      artifacts := by decide +kernel
      scratch := by decide +kernel }
  have ht : markingHost.transpiler.IsFunction := ⟨fun _ _ _ => rfl, fun _ _ => rfl⟩
  have hscripts : ∀ code file, (markingHost.evaluator code file).Does Deed.RecordsOnly :=
    fun _ _ => trivial
  exact loads_do_not_interfere ht hscripts hseparated 0

/-- Two tracked files whose artifacts have different paths, as far as the paths are spelled. -/
def Unlike (l : Layout) (s : Session) (p q : Path) : Prop :=
  (l.place p).cache.same (l.place q).cache = false ∧
    ∀ r ∈ [p, q], l.extensions.isTracked r = true ∧ s.files.isFile r = true

instance (l : Layout) (s : Session) (p q : Path) : Decidable (Unlike l s p q) :=
  inferInstanceAs (Decidable (_ ∧ _))

/-- A cache directory that is spelled with a step upward. -/
def climbingLayout : Layout := .ofRoot ⟨"/"⟩ "tmp/../c" "node_modules" .standard

/-- Two sources, of which one has an artifact in the directory that is meant. -/
def climbing : Session :=
  loaderOf climbingLayout [(["a.coffee"], .file "x".toUTF8 0o644 1),
    (["b.coffee"], .file "y".toUTF8 0o644 1), (["c"], .directory true 0),
    (["c", "a.js"], .file "z".toUTF8 0o644 1)]

/-- Code that fails wherever other code ran before it. -/
def wary : Host :=
  { markingHost with
    evaluator := fun _ file => .act .consult fun
      | [] => .record file.text .finish
      | _ :: _ => .fail (.evaluate file "not the first") }

/-- Code that removes every file. -/
def razing : Host :=
  { markingHost with
    evaluator := fun _ _ => .act (.alter fun fs => { fs with nodes := [] }) fun _ => .finish }

/-- Different paths of artifacts are not enough. Where the cache directory is spelled with a step
upward, the load of one source makes a directory through which the artifact of another one is
found: loaded first, that source is compiled, and loaded second, it is served. And where one
source has an absolute path and another one a relative path, their artifacts may have different
paths to one place: whichever is loaded second is served the code of the other one. Nor is it
enough that code loads nothing: it may look at what ran before it, or change files itself. -/
theorem different_paths_interfere :
    Unlike climbingLayout climbing ⟨"/a.coffee"⟩ ⟨"/b.coffee"⟩ ∧
      (loadEach markingHost 1 0 climbing [⟨"/a.coffee"⟩, ⟨"/b.coffee"⟩]).map (·.2) =
        some [⟨.ok ⟨⟨"/a.coffee"⟩, "// x"⟩, 0, 1, 0⟩, ⟨.ok ⟨⟨"/b.coffee"⟩, "// y"⟩, 0, 1, 0⟩] ∧
      (loadEach markingHost 1 0 climbing [⟨"/b.coffee"⟩, ⟨"/a.coffee"⟩]).map (·.2) =
        some [⟨.ok ⟨⟨"/b.coffee"⟩, "// y"⟩, 0, 1, 0⟩, ⟨.ok ⟨⟨"/a.coffee"⟩, "z"⟩, 1, 0, 0⟩] ∧
    Unlike packagedLayout packaged ⟨"/a.coffee"⟩ ⟨"lib/p/a.coffee"⟩ ∧
      (loadEach markingHost 1 0 packaged [⟨"/a.coffee"⟩, ⟨"lib/p/a.coffee"⟩]).map (·.2) =
        some [⟨.ok ⟨⟨"/a.coffee"⟩, "// x"⟩, 0, 1, 0⟩, ⟨.ok ⟨⟨"lib/p/a.coffee"⟩, "// x"⟩, 1, 0, 0⟩] ∧
      (loadEach markingHost 1 0 packaged [⟨"lib/p/a.coffee"⟩, ⟨"/a.coffee"⟩]).map (·.2) =
        some [⟨.ok ⟨⟨"lib/p/a.coffee"⟩, "// y"⟩, 0, 1, 0⟩,
          ⟨.ok ⟨⟨"/a.coffee"⟩, "// y"⟩, 1, 0, 0⟩] ∧
    Unlike (Settings.standard ⟨"/"⟩).layout nested ⟨"/a.coffee"⟩ ⟨"/a.js/b.coffee"⟩ ∧
      (loadEach wary 1 0 nested [⟨"/a.coffee"⟩, ⟨"/a.js/b.coffee"⟩]).map (·.2) =
        some [⟨.ok ⟨⟨"/a.coffee"⟩, "// x"⟩, 0, 1, 0⟩,
          ⟨.error (.evaluate ⟨"/a.js/b.coffee"⟩ "not the first"), 0, 1, 0⟩] ∧
      (loadEach wary 1 0 nested [⟨"/a.js/b.coffee"⟩, ⟨"/a.coffee"⟩]).map (·.2) =
        some [⟨.ok ⟨⟨"/a.js/b.coffee"⟩, "// y"⟩, 0, 1, 0⟩,
          ⟨.error (.evaluate ⟨"/a.coffee"⟩ "not the first"), 0, 1, 0⟩] ∧
      (loadEach razing 1 0 nested [⟨"/a.coffee"⟩, ⟨"/a.js/b.coffee"⟩]).map (·.2) =
        some [⟨.ok ⟨⟨"/a.coffee"⟩, "// x"⟩, 0, 1, 0⟩,
          ⟨.error (.read ⟨"/a.js/b.coffee"⟩ .notFound), 0, 0, 1⟩] := by
  decide +kernel

end Session
end ModuleCache
