import ModuleCache.Proofs.FileSystem.Reading
import ModuleCache.Proofs.Hooks.Refinement
import ModuleCache.Proofs.Loading.Files
import ModuleCache.Proofs.Loading.Nesting
import ModuleCache.Proofs.Maps.Files

/-!
What a load by a hook comes to and what it leaves behind. The module or the error, and whether
the artifact was served, the source compiled or the fallback called, are decided by the files
that two paths lead to, that of the source and that of its artifact. What is left behind is the
artifact and its map.
-/

namespace ModuleCache

open FileSystem ModuleCache.Path

/-! ### What is left behind -/

/-- A transpiler that is a function of what it is asked for: files have no part in its answers
and are left as they are. -/
structure Transpiler.IsFunction (t : Transpiler) : Prop where
  answers : t.IsDeterministic
  files : ∀ fs request, (t.run fs request).fs = fs

theorem Transpiler.IsFunction.compile {t : Transpiler} (h : t.IsFunction) (fs : FileSystem)
    (request : Transpiler.Request) : (t.compile fs request).fs = fs := by
  rw [fs_compile, h.files]

/-- Where the artifact and the map of a source are kept. -/
def Layout.keptAt (l : Layout) (base : Address) (p : Path) : List Address :=
  (l.artifactAt? base p).toList ++ (l.mapAt? base p).toList

/-- No file has the temporary names of a source, and its artifact and map have others. -/
def Layout.ScratchFree (l : Layout) (fs : FileSystem) (p : Path) : Prop :=
  ∀ a ∈ l.scratchAt fs.current fs.process p, fs.fileAt? a = none ∧
    a ≠ addressFrom fs.current (l.place p).cache ∧ a ≠ addressFrom fs.current (l.place p).map

theorem Layout.write_leaves {l : Layout} {fs : FileSystem} {p : Path}
    (htracked : l.extensions.isTracked p = true) (hscratch : l.ScratchFree fs p)
    (content : String) (mapContent : Option String) :
    Leaves fs (Store.write fs (l.place p).cache (l.place p).map content mapContent).fs
      (l.keptAt fs.current p) := by
  have hleaves := Store.write_leaves fs (l.place p).cache (l.place p).map content mapContent
  refine ⟨hleaves.current, hleaves.now, hleaves.process, hleaves.directories, hleaves.tree, ?_⟩
  intro a ha
  simp only [keptAt, List.mem_append, Option.mem_toList, not_or] at ha
  by_cases hmem : a ∈ l.scratchAt fs.current fs.process p
  · rw [(hscratch a hmem).1]
    exact Store.write_none content mapContent rfl hscratch a hmem
  · obtain ⟨hcache, hmap⟩ : a ≠ Store.temporaryAt fs (l.place p).cache ∧
        a ≠ Store.temporaryAt fs (l.place p).map := by
      simpa [mem_scratchAt] using hmem
    rcases Store.write_changes fs (l.place p).cache (l.place p).map content mapContent hcache hmap
      with hsame | ⟨⟨name, hname⟩, hends, ⟨ha', -⟩ | ⟨ha', name', hname'⟩⟩
    · exact hsame
    · have hartifact :
          l.artifactAt? fs.current p = some (addressFrom fs.current (l.place p).cache) :=
        if_pos (extension?_cache htracked hname hends)
      exact absurd (ha' ▸ hartifact) ha.1
    · exact absurd (ha' ▸ mapAt?_of_written htracked hname hends hname') ha.2

/-- On any course a hook leaves the artifact and the map of the source, and directories. -/
theorem Layout.leaves_course {l : Layout} {t : Transpiler} (ht : t.IsFunction) {fs : FileSystem}
    {p : Path} (htracked : l.extensions.isTracked p = true) (hscratch : l.ScratchFree fs p) :
    Leaves fs ((l.course t fs p).files fs) (l.keptAt fs.current p) := by
  have hkeep : ∀ {fs' : FileSystem}, fs' = fs → Leaves fs fs' (l.keptAt fs.current p) := by
    intro fs' hsame
    rw [hsame]
    exact (Leaves.refl fs).mono (by simp)
  have hwrite : ∀ {fs' : FileSystem} (content : String) (map : Option String), fs' = fs →
      Leaves fs (Store.write fs' (l.place p).cache (l.place p).map content map).fs
        (l.keptAt fs.current p) := by
    intro fs' content map hsame
    rw [hsame]
    exact write_leaves htracked hscratch content map
  -- up to the write the files are as they were
  exact course_leaves (F := (· = fs)) (G := fun fs' => Leaves fs fs' (l.keptAt fs.current p))
    (fun request hsame => (ht.files _ request).trans hsame) hkeep hwrite rfl

theorem Hook.files_supply (hook : Hook) {t : Transpiler} (ht : t.IsFunction) (fs : FileSystem)
    (p : Path) (course : Course) : (hook.supply t fs p course).files = course.files fs :=
  hook.supply_leaves (F := (· = course.files fs))
    (fun request hsame => (ht.files _ request).trans hsame) p rfl

/-! ### What decides -/

/-- What is served depends on the files that the two paths lead to. -/
theorem Store.serve?_eq {fs : FileSystem} {source artifact : Path} {content : ByteArray}
    {mode : Nat} {changed : Time} (h : fs.fileFound? source = some (content, mode, changed)) :
    serve? fs source artifact = (fs.fileFound? artifact).bind fun (code, mode, written) =>
      if changed ≤ written ∧ mode &&& 0o400 ≠ 0 then String.fromUTF8? code else none := by
  unfold serve?
  rw [toOption_read, toOption_readText]
  unfold isFresh modified?
  rw [fileFound?_eq_some.mp h]
  unfold fileFound?
  cases fs.find artifact with
  | error cause => rfl
  | ok node =>
      cases node with
      | directory writable modified =>
          dsimp only [Option.bind_none]
          split <;> rfl
      | file code mode written =>
          dsimp only [Node.modified, Option.bind]
          by_cases hfresh : changed ≤ written <;> simp [hfresh]

theorem Store.serve?_congr {fs fs' : FileSystem} {source artifact : Path}
    (hfile : fs.isFile source = true) (hsource : fs'.fileFound? source = fs.fileFound? source)
    (hartifact : fs'.fileFound? artifact = fs.fileFound? artifact) :
    serve? fs' source artifact = serve? fs source artifact := by
  obtain ⟨⟨content, mode, changed⟩, hfound⟩ := isFile_iff.mp hfile
  rw [serve?_eq hfound, serve?_eq (hsource.trans hfound), hartifact]

/-- What a load comes to: the module or the error, and how often the artifact was served, the
source compiled, and the load handed to the fallback. -/
structure Verdict where
  loaded : Loaded
  hits : Nat
  compiles : Nat
  fallbacks : Nat
  deriving DecidableEq

/-- What a load of a file by a hook comes to, where code only records. -/
def Hook.verdict (hook : Hook) (host : Host) (fs : FileSystem) (p : Path) : Verdict :=
  match hook.inProgress.enter p with
  | .error chain => ⟨.error (.cycle p chain), 0, 0, 0⟩
  | .ok _ =>
    let course := hook.layout.course host.transpiler fs p
    ⟨host.outcome [] p (hook.supply host.transpiler fs p course).result, course.tally.hits,
      course.tally.compiles, course.tally.fallbacks⟩

theorem PlainHandler.result_supply {t : Transpiler} (ht : t.IsFunction) (handler : PlainHandler)
    {fs fs' : FileSystem} {p : Path} (hread : fs'.readText p = fs.readText p) :
    (handler.supply t fs' p).result = (handler.supply t fs p).result := by
  unfold supply
  cases handler with
  | fixed id code => rfl
  | uncached extensions =>
      dsimp only
      rw [hread]
      cases fs.readText p with
      | error cause => rfl
      | ok source =>
          dsimp only
          rw [ht.answers.compile fs' fs]

/-- Where the same is served and the same is read, a hook takes a course to the same end and
counts the same, but for what could not be written. -/
theorem Layout.course_congr {t : Transpiler} (ht : t.IsFunction) {l : Layout} {fs fs' : FileSystem}
    {p : Path}
    (hserve : Store.serve? fs' p (l.place p).cache = Store.serve? fs p (l.place p).cache)
    (hread : fs'.readText p = fs.readText p) :
    (l.course t fs' p).result p = (l.course t fs p).result p ∧
      (l.course t fs' p).tally.hits = (l.course t fs p).tally.hits ∧
      (l.course t fs' p).tally.compiles = (l.course t fs p).tally.compiles ∧
      (l.course t fs' p).tally.fallbacks = (l.course t fs p).tally.fallbacks := by
  unfold course
  rw [hserve, hread]
  cases Store.serve? fs p (l.place p).cache with
  | some code => exact ⟨rfl, rfl, rfl, rfl⟩
  | none =>
      dsimp only
      cases fs.readText p with
      | error cause => exact ⟨rfl, rfl, rfl, rfl⟩
      | ok source =>
          dsimp only
          rw [ht.answers.compile fs' fs, ht.compile, ht.compile]
          cases (t.compile fs (l.request p source)).outcome with
          | error error => exact ⟨rfl, rfl, rfl, rfl⟩
          | ok output =>
              obtain ⟨_, _, -, htally⟩ := Course.tally_built (l.request p source) output
                (Store.write fs (l.place p).cache (l.place p).map output.code output.map)
              obtain ⟨_, _, -, htally'⟩ := Course.tally_built (l.request p source) output
                (Store.write fs' (l.place p).cache (l.place p).map output.code output.map)
              dsimp only [Course.result]
              rw [htally, htally']
              exact ⟨rfl, rfl, rfl, rfl⟩

/-- A course to an error leaves all files. -/
theorem Layout.files_of_error {t : Transpiler} (ht : t.IsFunction) {l : Layout} {fs : FileSystem}
    {p : Path} {error : LoadError} (h : (l.course t fs p).result p = .error error) :
    (l.course t fs p).files fs = fs := by
  unfold course at h ⊢
  cases hserve : Store.serve? fs p (l.place p).cache with
  | some code => rfl
  | none =>
      rw [hserve] at h
      dsimp only at h ⊢
      cases hread : fs.readText p with
      | error cause => rfl
      | ok source =>
          rw [hread] at h
          dsimp only at h ⊢
          cases houtcome : (t.compile fs (l.request p source)).outcome with
          | error error => exact ht.compile fs _
          | ok output =>
              rw [houtcome] at h
              cases h

/-- A load comes to the same where the same is served and the same is read, whatever the files
are besides. -/
theorem Hook.verdict_congr {host : Host} (ht : host.transpiler.IsFunction) {hook hook' : Hook}
    (hlayout : hook'.layout = hook.layout) (hfallback : hook'.fallback = hook.fallback)
    (hloading : hook'.inProgress = hook.inProgress) {fs fs' : FileSystem} {p : Path}
    (hserve : Store.serve? fs' p (hook.layout.place p).cache =
      Store.serve? fs p (hook.layout.place p).cache)
    (hread : fs'.readText p = fs.readText p) :
    hook'.verdict host fs' p = hook.verdict host fs p := by
  obtain ⟨hresult, hhits, hcompiles, hfallbacks⟩ := Layout.course_congr ht hserve hread
  unfold verdict
  rw [hloading, hlayout]
  cases hook.inProgress.enter p with
  | error chain => rfl
  | ok entered =>
      have hsupply : (hook'.supply host.transpiler fs' p
            (hook.layout.course host.transpiler fs' p)).result =
          (hook.supply host.transpiler fs p (hook.layout.course host.transpiler fs p)).result := by
        unfold supply
        rw [hfallback]
        cases herror : (hook.layout.course host.transpiler fs p).result p with
        | ok code => rw [hresult, herror]
        | error error =>
            rw [herror] at hresult
            rw [hresult]
            cases hook.fallback with
            | none => rfl
            | some handler =>
                cases handler with
                | plain handler =>
                    dsimp only
                    rw [Layout.files_of_error ht herror, Layout.files_of_error ht hresult,
                      handler.result_supply ht hread]
                | hook index => rfl
      dsimp only
      rw [hsupply, hhits, hcompiles, hfallbacks]

/-! ### One load -/

namespace Session

/-- What a load came to, by the counters of a hook before and after it. -/
def verdict (index : Nat) (s s' : Session) (loaded : Loaded) : Verdict where
  loaded := loaded
  hits := (s'.counted index).hits - (s.counted index).hits
  compiles := (s'.counted index).compiles - (s.counted index).compiles
  fallbacks := (s'.counted index).fallbacks - (s.counted index).fallbacks

theorem verdict_of_counted {index : Nat} {s s' : Session} {hook : Hook} {counted : Counters}
    (hhook : s.hooks[index]? = some hook)
    (hhook' : s'.hooks[index]? = some { hook with counters := hook.counters + counted })
    (loaded : Loaded) : s.verdict index s' loaded =
      ⟨loaded, counted.hits, counted.compiles, counted.fallbacks⟩ := by
  unfold verdict Session.counted
  rw [hhook, hhook']
  simp

/-- A load by a hook that hands no file on, where code only records: what it comes to, the
files it leaves, and that nothing else of the loader changes but what the hook has counted. -/
theorem require_of_hook {host : Host} (ht : host.transpiler.IsFunction)
    (hscripts : ∀ code file, (host.evaluator code file).Does Deed.RecordsOnly) (depth : Nat)
    {s : Session} {p : Path} {index : Nat} {hook : Hook}
    (hhandler : s.registry.handler? (p.extension?.getD "") = some (.hook index))
    (hhook : s.hooks[index]? = some hook)
    (hown : ∀ other, hook.fallback ≠ some (.hook other)) :
    ∃ s' counted,
      require host (depth + 1) s p = some (s', (hook.verdict host s.files p).loaded) ∧
      s.verdict index s' (hook.verdict host s.files p).loaded = hook.verdict host s.files p ∧
      s'.registry = s.registry ∧
      s'.hooks[index]? = some { hook with counters := hook.counters + counted } ∧
      (s'.files = s.files ∨
        s'.files = (hook.layout.course host.transpiler s.files p).files s.files) := by
  have hroute : s.route p = .ofHook index hook p :=
    (route_of_handlerFor? hhandler).trans (routeBy_of_hook hhook p)
  unfold Route.ofHook at hroute
  have hnext : (s.route p).next? = none := by
    rw [hroute]
    cases hook.inProgress.enter p with
    | error chain => rfl
    | ok entered => exact onward?_eq_none hown
  obtain ⟨records, hload⟩ := require_of_recordsOnly hscripts depth hnext
  rw [hload]
  unfold Hook.verdict
  cases henter : hook.inProgress.enter p with
  | error chain =>
      rw [henter] at hroute
      have hhook' : s.hooks[index]? = some { hook with counters := hook.counters + 0 } := by
        rw [add_zero]
        exact hhook
      rw [opening_of_refused host.transpiler hroute, hroute]
      exact ⟨_, 0, rfl, verdict_of_counted hhook hhook' _, rfl, hhook', .inl rfl⟩
  | ok entered =>
      rw [henter] at hroute
      obtain ⟨notes, hopen⟩ := opening_of_hook host.transpiler hroute
      rw [hopen, hroute]
      dsimp only [Route.closing, modifyHook]
      have hhook' : ∀ tally, ((s.hooks.modify index fun h =>
            { h with inProgress := entered, counters := h.counters + tally }).modify index fun h =>
            { h with inProgress := h.inProgress.leave p })[index]? =
          some { hook with counters := hook.counters + tally } := by
        intro tally
        rw [List.getElem?_modify_eq, List.getElem?_modify_eq, hhook]
        simp only [Option.map_eq_map, Option.map_some, InProgress.leave_of_enter henter]
      refine ⟨_, (hook.layout.course host.transpiler s.files p).tally, rfl, ?_, rfl, hhook' _,
        .inr (Hook.files_supply hook ht _ _ _)⟩
      exact verdict_of_counted hhook (hhook' _) _

end Session
end ModuleCache
