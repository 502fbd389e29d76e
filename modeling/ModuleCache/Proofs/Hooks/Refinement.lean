import ModuleCache.Proofs.FileSystem.Operations
import ModuleCache.Proofs.Loading.Installed
import ModuleCache.Proofs.Placement.Shape

/-!
A hook against the handler that compiles on every load. Where there is no artifact to serve,
a hook whose fallback is that handler comes to the same as the handler alone and asks the
transpiler for nothing else: a compilation that fails is repeated and fails again.
-/

namespace ModuleCache

open FileSystem ModuleCache.Path

/-- Paths that end in the same component have the same file name. -/
theorem Path.baseName_of_getLast? {p q : Path}
    (h : p.components.getLast? = q.components.getLast?) : p.baseName = q.baseName := by
  have hname : p.fileName? = q.fileName? := by
    apply Option.ext
    intro name
    rw [fileName?_eq_some_iff, fileName?_eq_some_iff, h]
  unfold baseName
  rw [hname]

/-- The artifact of a source has the name that the swap of the suffix gives it, if the
source can be read and is not the installation root. -/
theorem Layout.baseName_cache {l : Layout} {fs : FileSystem} {p : Path} {text : String}
    (htracked : l.extensions.isTracked p = true)
    (hroot : p.normalize.same l.installRoot = false) (hread : fs.readText p = .ok text) :
    (l.place p).cache.baseName = (l.extensions.toOutput p).baseName := by
  obtain ⟨name, stem, hname, -⟩ := extension?_eq_some_iff.mp (isTracked_iff.mp htracked)
  obtain ⟨mode, modified, hfind, -⟩ := readText_eq_ok hread
  obtain ⟨houtput, -⟩ := components_swap_of_endsInName l.extensions.source_bare
    l.extensions.output_bare (endsInName_of_find_file hfind)
    (components_eq_of_fileName? hname)
  have hbelow : ∃ front, (l.cut p.normalize).2 = front ++ [.name name] := by
    apply (cut_snd_of_name (components_eq_of_fileName? (fileName?_normalize hname))).resolve_left
    rintro ⟨-, hsame⟩
    rw [same_iff.mpr hsame] at hroot
    cases hroot
  obtain ⟨front, hfront⟩ := hbelow
  obtain ⟨hcache, -⟩ := place_of_last hfront
  apply baseName_of_getLast?
  rw [hcache, Extensions.toOutput, houtput, List.getLast?_concat, List.getLast?_concat]

/-- What a hook asks for when it compiles a source is what the handler that compiles on every
load asks for. -/
theorem Layout.request_eq {l : Layout} {fs : FileSystem} {p : Path} {source : String}
    (htracked : l.extensions.isTracked p = true)
    (hroot : p.normalize.same l.installRoot = false) (hread : fs.readText p = .ok source) :
    l.request p source = .ofSource source p (l.extensions.toOutput p).baseName := by
  rw [request, baseName_cache htracked hroot hread]

/-- What a transpiler answers depends on the request alone. -/
def Transpiler.IsDeterministic (t : Transpiler) : Prop :=
  ∀ fs fs' request, (t.run fs request).outcome = (t.run fs' request).outcome

theorem Transpiler.IsDeterministic.compile {t : Transpiler} (h : t.IsDeterministic)
    (fs fs' : FileSystem) (request : Transpiler.Request) :
    (t.compile fs request).outcome = (t.compile fs' request).outcome := by
  unfold Transpiler.compile
  dsimp only
  rw [h fs fs' request]
  cases (t.run fs' request).outcome <;> rfl

theorem PlainHandler.supply_uncached {fs : FileSystem} {p : Path} {source : String}
    (h : fs.readText p = .ok source) (t : Transpiler) (extensions : Extensions) :
    let request := .ofSource source p (extensions.toOutput p).baseName
    (PlainHandler.uncached extensions).supply t fs p =
      ⟨(t.compile fs request).fs, [request],
        ((t.compile fs request).outcome.mapError .compile).map (·.code)⟩ := by
  unfold supply
  rw [h]

/-- Without an artifact to serve, a hook comes to what its fallback alone would, and asks the
transpiler for the same, once or twice. -/
theorem Hook.supply_eq {t : Transpiler} (hanswers : t.IsDeterministic) {p : Path}
    (hsource : ∀ fs request, (t.run fs request).fs.readText p = fs.readText p) {hook : Hook}
    {extensions : Extensions} (hextensions : hook.layout.extensions = extensions)
    (hfallback : hook.fallback = some (.plain (.uncached extensions))) {fs : FileSystem}
    (htracked : extensions.isTracked p = true)
    (hroot : p.normalize.same hook.layout.installRoot = false)
    (hmissed : Store.serve? fs p (hook.layout.place p).cache = none) :
    let course := hook.layout.course t fs p
    let supply := hook.supply t fs p course
    let alone := (PlainHandler.uncached extensions).supply t fs p
    supply.result = alone.result ∧
      (∀ request ∈ course.requests ++ supply.requests, alone.requests = [request]) ∧
      (course.requests ++ supply.requests = [] ↔ alone.requests = []) := by
  unfold Layout.course
  rw [hmissed]
  dsimp only
  cases hread : fs.readText p with
  | error cause =>
      have halone : ((PlainHandler.uncached extensions).supply t fs p).requests = [] := by
        simp [PlainHandler.supply, hread]
      dsimp only
      have hunread : (Course.unread cause).result p = .error (.read p cause) := rfl
      rw [supply_of_error hunread hfallback]
      simp [Course.requests, Course.files, halone]
  | ok source =>
      have hrequest : hook.layout.request p source =
          .ofSource source p (extensions.toOutput p).baseName := by
        rw [← hextensions] at htracked ⊢
        exact Layout.request_eq htracked hroot hread
      have halone := PlainHandler.supply_uncached hread t extensions
      dsimp only at halone ⊢
      rw [hrequest]
      cases houtcome : (t.compile fs
          (.ofSource source p (extensions.toOutput p).baseName)).outcome with
      | error error =>
          -- the fallback reads the source and has it compiled once more
          have hagain :
              (t.compile fs (.ofSource source p (extensions.toOutput p).baseName)).fs.readText p =
                .ok source := by
            rw [Transpiler.fs_compile, hsource, hread]
          have hrepeated := PlainHandler.supply_uncached hagain t extensions
          dsimp only at hrepeated
          rw [hanswers.compile _ fs, houtcome] at hrepeated
          rw [houtcome] at halone
          rw [supply_of_error rfl hfallback]
          simp [Course.files, Course.requests, hrepeated, halone]
      | ok output =>
          rw [houtcome] at halone
          rw [supply_of_ok hook rfl]
          simp [Course.requests, halone, Except.map, Except.mapError]

theorem Session.requests_closing (r : Session.Route) (p : Path) (s : Session) :
    (r.closing p s).requests = s.requests := by
  cases r <;> rfl

/-- A hook whose fallback compiles on every load refines that handler. Where the artifact of a
source is missing, stale or unreadable, whatever the state of the cache, a load by the hook
and a load by the handler alone come to the same module or the same error, if what code can
look back at is the same; and everything the hook or its fallback asks the transpiler for is
what the handler alone asks it for. -/
theorem hook_refines_uncached {host : Host} (hanswers : host.transpiler.IsDeterministic) {p : Path}
    (hsource : ∀ fs request, (host.transpiler.run fs request).fs.readText p = fs.readText p)
    (hscripts : ∀ code file, (host.evaluator code file).Does Deed.KeepsOut)
    {s s' : Session} {index : Nat} {hook : Hook} {entered : InProgress} {extensions : Extensions}
    (hhook : s.route p = .hook index hook entered)
    (halone : s'.route p = .plain (.uncached extensions)) (hfiles : s'.files = s.files)
    (hrecords : s'.records = s.records)
    (hextensions : hook.layout.extensions = extensions)
    (hfallback : hook.fallback = some (.plain (.uncached extensions)))
    (htracked : extensions.isTracked p = true)
    (hroot : p.normalize.same hook.layout.installRoot = false)
    (hmissed : Store.isFresh s.files p (hook.layout.place p).cache = true →
      ∃ e, Store.read s.files (hook.layout.place p).cache = .error e) (depth : Nat) :
    ∃ after after' loaded made made',
      Session.require host (depth + 1) s p = some (after, loaded) ∧
      Session.require host (depth + 1) s' p = some (after', loaded) ∧
      after.requests = s.requests ++ made ∧ after'.requests = s'.requests ++ made' ∧
      (∀ request ∈ made, made' = [request]) ∧ (made = [] ↔ made' = []) := by
  obtain ⟨hresult, hmade, hnone⟩ := Hook.supply_eq hanswers hsource hextensions hfallback htracked
    hroot (Store.serve?_eq_none hmissed)
  have hnext : (s.route p).next? = none := by
    rw [hhook, Session.Route.next?, hfallback]
    rfl
  have hnext' : (s'.route p).next? = none := by
    rw [halone]
    rfl
  obtain ⟨records, files, hload, -⟩ := Session.require_of_keepsOut hscripts depth hnext
  obtain ⟨records', files', hload', -⟩ := Session.require_of_keepsOut hscripts depth hnext'
  obtain ⟨notes, hopen⟩ := Session.opening_of_hook host.transpiler hhook
  obtain ⟨notes', hopen'⟩ := Session.opening_of_plain host.transpiler halone
  rw [hopen] at hload
  rw [hopen', hfiles, hrecords] at hload'
  dsimp only [Demand.file] at hload hload'
  rw [← hresult] at hload'
  refine ⟨_, _, _, _, _, hload, hload', ?_, ?_, hmade, hnone⟩
  · rw [Session.requests_closing]
    exact List.append_assoc _ _ _
  · rw [Session.requests_closing]

/-- A loader for one source, before and after its hook takes the slot of the handler that
compiles on every load. -/
def unhooked : Session :=
  Runtime.sessionAtStart (.standard ⟨"/"⟩) .silent
    ⟨[([], .directory true 0), (["a.coffee"], .file "x".toUTF8 0o644 1)], [], 2, 1⟩

def hooked : Session := (unhooked.install Runtime.hook).1

/-- The hook and the handler alone load the source to the same end. -/
theorem hooked_refines_unhooked : ∃ after after' loaded made made',
    Session.require markingHost 1 hooked (.load ⟨"/a.coffee"⟩) = some (after, loaded) ∧
    Session.require markingHost 1 unhooked (.load ⟨"/a.coffee"⟩) = some (after', loaded) ∧
    after.requests = hooked.requests ++ made ∧ after'.requests = unhooked.requests ++ made' ∧
    (∀ request ∈ made, made' = [request]) ∧ (made = [] ↔ made' = []) := by
  let hook : Hook :=
    { layout := (Settings.standard ⟨"/"⟩).layout
      style := .silent
      fallback := some (.plain (.uncached .standard))
      isRegistered := true }
  have hhook : hooked.route (.load ⟨"/a.coffee"⟩) = .hook 0 hook ⟨[⟨"/a.coffee"⟩]⟩ := rfl
  have halone : unhooked.route (.load ⟨"/a.coffee"⟩) = .plain (.uncached .standard) := rfl
  have hmissed : Store.isFresh hooked.files ⟨"/a.coffee"⟩ (hook.layout.place ⟨"/a.coffee"⟩).cache =
      false := by decide
  have hanswers : markingHost.transpiler.IsDeterministic := fun _ _ _ => rfl
  exact hook_refines_uncached hanswers (fun _ _ => rfl) (fun _ _ => trivial) hhook halone rfl rfl
    rfl rfl (by decide) (by decide) (fun hfresh => absurd hfresh (by simp [hmissed])) 0

end ModuleCache
