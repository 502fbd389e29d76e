import ModuleCache.Proofs.Hooks.Refinement
import ModuleCache.Proofs.Loading.Nesting
import ModuleCache.Proofs.Loading.Registration
import ModuleCache.Proofs.Maps.Loads

/-!
One load by a hook. Before any code runs the hook decides once what to do about the load, by
the files and the transpiler alone: it serves the artifact, or compiles the source and tries to
keep the result, or hands the load on. Each decision comes with all that the hook changes up to
then. After a load that kept its artifact the next one is served that artifact, unless the code
that ran in between changed it: code may have files loaded, and two hooks may share an artifact.
-/

namespace ModuleCache

open FileSystem

/-- The artifact is not older than the source, and the code is its content. -/
def Store.Servable (fs : FileSystem) (source artifact : Path) (code : String) : Prop :=
  ∃ changed written, fs.modified? source = some changed ∧ fs.modified? artifact = some written ∧
    changed ≤ written ∧ fs.readText artifact = .ok code

theorem Store.servable_iff {fs : FileSystem} {source artifact : Path} {code : String} :
    Servable fs source artifact code ↔ serve? fs source artifact = some code := by
  constructor
  · rintro ⟨changed, written, hchanged, hwritten, hle, hread⟩
    have hfresh : isFresh fs source artifact = true := by
      unfold isFresh
      rw [hchanged, hwritten]
      exact decide_eq_true hle
    unfold serve?
    rw [if_pos hfresh, toOption_read, hread]
    rfl
  · intro h
    obtain ⟨hfresh, hread⟩ := serve?_eq_some h
    unfold isFresh at hfresh
    split at hfresh
    · next changed written hchanged hwritten =>
        exact ⟨changed, written, hchanged, hwritten, of_decide_eq_true hfresh, hread⟩
    · cases hfresh

theorem Store.serve?_of_not_servable {fs : FileSystem} {source artifact : Path}
    (h : ∀ code, ¬ Servable fs source artifact code) : serve? fs source artifact = none := by
  rw [Option.eq_none_iff_forall_ne_some]
  exact fun code hcode => h code (servable_iff.mpr hcode)

/-- Nothing that may not be read lies under the temporary name of the artifact of a source. -/
def Layout.ArtifactScratchReadable (l : Layout) (fs : FileSystem) (p : Path) : Prop :=
  fs.modeAt (Store.temporaryAt fs (l.place p).cache) &&& 0o400 ≠ 0

/-- What a hook changes until it has decided about a load: the files, and what is printed,
asked for and counted more. -/
structure Effects where
  files : FileSystem
  printed : String := ""
  requests : List Transpiler.Request := []
  counted : Counters

/-- What a hook decides about a load. -/
inductive Decision where
  /-- To run code as the module of the file. -/
  | execute (code : String)
  /-- To hand the load to its fallback. -/
  | fallBack (handler : Handler)
  /-- To return an error. -/
  | refuse (error : LoadError)

/-- Carries out a decision about a file. -/
def Decision.carryOut (host : Host) (require : Require) (p : Path) (s : Session) :
    Decision → Option (Session × Loaded)
  | .execute code => s.execute host require code p
  | .fallBack handler => Session.handOn host require s handler p
  | .refuse error => some (s, .error error)

/-- The decision of a hook that comes to an error. -/
def Hook.handOn (hook : Hook) (error : LoadError) : Decision :=
  match hook.fallback with
  | none => .refuse error
  | some handler => .fallBack handler

def Course.effects (course : Course) (fs : FileSystem) (style : Progress.Style)
    (relative : String) : Effects where
  files := course.files fs
  printed := course.printed style relative
  requests := course.requests
  counted := course.tally

def Course.decision (course : Course) (hook : Hook) (p : Path) : Decision :=
  match course.result p with
  | .ok code => .execute code
  | .error error => hook.handOn error

namespace Session

/-- The session when a hook has decided about a load, with the file among those in progress. -/
def decided (s : Session) (index : Nat) (entered : InProgress) (effects : Effects)
    (notes : Journal) : Session :=
  { s with
    files := effects.files
    hooks := s.hooks.modify index fun h =>
      { h with inProgress := entered, counters := h.counters + effects.counted }
    printed := s.printed ++ effects.printed
    requests := s.requests ++ effects.requests
    notes }

/-- A load of the file is the decision with these effects and nothing else: it is carried out,
and then the file is taken out of those in progress. -/
def Decides (s : Session) (host : Host) (index : Nat) (hook : Hook) (p : Path) (effects : Effects)
    (decision : Decision) : Prop :=
  ∃ notes, ∀ depth, require host (depth + 1) s p =
    (decision.carryOut host (require host depth) p
      (s.decided index ⟨hook.inProgress.active ++ [p]⟩ effects notes)).map fun ended =>
        (ended.1.modifyHook index fun h => { h with inProgress := h.inProgress.leave p }, ended.2)

/-- A file that a hook loads and is not loading yet. -/
structure Admits (s : Session) (index : Nat) (hook : Hook) (p : Path) : Prop where
  known : s.hooks[index]? = some hook
  slot : s.registry.slot? hook.extension = some (.claimed (.hook index))
  tracked : hook.layout.extensions.isTracked p = true
  idle : hook.inProgress.contains p = false

section
variable {host : Host} {s s' : Session} {index : Nat} {hook : Hook} {p : Path}

theorem Admits.require_eq (h : s.Admits index hook p) (depth : Nat) :
    require host (depth + 1) s p =
      (loadEntered host (require host depth)
        (s.modifyHook index fun h => { h with inProgress := ⟨hook.inProgress.active ++ [p]⟩ })
        index hook p).map fun ended =>
          (ended.1.modifyHook index fun h => { h with inProgress := h.inProgress.leave p },
            ended.2) := by
  have hextension : p.extension?.getD "" = hook.extension := by
    rw [Path.isTracked_iff.mp h.tracked]
    rfl
  have hhandler : s.handlerFor? p = some (.hook index) := by
    unfold handlerFor?
    rw [hextension]
    exact Registry.handler?_of_slot? h.slot
  have henter : hook.inProgress.enter p = .ok ⟨hook.inProgress.active ++ [p]⟩ := by
    rw [InProgress.enter, h.idle]
    rfl
  change dispatch host (require host depth) s p = _
  unfold dispatch loadBy
  simp only [hhandler, h.known]
  unfold loadHook
  rw [henter]
  dsimp only
  cases loadEntered host (require host depth) _ index hook p <;> rfl

/-- Obtaining the code, together with what is counted afterwards. -/
theorem obtain_decided (s : Session) (t : Transpiler) (index : Nat) (hook : Hook) (p : Path)
    (entered : InProgress) :
    let course := hook.layout.course t s.files p
    ∃ obtained notes,
      (s.modifyHook index fun h => { h with inProgress := entered }).obtain t index hook p =
        (obtained, course.result p) ∧
      ∀ counted, course.tally = course.obtaining + counted →
        obtained.count index (· + counted) = s.decided index entered
          (course.effects s.files hook.style (hook.layout.place p).relative.text) notes := by
  intro course
  obtain ⟨notes, hobtain⟩ := obtain_eq
    (s.modifyHook index fun h => { h with inProgress := entered }) t index hook p
  refine ⟨_, notes, hobtain, fun counted hcounted => ?_⟩
  unfold follow decided Course.effects count modifyHook
  simp only [List.modify_modify_eq, Function.comp_def, hcounted, add_assoc]
  rfl

/-- Falling back is handing the load on, with a count and perhaps a note. -/
theorem fallBack_eq_carryOut (host : Host) (s : Session) (index : Nat) (hook : Hook) (p : Path)
    (error : LoadError) :
    ∃ notes, ∀ require, fallBack host require s index hook.fallback p error =
      (hook.handOn error).carryOut host require p
        { s.count index (· + { fallbacks := 1 }) with notes } := by
  unfold Hook.handOn
  cases hook.fallback with
  | none => exact ⟨_, fun require => rfl⟩
  | some handler => exact ⟨_, fun require => rfl⟩

/-- A hook decides as the course that it takes says. -/
theorem Admits.decides (h : s.Admits index hook p) {course : Course}
    (hcourse : hook.layout.course host.transpiler s.files p = course) :
    s.Decides host index hook p
      (course.effects s.files hook.style (hook.layout.place p).relative.text)
      (course.decision hook p) := by
  rw [← hcourse]
  obtain ⟨obtained, notes, hobtain, hcount⟩ := obtain_decided s host.transpiler index hook p
    ⟨hook.inProgress.active ++ [p]⟩
  generalize hook.layout.course host.transpiler s.files p = course at hobtain hcount ⊢
  have htally := course.tally_eq p
  unfold Course.decision
  cases hresult : course.result p with
  | ok code =>
      rw [hresult] at hobtain htally
      have hdecided := hcount _ htally
      rw [count_zero] at hdecided
      refine ⟨notes, fun depth => ?_⟩
      rw [h.require_eq, loadEntered, hobtain, hdecided]
      rfl
  | error error =>
      rw [hresult] at hobtain htally
      obtain ⟨notes', hfallBack⟩ := fallBack_eq_carryOut host obtained index hook p error
      refine ⟨notes', fun depth => ?_⟩
      rw [h.require_eq, loadEntered, hobtain]
      dsimp only
      rw [hfallBack, hcount _ htally]
      rfl

/-- After whatever was asked for, the hook admits what it admitted before. -/
theorem Admits.after (h : s.Admits index hook p) {depth : Nat} {demand : Demand}
    {loaded : Loaded} (hload : require host depth s demand = some (s', loaded)) :
    ∃ hook', s'.Admits index hook' p ∧ hook'.layout = hook.layout := by
  obtain ⟨hook', hknown, hkept⟩ := exists_hook_of_setups (setups_require hload) h.known
  have hlayout : hook'.layout = hook.layout := (Prod.mk.inj hkept).1
  have hloading := getElem?_loading hknown
  rw [loading_require hload, getElem?_loading h.known] at hloading
  refine ⟨hook', ⟨hknown, ?_, ?_, ?_⟩, hlayout⟩
  · rw [Hook.extension, hlayout]
    exact slot?_require h.slot hload
  · rw [hlayout]
    exact h.tracked
  · rw [← Option.some.inj hloading]
    exact h.idle

theorem Admits.serves (h : s.Admits index hook p) {code : String}
    (hservable : Store.Servable s.files p (hook.layout.place p).cache code) :
    s.Decides host index hook p { files := s.files, counted := { hits := 1 } } (.execute code) :=
  h.decides (Layout.course_of_served (Store.servable_iff.mp hservable))

/-- After a load that persisted its artifact, the artifact is servable if it was not changed
since and is not older than the source. -/
theorem Admits.servable_after (h : s.Admits index hook p) {c : Compilation}
    (hpersists : s.Persists host.transpiler hook.layout p c)
    (hscratch : hook.layout.ArtifactScratchReadable
      (host.transpiler.run s.files (hook.layout.request p c.source)).fs p)
    {fs : FileSystem} (hsame : fs.fileFound? (hook.layout.place p).cache =
      (c.stored host.transpiler hook.layout s.files p).fs.fileFound? (hook.layout.place p).cache)
    {changed written : Time} (hchanged : fs.modified? p = some changed)
    (hwritten : fs.modified? (hook.layout.place p).cache = some written) (hle : changed ≤ written) :
    Store.Servable fs p (hook.layout.place p).cache c.answer.code := by
  have hstored : (c.stored host.transpiler hook.layout s.files p).fs.readText
      (hook.layout.place p).cache = .ok c.answer.code :=
    readText_written_artifact h.tracked hscratch hpersists.written
  obtain ⟨mode, modified, hfind, -⟩ := readText_eq_ok hstored
  have hfile := isFile_iff.mpr ⟨_, fileFound?_eq_some.mpr hfind⟩
  exact ⟨changed, written, hchanged, hwritten, hle,
    (readText_of_fileFound? hsame hfile).trans hstored⟩

/-- A hook makes one decision about a load that it admits, with exactly its effects. An artifact
that is not older than the source and can be read is what is run, and counts as a hit; nothing
else happens. Where there is none the source is needed. One that can be read is compiled: that
is the one request of the hook, and what the transpiler answers is run and a write of it
attempted, whatever comes of that. A source that cannot be read, or not be compiled, is handed
on with its error, and counts as a fallback; the hook itself touches no file.

So if a load persists its artifact, and afterwards the artifact is as it was then and not older
than the source, the next load runs the same code, out of the artifact. -/
theorem Admits.one_decision (h : s.Admits index hook p) :
    let place := hook.layout.place p
    let unservable := ∀ code, ¬ Store.Servable s.files p place.cache code
    (∀ code, Store.Servable s.files p place.cache code →
      s.Decides host index hook p { files := s.files, counted := { hits := 1 } }
        (.execute code)) ∧
    (∀ source, unservable → s.files.readText p = .ok source →
      let request := Transpiler.Request.ofSource source p place.cache.baseName
      let answer := host.transpiler.run s.files request
      let opening := hook.style.render (Progress.opening place.relative.text)
      match answer.outcome with
      | .ok output =>
        let usable := (output.annotated request).1
        let written := Store.write answer.fs place.cache place.map output.code usable.map
        s.Decides host index hook p
          { files := written.fs
            printed := opening ++ hook.style.render Progress.done
            requests := [request]
            counted := (Course.built request usable written).tally }
          (.execute output.code)
      | .error fault =>
        s.Decides host index hook p
          { files := answer.fs
            printed := opening ++ hook.style.render Progress.failed
            requests := [request]
            counted := { fallbacks := 1 } }
          (hook.handOn (.compile (fault.toError p)))) ∧
    (∀ cause, unservable → s.files.readText p = .error cause →
      s.Decides host index hook p { files := s.files, counted := { fallbacks := 1 } }
        (hook.handOn (.read p cause))) ∧
    (∀ (c : Compilation) (depth : Nat) (s' : Session) (loaded : Loaded) (changed written : Time),
      s.Persists host.transpiler hook.layout p c →
      hook.layout.ArtifactScratchReadable
        (host.transpiler.run s.files (hook.layout.request p c.source)).fs p →
      require host depth s p = some (s', loaded) →
      s'.files.fileFound? place.cache =
        (c.stored host.transpiler hook.layout s.files p).fs.fileFound? place.cache →
      s'.files.modified? p = some changed → s'.files.modified? place.cache = some written →
      changed ≤ written →
      (∃ effects, s.Decides host index hook p effects (.execute c.answer.code)) ∧
      ∃ hook', s'.Admits index hook' p ∧
        s'.Decides host index hook' p { files := s'.files, counted := { hits := 1 } }
          (.execute c.answer.code)) := by
  refine ⟨fun code => h.serves, ?_, ?_, ?_⟩
  · intro source hunservable hread request answer opening
    have hmissed := Store.serve?_of_not_servable hunservable
    cases houtcome : answer.outcome with
    | ok output =>
        have hdecides := h.decides (Layout.course_of_answered hmissed hread houtcome)
        rw [Course.decision, Course.result, Transpiler.Output.code_annotated] at hdecides
        exact hdecides
    | error fault => exact h.decides (Layout.course_of_fault hmissed hread houtcome)
  · intro cause hunservable hread
    exact h.decides (Layout.course_of_unread (Store.serve?_of_not_servable hunservable) hread)
  · intro c depth s' loaded changed written hpersists hscratch hload hsame hchanged hwritten hle
    obtain ⟨hook', hadmits, hlayout⟩ := h.after hload
    have hservable := h.servable_after hpersists hscratch hsame hchanged hwritten hle
    have hdecides := h.decides hpersists.course
    rw [Course.decision, Course.result, Transpiler.Output.code_annotated] at hdecides
    rw [← hlayout] at hservable
    exact ⟨⟨_, hdecides⟩, hook', hadmits, hadmits.serves hservable⟩

end

/-- A loader for one source compiles it, and is served the artifact from then on. -/
theorem hooked_decides_once : ∃ s' hook',
    require markingHost 1 hooked (.load ⟨"/a.coffee"⟩) = some (s', .ok ⟨⟨"/a.coffee"⟩, "// x"⟩) ∧
      s'.Decides markingHost 0 hook' ⟨"/a.coffee"⟩
        { files := s'.files, counted := { hits := 1 } } (.execute "// x") := by
  let hook : Hook :=
    { layout := (Settings.standard ⟨"/"⟩).layout
      style := .silent
      fallback := some (.plain (.uncached .standard))
      isRegistered := true }
  have hadmits : hooked.Admits 0 hook ⟨"/a.coffee"⟩ := ⟨rfl, rfl, by decide, by decide⟩
  have hpersists : hooked.Persists markingHost.transpiler hook.layout ⟨"/a.coffee"⟩
      ⟨"x", ⟨"// x", none⟩, false⟩ :=
    ⟨⟨0, hook, _, rfl⟩, fun h => absurd h (by decide), rfl, rfl, by decide +kernel⟩
  have hscratch : hook.layout.ArtifactScratchReadable hooked.files ⟨"/a.coffee"⟩ := by
    unfold Layout.ArtifactScratchReadable
    decide
  have hended : (require markingHost 1 hooked (.load ⟨"/a.coffee"⟩)).map (·.2) =
      some (.ok ⟨⟨"/a.coffee"⟩, "// x"⟩) := by decide +kernel
  have hkept : (require markingHost 1 hooked (.load ⟨"/a.coffee"⟩)).map
      (·.1.files.fileFound? (hook.layout.place ⟨"/a.coffee"⟩).cache) =
        some (some ("// x".toUTF8, 0o644, 2)) := by
    decide +kernel
  have htimes : (require markingHost 1 hooked (.load ⟨"/a.coffee"⟩)).map (fun ended =>
      (ended.1.files.modified? ⟨"/a.coffee"⟩,
        ended.1.files.modified? (hook.layout.place ⟨"/a.coffee"⟩).cache)) =
      some (some 1, some 2) := by decide +kernel
  obtain ⟨⟨s', loaded⟩, hload, rfl⟩ := Option.map_eq_some_iff.mp hended
  rw [hload, Option.map_some, Option.some.injEq] at hkept htimes
  obtain ⟨hchanged, hwritten⟩ := Prod.mk.inj htimes
  have hstored : (Compilation.stored ⟨"x", ⟨"// x", none⟩, false⟩ markingHost.transpiler hook.layout
      hooked.files ⟨"/a.coffee"⟩).fs.fileFound? (hook.layout.place ⟨"/a.coffee"⟩).cache =
        some ("// x".toUTF8, 0o644, 2) := by decide +kernel
  obtain ⟨-, -, -, hnext⟩ := @Admits.one_decision markingHost _ _ _ _ hadmits
  obtain ⟨-, hook', -, hdecides⟩ := hnext _ 1 s' _ 1 2 hpersists hscratch hload
    (hkept.trans hstored.symm) hchanged hwritten (by decide)
  exact ⟨s', hook', hload, hdecides⟩

/-- Sources of another kind whose artifacts are called as those of the standard kind. -/
def twinExtensions : Extensions :=
  { Extensions.standard with
    source := "cof"
    source_bare := by decide
    source_ne_output := by decide
    source_ne_map := by decide }

/-- Two sources that differ in their extensions alone, and a hook for each. -/
def twins : Session :=
  let s : Session :=
    { files := ⟨[([], .directory true 0), (["a.coffee"], .file "one".toUTF8 0o644 1),
        (["a.cof"], .file "two".toUTF8 0o644 3)], [], 2, 1⟩ }
  let s := s.addHook (.ofRoot ⟨"/"⟩ "c" "node_modules" .standard) .silent
  let s := s.addHook (.ofRoot ⟨"/"⟩ "c" "node_modules" twinExtensions) .silent
  ((s.install 0).1.install 1).1

/-- A transpiler that gives back what it gets. The code of the first twin has the second one
loaded. -/
def twinHost : Host where
  transpiler := ⟨"echo", fun fs request => ⟨fs, [], .ok ⟨request.source, none⟩⟩⟩
  evaluator := fun code _ => if code = "one" then .load ⟨"/a.cof"⟩ fun _ => .finish else .finish

/-- The artifact that was persisted is not enough for the next load. The first load of the one
twin persists its artifact, which is not older than its source afterwards; but the code had the
other twin loaded, whose artifact is the same file. So the second load is served that. -/
theorem next_load_runs_other_code :
    (∃ hook c, twins.Admits 0 hook ⟨"/a.coffee"⟩ ∧
      twins.Persists twinHost.transpiler hook.layout ⟨"/a.coffee"⟩ c ∧
      hook.layout.ArtifactScratchReadable twins.files ⟨"/a.coffee"⟩) ∧
    ((require twinHost 2 twins (.load ⟨"/a.coffee"⟩)).bind fun (s', loaded) =>
      (require twinHost 2 s' (.load ⟨"/a.coffee"⟩)).map fun (_, loaded') => [loaded, loaded']) =
        some [.ok ⟨⟨"/a.coffee"⟩, "one"⟩, .ok ⟨⟨"/a.coffee"⟩, "two"⟩] ∧
    ((require twinHost 2 twins (.load ⟨"/a.coffee"⟩)).map fun (s', _) =>
      (s'.files.modified? ⟨"/a.coffee"⟩, s'.files.modified? ⟨"/c/a.js"⟩)) =
        some (some 1, some 2) := by
  let hook : Hook :=
    { layout := .ofRoot ⟨"/"⟩ "c" "node_modules" .standard, style := .silent, isRegistered := true }
  have hpersists : twins.Persists twinHost.transpiler hook.layout ⟨"/a.coffee"⟩
      ⟨"one", ⟨"one", none⟩, false⟩ :=
    ⟨⟨0, hook, _, rfl⟩, fun h => absurd h (by decide), rfl, rfl, by decide +kernel⟩
  have hscratch : hook.layout.ArtifactScratchReadable twins.files ⟨"/a.coffee"⟩ := by
    unfold Layout.ArtifactScratchReadable
    decide
  exact ⟨⟨hook, _, ⟨rfl, rfl, by decide, by decide⟩, hpersists, hscratch⟩, by decide +kernel,
    by decide +kernel⟩

end Session
end ModuleCache
