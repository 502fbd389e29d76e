import ModuleCache.Proofs.CommandLine.Attempts
import ModuleCache.Proofs.Hooks.Accounts
import ModuleCache.Proofs.Hooks.Verdict

/-!
Warming a tree. A run loads every source that it finds and sums up how many were compiled, how
many were cached, and how many failed. The first two numbers are counted by the hook and the
last one by the run, and yet each file is counted once: what the hook cannot load goes to its
fallback, which asks the transpiler for the same and fails as the hook did.
-/

namespace ModuleCache

deriving instance DecidableEq for Settings

/-- Asked again for the same, a transpiler answers the same, and the source is still there. -/
structure Transpiler.Repeats (t : Transpiler) (fs : FileSystem) (request : Transpiler.Request) :
    Prop where
  outcome : (t.run (t.run fs request).fs request).outcome = (t.run fs request).outcome
  source : (t.run fs request).fs.readText request.file = fs.readText request.file

instance (t : Transpiler) (fs : FileSystem) (request : Transpiler.Request) :
    Decidable (t.Repeats fs request) :=
  decidable_of_iff ((t.run (t.run fs request).fs request).outcome = (t.run fs request).outcome ∧
      (t.run fs request).fs.readText request.file = fs.readText request.file)
    ⟨fun h => ⟨h.1, h.2⟩, fun h => ⟨h.outcome, h.source⟩⟩

theorem Transpiler.Repeats.compile {t : Transpiler} {fs : FileSystem} {request : Transpiler.Request}
    (h : t.Repeats fs request) :
    (t.compile (t.compile fs request).fs request).outcome = (t.compile fs request).outcome := by
  rw [fs_compile]
  unfold Transpiler.compile
  dsimp only
  rw [h.outcome]
  cases (t.run fs request).outcome <;> rfl

/-- What a hook cannot load its fallback cannot load either. -/
theorem Hook.supply_of_failed {hook : Hook} {t : Transpiler} {fs : FileSystem} {p : Path}
    (hfallback : hook.fallback = some (.plain (.uncached hook.layout.extensions)))
    (htracked : hook.layout.extensions.isTracked p = true)
    (hroot : p.normalize.same hook.layout.installRoot = false)
    (hrepeats : ∀ source, fs.readText p = .ok source → t.Repeats fs (hook.layout.request p source))
    {error : LoadError} (herror : (hook.layout.course t fs p).result p = .error error) :
    (hook.supply t fs p (hook.layout.course t fs p)).result = .error error := by
  rw [supply_of_error herror hfallback]
  unfold Layout.course at herror ⊢
  cases hserve : Store.serve? fs p (hook.layout.place p).cache with
  | some code =>
      rw [hserve] at herror
      cases herror
  | none =>
      rw [hserve] at herror
      dsimp only at herror ⊢
      cases hread : fs.readText p with
      | error cause =>
          rw [hread] at herror
          rw [← herror]
          simp [PlainHandler.supply, Course.files, Course.result, hread]
      | ok source =>
          rw [hread] at herror
          dsimp only at herror ⊢
          have hrepeat := hrepeats source hread
          have hrequest : hook.layout.request p source =
              .ofSource source p (hook.layout.extensions.toOutput p).baseName :=
            Layout.request_eq htracked hroot hread
          cases houtcome : (t.compile fs (hook.layout.request p source)).outcome with
          | ok output =>
              rw [houtcome] at herror
              cases herror
          | error cause =>
              rw [houtcome] at herror
              have hagain : (t.compile fs (hook.layout.request p source)).fs.readText p =
                  .ok source := by
                rw [Transpiler.fs_compile]
                exact hrepeat.source.trans hread
              have hrepeated := hrepeat.compile
              have hsupply := PlainHandler.supply_uncached hagain t hook.layout.extensions
              rw [houtcome] at hrepeated
              dsimp only [Course.files] at hsupply ⊢
              rw [hsupply, ← hrequest, hrepeated, ← herror]
              rfl

/-- A hook that holds its slot and loads nothing else opens every tracked file. -/
theorem Session.HeldBy.route_of_tracked {s : Session} {settings : Settings}
    (h : s.HeldBy settings) (hidle : s.Idle) {p : Path}
    (htracked : settings.extensions.isTracked p = true) :
    ∃ hook entered, s.route p = .hook Runtime.hook hook entered ∧ hook.layout = settings.layout ∧
      hook.fallback = some (.plain (.uncached settings.extensions)) := by
  obtain ⟨hook, hhook, hlayout, -, hfallback⟩ := h.hook
  have hhandler : s.handlerFor? p = some (.hook Runtime.hook) := by
    unfold Session.handlerFor?
    rw [Path.isTracked_iff.mp htracked]
    exact Registry.handler?_of_slot? h.slot
  have hempty : hook.inProgress = .empty :=
    hidle _ (List.mem_map_of_mem (List.mem_of_getElem? hhook))
  refine ⟨hook, ⟨[p]⟩, ?_, hlayout, hfallback⟩
  rw [Session.route_of_handlerFor? hhandler, Session.routeBy_of_hook hhook, Session.Route.ofHook,
    hempty]
  rfl

/-- A load by a hook that hands no file on, where code only records, counts and comes to what
the course says. -/
theorem Session.course_of_require {host : Host}
    (hscripts : ∀ code file, (host.evaluator code file).Does Deed.RecordsOnly) {depth : Nat}
    {s s' : Session} {p : Path} {loaded : Loaded}
    (hload : require host (depth + 1) s p = some (s', loaded)) {index : Nat} {hook : Hook}
    {entered : InProgress} (hroute : s.route p = .hook index hook entered)
    (hown : ∀ other, hook.fallback ≠ some (.hook other)) :
    let course := hook.layout.course host.transpiler s.files p
    s'.counted index = s.counted index + course.tally ∧
      loaded = host.outcome [] p (hook.supply host.transpiler s.files p course).result := by
  intro course
  have hnext : (s.route p).next? = none := by
    rw [hroute]
    exact onward?_eq_none hown
  obtain ⟨records, hrequire⟩ := require_of_recordsOnly hscripts depth hnext
  obtain ⟨rfl, rfl⟩ := Prod.mk.inj (Option.some.inj (hload.symm.trans hrequire))
  obtain ⟨notes, hopen⟩ := opening_of_hook host.transpiler hroute
  constructor
  · have hopened := Begun.opened_counted host.transpiler index ⟨s, p⟩
    have htally : Begun.tally host.transpiler index ⟨s, p⟩ = course.tally := by
      unfold Begun.tally
      simp only [hroute, if_true]
      rfl
    rw [htally] at hopened
    rw [counted_closing]
    exact hopened
  · rw [hopen]
    rfl

namespace CommandLine

/-- What a file counts as when a run is summed up. -/
inductive Fate where
  | compiled
  | cached
  | failed
  deriving DecidableEq, Repr

namespace Attempt

/-- The transpiler would answer the same if the source of the load were compiled twice. -/
def Repeats (a : Attempt) (t : Transpiler) (l : Layout) : Prop :=
  match a.before.files.readText a.file with
  | .ok source => t.Repeats a.before.files (l.request a.file source)
  | .error _ => True

instance (a : Attempt) (t : Transpiler) (l : Layout) : Decidable (a.Repeats t l) :=
  match h : a.before.files.readText a.file with
  | .ok source => decidable_of_iff (t.Repeats a.before.files (l.request a.file source))
      (by unfold Repeats; rw [h])
  | .error _ => isTrue (by unfold Repeats; rw [h]; trivial)

/-- A transpiler that is a function of its requests repeats every answer. -/
theorem repeats_of_isFunction {t : Transpiler} (h : t.IsFunction) (a : Attempt) (l : Layout) :
    a.Repeats t l := by
  unfold Repeats
  split
  · exact ⟨h.answers _ _ _, by rw [h.files]⟩
  · trivial

/-- What a load counts as: an error as a failure, and anything else as the hook has it. -/
def fate (a : Attempt) : Fate :=
  if a.hasFailed then .failed
  else if (a.before.counted Runtime.hook).hits < (a.after.counted Runtime.hook).hits then .cached
  else .compiled

/-- A load raises the one number that its fate stands for. -/
structure Settled (a : Attempt) : Prop where
  compiles : (a.after.counted Runtime.hook).compiles =
    (a.before.counted Runtime.hook).compiles + if a.fate = .compiled then 1 else 0
  hits : (a.after.counted Runtime.hook).hits =
    (a.before.counted Runtime.hook).hits + if a.fate = .cached then 1 else 0
  failed : a.hasFailed = decide (a.fate = .failed)

/-- A load is settled as what it raises the numbers by. -/
theorem settled_of_raised {a : Attempt} {raised : Counters}
    (hcounts : a.after.counted Runtime.hook = a.before.counted Runtime.hook + raised) (fate : Fate)
    (hfailed : a.hasFailed = decide (fate = .failed))
    (hcompiles : raised.compiles = if fate = .compiled then 1 else 0)
    (hhits : raised.hits = if fate = .cached then 1 else 0) : a.Settled := by
  have hfate : a.fate = fate := by
    unfold Attempt.fate
    rw [hfailed, hcounts, Counters.hits_add, hhits]
    cases fate <;> simp
  constructor
  case compiles => rw [hcounts, Counters.compiles_add, hcompiles, hfate]
  case hits => rw [hcounts, Counters.hits_add, hhits, hfate]
  case failed => rw [hfailed, hfate]

/-- A load of a tracked file is settled in one way, if the transpiler repeats its answer. -/
theorem settled_of_require {host : Host} (hcode : host.evaluator = fun _ _ => .finish)
    {a : Attempt} (hload : Session.require host 1 a.before a.file = some (a.after, a.loaded))
    {settings : Settings} (hheld : a.before.HeldBy settings) (hidle : a.before.Idle)
    (htracked : settings.extensions.isTracked a.file = true)
    (hroot : a.file.normalize.same settings.layout.installRoot = false)
    (hrepeats : a.Repeats host.transpiler settings.layout) : a.Settled := by
  obtain ⟨hook, entered, hroute, hlayout, hfallback⟩ := hheld.route_of_tracked hidle htracked
  rw [← hlayout] at hroot hrepeats
  have hextensions : hook.layout.extensions = settings.extensions :=
    congrArg Layout.extensions hlayout
  rw [← hextensions] at htracked hfallback
  have hscripts : ∀ code file, (host.evaluator code file).Does Deed.RecordsOnly := by
    rw [hcode]
    exact fun _ _ => trivial
  obtain ⟨hcounted, hloaded⟩ :=
    Session.course_of_require hscripts hload hroute (by simp [hfallback])
  have hfailed : ∀ {error}, (hook.layout.course host.transpiler a.before.files a.file).result
      a.file = .error error → a.hasFailed = true := by
    intro error herror
    have hagain : ∀ source, a.before.files.readText a.file = .ok source →
        host.transpiler.Repeats a.before.files (hook.layout.request a.file source) := by
      intro source hread
      unfold Repeats at hrepeats
      rw [hread] at hrepeats
      exact hrepeats
    rw [hasFailed, hloaded, Hook.supply_of_failed hfallback htracked hroot hagain herror]
    rfl
  have hended : ∀ {code}, (hook.layout.course host.transpiler a.before.files a.file).result
      a.file = .ok code → a.hasFailed = false := by
    intro code hok
    rw [hasFailed, hloaded, hook.supply_of_ok hok, Host.outcome, hcode]
    rfl
  generalize hook.layout.course host.transpiler a.before.files a.file = course at *
  cases course with
  | served code => exact settled_of_raised hcounted .cached (hended rfl) rfl rfl
  | unread cause => exact settled_of_raised hcounted .failed (hfailed rfl) rfl rfl
  | failed request compiled error => exact settled_of_raised hcounted .failed (hfailed rfl) rfl rfl
  | built request output written =>
      obtain ⟨writeFailed, mapFailed, -, htally⟩ := Course.tally_built request output written
      rw [htally] at hcounted
      exact settled_of_raised hcounted .compiled (hended rfl) rfl rfl

end Attempt

/-- Every file has one fate. -/
theorem Fate.length_eq (fates : List Fate) :
    fates.length = fates.count .compiled + fates.count .cached + fates.count .failed := by
  induction fates with
  | nil => rfl
  | cons fate rest ih => cases fate <;> simp <;> omega

def fates (tries : List Attempt) : List Fate := tries.map (·.fate)

/-- What the hook has counted after loads that are all settled. -/
theorem counted_leftBy {host : Host} {s : Session} {files : List Path}
    (h : ∀ a ∈ attempts host s files, a.Settled) :
    let tries := attempts host s files
    let counters := (leftBy s tries).counted Runtime.hook
    counters.compiles = (s.counted Runtime.hook).compiles + (fates tries).count .compiled ∧
      counters.hits = (s.counted Runtime.hook).hits + (fates tries).count .cached := by
  induction files generalizing s with
  | nil => exact ⟨rfl, rfl⟩
  | cons file rest ih =>
      unfold attempts at h ⊢
      cases hload : Session.require host 1 s file with
      | none => exact ⟨rfl, rfl⟩
      | some ended =>
          rw [hload] at h
          dsimp only at h ⊢
          generalize ha : (⟨s, file, ended.1, ended.2⟩ : Attempt) = a at h ⊢
          obtain rfl : a.before = s := by rw [← ha]
          obtain ⟨hfirst, hlater⟩ := List.forall_mem_cons.mp h
          obtain ⟨hcompiles, hhits⟩ := ih hlater
          have hcompiled : (a.left.counted Runtime.hook).compiles = _ := hfirst.compiles
          have hhit : (a.left.counted Runtime.hook).hits = _ := hfirst.hits
          rw [leftBy_cons, hcompiles, hhits, hcompiled, hhit]
          simp [fates, List.count_cons, Nat.add_assoc, Nat.add_comm]

/-- Only tracked files are found. -/
theorem isTracked_of_mem_sourcesBelow {settings : Settings} {fs : FileSystem} {depth : Nat}
    {directory p : Path} {found : List Path}
    (h : sourcesBelow settings fs depth directory = .ok found) (hp : p ∈ found) :
    settings.extensions.isTracked p = true := by
  induction depth generalizing directory found with
  | zero =>
      rw [← Except.ok.inj h] at hp
      cases hp
  | succ depth ih =>
      obtain ⟨names, -, h⟩ := bind_eq_ok.mp h
      obtain ⟨parts, hparts, h⟩ := bind_eq_ok.mp h
      rw [← pure_eq_ok.mp h] at hp
      obtain ⟨part, hpart, hmem⟩ := List.mem_flatten.mp hp
      obtain ⟨name, -, hname⟩ := exists_of_mapM_eq_ok hparts hpart
      dsimp only at hname
      split at hname
      · split at hname
        · rw [← Except.ok.inj hname] at hmem
          cases hmem
        · exact ih hname hmem
      · split at hname
        · next htracked =>
            rw [← Except.ok.inj hname] at hmem
            rw [List.mem_singleton.mp hmem]
            exact htracked
        · rw [← Except.ok.inj hname] at hmem
          cases hmem

theorem isTracked_of_mem_discover {settings : Settings} {fs : FileSystem} {directory p : Path}
    {files : List Path} (h : discover settings fs directory = .ok files) (hp : p ∈ files) :
    settings.extensions.isTracked p = true := by
  unfold discover at h
  cases hfound : sourcesBelow settings fs (fs.nodes.length + 1) directory with
  | error cause =>
      rw [hfound] at h
      cases h
  | ok found =>
      rw [hfound] at h
      rw [← Except.ok.inj h] at hp
      exact isTracked_of_mem_sourcesBelow hfound (List.mem_mergeSort.mp hp)

namespace Start

/-- A run that warms files is the loads of all of them. -/
theorem warmAll_eq {l : Layout} {rt : Runtime} (hrt : IsBare l rt) (s : Start)
    (files : List Path) (t : Transcript) (failures : Nat) :
    let tries := attempts rt.host rt.session files
    tries.map (·.file) = files ∧
      s.warmAll files rt t failures =
        ({ rt with session := leftBy rt.session tries },
          ⟨t.out ++ String.join (tries.map (·.shown false)),
            t.err ++ String.join (tries.map (·.complaint s.log))⟩,
          failures + tries.countP (·.hasFailed)) := by
  induction files generalizing rt t failures with
  | nil => exact ⟨rfl, by simp [warmAll, attempts, leftBy]⟩
  | cons file rest ih =>
      obtain ⟨a, -, hfile, hbare, hattempts, hload⟩ := load_eq hrt s t file
      have hwarm : s.warmAll (file :: rest) rt t failures =
          s.warmAll rest { rt with session := a.left }
            ⟨t.out ++ a.shown false, t.err ++ a.complaint s.log⟩
            (failures + a.hasFailed.toNat) := by
        rw [warmAll, hload]
        unfold Attempt.shown Attempt.hasFailed
        cases a.loaded <;> simp [Except.isOk, Except.toBool]
      obtain ⟨hfiles, hrest⟩ := ih hbare
        ⟨t.out ++ a.shown false, t.err ++ a.complaint s.log⟩ (failures + a.hasFailed.toNat)
      rw [hattempts]
      dsimp only at hfiles hrest ⊢
      refine ⟨by rw [List.map_cons, hfile, hfiles], ?_⟩
      rw [hwarm, hrest, leftBy_cons]
      have hcount : a.hasFailed.toNat = if a.hasFailed then 1 else 0 := by
        cases a.hasFailed <;> rfl
      simp [List.countP_cons, String.append_assoc, hcount, Nat.add_assoc, Nat.add_comm]

theorem warmFound_eq {l : Layout} {rt : Runtime} (hrt : IsBare l rt) (s : Start)
    {settings : Settings} {started : Transcript}
    (hruntime : s.runtime settings {} = (.ok rt, started)) {files : List Path} (hne : files ≠ [])
    (directory : Path) :
    let tries := attempts rt.host rt.session files
    let failures := tries.countP (·.hasFailed)
    let final := leftBy rt.session tries
    s.warmFound settings directory files =
      ⟨if failures = 0 then 0 else 1,
        ⟨started.out ++ String.join (tries.map (·.shown false)),
          started.err ++ String.join (tries.map (·.complaint s.log)) ++
            if s.options.quiet then ""
            else resultLine files.length (Runtime.counters final) failures⟩,
        final.files⟩ := by
  have hsome : files.isEmpty = false := List.isEmpty_eq_false_iff.mpr hne
  unfold warmFound
  simp only [hsome, hruntime, (warmAll_eq hrt s files started 0).2, Nat.zero_add]
  cases s.options.quiet <;> simp [Transcript.complain]

end Start

/-- How a run over discovered files is summed up, told by the loads `tries` of them. -/
structure SummedUp (s : Start) (found : List Path) (host : Host) (started : Transcript)
    (tries : List Attempt) (outcome : Outcome) : Prop where
  /-- Every file that was found is loaded, once and in order. -/
  files : tries.map (·.file) = found
  loads : ∀ a ∈ tries, Session.require host 1 a.before a.file = some (a.after, a.loaded)
  /-- Each load counts as one thing, and raises no other number. -/
  settled : ∀ a ∈ tries, a.Settled
  total : found.length = (fates tries).count .compiled + (fates tries).count .cached +
    (fates tries).count .failed
  failed : (fates tries).count .failed = tries.countP (·.hasFailed)
  code : outcome.code = if (fates tries).count .failed = 0 then 0 else 1
  /-- The last line shows the three numbers, unless the run is quiet. -/
  err : found ≠ [] → outcome.transcript.err =
    started.err ++ String.join (tries.map (·.complaint s.log)) ++
      if s.options.quiet then ""
      else Start.resultLine found.length
        { compiles := (fates tries).count .compiled, hits := (fates tries).count .cached }
        ((fates tries).count .failed)

theorem count_failed (tries : List Attempt) :
    (fates tries).count .failed = tries.countP (·.hasFailed) := by
  rw [fates, List.count_eq_countP, List.countP_map]
  apply List.countP_congr
  intro a _
  cases hfailed : a.hasFailed with
  | true => simp [Attempt.fate, hfailed]
  | false =>
      by_cases hhit : (a.before.counted Runtime.hook).hits < (a.after.counted Runtime.hook).hits <;>
        simp [Attempt.fate, hfailed, hhit]

namespace Start

variable {s : Start} {settings : Settings} {rt : Runtime} {program : Path} {files : List Path}

/-- The loads of tracked files by a loader that was just brought up are all settled. -/
theorem BroughtUp.settled (hrt : s.BroughtUp settings program rt)
    (htracked : ∀ p ∈ files, settings.extensions.isTracked p = true)
    (hroot : ∀ p ∈ files, p.normalize.same settings.layout.installRoot = false)
    (hrepeats : ∀ a ∈ attempts rt.host rt.session files,
      a.Repeats rt.host.transpiler settings.layout) :
    ∀ a ∈ attempts rt.host rt.session files,
      Session.require rt.host 1 a.before a.file = some (a.after, a.loaded) ∧ a.Settled := by
  have hfiles := (warmAll_eq hrt.isBare s files {} 0).1
  intro a ha
  have hmem : a.file ∈ files := by
    rw [← hfiles]
    exact List.mem_map_of_mem ha
  -- a load leaves the hook with its slot and loading nothing
  obtain ⟨⟨hheld, hidle⟩, hload⟩ :=
    @mem_attempts rt.host (fun s => s.HeldBy settings ∧ s.Idle) (fun a hload ⟨hheld, hidle⟩ =>
      ⟨(hheld.require hload).of_setup rfl, by
        intro active hactive
        have hloading := Session.loading_require hload
        exact hidle active (hloading ▸ hactive)⟩) _ ⟨hrt.held, hrt.untouched.idle⟩ _ _ ha
  exact ⟨hload, Attempt.settled_of_require hrt.isBare.evaluator hload hheld hidle
    (htracked _ hmem) (hroot _ hmem) (hrepeats a ha)⟩

theorem warmFound_summedUp {started : Transcript}
    (hruntime : s.runtime settings {} = (.ok rt, started)) (directory : Path)
    (htracked : ∀ p ∈ files, settings.extensions.isTracked p = true)
    (hroot : ∀ p ∈ files, p.normalize.same settings.layout.installRoot = false)
    (hrepeats : ∀ a ∈ attempts rt.host rt.session files,
      a.Repeats rt.host.transpiler settings.layout) :
    SummedUp s files rt.host started (attempts rt.host rt.session files)
      (s.warmFound settings directory files) := by
  obtain ⟨_, _, -, hmissing⟩ | ⟨program, rt', started', -, hfound, hrt⟩ :=
    s.runtime_cases settings {}
  · cases hruntime.symm.trans hmissing
  obtain ⟨hok, rfl⟩ := Prod.mk.inj (hruntime.symm.trans hfound)
  obtain rfl : rt = rt' := Except.ok.inj hok
  have hsettled := hrt.settled htracked hroot hrepeats
  have htries := (warmAll_eq hrt.isBare s files started 0).1
  obtain ⟨hcompiles, hhits⟩ := counted_leftBy fun a ha => (hsettled a ha).2
  rw [hrt.untouched.counted, Counters.compiles_zero, Nat.zero_add] at hcompiles
  rw [hrt.untouched.counted, Counters.hits_zero, Nat.zero_add] at hhits
  constructor
  case files => exact htries
  case loads => exact fun a ha => (hsettled a ha).1
  case settled => exact fun a ha => (hsettled a ha).2
  case total =>
    rw [← Fate.length_eq, fates, List.length_map, ← @List.length_map _ _ _ Attempt.file, htries]
  case failed => exact count_failed _
  case code =>
    rw [count_failed]
    cases files with
    | nil => rfl
    | cons file rest => rw [warmFound_eq hrt.isBare s hruntime (List.cons_ne_nil _ _)]
  case err =>
    intro hne
    rw [warmFound_eq hrt.isBare s hruntime hne, count_failed, ← hcompiles, ← hhits]
    rfl

end Start

/-- Once there are settings, files and a loader, a run that warms a tree accounts for every file:
it is compiled, cached or failed, and counted in one of the three numbers. Where a compilation
fails, the transpiler has to repeat its answer; one that is a function of its requests does. -/
theorem run_warm_sums_up {machine : Machine} {fs : FileSystem} {environment : Environment}
    {arguments : List String} {options : Options} {directory : Option String}
    {settings : Settings} {below : Path} {files : List Path} {rt : Runtime} {started : Transcript}
    (hread : read? arguments = some (.run options (.warm directory)))
    (hsettings : (startOf machine fs environment options).settings = .ok settings)
    (hbelow : directory.elim (.ok settings.installRoot)
      ((startOf machine fs environment options).absolute ⟨·⟩) = .ok below)
    (hfiles : discover settings fs below = .ok files)
    (hruntime : (startOf machine fs environment options).runtime settings {} = (.ok rt, started))
    (hroot : ∀ p ∈ files, p.normalize.same settings.layout.installRoot = false)
    (hrepeats : ∀ a ∈ attempts rt.host rt.session files,
      a.Repeats rt.host.transpiler settings.layout) :
    ∃ outcome, run machine fs environment arguments = some outcome ∧
      SummedUp (startOf machine fs environment options) files rt.host started
        (attempts rt.host rt.session files) outcome := by
  refine ⟨(startOf machine fs environment options).runWarm directory, ?_, ?_⟩
  · unfold run
    rw [hread]
    rfl
  · have hdiscovered :
        discover settings (startOf machine fs environment options).fs below = .ok files := hfiles
    unfold Start.runWarm
    simp only [hsettings, hbelow, hdiscovered]
    exact Start.warmFound_summedUp hruntime below
      (fun p hp => isTracked_of_mem_discover hfiles hp) hroot hrepeats

/-! ### A tree with all three fates -/

/-- A source with a fresh artifact, one that cannot be read, one that the transpiler refuses,
and one that it has code for. -/
def mixedTree : FileSystem :=
  ⟨[([], .directory true 0), (["bin"], .directory true 0), (["tmp"], .directory true 0),
    (["bin", "coffee"], .file "".toUTF8 0o755 0), (["a.coffee"], .file "x".toUTF8 0o644 1),
    (["b.coffee"], .file "y".toUTF8 0o200 1), (["c.coffee"], .file "".toUTF8 0o644 1),
    (["d.coffee"], .file "z".toUTF8 0o644 1), ([".roast-cache"], .directory true 0),
    ([".roast-cache", "a.js"], .file "x".toUTF8 0o644 2)], [], 3, 1⟩

def mixedFiles : List Path := [⟨"/a.coffee"⟩, ⟨"/b.coffee"⟩, ⟨"/c.coffee"⟩, ⟨"/d.coffee"⟩]

/-- The environment that leads to the transpiler. -/
def mixedEnvironment : Environment := [("PATH", "/bin")]

/-- The loader that a run brings up in the tree. -/
def mixedRuntime : Runtime where
  settings := .standard ⟨"/"⟩
  host := ⟨.ofProgram copier ⟨⟨"/bin/coffee"⟩, [], mixedEnvironment⟩, fun _ _ => .finish⟩
  session :=
    { ((Runtime.sessionAtStart (.standard ⟨"/"⟩) .plain mixedTree).install Runtime.hook).1 with
      notes := [] }
  chain := Runtime.chainFor (Settings.standard ⟨"/"⟩).layout

theorem discover_mixedTree : discover (.standard ⟨"/"⟩) mixedTree ⟨"/"⟩ = .ok mixedFiles := by
  have hfound : sourcesBelow (.standard ⟨"/"⟩) mixedTree (mixedTree.nodes.length + 1) ⟨"/"⟩ =
      .ok mixedFiles := by decide +kernel
  have hsorted : mixedFiles.Pairwise fun p q => Path.le p q = true := by decide +kernel
  unfold discover
  rw [hfound]
  exact congrArg Except.ok (List.mergeSort_of_pairwise hsorted)

theorem attempts_mixedTree :
    let tries := attempts mixedRuntime.host mixedRuntime.session mixedFiles
    fates tries = [.cached, .failed, .failed, .compiled] ∧
      ∀ a ∈ tries, a.Repeats mixedRuntime.host.transpiler mixedRuntime.settings.layout := by
  decide +kernel

/-- One file is cached, one cannot be read, one is refused twice, and one is compiled. -/
theorem run_warm_mixedTree : ∃ started outcome,
    run copier mixedTree mixedEnvironment ["warm"] = some outcome ∧
    SummedUp (startOf copier mixedTree mixedEnvironment {}) mixedFiles mixedRuntime.host started
      (attempts mixedRuntime.host mixedRuntime.session mixedFiles) outcome ∧ outcome.code = 1 := by
  have hread : read? ["warm"] = some (.run {} (.warm none)) := by decide
  have hsettings : (startOf copier mixedTree mixedEnvironment {}).settings =
      .ok (.standard ⟨"/"⟩) := by decide +kernel
  have hruntime : (startOf copier mixedTree mixedEnvironment {}).runtime (.standard ⟨"/"⟩) {} =
      (.ok mixedRuntime, _) := rfl
  have hroot : ∀ p ∈ mixedFiles,
      p.normalize.same (Settings.standard ⟨"/"⟩).layout.installRoot = false := by
    decide +kernel
  obtain ⟨hfates, hrepeats⟩ := attempts_mixedTree
  obtain ⟨outcome, hrun, h⟩ :=
    run_warm_sums_up hread hsettings rfl discover_mixedTree hruntime hroot hrepeats
  exact ⟨_, outcome, hrun, h, by simp [h.code, hfates]⟩

end CommandLine
end ModuleCache
