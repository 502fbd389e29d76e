import ModuleCache.CommandLine
import ModuleCache.Proofs.Loading.Cycles
import ModuleCache.Proofs.Loading.Startup

/-!
Loads of the program. A run has its loader load one file after the other; each load starts
from the session that the one before it left, and what a load printed and noted goes to the
transcript before the next one starts. So all that a run shows can be read off its loads.
-/

namespace ModuleCache

/-- Nothing was loaded yet, and nothing waits to be shown. -/
structure Session.Untouched (s : Session) : Prop where
  idle : s.Idle
  counted : s.counted Runtime.hook = 0
  printed : s.printed = ""
  notes : s.notes = []

/-- What a hook is loading and has counted. -/
def Hook.activity (h : Hook) : InProgress × Counters := (h.inProgress, h.counters)

theorem Session.install_keeps (s : Session) (index : Nat) :
    (s.install index).1.printed = s.printed ∧
      (s.install index).1.hooks.map Hook.activity = s.hooks.map Hook.activity := by
  unfold install
  split
  · exact ⟨rfl, rfl⟩
  · split
    · exact ⟨rfl, rfl⟩
    · split
      · exact ⟨rfl, rfl⟩
      · dsimp only
        generalize s.registry.handler? _ = fallback
        have hsame : ∀ h : Hook, { h with fallback, isRegistered := true }.activity = h.activity :=
          fun _ => rfl
        cases fallback <;> exact ⟨rfl, map_modify_of_eq hsame s.hooks index⟩

theorem Session.untouched_of_activity {s : Session} (hprinted : s.printed = "")
    (hnotes : s.notes = []) (hactivity : s.hooks.map Hook.activity = [(.empty, 0)]) :
    s.Untouched := by
  obtain ⟨own, rest, hhooks, hown, hrest⟩ := List.map_eq_cons_iff.mp hactivity
  obtain ⟨hidle, hcounted⟩ := Prod.mk.inj hown
  rw [List.map_eq_nil_iff.mp hrest] at hhooks
  refine ⟨?_, ?_, hprinted, hnotes⟩
  · intro active hactive
    rw [loading, hhooks] at hactive
    exact (List.mem_singleton.mp hactive).trans hidle
  · unfold counted
    rw [hhooks]
    exact hcounted

/-- A loader that was just brought up has loaded nothing. -/
theorem Runtime.untouched_of_init {settings : Settings} {located : Located} {evaluator : Evaluator}
    {style : Progress.Style} {files : FileSystem} {published published' : Trace.Published}
    {rt : Runtime} {notes : Journal}
    (h : Runtime.init settings located evaluator style files published =
      (.ok rt, published', notes)) : rt.session.Untouched := by
  obtain ⟨hprinted, hactivity⟩ := (sessionAtStart settings style files).install_keeps hook
  unfold Runtime.init at h
  split at h
  · cases h
  · dsimp only at h
    split at h
    · cases h
    · next session hsession =>
        rw [hsession] at hprinted hactivity
        obtain ⟨hok, -⟩ := Prod.mk.inj h
        rw [← Except.ok.inj hok]
        apply Session.untouched_of_activity
        · dsimp only
          split <;> exact hprinted
        · rfl
        · dsimp only
          split <;> exact hactivity

namespace CommandLine

/-- One load of a run: the session before it and after it, and what came of it. -/
structure Attempt where
  before : Session
  file : Path
  after : Session
  loaded : Loaded

namespace Attempt

/-- The session it leaves, once what it printed and noted is taken over. -/
def left (a : Attempt) : Session := { a.after with printed := "", notes := [] }

def hasFailed (a : Attempt) : Bool := !a.loaded.isOk

/-- What is printed for it: the progress, and the code of the module if that is asked for. -/
def shown (emits : Bool) (a : Attempt) : String :=
  a.after.printed ++
    match a.loaded with
    | .ok module => if emits then module.code ++ "\n" else ""
    | .error _ => ""

/-- What is complained about in it: the notes that are shown, and the error if there is one. -/
def complaint (log : Log) (a : Attempt) : String :=
  log.lines a.after.notes ++
    match a.loaded with
    | .ok _ => ""
    | .error e => errorLine e.message

end Attempt

/-- The loads of files one after the other, as far as each comes to an end. -/
def attempts (host : Host) : Session → List Path → List Attempt
  | _, [] => []
  | s, file :: rest =>
    match Session.require host 1 s file with
    | none => []
    | some (after, loaded) =>
      let a : Attempt := ⟨s, file, after, loaded⟩
      a :: attempts host a.left rest

/-- The session that loads leave. -/
def leftBy (s : Session) (tries : List Attempt) : Session :=
  (tries.getLast?.map (·.left)).getD s

theorem leftBy_cons (s : Session) (a : Attempt) (rest : List Attempt) :
    leftBy s (a :: rest) = leftBy a.left rest := by
  unfold leftBy
  cases rest with
  | nil => rfl
  | cons b rest =>
      rw [List.getLast?_cons_cons, List.getLast?_cons]
      rfl

/-- Each of the loads is one by the loader, and what each of them hands on to the next one
holds before all of them. -/
theorem mem_attempts {host : Host} {Inv : Session → Prop}
    (hload : ∀ a : Attempt, Session.require host 1 a.before a.file = some (a.after, a.loaded) →
      Inv a.before → Inv a.left)
    {s : Session} (hs : Inv s) {files : List Path} {a : Attempt} (h : a ∈ attempts host s files) :
    Inv a.before ∧ Session.require host 1 a.before a.file = some (a.after, a.loaded) := by
  induction files generalizing s with
  | nil => cases h
  | cons file rest ih =>
      unfold attempts at h
      cases hfirst : Session.require host 1 s file with
      | none =>
          rw [hfirst] at h
          cases h
      | some ended =>
          rw [hfirst] at h
          rcases List.mem_cons.mp h with rfl | hlater
          · exact ⟨hs, hfirst⟩
          · exact ih (hload ⟨s, file, ended.1, ended.2⟩ hfirst hs) hlater

/-- The code of files does nothing, and there is one hook. -/
structure IsBare (l : Layout) (rt : Runtime) : Prop where
  evaluator : rt.host.evaluator = fun _ _ => .finish
  hook : OneHook l rt.session

theorem IsBare.recordsOnly {l : Layout} {rt : Runtime} (h : IsBare l rt) (code : String)
    (file : Path) : (rt.host.evaluator code file).Does Deed.RecordsOnly := by
  rw [h.evaluator]
  trivial

theorem IsBare.left {l : Layout} {rt : Runtime} (h : IsBare l rt) {a : Attempt} {depth : Nat}
    (hload : Session.require rt.host depth rt.session a.file = some (a.after, a.loaded)) :
    IsBare l { rt with session := a.left } := by
  have hkept := Session.setups_require hload
  exact ⟨h.evaluator, h.hook.of_setups hkept⟩

namespace Start

/-- What the loader of a run was brought up with. -/
structure BroughtUp (s : Start) (settings : Settings) (program : Path) (rt : Runtime) : Prop where
  host : rt.host =
    ⟨.ofProgram s.machine ⟨program, settings.transpiler.args, s.environment⟩,
      fun _ _ => .finish⟩
  files : rt.session.files = s.fs
  hook : OneHook settings.layout rt.session
  held : rt.session.HeldBy settings
  untouched : rt.session.Untouched

theorem BroughtUp.isBare {s : Start} {settings : Settings} {program : Path} {rt : Runtime}
    (h : s.BroughtUp settings program rt) : IsBare settings.layout rt :=
  ⟨by rw [h.host], h.hook⟩

/-- A loader is brought up exactly if the program of the transpiler is found. -/
theorem runtime_cases (s : Start) (settings : Settings) (t : Transcript) :
    let found := Transpiler.locate s.fs settings.transpiler.program (s.environment.lookup "PATH")
    (∃ cause started, found = .error cause ∧
      s.runtime settings t = (.error (.transpiler cause), started)) ∨
    ∃ program rt started, found = .ok program ∧ s.runtime settings t = (.ok rt, started) ∧
      s.BroughtUp settings program rt := by
  intro found
  unfold runtime Transpiler.ofCommand
  cases hfound : found with
  | error cause =>
      simp only [found] at hfound
      rw [hfound]
      exact .inl ⟨cause, _, rfl, rfl⟩
  | ok program =>
      simp only [found] at hfound
      rw [hfound]
      dsimp only
      generalize (if s.options.quiet = true then .silent else settings.progressStyle :
        Progress.Style) = style
      obtain ⟨session, notes, hheld, hinit⟩ := Runtime.init_of_found settings
        (.ofProgram s.machine ⟨program, settings.transpiler.args, s.environment⟩) _
        (fun _ _ => .finish) style s.fs none
      obtain ⟨hinstalled, hfiles, -⟩ := Runtime.init_eq_ok hinit
      have huntouched := Runtime.untouched_of_init hinit
      rw [hinit]
      exact .inr ⟨program, _, _, rfl, rfl, rfl, hfiles, hinstalled.hook, hheld, huntouched⟩

section
variable {l : Layout} {rt : Runtime}

/-- Loading a file is one load by the loader, with what it shows taken over. -/
theorem load_eq (hrt : IsBare l rt) (s : Start) (t : Transcript) (file : Path) :
    ∃ a : Attempt, a.before = rt.session ∧ a.file = file ∧
      IsBare l { rt with session := a.left } ∧
      (∀ rest, attempts rt.host rt.session (file :: rest) = a :: attempts rt.host a.left rest) ∧
      s.load rt t file = ({ rt with session := a.left },
        ⟨t.out ++ a.after.printed, t.err ++ a.complaint s.log⟩, a.loaded) := by
  obtain ⟨records, hload⟩ :=
    Session.require_of_recordsOnly hrt.recordsOnly 0 (hrt.hook.next?_eq_none file)
  generalize (rt.session.route file).closing (Demand.load file).file _ = after at hload
  generalize rt.host.outcome [] (Demand.load file).file _ = loaded at hload
  refine ⟨⟨rt.session, file, after, loaded⟩, rfl, rfl, hrt.left hload, ?_, ?_⟩
  · intro rest
    rw [attempts, hload]
  · unfold load Attempt.complaint
    rw [hload]
    cases loaded with
    | ok module => simp [Transcript.print, Transcript.complain, Attempt.left]
    | error e => simp [Transcript.print, Transcript.complain, Attempt.left, String.append_assoc]

/-- The files in front of the first empty argument, as seen from the root. -/
def reached (s : Start) (files : List String) : List Path :=
  (files.takeWhile (· ≠ "")).map fun file => Path.absolute ⟨file⟩ s.directory

/-- The error that an empty argument ends a run with. -/
def emptyPath : String := errorLine "cannot make an empty path absolute"

/-- What a run over files complains about at its end. -/
def lastWords (s : Start) (files : List String) (final : Session) : String :=
  if "" ∈ files then emptyPath else s.log.lines [finishNote (Runtime.counters final)]

/-- An argument that is not empty is loaded once, and the run goes on whatever came of it. -/
theorem loadAll_cons (hrt : IsBare l rt) (s : Start) (emits : Bool) {file : String}
    (hfile : file ≠ "") (rest : List String) (t : Transcript) (failures : Nat) :
    let path := Path.absolute ⟨file⟩ s.directory
    ∃ a : Attempt, a.file = path ∧ IsBare l { rt with session := a.left } ∧
      (∀ later, attempts rt.host rt.session (path :: later) = a :: attempts rt.host a.left later) ∧
      s.loadAll emits (file :: rest) rt t failures =
        s.loadAll emits rest { rt with session := a.left }
          ⟨t.out ++ a.shown emits, t.err ++ a.complaint s.log⟩ (failures + a.hasFailed.toNat) := by
  intro path
  obtain ⟨a, -, hpath, hbare, hattempts, hload⟩ := load_eq hrt s t path
  have habsolute : s.absolute ⟨file⟩ = .ok path := if_neg hfile
  refine ⟨a, hpath, hbare, hattempts, ?_⟩
  rw [loadAll, habsolute]
  dsimp only
  rw [hload]
  unfold Attempt.shown Attempt.hasFailed
  cases a.loaded with
  | ok module =>
      dsimp only
      cases emits with
      | true => simp [Transcript.print, String.append_assoc, Except.isOk, Except.toBool]
      | false => simp [Except.isOk, Except.toBool]
  | error e => simp [Except.isOk, Except.toBool]

/-- A run over files is the loads of those in front of the first empty argument. -/
theorem loadAll_eq (hrt : IsBare l rt) (s : Start) (emits : Bool) (files : List String)
    (t : Transcript) (failures : Nat) :
    let tries := attempts rt.host rt.session (s.reached files)
    let final := leftBy rt.session tries
    tries.map (·.file) = s.reached files ∧
      s.loadAll emits files rt t failures =
        ⟨if "" ∉ files ∧ failures = 0 ∧ ∀ a ∈ tries, a.hasFailed = false then 0 else 1,
          ⟨t.out ++ String.join (tries.map (·.shown emits)),
            t.err ++ String.join (tries.map (·.complaint s.log)) ++ s.lastWords files final⟩,
          final.files⟩ := by
  induction files generalizing rt t failures with
  | nil =>
      refine ⟨rfl, ?_⟩
      simp [loadAll, reached, attempts, leftBy, lastWords, Transcript.complain]
  | cons file rest ih =>
      by_cases hempty : file = ""
      · refine ⟨by simp [reached, hempty, attempts], ?_⟩
        simp [loadAll, reached, attempts, leftBy, lastWords, absolute, hempty, fail,
          Transcript.complain, emptyPath]
      · obtain ⟨a, hfile, hbare, hattempts, hnext⟩ :=
          loadAll_cons hrt s emits hempty rest t failures
        have hreached : s.reached (file :: rest) =
            Path.absolute ⟨file⟩ s.directory :: s.reached rest := by
          simp [reached, hempty]
        have hlast : ∀ final, s.lastWords (file :: rest) final = s.lastWords rest final := by
          intro final
          simp [lastWords, Ne.symm hempty]
        obtain ⟨hfiles, hrest⟩ := ih hbare
          ⟨t.out ++ a.shown emits, t.err ++ a.complaint s.log⟩ (failures + a.hasFailed.toNat)
        rw [hreached, hattempts]
        dsimp only at hfiles hrest ⊢
        refine ⟨by rw [List.map_cons, hfile, hfiles], ?_⟩
        rw [hnext, hrest, leftBy_cons, hlast]
        simp [Ne.symm hempty, String.append_assoc, and_assoc]

end

end Start

/-- What comes of a run that loads files, told by its loads `tries`. -/
structure Attempted (s : Start) (operands : List String) (emits : Bool) (rt : Runtime)
    (started : Transcript) (tries : List Attempt) (outcome : Outcome) : Prop where
  /-- The arguments in front of the first empty one are loaded, each once and in order. -/
  files : tries.map (·.file) = s.reached operands
  loads : ∀ a ∈ tries, Session.require rt.host 1 a.before a.file = some (a.after, a.loaded)
  /-- What a load has printed and noted is its own. -/
  silent : ∀ a ∈ tries, a.before.printed = "" ∧ a.before.notes = []
  /-- Only an empty argument keeps others from being loaded. -/
  all : tries.length = operands.length ↔ "" ∉ operands
  code : outcome.code = if "" ∉ operands ∧ ∀ a ∈ tries, a.hasFailed = false then 0 else 1
  out : outcome.transcript.out = started.out ++ String.join (tries.map (·.shown emits))
  err : outcome.transcript.err = started.err ++ String.join (tries.map (·.complaint s.log)) ++
    s.lastWords operands (leftBy rt.session tries)
  fs : outcome.fs = (leftBy rt.session tries).files

theorem Start.length_reached (s : Start) (files : List String) :
    (s.reached files).length = files.length ↔ "" ∉ files := by
  rw [reached, List.length_map]
  induction files with
  | nil => simp
  | cons file rest ih =>
      by_cases hempty : file = ""
      · simp [hempty]
      · simpa [hempty, Ne.symm hempty] using ih

theorem Start.runLoad_attempted {s : Start} {settings : Settings} {program : Path}
    (hsettings : s.settings = .ok settings)
    (hfound : Transpiler.locate s.fs settings.transpiler.program (s.environment.lookup "PATH") =
      .ok program) (files : List String) (emits : Bool) :
    ∃ rt started, s.runtime settings {} = (.ok rt, started) ∧ s.BroughtUp settings program rt ∧
      Attempted s files emits rt started (attempts rt.host rt.session (s.reached files))
        (s.runLoad files emits) := by
  obtain ⟨cause, _, hmissing, -⟩ | ⟨found, rt, started, hlocated, hruntime, hrt⟩ :=
    s.runtime_cases settings {}
  · cases hfound.symm.trans hmissing
  obtain rfl : program = found := Except.ok.inj (hfound.symm.trans hlocated)
  obtain ⟨htries, hrun⟩ := loadAll_eq hrt.isBare s emits files started 0
  have hmem : ∀ a ∈ attempts rt.host rt.session (s.reached files),
      (a.before.printed = "" ∧ a.before.notes = []) ∧
        Session.require rt.host 1 a.before a.file = some (a.after, a.loaded) := by
    intro a ha
    refine @mem_attempts _ (fun s => s.printed = "" ∧ s.notes = []) ?_ _ ?_ _ _ ha
    · exact fun _ _ _ => ⟨rfl, rfl⟩
    · exact ⟨hrt.untouched.printed, hrt.untouched.notes⟩
  have hperform : s.runLoad files emits = s.loadAll emits files rt started 0 := by
    rw [runLoad, hsettings]
    dsimp only
    rw [hruntime]
  refine ⟨rt, started, hruntime, hrt, ?_⟩
  rw [hperform, hrun]
  constructor
  case files => exact htries
  case loads => exact fun a ha => (hmem a ha).2
  case silent => exact fun a ha => (hmem a ha).1
  case all => rw [← s.length_reached files, ← htries, List.length_map, htries]
  case code => simp
  case out => rfl
  case err => rfl
  case fs => rfl

/-- Where a run starts. -/
def startOf (machine : Machine) (fs : FileSystem) (environment : Environment)
    (options : Options) : Start :=
  ⟨machine, fs, environment, options, logFor environment options⟩

/-- With settings and a transpiler, a run over files loads one after the other, whatever came
of those before, and shows for each what it printed and why it failed. It ends well exactly if
no load fails and no argument is empty: an empty one ends the run with an error. -/
theorem run_load_attempts {machine : Machine} {fs : FileSystem} {environment : Environment}
    {arguments : List String} {options : Options} {files : List String} {emits : Bool}
    {settings : Settings} {program : Path}
    (hread : read? arguments = some (.run options (.load files emits)))
    (hsettings : (startOf machine fs environment options).settings = .ok settings)
    (hfound : Transpiler.locate fs settings.transpiler.program (environment.lookup "PATH") =
      .ok program) :
    let s := startOf machine fs environment options
    ∃ rt started outcome, run machine fs environment arguments = some outcome ∧
      s.runtime settings {} = (.ok rt, started) ∧ s.BroughtUp settings program rt ∧
      Attempted s files emits rt started (attempts rt.host rt.session (s.reached files))
        outcome := by
  intro s
  obtain ⟨rt, started, hruntime, hrt, hattempted⟩ :=
    s.runLoad_attempted hsettings hfound files emits
  refine ⟨rt, started, s.runLoad files emits, ?_, hruntime, hrt, hattempted⟩
  unfold run
  rw [hread]
  rfl

/-- What a program does that copies its input to the output directory; an empty input it
refuses. -/
def copied (fs : FileSystem) (arguments : List String) : Except IoError FileSystem := do
  let input : Path := ⟨arguments.getLastD ""⟩
  let out : Path := ⟨arguments.dropLast.getLastD ""⟩
  let source ← fs.readText input
  if source = "" then throw .notText
  fs.writeText (out.join ⟨input.stem?.getD "" ++ ".js"⟩) source

/-- The machine whose programs all copy their input. -/
def copier : Machine where
  start fs _ arguments _ :=
    match copied fs arguments with
    | .ok fs => .ok ⟨fs, [], [], .exited 0⟩
    | .error _ => .ok ⟨fs, [], [], .exited 1⟩
  draw _ drawn := toString drawn

/-- A source with a fresh artifact, and a program for the transpiler. -/
def smallTree : FileSystem :=
  ⟨[([], .directory true 0), (["bin"], .directory true 0),
    (["bin", "coffee"], .file "".toUTF8 0o755 0), (["a.coffee"], .file "x".toUTF8 0o644 1),
    ([".roast-cache"], .directory true 0),
    ([".roast-cache", "a.js"], .file "y".toUTF8 0o644 2)], [], 3, 1⟩

/-- The first file is served, the second is missing, and the empty argument keeps the last one
from being loaded. -/
theorem run_load_empty_argument : ∃ rt started tries outcome,
    run copier smallTree [("PATH", "/bin")]
      ["load", "--emit", "a.coffee", "c.coffee", "", "b.coffee"] = some outcome ∧
    Attempted (startOf copier smallTree [("PATH", "/bin")] {})
      ["a.coffee", "c.coffee", "", "b.coffee"] true rt started tries outcome ∧
    tries.map (·.file) = [⟨"/a.coffee"⟩, ⟨"/c.coffee"⟩] ∧ outcome.code = 1 := by
  have hread : read? ["load", "--emit", "a.coffee", "c.coffee", "", "b.coffee"] =
      some (.run {} (.load ["a.coffee", "c.coffee", "", "b.coffee"] true)) := by decide
  have hsettings : (startOf copier smallTree [("PATH", "/bin")] {}).settings =
      .ok (.standard ⟨"/"⟩) := rfl
  have hfound : Transpiler.locate smallTree "coffee" ([("PATH", "/bin")].lookup "PATH") =
      .ok ⟨"/bin/coffee"⟩ := by decide +kernel
  obtain ⟨rt, started, outcome, hrun, -, -, h⟩ := run_load_attempts hread hsettings hfound
  exact ⟨rt, started, _, outcome, hrun, h, h.files.trans (by decide), by simp [h.code]⟩

end CommandLine
end ModuleCache
