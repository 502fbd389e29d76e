import Mathlib.Algebra.Group.Defs
import ModuleCache.Proofs.Loading.Opening

/-!
How a hook comes to the code of a file. It serves the artifact; or the source cannot be read;
or the source is compiled, which fails or leads to an artifact. Which of these it is depends
on the files and the transpiler alone, and all that the hook prints, counts, asks for and
changes can be read off it.
-/

namespace ModuleCache

attribute [ext] Counters

namespace Counters

instance : Zero Counters := ⟨{}⟩

instance : Add Counters where
  add a b := {
    hits := a.hits + b.hits
    compiles := a.compiles + b.compiles
    fallbacks := a.fallbacks + b.fallbacks
    writeFailures := a.writeFailures + b.writeFailures
    mapFailures := a.mapFailures + b.mapFailures }

section
variable (a b : Counters)

@[simp] theorem hits_zero : (0 : Counters).hits = 0 := rfl
@[simp] theorem compiles_zero : (0 : Counters).compiles = 0 := rfl
@[simp] theorem fallbacks_zero : (0 : Counters).fallbacks = 0 := rfl
@[simp] theorem writeFailures_zero : (0 : Counters).writeFailures = 0 := rfl
@[simp] theorem mapFailures_zero : (0 : Counters).mapFailures = 0 := rfl

@[simp] theorem hits_add : (a + b).hits = a.hits + b.hits := rfl
@[simp] theorem compiles_add : (a + b).compiles = a.compiles + b.compiles := rfl
@[simp] theorem fallbacks_add : (a + b).fallbacks = a.fallbacks + b.fallbacks := rfl
@[simp] theorem writeFailures_add : (a + b).writeFailures = a.writeFailures + b.writeFailures := rfl
@[simp] theorem mapFailures_add : (a + b).mapFailures = a.mapFailures + b.mapFailures := rfl

end

instance : AddCommMonoid Counters where
  add_assoc a b c := by ext <;> simp [Nat.add_assoc]
  zero_add a := by ext <;> simp
  add_zero a := by ext <;> simp
  add_comm a b := by ext <;> simp [Nat.add_comm]
  nsmul := nsmulRec

end Counters

theorem Transpiler.fs_compile (t : Transpiler) (fs : FileSystem) (request : Transpiler.Request) :
    (t.compile fs request).fs = (t.run fs request).fs := by
  unfold compile
  dsimp only
  split <;> rfl

theorem Transpiler.Output.code_annotated (answer : Transpiler.Output)
    (request : Transpiler.Request) : (answer.annotated request).1.code = answer.code := by
  unfold annotated
  split <;> rfl

/-- The code of the artifact, if that is fresh and can be read. -/
def Store.serve? (fs : FileSystem) (source artifact : Path) : Option String :=
  if Store.isFresh fs source artifact then (Store.read fs artifact).toOption else none

theorem Store.toOption_read (fs : FileSystem) (artifact : Path) :
    (read fs artifact).toOption = (fs.readText artifact).toOption := by
  unfold read
  cases fs.readText artifact with
  | ok text => rfl
  | error cause => cases cause <;> rfl

theorem Store.serve?_eq_some {fs : FileSystem} {source artifact : Path} {code : String}
    (h : serve? fs source artifact = some code) :
    isFresh fs source artifact = true ∧ fs.readText artifact = .ok code := by
  unfold serve? at h
  rw [toOption_read] at h
  split at h
  · next hfresh =>
      refine ⟨hfresh, ?_⟩
      cases hread : fs.readText artifact with
      | ok text =>
          rw [hread] at h
          rw [Option.some.inj h]
      | error cause =>
          rw [hread] at h
          cases h
  · cases h

theorem Store.serve?_eq_none {fs : FileSystem} {source artifact : Path}
    (h : Store.isFresh fs source artifact = true → ∃ e, Store.read fs artifact = .error e) :
    Store.serve? fs source artifact = none := by
  unfold serve?
  split
  · next hfresh =>
      obtain ⟨e, he⟩ := h hfresh
      rw [he]
      rfl
  · rfl

/-- What the transpiler is asked for when a source is compiled for its artifact. -/
def Layout.request (l : Layout) (p : Path) (source : String) : Transpiler.Request :=
  .ofSource source p (l.place p).cache.baseName

inductive Course where
  /-- The artifact is served. -/
  | served (code : String)
  /-- The source cannot be read. -/
  | unread (cause : IoError)
  /-- The source is compiled in vain. -/
  | failed (request : Transpiler.Request) (compiled : FileSystem) (error : CompileError)
  /-- The source is compiled, and the artifact written if it can be. -/
  | built (request : Transpiler.Request) (output : Transpiler.Output) (written : Store.Written)

/-- The course that a hook takes for a file. -/
def Layout.course (l : Layout) (t : Transpiler) (fs : FileSystem) (p : Path) : Course :=
  match Store.serve? fs p (l.place p).cache with
  | some code => .served code
  | none =>
    match fs.readText p with
    | .error cause => .unread cause
    | .ok source =>
      let request := l.request p source
      let compiled := t.compile fs request
      match compiled.outcome with
      | .error error => .failed request compiled.fs error
      | .ok output =>
        .built request output
          (Store.write compiled.fs (l.place p).cache (l.place p).map output.code output.map)

section
variable {l : Layout} {t : Transpiler} {fs : FileSystem} {p : Path} {source : String}

theorem Layout.course_of_served {code : String}
    (h : Store.serve? fs p (l.place p).cache = some code) : l.course t fs p = .served code := by
  unfold course
  rw [h]

/-- Where there is no artifact to serve, the source is needed. -/
theorem Layout.course_of_unread {cause : IoError}
    (hmissed : Store.serve? fs p (l.place p).cache = none) (hread : fs.readText p = .error cause) :
    l.course t fs p = .unread cause := by
  unfold course
  rw [hmissed, hread]

theorem Layout.course_of_fault {fault : Transpiler.Fault}
    (hmissed : Store.serve? fs p (l.place p).cache = none) (hread : fs.readText p = .ok source)
    (hanswered : (t.run fs (l.request p source)).outcome = .error fault) :
    l.course t fs p =
      .failed (l.request p source) (t.run fs (l.request p source)).fs (fault.toError p) := by
  have hcompiled : (t.compile fs (l.request p source)).outcome = .error (fault.toError p) := by
    unfold Transpiler.compile
    simp only [hanswered]
    rfl
  unfold course
  rw [hmissed, hread]
  dsimp only
  rw [hcompiled, Transpiler.fs_compile]

/-- Where the transpiler answers for the source, the answer is written. -/
theorem Layout.course_of_answered {answer : Transpiler.Output}
    (hmissed : Store.serve? fs p (l.place p).cache = none) (hread : fs.readText p = .ok source)
    (hanswered : (t.run fs (l.request p source)).outcome = .ok answer) :
    l.course t fs p = .built (l.request p source) (answer.annotated (l.request p source)).1
      (Store.write (t.run fs (l.request p source)).fs (l.place p).cache (l.place p).map answer.code
        (answer.annotated (l.request p source)).1.map) := by
  have hcompiled : (t.compile fs (l.request p source)).outcome =
      .ok (answer.annotated (l.request p source)).1 := by
    unfold Transpiler.compile
    simp only [hanswered]
  unfold course
  rw [hmissed, hread]
  dsimp only
  rw [hcompiled, Transpiler.fs_compile]
  dsimp only
  rw [Transpiler.Output.code_annotated]

end

namespace Course

def result (p : Path) : Course → Except LoadError String
  | served code => .ok code
  | unread cause => .error (.read p cause)
  | failed _ _ error => .error (.compile error)
  | built _ output _ => .ok output.code

/-- The files it leaves. -/
def files (fs : FileSystem) : Course → FileSystem
  | failed _ compiled _ => compiled
  | built _ _ written => written.fs
  | _ => fs

/-- What the transpiler is asked for. -/
def requests : Course → List Transpiler.Request
  | failed request _ _ => [request]
  | built request _ _ => [request]
  | _ => []

/-- The progress line that is printed. -/
def printed (style : Progress.Style) (relative : String) : Course → String
  | failed _ _ _ => style.render (Progress.opening relative) ++ style.render Progress.failed
  | built _ _ _ => style.render (Progress.opening relative) ++ style.render Progress.done
  | _ => ""

/-- What the hook counts while it obtains the code. -/
def obtaining : Course → Counters
  | served _ => { hits := 1 }
  | built _ output written =>
    match written.outcome with
    | .error _ => { compiles := 1, writeFailures := 1 }
    | .ok mapWritten =>
      if output.map.isSome && !mapWritten then { compiles := 1, mapFailures := 1 }
      else { compiles := 1 }
  | _ => 0

/-- What the hook counts in all, the fallback included. -/
def tally : Course → Counters
  | unread _ => { fallbacks := 1 }
  | failed _ _ _ => { fallbacks := 1 }
  | course => course.obtaining

end Course

namespace Session

/-- What a hook has counted. -/
def counted (s : Session) (index : Nat) : Counters := (s.hooks[index]?.map (·.counters)).getD 0

@[simp] theorem count_zero (s : Session) (index : Nat) : s.count index (· + 0) = s := by
  have hsame : (fun h : Hook => { h with counters := h.counters + 0 }) = id := by
    funext h
    rw [add_zero]
    rfl
  unfold count modifyHook
  rw [hsame, List.modify_id]

@[simp] theorem count_count (s : Session) (index : Nat) (a b : Counters) :
    (s.count index (· + a)).count index (· + b) = s.count index (· + (a + b)) := by
  unfold count modifyHook
  simp only [List.modify_modify_eq, Function.comp_def, add_assoc]

/-- Serving an artifact, with all that it changes. -/
theorem serve_eq (s : Session) (index : Nat) (p : Path) (place : Placement) :
    ∃ notes, s.serve index p place =
      match Store.serve? s.files p place.cache with
      | some code => ({ s.count index (· + { hits := 1 }) with notes }, some code)
      | none => ({ s with notes }, none) := by
  unfold serve Store.serve?
  split
  · cases Store.read s.files place.cache with
    | ok code => exact ⟨_, rfl⟩
    | error e => exact ⟨_, rfl⟩
  · exact ⟨_, rfl⟩

theorem compile_eq (s : Session) (t : Transpiler) (request : Transpiler.Request) :
    ∃ notes, s.compile t request =
      ({ s with
          files := (t.compile s.files request).fs
          requests := s.requests ++ [request]
          notes },
        (t.compile s.files request).outcome) := ⟨_, rfl⟩

/-- Writing what was compiled, together with the count of the compilation. -/
theorem persist_eq (s : Session) (index : Nat) (place : Placement) (request : Transpiler.Request)
    (output : Transpiler.Output) :
    let written := Store.write s.files place.cache place.map output.code output.map
    ∃ notes, (s.count index (· + { compiles := 1 })).persist index place output =
      { s.count index (· + (Course.built request output written).obtaining) with
        files := written.fs, notes } := by
  intro written
  have hwritten : Store.write (s.count index (· + { compiles := 1 })).files place.cache place.map
      output.code output.map = written := rfl
  unfold persist Course.obtaining
  dsimp only
  rw [hwritten]
  cases written.outcome with
  | error e =>
      have hcounts : ({ compiles := 1, writeFailures := 1 } : Counters) =
          { compiles := 1 } + { writeFailures := 1 } := rfl
      rw [hcounts, ← count_count]
      exact ⟨_, rfl⟩
  | ok mapWritten =>
      dsimp only
      split
      · have hcounts : ({ compiles := 1, mapFailures := 1 } : Counters) =
            { compiles := 1 } + { mapFailures := 1 } := rfl
        rw [hcounts, ← count_count]
        exact ⟨_, rfl⟩
      · exact ⟨_, rfl⟩

/-- The session after a hook took a course for a file with a place below a root. -/
def follow (s : Session) (index : Nat) (style : Progress.Style) (relative : String)
    (course : Course) : Session :=
  { s.count index (· + course.obtaining) with
    files := course.files s.files
    printed := s.printed ++ course.printed style relative
    requests := s.requests ++ course.requests }

/-- Nothing is printed or asked for in a course without a compilation. -/
theorem follow_of_silent {course : Course} (h : course.requests = []) (s : Session) (index : Nat)
    (style : Progress.Style) (relative : String) :
    s.follow index style relative course = s.count index (· + course.obtaining) := by
  unfold follow
  cases course with
  | served code => simp [Course.files, Course.printed, Course.requests, count, modifyHook]
  | unread cause => simp [Course.files, Course.printed, Course.requests, count, modifyHook]
  | failed request compiled error => cases h
  | built request output written => cases h

/-- A hook obtains the code of a file as the course that it takes says. -/
theorem obtain_eq (s : Session) (t : Transpiler) (index : Nat) (hook : Hook) (p : Path) :
    let course := hook.layout.course t s.files p
    ∃ notes, s.obtain t index hook p =
      ({ s.follow index hook.style (hook.layout.place p).relative.text course with notes },
        course.result p) := by
  obtain ⟨served, hserve⟩ := serve_eq s index p (hook.layout.place p)
  unfold obtain Layout.course Layout.request
  dsimp only
  generalize hook.layout.place p = place at hserve ⊢
  rw [hserve]
  cases Store.serve? s.files p place.cache with
  | some code =>
      dsimp only
      rw [follow_of_silent rfl]
      exact ⟨served, rfl⟩
  | none =>
      dsimp only
      unfold build
      dsimp only
      cases s.files.readText p with
      | error cause =>
          dsimp only
          rw [follow_of_silent rfl]
          exact ⟨served, congrArg (fun kept : Session => ({ kept with notes := served }, _))
            (count_zero s index).symm⟩
      | ok source =>
          dsimp only
          generalize Transpiler.Request.ofSource source p place.cache.baseName = request
          generalize hopened : ({ s with notes := served } : Session).print hook.style
            (Progress.opening place.relative.text) = opened
          have hfiles : opened.files = s.files := by
            rw [← hopened]
            rfl
          obtain ⟨compiled, hcompile⟩ := compile_eq opened t request
          rw [hcompile, hfiles]
          cases (t.compile s.files request).outcome with
          | error e =>
              refine ⟨compiled, ?_⟩
              unfold follow
              rw [Course.printed, ← String.append_assoc, ← hopened]
              simp only [Course.obtaining, count_zero]
              rfl
          | ok output =>
              dsimp only
              generalize hbuilt : Session.print _ hook.style Progress.done = built
              obtain ⟨persisted, hpersist⟩ := persist_eq built index place request output
              refine ⟨persisted, Prod.ext (hpersist.trans ?_) rfl⟩
              unfold follow
              rw [Course.printed, ← String.append_assoc, ← hbuilt, ← hopened]
              rfl

end Session

/-- What a plain handler comes to for a file. -/
structure Supply where
  files : FileSystem
  requests : List Transpiler.Request
  result : Except LoadError String

/-- A plain handler serves its own code, or compiles the source. -/
def PlainHandler.supply (handler : PlainHandler) (t : Transpiler) (fs : FileSystem) (p : Path) :
    Supply :=
  match handler with
  | .fixed _ code => ⟨fs, [], .ok code⟩
  | .uncached extensions =>
    match fs.readText p with
    | .error cause => ⟨fs, [], .error (.read p cause)⟩
    | .ok source =>
      let request := .ofSource source p (extensions.toOutput p).baseName
      let compiled := t.compile fs request
      ⟨compiled.fs, [request], (compiled.outcome.mapError .compile).map (·.code)⟩

namespace Session

theorem openPlain_eq (s : Session) (t : Transpiler) (handler : PlainHandler) (p : Path) :
    let supply := handler.supply t s.files p
    ∃ notes, s.openPlain t handler p =
      ({ s with files := supply.files, requests := s.requests ++ supply.requests, notes },
        supply.result) := by
  unfold openPlain PlainHandler.supply
  cases handler with
  | fixed id code => exact ⟨s.notes, by simp⟩
  | uncached extensions =>
      dsimp only
      cases s.files.readText p with
      | error cause => exact ⟨s.notes, by simp⟩
      | ok source =>
          dsimp only
          obtain ⟨compiled, hcompile⟩ := compile_eq s t
            (.ofSource source p (extensions.toOutput p).baseName)
          rw [hcompile]
          refine ⟨compiled, ?_⟩
          cases
            (t.compile s.files (.ofSource source p (extensions.toOutput p).baseName)).outcome <;>
            rfl

end Session

/-- What a hook comes to for a file on a course: the code, or what its fallback comes to,
unless that is a hook again. The requests are those of the fallback. -/
def Hook.supply (hook : Hook) (t : Transpiler) (fs : FileSystem) (p : Path) (course : Course) :
    Supply :=
  match course.result p, hook.fallback with
  | .error _, some (.plain handler) => handler.supply t (course.files fs) p
  | result, _ => ⟨course.files fs, [], result⟩

theorem Hook.supply_of_error {hook : Hook} {handler : PlainHandler} {course : Course} {p : Path}
    {error : LoadError} (h : course.result p = .error error)
    (hfallback : hook.fallback = some (.plain handler)) (t : Transpiler) (fs : FileSystem) :
    hook.supply t fs p course = handler.supply t (course.files fs) p := by
  unfold supply
  rw [h, hfallback]

theorem Hook.supply_of_ok (hook : Hook) {course : Course} {p : Path} {code : String}
    (h : course.result p = .ok code) (t : Transpiler) (fs : FileSystem) :
    hook.supply t fs p course = ⟨course.files fs, [], .ok code⟩ := by
  unfold supply
  rw [h]

/-- A compilation counts as one, with at most one failure to write. -/
theorem Course.tally_built (request : Transpiler.Request) (output : Transpiler.Output)
    (written : Store.Written) :
    ∃ writeFailed mapFailed, writeFailed + mapFailed ≤ 1 ∧
      (Course.built request output written).tally =
        { compiles := 1, writeFailures := writeFailed, mapFailures := mapFailed } := by
  simp only [Course.tally, Course.obtaining]
  cases written.outcome with
  | error e => exact ⟨1, 0, by decide, rfl⟩
  | ok mapWritten =>
      dsimp only
      split
      · exact ⟨0, 1, by decide, rfl⟩
      · exact ⟨0, 0, by decide, rfl⟩

theorem Course.tally_eq (course : Course) (p : Path) :
    course.tally = course.obtaining + match course.result p with
      | .ok _ => 0
      | .error _ => { fallbacks := 1 } := by
  cases course with
  | served code => rfl
  | unread cause => rfl
  | failed request compiled error => rfl
  | built request output written => exact (add_zero _).symm

namespace Session

theorem openEntered_eq (s : Session) (t : Transpiler) (index : Nat) (hook : Hook) (p : Path) :
    let course := hook.layout.course t s.files p
    let supply := hook.supply t s.files p course
    ∃ notes, s.openEntered t index hook p =
      ({ s.count index (· + course.tally) with
          files := supply.files
          printed := s.printed ++
            course.printed hook.style (hook.layout.place p).relative.text
          requests := s.requests ++ course.requests ++ supply.requests
          notes },
        supply.result) := by
  obtain ⟨obtained, hobtain⟩ := obtain_eq s t index hook p
  unfold openEntered Hook.supply
  rw [hobtain]
  dsimp only
  generalize hook.layout.course t s.files p = course
  rw [course.tally_eq p, ← count_count]
  cases course.result p with
  | ok code =>
      refine ⟨obtained, ?_⟩
      simp only [count_zero, List.append_nil]
      rfl
  | error error =>
      unfold openFallback
      cases hook.fallback with
      | none =>
          refine ⟨obtained, ?_⟩
          simp only [List.append_nil]
          rfl
      | some handler =>
          cases handler with
          | plain handler =>
              dsimp only
              obtain ⟨opened, hopened⟩ := openPlain_eq _ t handler p
              exact ⟨opened, hopened⟩
          | hook other =>
              simp only [List.append_nil]
              exact ⟨_, rfl⟩

variable {s : Session} {demand : Demand}

/-- What opening a file does when a hook opens it. -/
theorem opening_of_hook (t : Transpiler) {index : Nat} {hook : Hook} {entered : InProgress}
    (h : s.route demand = .hook index hook entered) :
    let p := demand.file
    let course := hook.layout.course t s.files p
    let supply := hook.supply t s.files p course
    ∃ notes, s.opening t demand =
      ({ s with
          files := supply.files
          hooks := s.hooks.modify index fun h =>
            { h with inProgress := entered, counters := h.counters + course.tally }
          printed := s.printed ++
            course.printed hook.style (hook.layout.place p).relative.text
          requests := s.requests ++ course.requests ++ supply.requests
          notes },
        supply.result) := by
  obtain ⟨notes, hopen⟩ := openEntered_eq
    (s.modifyHook index fun h => { h with inProgress := entered }) t index hook demand.file
  unfold opening
  rw [h]
  dsimp only
  rw [hopen]
  refine ⟨notes, ?_⟩
  simp only [count, modifyHook, List.modify_modify_eq, Function.comp_def]

/-- What opening a file does when a plain handler opens it. -/
theorem opening_of_plain (t : Transpiler) {handler : PlainHandler}
    (h : s.route demand = .plain handler) :
    let supply := handler.supply t s.files demand.file
    ∃ notes, s.opening t demand =
      ({ s with files := supply.files, requests := s.requests ++ supply.requests, notes },
        supply.result) := by
  unfold opening
  rw [h]
  exact openPlain_eq s t handler demand.file

theorem opening_of_refused (t : Transpiler) {error : LoadError}
    (h : s.route demand = .refused error) : s.opening t demand = (s, .error error) := by
  unfold opening
  rw [h]

end Session
end ModuleCache
