import ModuleCache.Loading.Require

/-!
A load in three parts. It opens: the handler of the file's extension comes to the code to
run, or to an error, without running anything. Then the code runs and asks for further
loads. Then it closes: a hook takes the file out of those in progress. What holds of a
session before a load and is kept by each part holds inside the load and after it.
-/

namespace ModuleCache

namespace Session

/-- What a load opens to: the code to run, or why there is none. -/
abbrev Opened := Session × Except LoadError String

/-- Opens a file for a plain handler. -/
def openPlain (s : Session) (t : Transpiler) (handler : PlainHandler) (file : Path) : Opened :=
  match handler with
  | .fixed _ code => (s, .ok code)
  | .uncached extensions =>
    match s.files.readText file with
    | .error cause => (s, .error (.read file cause))
    | .ok source =>
      match s.compile t (.ofSource source file (extensions.toOutput file).baseName) with
      | (s, .error e) => (s, .error (.compile e))
      | (s, .ok output) => (s, .ok output.code)

/-- Opens a file for the fallback of a hook, unless that is a hook again. -/
def openFallback (s : Session) (t : Transpiler) (index : Nat) (fallback : Option Handler)
    (file : Path) (error : LoadError) : Opened :=
  let s := s.count index fun c => { c with fallbacks := c.fallbacks + 1 }
  match fallback with
  | none => (s, .error error)
  | some handler =>
    let s := s.note .warn "cached load failed; using fallback handler"
      [("err", .plain error.message), ("fallback", .quoted handler.id)]
    match handler with
    | .plain handler => s.openPlain t handler file
    | .hook _ => (s, .error error)

/-- Opens a file for a hook that has entered it. -/
def openEntered (s : Session) (t : Transpiler) (index : Nat) (hook : Hook) (file : Path) : Opened :=
  match s.obtain t index hook file with
  | (s, .ok code) => (s, .ok code)
  | (s, .error error) => s.openFallback t index hook.fallback file error

/-- Who opens a file. -/
inductive Route where
  /-- Nobody, because of an error. -/
  | refused (error : LoadError)
  | plain (handler : PlainHandler)
  /-- A hook, and its files in progress once the file is among them. -/
  | hook (index : Nat) (hook : Hook) (entered : InProgress)

/-- A hook opens a file unless it is loading it. -/
def Route.ofHook (index : Nat) (hook : Hook) (file : Path) : Route :=
  match hook.inProgress.enter file with
  | .error chain => .refused (.cycle file chain)
  | .ok entered => .hook index hook entered

/-- Who opens a file that is loaded by a handler. -/
def routeBy (s : Session) (handler : Handler) (file : Path) : Route :=
  match handler with
  | .plain handler => .plain handler
  | .hook index =>
    match s.hooks[index]? with
    | none => .refused (noHandler file)
    | some hook => .ofHook index hook file

/-- Who opens what a session is asked for. Code that is given is as good as a handler that
serves it. -/
def route (s : Session) : Demand → Route
  | .load file =>
    match s.handlerFor? file with
    | none => .refused (noHandler file)
    | some handler => s.routeBy handler file
  | .loadBy handler file => s.routeBy handler file
  | .execute code _ => .plain (.fixed "" code)

/-- Opens what a session is asked for. -/
def opening (s : Session) (t : Transpiler) (demand : Demand) : Opened :=
  match s.route demand with
  | .refused error => (s, .error error)
  | .plain handler => s.openPlain t handler demand.file
  | .hook index hook entered =>
    (s.modifyHook index fun h => { h with inProgress := entered }).openEntered t index hook
      demand.file

/-- The fallback, if that is a hook again. -/
def onward? : Option Handler → Option Handler
  | some (.hook index) => some (.hook index)
  | _ => none

theorem onward?_eq_none {fallback : Option Handler}
    (h : ∀ index, fallback ≠ some (.hook index)) : onward? fallback = none := by
  unfold onward?
  split
  · next index => exact absurd rfl (h index)
  · rfl

/-- The hook that a file is handed to when it does not open. -/
def Route.next? : Route → Option Handler
  | .hook _ own _ => onward? own.fallback
  | _ => none

theorem Route.next?_eq_some {r : Route} {handler : Handler} (h : r.next? = some handler) :
    ∃ index, handler = .hook index := by
  unfold Route.next? at h
  split at h
  · unfold onward? at h
    split at h
    · next index _ => exact ⟨index, (Option.some.inj h).symm⟩
    · cases h
  · cases h

/-- Goes on with what a file opened to: runs it, or hands the file on. -/
def runOpened (host : Host) (require : Require) (next : Option Handler) (file : Path) :
    Opened → Option (Session × Loaded)
  | (s, .ok code) => execute host require s code file
  | (s, .error error) =>
    match next with
    | none => some (s, .error error)
    | some handler => require s (.loadBy handler file)

/-- Closes a file. -/
def Route.closing (r : Route) (file : Path) (s : Session) : Session :=
  match r with
  | .hook index _ _ => s.modifyHook index fun h => { h with inProgress := h.inProgress.leave file }
  | _ => s

theorem loadPlain_eq (host : Host) (require : Require) (s : Session) (handler : PlainHandler)
    (file : Path) : loadPlain host require s handler file =
      runOpened host require none file (s.openPlain host.transpiler handler file) := by
  unfold loadPlain openPlain
  cases handler with
  | fixed id code => rfl
  | uncached extensions =>
      cases s.files.readText file with
      | error cause => rfl
      | ok source =>
          simp only
          rcases s.compile host.transpiler
            (.ofSource source file (extensions.toOutput file).baseName) with ⟨compiled, outcome⟩
          cases outcome <;> rfl

section
variable (host : Host) (require : Require) (s : Session) (index : Nat)

theorem fallBack_eq (fallback : Option Handler) (file : Path) (error : LoadError) :
    fallBack host require s index fallback file error =
      runOpened host require (onward? fallback) file
        (s.openFallback host.transpiler index fallback file error) := by
  unfold fallBack openFallback handOn
  cases fallback with
  | none => rfl
  | some handler =>
      cases handler with
      | plain handler => exact loadPlain_eq host require _ handler file
      | hook other => rfl

theorem loadEntered_eq (hook : Hook) (file : Path) :
    loadEntered host require s index hook file =
      runOpened host require (onward? hook.fallback) file
        (s.openEntered host.transpiler index hook file) := by
  unfold loadEntered openEntered
  rcases s.obtain host.transpiler index hook file with ⟨obtained, outcome⟩
  cases outcome with
  | ok code => rfl
  | error error => exact fallBack_eq host require obtained index hook.fallback file error

end

theorem loadBy_eq (host : Host) (require : Require) (s : Session) (handler : Handler)
    (file : Path) : loadBy host require s handler file =
      (runOpened host require (s.routeBy handler file).next? file
        (s.opening host.transpiler (.loadBy handler file))).map
          fun ended => ((s.routeBy handler file).closing file ended.1, ended.2) := by
  unfold loadBy opening route
  cases handler with
  | plain handler =>
      change loadPlain host require s handler file = _
      rw [loadPlain_eq]
      exact Option.map_id'.symm
  | hook index =>
      unfold routeBy
      dsimp only
      cases s.hooks[index]? with
      | none => rfl
      | some hook =>
          dsimp only
          unfold loadHook Route.ofHook
          cases hook.inProgress.enter file with
          | error chain => rfl
          | ok entered =>
              simp only [loadEntered_eq]
              exact Option.map_eq_bind.symm

/-- Meeting a demand is its opening, the run of what it opened to, and its closing. -/
theorem dispatch_eq (host : Host) (require : Require) (s : Session) (demand : Demand) :
    dispatch host require s demand =
      (runOpened host require (s.route demand).next? demand.file
        (s.opening host.transpiler demand)).map
          fun ended => ((s.route demand).closing demand.file ended.1, ended.2) := by
  cases demand with
  | loadBy handler file => exact loadBy_eq host require s handler file
  | load file =>
      unfold dispatch opening route
      dsimp only
      cases s.handlerFor? file with
      | none => rfl
      | some handler => exact loadBy_eq host require s handler file
  | execute code file =>
      change execute host require s code file = (execute host require s code file).map id
      rw [Option.map_id]
      rfl

/-! ### What code does itself -/

/-- The session after something that code does itself. -/
def after (s : Session) : Deed → Session
  | .record text => { s with records := s.records ++ [text] }
  | .consult => s
  | .alter change => { s with files := change s.files }
  | .assign claims extension handler => (s.assign claims extension handler).1
  | .ask _ => s

/-- Code asks for something, or it does what it does itself. -/
theorem act_cases {require : Require} {s s' : Session} {deed : Deed} {reply : deed.Reply}
    (h : s.act require deed = some (s', reply)) :
    (∃ demand loaded, deed = .ask demand ∧ require s demand = some (s', loaded)) ∨
      ((∀ demand, deed ≠ .ask demand) ∧ s' = s.after deed) := by
  cases deed with
  | ask demand => exact .inl ⟨demand, reply, rfl, h⟩
  | record text => exact .inr ⟨fun _ => nofun, (Prod.mk.inj (Option.some.inj h)).1.symm⟩
  | consult => exact .inr ⟨fun _ => nofun, (Prod.mk.inj (Option.some.inj h)).1.symm⟩
  | alter change => exact .inr ⟨fun _ => nofun, (Prod.mk.inj (Option.some.inj h)).1.symm⟩
  | assign claims extension handler =>
      exact .inr ⟨fun _ => nofun, (congrArg Prod.fst (Option.some.inj h)).symm⟩

/-- What became of a demand that was met: its file did not open, or the code that it opened to
was run, or it was handed to another hook. In any case the file is closed. -/
theorem require_eq_some {host : Host} {depth : Nat} {s s' : Session} {demand : Demand}
    {loaded : Loaded} (h : require host depth s demand = some (s', loaded)) :
    ∃ ran, s' = (s.route demand).closing demand.file ran ∧
      ((∃ error, s.opening host.transpiler demand = (ran, .error error) ∧
        loaded = .error error ∧ (s.route demand).next? = none) ∨
      (∃ opened code inner, depth = inner + 1 ∧
        s.opening host.transpiler demand = (opened, .ok code) ∧
        execute host (require host inner) opened code demand.file = some (ran, loaded)) ∨
      ∃ opened error handler inner, depth = inner + 1 ∧
        s.opening host.transpiler demand = (opened, .error error) ∧
        (s.route demand).next? = some handler ∧
        require host inner opened (.loadBy handler demand.file) = some (ran, loaded)) := by
  cases depth with
  | zero => cases h
  | succ inner =>
      change dispatch host (require host inner) s demand = _ at h
      rw [dispatch_eq] at h
      obtain ⟨⟨ran, outcome⟩, hran, hclosed⟩ := Option.map_eq_some_iff.mp h
      obtain ⟨hs', rfl⟩ := Prod.mk.inj hclosed
      refine ⟨ran, hs'.symm, ?_⟩
      rcases hopen : s.opening host.transpiler demand with ⟨opened, result⟩
      rw [hopen] at hran
      cases result with
      | ok code => exact .inr (.inl ⟨opened, code, inner, rfl, rfl, hran⟩)
      | error error =>
          cases hnext : (s.route demand).next? with
          | none =>
              rw [hnext] at hran
              obtain ⟨rfl, hloaded⟩ := Prod.mk.inj (Option.some.inj hran)
              exact .inl ⟨error, rfl, hloaded.symm, rfl⟩
          | some handler =>
              rw [hnext] at hran
              exact .inr (.inr ⟨opened, error, handler, inner, rfl, rfl, rfl, hran⟩)

end Session
end ModuleCache
