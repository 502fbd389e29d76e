import ModuleCache.Proofs.Loading.Counts
import ModuleCache.Proofs.Loading.Installed

/-!
Files that load themselves. A hook refuses a file while a load of it is pending there, and
only then; the refusal shows the pending files of the hook, and nothing is done for it. When
a load is over, no trace of it is left among the files in progress, so no file stays refused.
-/

namespace ModuleCache.Session

/-- The hook that a demand goes to, with its number. -/
def hookFor? (s : Session) (demand : Demand) : Option (Nat × Hook) :=
  let handler? : Option Handler :=
    match demand with
    | .load file => s.handlerFor? file
    | .loadBy handler _ => some handler
    | .execute .. => none
  match handler? with
  | some (.hook index) => (s.hooks[index]?).map (index, ·)
  | _ => none

theorem route_of_hookFor? {s : Session} {demand : Demand} {index : Nat} {hook : Hook}
    (h : s.hookFor? demand = some (index, hook)) :
    s.hooks[index]? = some hook ∧
      s.route demand = .ofHook index hook demand.file := by
  unfold hookFor? at h
  dsimp only at h
  split at h
  · next handler number hhandler =>
      obtain ⟨own, hown, hpair⟩ := Option.map_eq_some_iff.mp h
      obtain ⟨rfl, rfl⟩ := Prod.mk.inj hpair
      refine ⟨hown, ?_⟩
      rw [← routeBy_of_hook hown demand.file]
      cases demand with
      | load file => exact route_of_handlerFor? hhandler
      | loadBy handler file =>
          rw [Option.some.inj hhandler]
          rfl
      | execute code file => cases hhandler
  · cases h

/-- A file that nobody opens is refused whatever the code would do. -/
theorem require_of_refused {s : Session} {demand : Demand} {error : LoadError}
    (h : s.route demand = .refused error) (host : Host) (depth : Nat) :
    require host (depth + 1) s demand = some (s, .error error) := by
  change dispatch host (require host depth) s demand = _
  rw [dispatch_eq, opening, h]
  rfl

/-- A load by a hook comes to a cycle without having changed anything exactly if the hook is
loading the file already. -/
theorem require_eq_cycle_iff {host : Host} {depth : Nat} {s : Session} {demand : Demand}
    {index : Nat} {hook : Hook} (hhook : s.hookFor? demand = some (index, hook))
    {chain : List Path} :
    require host (depth + 1) s demand = some (s, .error (.cycle demand.file chain)) ↔
      hook.inProgress.contains demand.file = true ∧ chain = hook.inProgress.active := by
  obtain ⟨-, hroute⟩ := route_of_hookFor? hhook
  unfold Route.ofHook at hroute
  constructor
  · intro hload
    cases henter : hook.inProgress.enter demand.file with
    | error own =>
        rw [henter] at hroute
        rw [require_of_refused hroute host depth] at hload
        obtain ⟨-, herror⟩ := Prod.mk.inj (Option.some.inj hload)
        rw [← (LoadError.cycle.inj (Except.error.inj herror)).2]
        exact InProgress.enter_eq_error.mp henter
    | ok entered =>
        rw [henter] at hroute
        exact absurd hload (require_ne_self hroute)
  · intro hcontains
    rw [InProgress.enter_eq_error.mpr hcontains] at hroute
    exact require_of_refused hroute host depth

/-- The outcome is the same whatever the files hold, and whatever the transpiler and the code
would do: nothing of that is looked at. -/
def RefusedUnseen (s : Session) (demand : Demand) (error : LoadError) : Prop :=
  ∀ (host : Host) (depth : Nat) (files : FileSystem),
    require host (depth + 1) { s with files } demand = some ({ s with files }, .error error)

/-- Every load leaves the files in progress of all hooks as it found them. Inside a load, a
request that goes to a hook is refused as a cycle exactly if a load of the same file by this
hook is pending; the error shows the files of the hook's pending loads, the outermost first,
and nothing is done or looked at for the request. -/
theorem cycles_refused_and_restored (host : Host) :
    (∀ {depth : Nat} {s s' : Session} {demand : Demand} {loaded : Loaded},
      require host depth s demand = some (s', loaded) →
        s'.loading = s.loading ∧ (s.Idle → s'.Idle)) ∧
    ∀ {start s : Session} {first demand : Demand} {pending : List (Nat × Path)}
      {depth index : Nat} {hook : Hook}, start.Idle →
      Within host start first pending (depth + 1) s demand →
      s.hookFor? demand = some (index, hook) →
        (∀ chain,
          require host (depth + 1) s demand = some (s, .error (.cycle demand.file chain)) ↔
            (∃ q ∈ unfinished index pending, q.same demand.file = true) ∧
              chain = unfinished index pending) ∧
        ((∃ q ∈ unfinished index pending, q.same demand.file = true) →
          s.RefusedUnseen demand (.cycle demand.file (unfinished index pending))) := by
  constructor
  · intro depth s s' demand loaded hload
    have hloading := loading_require hload
    refine ⟨hloading, ?_⟩
    intro hidle
    unfold Idle
    rw [hloading]
    exact hidle
  · intro start s first demand pending depth index hook hstart hwithin hhook
    obtain ⟨hindex, -⟩ := route_of_hookFor? hhook
    have hactive : hook.inProgress.active = unfinished index pending :=
      hwithin.tracks hstart index _ (getElem?_loading hindex)
    have hcontains : hook.inProgress.contains demand.file = true ↔
        ∃ q ∈ unfinished index pending, q.same demand.file = true := by
      rw [InProgress.contains, List.any_eq_true, hactive]
    rw [← hcontains, ← hactive]
    constructor
    · intro chain
      exact require_eq_cycle_iff hhook
    · intro hin host' depth' files
      -- neither the handlers nor the hooks depend on the files
      have hhook' : ({ s with files } : Session).hookFor? demand = some (index, hook) := hhook
      exact (require_eq_cycle_iff hhook').mpr ⟨hin, rfl⟩

/-! ### Two files that load each other -/

/-- A hook over the whole file system, which holds two sources. -/
def twoSources : Session :=
  let files : FileSystem :=
    ⟨[([], .directory true 0), (["a.coffee"], .file "x".toUTF8 0o644 1),
      (["b.coffee"], .file "y".toUTF8 0o644 1)], [], 2, 1⟩
  ((({ files } : Session).addHook (Settings.standard ⟨"/"⟩).layout .silent).install 0).1

/-- The first of the files loads the second, and any other one the first, by another name. -/
def mutualHost : Host where
  transpiler := markingHost.transpiler
  evaluator := fun _ file =>
    if file = ⟨"/a.coffee"⟩ then .load ⟨"/b.coffee"⟩ fun _ => .finish
    else .load ⟨"//a.coffee"⟩ fun _ => .finish

theorem opening_eq_ok {s : Session} {t : Transpiler} {demand : Demand}
    (h : (s.opening t demand).2.toOption.isSome = true) :
    ∃ code, s.opening t demand = ((s.opening t demand).1, .ok code) := by
  rcases hopen : s.opening t demand with ⟨opened, outcome⟩
  rw [hopen] at h
  cases outcome with
  | error error => cases h
  | ok code => exact ⟨code, rfl⟩

def firstOpened : Session :=
  (twoSources.opening mutualHost.transpiler (.load ⟨"/a.coffee"⟩)).1

/-- The second file's request for the first one is refused, and shows both files. -/
theorem cycle_of_two_files : ∃ s,
    Within mutualHost twoSources (.load ⟨"/a.coffee"⟩) [(0, ⟨"/a.coffee"⟩), (0, ⟨"/b.coffee"⟩)] 1 s
      (.load ⟨"//a.coffee"⟩) ∧
    require mutualHost 1 s (.load ⟨"//a.coffee"⟩) =
      some (s, .error (.cycle ⟨"//a.coffee"⟩ [⟨"/a.coffee"⟩, ⟨"/b.coffee"⟩])) := by
  have hidle : twoSources.Idle := by decide +kernel
  have hfirst : (twoSources.opening mutualHost.transpiler (.load ⟨"/a.coffee"⟩)).2.toOption.isSome =
      true := by decide +kernel
  have hsecond :
      (firstOpened.opening mutualHost.transpiler (.load ⟨"/b.coffee"⟩)).2.toOption.isSome = true ∧
      ((firstOpened.opening mutualHost.transpiler (.load ⟨"/b.coffee"⟩)).1.hookFor?
        (.load ⟨"//a.coffee"⟩)).map (·.1) = some 0 := by decide +kernel
  obtain ⟨code, hcode⟩ := opening_eq_ok hfirst
  obtain ⟨code', hcode'⟩ := opening_eq_ok hsecond.1
  have hwithin : Within mutualHost twoSources (.load ⟨"/a.coffee"⟩) [(0, ⟨"/a.coffee"⟩)] 2
      firstOpened (.load ⟨"/b.coffee"⟩) := .inside (.top 3) (.asked hcode (.here _ _ _))
  have hwithin' : Within mutualHost twoSources (.load ⟨"/a.coffee"⟩)
      [(0, ⟨"/a.coffee"⟩), (0, ⟨"/b.coffee"⟩)] 1 _ (.load ⟨"//a.coffee"⟩) :=
    .inside hwithin (.asked hcode' (.here _ _ _))
  obtain ⟨⟨_, hook⟩, hhook, rfl⟩ := Option.map_eq_some_iff.mp hsecond.2
  have hcycle := ((cycles_refused_and_restored mutualHost).2 hidle hwithin' hhook).1
  exact ⟨_, hwithin', (hcycle _).mpr ⟨by decide, rfl⟩⟩

end ModuleCache.Session
