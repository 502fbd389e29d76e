import ModuleCache.Proofs.Loading.Progress

/-!
Loads that are under way. A hook enters a file before anything is done for it and takes it
out again when its load is over; what the load comes to in between, and how deep it is
nested, does not matter. So a load leaves the files in progress of every hook as it found
them, and inside a load they are exactly the files whose loads have begun and not ended.
-/

namespace ModuleCache

namespace InProgress

theorem enter_eq_error {s : InProgress} {p : Path} {chain : List Path} :
    s.enter p = .error chain ↔ s.contains p = true ∧ chain = s.active := by
  unfold enter
  split
  · next h => simp [h, eq_comm]
  · next h => simp [h]

theorem active_of_enter {s s' : InProgress} {p : Path} (h : s.enter p = .ok s') :
    s'.active = s.active ++ [p] := by
  unfold enter at h
  split at h
  · cases h
  · rw [← Except.ok.inj h]

theorem leave_of_enter {s s' : InProgress} {p : Path} (h : s.enter p = .ok s') :
    s'.leave p = s := by
  have hsame : p.same p = true := Path.same_iff.mpr rfl
  unfold leave
  rw [active_of_enter h]
  simp [hsame]

end InProgress

namespace Session

/-- What a route makes of the files in progress while its load is under way. -/
def Route.during (r : Route) (loading : List InProgress) : List InProgress :=
  match r with
  | .hook index _ entered => loading.modify index fun _ => entered
  | _ => loading

theorem loading_opening (s : Session) (t : Transpiler) (demand : Demand) :
    (s.opening t demand).1.loading = (s.route demand).during s.loading := by
  unfold opening
  cases s.route demand with
  | refused error => rfl
  | plain handler => exact loading_of_kept (kept_openPlain s t handler demand.file)
  | hook index hook entered =>
      dsimp only
      rw [loading_of_kept (kept_openEntered _ t index hook demand.file)]
      apply map_modify
      intro h
      rfl

theorem loading_leave (s : Session) (index : Nat) (p : Path) :
    (s.modifyHook index fun h => { h with inProgress := h.inProgress.leave p }).loading =
      s.loading.modify index (·.leave p) := by
  apply map_modify
  intro h
  rfl

/-- Closing a file undoes what its opening did to the files in progress. -/
theorem loading_closing {s s' : Session} {demand : Demand}
    (h : s'.loading = (s.route demand).during s.loading) :
    ((s.route demand).closing demand.file s').loading = s.loading := by
  cases hroute : s.route demand with
  | refused error =>
      rw [hroute] at h
      exact h
  | plain handler =>
      rw [hroute] at h
      exact h
  | hook index hook entered =>
      obtain ⟨hhook, henter⟩ := route_eq_hook hroute
      rw [hroute] at h
      change (s'.modifyHook index _).loading = s.loading
      rw [loading_leave, h, Route.during, List.modify_modify_eq]
      apply List.ext_getElem?
      intro i
      rw [List.getElem?_modify]
      by_cases hi : index = i
      · have hactive : s.loading[i]? = some hook.inProgress := hi ▸ getElem?_loading hhook
        simp [hi, hactive, InProgress.leave_of_enter henter]
      · simp [hi]

/-- Demands of one kind leave the files in progress as they find them. -/
def Restores (require : Require) : Prop :=
  ∀ loading, Keeps (fun _ => True) (fun s => s.loading = loading) require

theorem Restores.execute {host : Host} {require : Require} (h : Restores require)
    {s s' : Session} {code : String} {file : Path} {loaded : Loaded}
    (hrun : Session.execute host require s code file = some (s', loaded)) :
    s'.loading = s.loading :=
  Keeps.execute (h s.loading) (fun {s deed} _ hs => (s.loading_after deed).trans hs)
    (host.evaluator code file).does_any rfl hrun

theorem Restores.asks {require : Require} (h : Restores require) {script : Script}
    {s s' : Session} {demand : Demand} (hasks : Asks require script s s' demand) :
    s'.loading = s.loading :=
  (Keeps.asks (h s.loading) (fun {s deed} _ hs => (s.loading_after deed).trans hs) hasks
    script.does_any rfl).2

/-- A load leaves the files in progress of every hook as they were, whatever became of it. -/
theorem restores_require (host : Host) (depth : Nat) : Restores (require host depth) := by
  induction depth with
  | zero =>
      intro loading s s' demand loaded _ _ hload
      cases hload
  | succ depth ih =>
      intro loading s s' demand loaded _ hs hload
      have hopened := loading_opening s host.transpiler demand
      obtain ⟨ran, rfl, ⟨error, hopen, -⟩ | ⟨opened, code, inner, hinner, hopen, hran⟩ |
        ⟨opened, error, handler, inner, hinner, hopen, -, hran⟩⟩ := require_eq_some hload
      · rw [hopen] at hopened
        exact (loading_closing hopened).trans hs
      · obtain rfl := Nat.succ.inj hinner
        rw [hopen] at hopened
        exact (loading_closing ((ih.execute hran).trans hopened)).trans hs
      · obtain rfl := Nat.succ.inj hinner
        rw [hopen] at hopened
        exact (loading_closing (ih _ trivial hopened hran)).trans hs

theorem loading_require {host : Host} {depth : Nat} {s s' : Session} {demand : Demand}
    {loaded : Loaded} (h : require host depth s demand = some (s', loaded)) :
    s'.loading = s.loading :=
  restores_require host depth s.loading trivial rfl h

/-- While a demand is met, what was in progress still is, and its file where a hook loads it. -/
theorem Inside.loading_eq {host : Host} {depth : Nat} {s s' : Session} {demand inner : Demand}
    (h : Inside host depth s demand s' inner) :
    s'.loading = (s.route demand).during s.loading := by
  have hopened := loading_opening s host.transpiler demand
  cases h with
  | asked hopen hasks =>
      rw [hopen] at hopened
      exact ((restores_require host depth).asks hasks).trans hopened
  | handed hopen _ =>
      rw [hopen] at hopened
      exact hopened

def Idle (s : Session) : Prop := ∀ active ∈ s.loading, active = .empty

instance (s : Session) : Decidable s.Idle :=
  inferInstanceAs (Decidable (∀ active ∈ s.loading, active = .empty))

/-- A load that begins under a route, with the number of its hook, if a hook admits it. -/
def Route.begun (r : Route) (p : Path) : List (Nat × Path) :=
  match r with
  | .hook index _ _ => [(index, p)]
  | _ => []

/-- While the demand `first` that was made in `start` is met, `demand` is made in the session
`s`. The loads by hooks that have begun by then and not ended are `pending`, the outermost
first. -/
inductive Within (host : Host) (start : Session) (first : Demand) :
    List (Nat × Path) → Nat → Session → Demand → Prop
  | top (depth : Nat) : Within host start first [] depth start first
  | inside {pending : List (Nat × Path)} {s s' : Session} {demand inner : Demand} {depth : Nat}
      (h : Within host start first pending (depth + 1) s demand)
      (hinside : Inside host depth s demand s' inner) :
      Within host start first (pending ++ (s.route demand).begun demand.file) depth s' inner

def unfinished (index : Nat) (pending : List (Nat × Path)) : List Path :=
  (pending.filter (·.1 = index)).map (·.2)

/-- The files of pending loads, hook by hook, are those in progress. -/
def Tracks (pending : List (Nat × Path)) (loading : List InProgress) : Prop :=
  ∀ index active, loading[index]? = some active → active.active = unfinished index pending

theorem Tracks.during {pending : List (Nat × Path)} {s : Session} (h : Tracks pending s.loading)
    (demand : Demand) : Tracks (pending ++ (s.route demand).begun demand.file)
      ((s.route demand).during s.loading) := by
  cases hroute : s.route demand with
  | refused error => simpa [Route.begun, Route.during] using h
  | plain handler => simpa [Route.begun, Route.during] using h
  | hook index hook entered =>
      obtain ⟨hhook, henter⟩ := route_eq_hook hroute
      intro other active hactive
      rw [Route.during, List.getElem?_modify] at hactive
      obtain ⟨before, hbefore, hnew⟩ := Option.map_eq_some_iff.mp hactive
      have hunfinished := h other before hbefore
      unfold unfinished at hunfinished ⊢
      rw [Route.begun, List.filter_append, List.map_append, ← hunfinished]
      split at hnew
      · next heq =>
          have hown := getElem?_loading hhook
          rw [heq, hbefore] at hown
          rw [← hnew, InProgress.active_of_enter henter, Option.some.inj hown, heq]
          simp
      · next hne =>
          rw [← hnew]
          simp [hne]

theorem tracks_of_idle {s : Session} (h : s.Idle) : Tracks [] s.loading := by
  intro index active hactive
  rw [h active (List.mem_of_getElem? hactive)]
  rfl

/-- Inside a load the files in progress of each hook are those of its pending loads. -/
theorem Within.tracks {host : Host} {start s : Session} {first demand : Demand}
    {pending : List (Nat × Path)} {depth : Nat} (hstart : start.Idle)
    (h : Within host start first pending depth s demand) : Tracks pending s.loading := by
  induction h with
  | top depth => exact tracks_of_idle hstart
  | @inside pending s s' demand inner depth _ hinside ih =>
      rw [hinside.loading_eq]
      exact ih.during demand

end Session
end ModuleCache
