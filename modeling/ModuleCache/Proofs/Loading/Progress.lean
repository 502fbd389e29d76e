import ModuleCache.Proofs.Loading.Setup
import ModuleCache.Proofs.Path.Components

/-!
Files in progress. While a file is in progress no hook opens it again, and it stays in
progress while other files are opened and closed.
-/

namespace ModuleCache

namespace InProgress

theorem contains_iff {s : InProgress} {p : Path} :
    s.contains p = true ↔ ∃ q ∈ s.active, q.components = p.components := by
  simp [contains, Path.same_iff]

/-- A file is entered only where it is not in progress; then it is, and so is what was. -/
theorem enter_eq_ok {s s' : InProgress} {p : Path} (h : s.enter p = .ok s') :
    s.contains p = false ∧ s'.contains p = true ∧
      ∀ q, s.contains q = true → s'.contains q = true := by
  unfold enter at h
  split at h
  · cases h
  · next hfree =>
      rw [← Except.ok.inj h]
      refine ⟨by simpa using hfree, ?_, ?_⟩
      · exact contains_iff.mpr ⟨p, by simp, rfl⟩
      · intro q hq
        obtain ⟨r, hr, hsame⟩ := contains_iff.mp hq
        exact contains_iff.mpr ⟨r, by simp [hr], hsame⟩

/-- Leaving a file keeps every other file in progress. -/
theorem contains_leave {s : InProgress} {p q : Path} (hne : p.same q = false)
    (h : s.contains p = true) : (s.leave q).contains p = true := by
  obtain ⟨r, hr, hsame⟩ := contains_iff.mp h
  have hother : ¬ r.same q = true := by
    rw [Path.same_iff, hsame, ← Path.same_iff, hne]
    simp
  refine contains_iff.mpr ⟨r, List.mem_reverse.mpr ?_, hsame⟩
  refine (List.mem_eraseP_of_neg ?_).mpr (List.mem_reverse.mpr hr)
  exact hother

theorem same_eq_false_of_contains {s : InProgress} {p q : Path} (hp : s.contains p = true)
    (hq : s.contains q = false) : p.same q = false := by
  apply Bool.eq_false_iff.mpr
  intro hsame
  obtain ⟨r, hr, heq⟩ := contains_iff.mp hp
  have hcontains : s.contains q = true :=
    contains_iff.mpr ⟨r, hr, heq.trans (Path.same_iff.mp hsame)⟩
  rw [hq] at hcontains
  cases hcontains

end InProgress

namespace Session

/-- Every hook of the session is loading the file. -/
def Loads (s : Session) (p : Path) : Prop := ∀ active ∈ s.loading, active.contains p = true

theorem Loads.of_kept {s s' : Session} {p : Path} (h : s.Loads p) (hkept : s'.kept = s.kept) :
    s'.Loads p := by
  unfold Loads
  rw [loading_of_kept hkept]
  exact h

theorem Loads.modifyHook {s : Session} {p : Path} {index : Nat} {change : Hook → Hook}
    (h : s.Loads p) (hchange : ∀ hook, s.hooks[index]? = some hook →
      hook.inProgress.contains p = true → (change hook).inProgress.contains p = true) :
    (s.modifyHook index change).Loads p := by
  unfold Loads loading at h ⊢
  rw [List.forall_mem_map] at h ⊢
  exact forall_mem_modify h hchange

theorem route_of_handlerFor? {s : Session} {p : Path} {handler : Handler}
    (h : s.handlerFor? p = some handler) : s.route p = s.routeBy handler p := by
  unfold route
  dsimp only
  rw [h]

theorem routeBy_of_hook {s : Session} {index : Nat} {hook : Hook}
    (hhook : s.hooks[index]? = some hook) (p : Path) :
    s.routeBy (.hook index) p = .ofHook index hook p := by
  unfold routeBy
  dsimp only
  rw [hhook]

theorem Route.ofHook_eq_hook {number index : Nat} {own hook : Hook} {p : Path}
    {entered : InProgress} (h : ofHook number own p = .hook index hook entered) :
    number = index ∧ own = hook ∧ own.inProgress.enter p = .ok entered := by
  unfold ofHook at h
  split at h
  · cases h
  · next henter =>
      obtain ⟨hindex, hhook, rfl⟩ := Route.hook.inj h
      exact ⟨hindex, hhook, henter⟩

theorem routeBy_eq_hook {s : Session} {handler : Handler} {p : Path} {index : Nat} {hook : Hook}
    {entered : InProgress} (h : s.routeBy handler p = .hook index hook entered) :
    s.hooks[index]? = some hook ∧ hook.inProgress.enter p = .ok entered := by
  unfold routeBy at h
  split at h
  · cases h
  · split at h
    · cases h
    · next hook' hhook =>
        obtain ⟨rfl, rfl, henter⟩ := Route.ofHook_eq_hook h
        exact ⟨hhook, henter⟩

/-- Only a plain handler opens what a plain handler opens. -/
theorem plain_of_routeBy {s : Session} {handler : Handler} {p : Path} {plain : PlainHandler}
    (h : s.routeBy handler p = .plain plain) : handler = .plain plain := by
  cases handler with
  | plain own => exact congrArg Handler.plain (Route.plain.inj h)
  | hook index =>
      unfold routeBy Route.ofHook at h
      dsimp only at h
      split at h
      · cases h
      · split at h <;> cases h

/-- A hook opens a file only while it is not loading it. -/
theorem route_eq_hook {s : Session} {demand : Demand} {index : Nat} {hook : Hook}
    {entered : InProgress} (h : s.route demand = .hook index hook entered) :
    s.hooks[index]? = some hook ∧ hook.inProgress.enter demand.file = .ok entered := by
  cases demand with
  | load file =>
      unfold route at h
      dsimp only at h
      split at h
      · cases h
      · exact routeBy_eq_hook h
  | loadBy handler file => exact routeBy_eq_hook h
  | execute code file => cases h

/-- A file that is not the one in progress, wherever a hook opens it. -/
theorem Loads.same_eq_false {s : Session} {p : Path} {demand : Demand} (h : s.Loads p)
    {index : Nat} {hook : Hook} {entered : InProgress}
    (hroute : s.route demand = .hook index hook entered) : p.same demand.file = false := by
  obtain ⟨hhook, henter⟩ := route_eq_hook hroute
  have hloads := h hook.inProgress (List.mem_map_of_mem (List.mem_of_getElem? hhook))
  exact InProgress.same_eq_false_of_contains hloads (InProgress.enter_eq_ok henter).1

theorem loads_opening {s : Session} {p : Path} {demand : Demand} (t : Transpiler)
    (h : s.Loads p) : (s.opening t demand).1.Loads p := by
  unfold opening
  cases hroute : s.route demand with
  | refused error => exact h
  | plain handler => exact h.of_kept (kept_openPlain s t handler demand.file)
  | hook index hook entered =>
      obtain ⟨hhook, henter⟩ := route_eq_hook hroute
      refine Loads.of_kept ?_ (kept_openEntered _ t index hook demand.file)
      apply h.modifyHook
      intro hook' hhook' hloads
      rw [hhook] at hhook'
      rw [← Option.some.inj hhook'] at hloads
      exact (InProgress.enter_eq_ok henter).2.2 p hloads

theorem loads_closing {s s' : Session} {p : Path} {demand : Demand} (h : s.Loads p)
    (h' : s'.Loads p) : ((s.route demand).closing demand.file s').Loads p := by
  cases hroute : s.route demand with
  | refused error => exact h'
  | plain handler => exact h'
  | hook index hook entered =>
      have hne := h.same_eq_false hroute
      apply h'.modifyHook
      intro hook' _ hloads
      exact InProgress.contains_leave hne hloads

theorem Loads.after {s : Session} {p : Path} (h : s.Loads p) (deed : Deed) :
    (s.after deed).Loads p := by
  unfold Loads
  rw [loading_after]
  exact h

end Session
end ModuleCache
