import Mathlib.Algebra.Order.BigOperators.Group.List
import Mathlib.Algebra.Order.Ring.Nat
import ModuleCache.Proofs.Loading.Nesting

/-!
What hooks count. Every load that a hook admits is served from the artifact, compiled or
handed to the fallback, and the hook counts one of these exactly once, while the file is
opened. No count ever falls, so a load that leaves all counts as they were was not admitted.
-/

namespace ModuleCache

/-- The loads a hook has settled in one of the three ways. -/
def Counters.settled (c : Counters) : Nat := c.hits + c.compiles + c.fallbacks

theorem Counters.settled_add (a b : Counters) : (a + b).settled = a.settled + b.settled := by
  simp only [settled, hits_add, compiles_add, fallbacks_add]
  omega

/-- Each course settles a load in one of the three ways; where it comes to an error, that is the
fallback, even if there is none. -/
theorem Course.settled_tally (course : Course) : course.tally.settled = 1 := by
  cases course with
  | served code => rfl
  | unread cause => rfl
  | failed request compiled error => rfl
  | built request output written =>
      obtain ⟨writeFailed, mapFailed, -, htally⟩ := tally_built request output written
      rw [htally]
      rfl

namespace Session

theorem sum_map_modify {α : Type} {as : List α} {index : Nat} {a : α} (ha : as[index]? = some a)
    (f : α → Nat) (change : α → α) :
    ((as.modify index change).map f).sum + f a = (as.map f).sum + f (change a) := by
  induction as generalizing index with
  | nil => cases ha
  | cons first rest ih =>
      cases index with
      | zero =>
          obtain rfl : first = a := Option.some.inj ha
          simp only [List.modify_zero_cons, List.map_cons, List.sum_cons]
          omega
      | succ index =>
          have hrest := ih ha
          simp only [List.modify_succ_cons, List.map_cons, List.sum_cons]
          omega

def settled (s : Session) : List Nat := s.hooks.map (·.counters.settled)

theorem settled_openPlain (s : Session) (t : Transpiler) (handler : PlainHandler) (p : Path) :
    (s.openPlain t handler p).1.settled = s.settled := by
  obtain ⟨notes, hopen⟩ := openPlain_eq s t handler p
  rw [hopen]
  rfl

/-- A hook settles every load that it admits, once. -/
theorem settled_openEntered (s : Session) (t : Transpiler) (index : Nat) (hook : Hook) (p : Path) :
    (s.openEntered t index hook p).1.settled = s.settled.modify index (· + 1) := by
  obtain ⟨notes, hopen⟩ := openEntered_eq s t index hook p
  rw [hopen]
  apply map_modify
  intro hook'
  rw [Counters.settled_add, Course.settled_tally]

theorem settled_modifyHook {change : Hook → Hook}
    (h : ∀ hook, (change hook).counters = hook.counters) (s : Session) (index : Nat) :
    (s.modifyHook index change).settled = s.settled := by
  apply map_modify_of_eq
  intro hook
  exact congrArg Counters.settled (h hook)

theorem settled_opening (s : Session) (t : Transpiler) (demand : Demand) :
    (s.opening t demand).1.settled =
      match s.route demand with
      | .hook index _ _ => s.settled.modify index (· + 1)
      | _ => s.settled := by
  unfold opening
  cases s.route demand with
  | refused error => rfl
  | plain handler => exact settled_openPlain s t handler demand.file
  | hook index hook entered =>
      dsimp only
      have hentered : (s.modifyHook index fun h => { h with inProgress := entered }).settled =
          s.settled := by
        apply settled_modifyHook
        intro h
        rfl
      rw [settled_openEntered, hentered]

theorem settled_closing (r : Route) (p : Path) (s : Session) :
    (r.closing p s).settled = s.settled := by
  cases r with
  | refused error => rfl
  | plain handler => rfl
  | hook index hook entered =>
      apply settled_modifyHook
      intro h
      rfl

theorem settled_after (s : Session) (deed : Deed) : (s.after deed).settled = s.settled :=
  congrArg (List.map fun hook : Hook => hook.counters.settled) (hooks_after s deed)

def HasSettled (index count : Nat) (s : Session) : Prop :=
  ∃ now, s.settled[index]? = some now ∧ count ≤ now

/-- What a hook has settled stays settled. -/
theorem maintained_hasSettled (host : Host) (index count : Nat) :
    Maintained host (fun _ => True) (HasSettled index count) where
  opening := fun {s demand} _ ⟨now, hnow, hle⟩ => by
    unfold HasSettled
    rw [settled_opening]
    cases s.route demand with
    | refused error => exact ⟨now, hnow, hle⟩
    | plain handler => exact ⟨now, hnow, hle⟩
    | hook other hook entered =>
        dsimp only
        rw [List.getElem?_modify, hnow]
        by_cases heq : other = index
        · exact ⟨now + 1, by simp [heq], by omega⟩
        · exact ⟨now, by simp [heq], hle⟩
  handed := fun _ _ _ => trivial
  closing := fun _ _ hs' => by
    unfold HasSettled
    rw [settled_closing]
    exact hs'
  after := fun _ hs => by
    unfold HasSettled
    rw [settled_after]
    exact hs
  scripts := fun code file => (host.evaluator code file).does_any

/-- A load that a hook admits does not leave the session as it was. -/
theorem require_ne_self {host : Host} {depth : Nat} {s : Session} {demand : Demand}
    {loaded : Loaded} {index : Nat} {hook : Hook} {entered : InProgress}
    (hroute : s.route demand = .hook index hook entered) :
    require host depth s demand ≠ some (s, loaded) := by
  intro hload
  have hhook := (route_eq_hook hroute).1
  have hbefore : s.settled[index]? = some hook.counters.settled := by
    rw [settled, List.getElem?_map, hhook]
    rfl
  have hopened := settled_opening s host.transpiler demand
  rw [hroute] at hopened
  have hraised : HasSettled index (hook.counters.settled + 1)
      (s.opening host.transpiler demand).1 :=
    ⟨_, by rw [hopened, List.getElem?_modify, hbefore]; simp, Nat.le_refl _⟩
  have hmaintained := maintained_hasSettled host index (hook.counters.settled + 1)
  obtain ⟨ran, hs, hran⟩ := require_eq_some hload
  have hafter : HasSettled index (hook.counters.settled + 1) ran := by
    obtain ⟨error, hopen, -⟩ | ⟨opened, code, inner, -, hopen, hrun⟩ |
      ⟨opened, error, handler, inner, -, hopen, -, hrun⟩ := hran
    · rw [hopen] at hraised
      exact hraised
    · rw [hopen] at hraised
      exact hmaintained.execute (hmaintained.require inner) hraised hrun
    · rw [hopen] at hraised
      exact hmaintained.require inner trivial hraised hrun
  obtain ⟨now, hnow, hle⟩ := hafter
  rw [← settled_closing (s.route demand) demand.file ran, ← hs, hbefore] at hnow
  have heq := Option.some.inj hnow
  omega

end Session
end ModuleCache
