import ModuleCache.Proofs.Loading.Setup

/-!
Runs of a loader. Between its loads something else may change the files; which changes
count is up to the run. Loads start at the top, from code that is executed, or inside other
loads. A property that loads keep, and the changes in between, holds wherever a load starts.
-/

namespace ModuleCache

/-- The sessions of a run, between its demands. -/
inductive Reachable (host : Host) (A : Deed → Prop) (Between : Session → Session → Prop)
    (start : Session) : Session → Prop
  | start : Reachable host A Between start start
  | between {s s' : Session} (h : Reachable host A Between start s) (hchange : Between s s') :
      Reachable host A Between start s'
  | require {s s' : Session} {demand : Demand} {depth : Nat} {loaded : Loaded}
      (h : Reachable host A Between start s) (hdemand : A (.ask demand))
      (hload : Session.require host depth s demand = some (s', loaded)) :
      Reachable host A Between start s'

/-- A file is loaded, where code only has files loaded. -/
theorem Reachable.load {host : Host} {P : Path → Prop} {Between : Session → Session → Prop}
    {start s s' : Session} {p : Path} {depth : Nat} {loaded : Loaded}
    (h : Reachable host (Deed.LoadsOnly P) Between start s) (hp : P p)
    (hload : Session.require host depth s p = some (s', loaded)) :
    Reachable host (Deed.LoadsOnly P) Between start s' :=
  @Reachable.require _ _ _ _ _ _ (.load p) _ _ h hp hload

/-- In a run something is asked for in the session `s`: at the top, or while another demand is
met. -/
inductive Starts (host : Host) (A : Deed → Prop) (Between : Session → Session → Prop)
    (start : Session) : Nat → Session → Demand → Prop
  | top {s : Session} {demand : Demand} (depth : Nat) (h : Reachable host A Between start s)
      (hdemand : A (.ask demand)) : Starts host A Between start depth s demand
  | inside {s s' : Session} {demand inner : Demand} {depth : Nat}
      (h : Starts host A Between start (depth + 1) s demand)
      (hinside : Session.Inside host depth s demand s' inner) :
      Starts host A Between start depth s' inner

section
variable {host : Host} {A : Deed → Prop} {Between : Session → Session → Prop} {start : Session}
  {Inv : Session → Prop} (h : Session.Maintained host A Inv)
  (hbetween : ∀ {s s' : Session}, Inv s → Between s s' → Inv s') (hstart : Inv start)
include h hbetween hstart

/-- What loads and the changes between them keep holds in every session of a run. -/
theorem Reachable.holds {s : Session} (hs : Reachable host A Between start s) : Inv s := by
  induction hs with
  | start => exact hstart
  | between _ hchange ih => exact hbetween ih hchange
  | @require s s' demand depth loaded _ hdemand hload ih => exact h.require depth hdemand ih hload

/-- And it holds wherever a load starts, however deep that is nested. -/
theorem Starts.holds {depth : Nat} {s : Session} {demand : Demand}
    (hs : Starts host A Between start depth s demand) : A (.ask demand) ∧ Inv s := by
  induction hs with
  | top depth hreach hdemand => exact ⟨hdemand, hreach.holds h hbetween hstart⟩
  | inside _ hinside ih => exact h.inside ih.1 ih.2 hinside

end

/-- A load that succeeds gives the file, and the code that was run for it. Where it was not
handed on, that is the code the file opened to. -/
theorem require_eq_ok {host : Host} {depth : Nat} {s s' : Session} {demand : Demand}
    {m : LoadedModule} (h : Session.require host depth s demand = some (s', .ok m)) :
    m.file = demand.file ∧
      ((s.route demand).next? = none → (s.opening host.transpiler demand).2 = .ok m.code) := by
  induction depth generalizing s s' demand with
  | zero => cases h
  | succ depth ih =>
      obtain ⟨ran, -, ⟨error, -, hloaded, -⟩ | ⟨opened, code, inner, -, hopen, hran⟩ |
        ⟨opened, error, handler, inner, hinner, -, hnext, hran⟩⟩ := Session.require_eq_some h
      · cases hloaded
      · obtain ⟨⟨mid, ended⟩, -, hend⟩ := Option.bind_eq_some_iff.mp hran
        obtain ⟨-, hended⟩ := Prod.mk.inj (Option.some.inj hend)
        cases ended with
        | error error => cases hended
        | ok _ =>
            rw [← Except.ok.inj hended, hopen]
            exact ⟨rfl, fun _ => rfl⟩
      · obtain rfl := Nat.succ.inj hinner
        refine ⟨(ih hran).1, ?_⟩
        intro hnone
        rw [hnext] at hnone
        cases hnone

/-- A load is known to succeed when what comes of it is known to be a module. -/
theorem exists_require_eq_ok {host : Host} {depth : Nat} {s : Session} {demand : Demand}
    (h : ((Session.require host depth s demand).bind (·.2.toOption)).isSome = true) :
    ∃ s' m, Session.require host depth s demand = some (s', .ok m) := by
  obtain ⟨m, hm⟩ := Option.isSome_iff_exists.mp h
  obtain ⟨⟨s', loaded⟩, hload, hloaded⟩ := Option.bind_eq_some_iff.mp hm
  cases loaded with
  | error error => cases hloaded
  | ok found => exact ⟨s', found, hload⟩

end ModuleCache
