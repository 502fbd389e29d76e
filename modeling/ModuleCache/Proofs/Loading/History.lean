import ModuleCache.Proofs.Loading.Opening

/-!
The loads of a run in the order in which they begin, those at the top and those that the
code of other files asks for. What opening a file adds to an account of the loads is added
up over whole loads and over whole runs, however deep they are nested.
-/

namespace ModuleCache

/-- A load that has begun: the session that it found, and what was asked for. -/
structure Begun where
  session : Session
  demand : Demand

abbrev Begun.file (begun : Begun) : Path := begun.demand.file

/-- What code asks for by something it does. -/
def Deed.demands : Deed → List Demand
  | .ask demand => [demand]
  | _ => []

namespace Session

/-- The load that begins with a demand. Executing code that is given is none. -/
def begins (s : Session) : Demand → List Begun
  | .execute .. => []
  | demand => [⟨s, demand⟩]

/-- The loads that a script comes to ask for, each with those inside it. -/
def scriptHistory (require : Require) (history : Session → Demand → List Begun) :
    Script → Session → List Begun
  | .finish, _ => []
  | .fail _, _ => []
  | .act deed next, s =>
    deed.demands.flatMap (history s) ++
      match s.act require deed with
      | none => []
      | some (mid, reply) => scriptHistory require history (next reply) mid

/-- The load that a demand is for, and the loads inside it. -/
def history (host : Host) : Nat → Session → Demand → List Begun
  | 0, _, _ => []
  | depth + 1, s, demand =>
    s.begins demand ++
      match s.opening host.transpiler demand with
      | (opened, .ok code) =>
        scriptHistory (require host depth) (history host depth)
          (host.evaluator code demand.file) opened
      | (opened, .error _) =>
        match (s.route demand).next? with
        | none => []
        | some handler => history host depth opened (.loadBy handler demand.file)

end Session

/-- The loads that have begun in a run, and the session that it has come to. Between its
demands something else may change the session. -/
inductive Ran (host : Host) (Between : Session → Session → Prop) (start : Session) :
    List Begun → Session → Prop
  | start : Ran host Between start [] start
  | between {begun : List Begun} {s s' : Session} (h : Ran host Between start begun s)
      (hchange : Between s s') : Ran host Between start begun s'
  | require {begun : List Begun} {s s' : Session} {demand : Demand} {depth : Nat}
      {loaded : Loaded} (h : Ran host Between start begun s)
      (hload : Session.require host depth s demand = some (s', loaded)) :
      Ran host Between start (begun ++ Session.history host depth s demand) s'

/-- What a session comes to, told by the loads that have begun since another one: one part
of an account follows the other, and only opening a file adds a load to it. -/
structure Ledger (host : Host) (Fits : Session → List Begun → Session → Prop) : Prop where
  refl : ∀ s, Fits s [] s
  trans : ∀ {s mid s' : Session} {begun begun' : List Begun}, Fits s begun mid →
    Fits mid begun' s' → Fits s (begun ++ begun') s'
  opening : ∀ s demand, Fits s [⟨s, demand⟩] (s.opening host.transpiler demand).1
  closing : ∀ (r : Session.Route) (p : Path) (s : Session), Fits s [] (r.closing p s)
  after : ∀ (s : Session) (deed : Deed), Fits s [] (s.after deed)

namespace Ledger

variable {host : Host} {Fits : Session → List Begun → Session → Prop}

theorem begins (h : Ledger host Fits) (s : Session) (demand : Demand) :
    Fits s (s.begins demand) (s.opening host.transpiler demand).1 := by
  cases demand with
  | load file => exact h.opening s file
  | loadBy handler file => exact h.opening s (.loadBy handler file)
  | execute code file => exact h.refl s

/-- The account of every demand that is met is right. -/
def Tells (Fits : Session → List Begun → Session → Prop) (require : Require)
    (history : Session → Demand → List Begun) : Prop :=
  ∀ ⦃s s' : Session⦄ ⦃demand : Demand⦄ ⦃loaded : Loaded⦄,
    require s demand = some (s', loaded) → Fits s (history s demand) s'

section
variable {require : Require} {history : Session → Demand → List Begun}
  (hloads : Tells Fits require history)
include hloads

theorem act (h : Ledger host Fits) {deed : Deed} {s s' : Session} {reply : deed.Reply}
    (hact : s.act require deed = some (s', reply)) :
    Fits s ((deed.demands).flatMap (history s)) s' := by
  obtain ⟨demand, loaded, rfl, hask⟩ | ⟨hown, rfl⟩ := Session.act_cases hact
  · rw [Deed.demands, List.flatMap_singleton]
    exact hloads hask
  · have hnone : deed.demands = [] := by
      cases deed with
      | ask demand => exact absurd rfl (hown demand)
      | _ => rfl
    rw [hnone]
    exact h.after s deed

/-- The account of a script, when that of every load it asks for is right. -/
theorem run (h : Ledger host Fits) {script : Script} {s s' : Session}
    {ended : Except LoadError Unit}
    (hrun : Session.run require script s = some (s', ended)) :
    Fits s (Session.scriptHistory require history script s) s' := by
  induction script generalizing s with
  | finish =>
      obtain ⟨rfl, -⟩ := Prod.mk.inj (Option.some.inj hrun)
      exact h.refl s
  | fail error =>
      obtain ⟨rfl, -⟩ := Prod.mk.inj (Option.some.inj hrun)
      exact h.refl s
  | act deed next ih =>
      obtain ⟨⟨mid, reply⟩, hact, hrest⟩ := Option.bind_eq_some_iff.mp hrun
      unfold Session.scriptHistory
      rw [hact]
      exact h.trans (h.act hloads hact) (ih reply hrest)

theorem execute (h : Ledger host Fits) {s s' : Session} {code : String} {p : Path}
    {loaded : Loaded} (hrun : Session.execute host require s code p = some (s', loaded)) :
    Fits s (Session.scriptHistory require history (host.evaluator code p) s) s' := by
  obtain ⟨⟨mid, ended⟩, hmid, hend⟩ := Option.bind_eq_some_iff.mp hrun
  obtain ⟨rfl, -⟩ := Prod.mk.inj (Option.some.inj hend)
  exact h.run hloads hmid

end

/-- The account of a load, to whatever depth loads are nested in it. -/
theorem require (h : Ledger host Fits) (depth : Nat) :
    Tells Fits (Session.require host depth) (Session.history host depth) := by
  induction depth with
  | zero =>
      intro s s' demand loaded hload
      cases hload
  | succ depth ih =>
      intro s s' demand loaded hload
      have hopened := h.begins s demand
      obtain ⟨ran, rfl, hran⟩ := Session.require_eq_some hload
      have hclosed := h.closing (s.route demand) demand.file ran
      -- what happens between the opening and the closing
      have hwhole : ∀ {opened : Session} {inner : List Begun},
          (s.opening host.transpiler demand).1 = opened → Fits opened inner ran →
            Fits s (s.begins demand ++ inner)
              ((s.route demand).closing demand.file ran) := by
        intro opened inner hopen hinner
        have hinside := h.trans (h.trans (hopen ▸ hopened) hinner) hclosed
        rw [List.append_nil] at hinside
        exact hinside
      unfold Session.history
      obtain ⟨error, hopen, -, hnext⟩ | ⟨opened, code, inner, hinner, hopen, hrun⟩ |
        ⟨opened, error, handler, inner, hinner, hopen, hnext, hrun⟩ := hran
      · rw [hopen, hnext]
        exact hwhole (congrArg Prod.fst hopen) (h.refl ran)
      · obtain rfl := Nat.succ.inj hinner
        rw [hopen]
        exact hwhole (congrArg Prod.fst hopen) (h.execute ih hrun)
      · obtain rfl := Nat.succ.inj hinner
        rw [hopen, hnext]
        exact hwhole (congrArg Prod.fst hopen) (ih hrun)

/-- The account of a run, when nothing else changes what it is about. -/
theorem ran (h : Ledger host Fits) {Between : Session → Session → Prop}
    (hbetween : ∀ {s s' : Session}, Between s s' → Fits s [] s') {start s : Session}
    {begun : List Begun} (hran : Ran host Between start begun s) : Fits start begun s := by
  induction hran with
  | start => exact h.refl start
  | between _ hchange ih =>
      have hwhole := h.trans ih (hbetween hchange)
      rw [List.append_nil] at hwhole
      exact hwhole
  | require _ hload ih => exact h.trans ih (h.require _ hload)

end Ledger

end ModuleCache
