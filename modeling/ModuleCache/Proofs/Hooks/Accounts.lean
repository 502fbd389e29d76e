import Mathlib.Algebra.BigOperators.Group.List.Basic
import Mathlib.Order.Defs.PartialOrder
import ModuleCache.Proofs.Loading.Course
import ModuleCache.Proofs.Loading.Cycles
import ModuleCache.Proofs.Loading.History

/-!
The counters of hooks over whole runs. Opening a file raises the counters of the hook that
opens it, by what its course says, and nothing else in a load does. So what a hook has
counted is the sum over the loads that it let in.
-/

namespace ModuleCache

namespace Counters

instance : Preorder Counters where
  le a b := a.hits ≤ b.hits ∧ a.compiles ≤ b.compiles ∧ a.fallbacks ≤ b.fallbacks ∧
    a.writeFailures ≤ b.writeFailures ∧ a.mapFailures ≤ b.mapFailures
  le_refl a := by simp
  le_trans a b c := by omega

theorem le_add_right (a b : Counters) : a ≤ a + b :=
  ⟨Nat.le_add_right _ _, Nat.le_add_right _ _, Nat.le_add_right _ _, Nat.le_add_right _ _,
    Nat.le_add_right _ _⟩

/-- What one load may raise: one of the three ways to settle it by one, and if that is a
compilation, at most one of the failures. -/
inductive Settles (before : Counters) : Counters → Prop
  | hit : Settles before { before with hits := before.hits + 1 }
  | fallback : Settles before { before with fallbacks := before.fallbacks + 1 }
  | compile (writeFailed mapFailed : Nat) (h : writeFailed + mapFailed ≤ 1) :
      Settles before { before with
        compiles := before.compiles + 1
        writeFailures := before.writeFailures + writeFailed
        mapFailures := before.mapFailures + mapFailed }

end Counters

namespace Course

theorem settles (course : Course) (before : Counters) :
    before.Settles (before + course.tally) := by
  cases course with
  | served code => exact .hit
  | unread cause => exact .fallback
  | failed request compiled error => exact .fallback
  | built request output written =>
      obtain ⟨writeFailed, mapFailed, hfailed, htally⟩ := tally_built request output written
      rw [htally]
      exact .compile writeFailed mapFailed hfailed

end Course

namespace Session

theorem counted_modifyHook {s : Session} {index : Nat} {hook : Hook}
    (h : s.hooks[index]? = some hook) {change : Hook → Hook} {raised : Counters}
    (hchange : (change hook).counters = hook.counters + raised) (other : Nat) :
    (s.modifyHook index change).counted other =
      s.counted other + if index = other then raised else 0 := by
  unfold counted modifyHook
  rw [List.getElem?_modify]
  by_cases heq : index = other
  · simp only [← heq, h, if_true]
    exact hchange
  · simp only [heq, if_false, add_zero]
    cases s.hooks[other]? <;> rfl

theorem counted_closing (r : Route) (p : Path) (s : Session) (index : Nat) :
    (r.closing p s).counted index = s.counted index := by
  cases r with
  | refused error => rfl
  | plain handler => rfl
  | hook admitting hook entered =>
      change ((s.modifyHook admitting _).hooks[index]?.map _).getD 0 = _
      unfold counted modifyHook
      rw [List.getElem?_modify]
      cases s.hooks[index]? with
      | none => rfl
      | some hook =>
          dsimp only [Option.map_some]
          split <;> rfl

theorem counted_after (s : Session) (deed : Deed) (index : Nat) :
    (s.after deed).counted index = s.counted index := by
  unfold counted
  rw [hooks_after]

end Session

namespace Begun

variable (t : Transpiler) (index : Nat) (begun : Begun)

/-- The hook let the load in: it did not refuse it. -/
def isAdmittedBy : Bool :=
  match begun.session.route begun.demand with
  | .hook admitting _ _ => admitting == index
  | _ => false

/-- What the hook obtained for a load that it let in, before its fallback was asked. -/
def obtained? : Option Session.Opened :=
  match begun.session.route begun.demand with
  | .hook admitting hook entered =>
    if admitting = index then
      some ((begun.session.modifyHook admitting fun h => { h with inProgress := entered }).obtain t
        admitting hook begun.file)
    else none
  | _ => none

/-- What the hook itself asked the transpiler for. -/
def ownRequests : List Transpiler.Request :=
  match begun.obtained? t index with
  | some (s, _) => s.requests.drop begun.session.requests.length
  | none => []

/-- The hook compiled the source in vain. -/
def failsToCompile : Bool :=
  match begun.obtained? t index with
  | some (_, .error (.compile _)) => true
  | _ => false

/-- The session once the file is opened and no code has run. -/
def opened : Session := (begun.session.opening t begun.demand).1

/-- What the load raises the counters of the hook by. -/
def tally : Counters :=
  match begun.session.route begun.demand with
  | .hook admitting hook _ =>
    if admitting = index then (hook.layout.course t begun.session.files begun.file).tally else 0
  | _ => 0

theorem obtained?_of_hook {hook : Hook} {entered : InProgress}
    (hroute : begun.session.route begun.demand = .hook index hook entered) :
    let course := hook.layout.course t begun.session.files begun.file
    ∃ obtained, begun.obtained? t index = some (obtained, course.result begun.file) ∧
      obtained.requests = begun.session.requests ++ course.requests := by
  obtain ⟨notes, hobtain⟩ := Session.obtain_eq
    (begun.session.modifyHook index fun h => { h with inProgress := entered }) t index hook
    begun.file
  unfold obtained?
  rw [hroute]
  dsimp only
  rw [if_pos rfl]
  exact ⟨_, congrArg some hobtain, rfl⟩

/-- A load that the hook lets in takes a course, and any other raises none of its counters. -/
theorem tally_cases :
    (begun.isAdmittedBy index = false ∧ begun.obtained? t index = none ∧
        begun.tally t index = 0) ∨
      ∃ (course : Course) (obtained : Session), begun.isAdmittedBy index = true ∧
        begun.obtained? t index = some (obtained, course.result begun.file) ∧
        obtained.requests = begun.session.requests ++ course.requests ∧
        begun.tally t index = course.tally := by
  cases hroute : begun.session.route begun.demand with
  | refused error => exact .inl (by simp [isAdmittedBy, obtained?, tally, hroute])
  | plain handler => exact .inl (by simp [isAdmittedBy, obtained?, tally, hroute])
  | hook admitting hook entered =>
      by_cases hindex : admitting = index
      · rw [hindex] at hroute
        obtain ⟨obtained, hobtained, hmade⟩ := begun.obtained?_of_hook t index hroute
        exact .inr ⟨_, obtained, by simp [isAdmittedBy, hroute], hobtained, hmade,
          by simp [tally, hroute]⟩
      · exact .inl (by simp [isAdmittedBy, obtained?, tally, hroute, hindex])

theorem opened_counted :
    (begun.opened t).counted index = begun.session.counted index + begun.tally t index := by
  unfold opened tally
  cases hroute : begun.session.route begun.demand with
  | refused error =>
      rw [Session.opening_of_refused t hroute]
      rfl
  | plain handler =>
      obtain ⟨notes, hopen⟩ := Session.opening_of_plain t hroute
      rw [hopen]
      rfl
  | hook admitting hook entered =>
      obtain ⟨hhook, -⟩ := Session.route_eq_hook hroute
      obtain ⟨notes, hopen⟩ := Session.opening_of_hook t hroute
      rw [hopen]
      apply Session.counted_modifyHook hhook
      rfl

/-- What a load raises, told by whether the hook let it in and what it asked for. -/
theorem tally_balance :
    (begun.tally t index).settled = (if begun.isAdmittedBy index then 1 else 0) ∧
      (begun.tally t index).writeFailures + (begun.tally t index).mapFailures ≤
        (begun.tally t index).compiles ∧
      (begun.ownRequests t index).length =
        (begun.tally t index).compiles + (if begun.failsToCompile t index then 1 else 0) := by
  unfold ownRequests failsToCompile
  obtain ⟨hadmitted, hobtained, htally⟩ | ⟨course, obtained, hadmitted, hobtained, hmade, htally⟩ :=
    begun.tally_cases t index
  · rw [hadmitted, hobtained, htally]
    exact ⟨rfl, Nat.le_refl 0, rfl⟩
  · rw [hadmitted, hobtained, htally]
    dsimp only
    rw [hmade, List.drop_left]
    cases course with
    | served code => exact ⟨rfl, Nat.le_refl 0, rfl⟩
    | unread cause => exact ⟨rfl, Nat.le_refl 0, rfl⟩
    | failed request compiled error => exact ⟨rfl, Nat.le_refl 0, rfl⟩
    | built request output written =>
        obtain ⟨writeFailed, mapFailed, hfailed, hbuilt⟩ :=
          Course.tally_built request output written
        rw [hbuilt]
        exact ⟨rfl, hfailed, rfl⟩

/-- A load whose source the hook compiled in vain is settled by its fallback. -/
theorem tally_of_failsToCompile (h : begun.failsToCompile t index = true) :
    begun.tally t index = { fallbacks := 1 } := by
  unfold failsToCompile at h
  obtain ⟨-, hobtained, -⟩ | ⟨course, obtained, -, hobtained, -, htally⟩ :=
    begun.tally_cases t index
  · rw [hobtained] at h
    cases h
  · rw [hobtained] at h
    rw [htally]
    cases course with
    | served code => cases h
    | unread cause => cases h
    | failed request compiled error => rfl
    | built request output written => cases h

end Begun

section
variable (host : Host) (index : Nat)

/-- Between two sessions a hook counted what the loads that began between them raise. -/
def Raised (s : Session) (begun : List Begun) (s' : Session) : Prop :=
  s'.counted index = s.counted index + (begun.map (·.tally host.transpiler index)).sum

theorem Raised.of_eq {s s' : Session} (h : s'.counted index = s.counted index) :
    Raised host index s [] s' := h.trans (add_zero _).symm

theorem ledger_raised : Ledger host (Raised host index) where
  refl := fun s => .of_eq host index rfl
  trans := fun {s mid s' begun begun'} h h' => by
    unfold Raised at *
    rw [h', h, List.map_append, List.sum_append, add_assoc]
  opening := fun s demand => by
    unfold Raised
    rw [List.map_singleton, List.sum_singleton]
    exact Begun.opened_counted host.transpiler index ⟨s, demand⟩
  closing := fun r p s => .of_eq host index (s.counted_closing r p index)
  after := fun s deed => .of_eq host index (s.counted_after deed index)

/-- From one session to another no counter of a hook falls, not even for a while. -/
structure Rising (s : Session) (begun : List Begun) (s' : Session) : Prop where
  whole : s.counted index ≤ s'.counted index
  within : ∀ e ∈ begun,
    s.counted index ≤ e.session.counted index ∧ e.session.counted index ≤ s'.counted index
  ordered : begun.Pairwise fun earlier later =>
    earlier.session.counted index ≤ later.session.counted index

theorem Rising.of_eq {s s' : Session} (h : s'.counted index = s.counted index) :
    Rising index s [] s' where
  whole := h ▸ le_refl _
  within := fun _ he => (List.not_mem_nil he).elim
  ordered := .nil

theorem ledger_rising : Ledger host (Rising index) where
  refl := fun s => .of_eq index rfl
  trans := fun {s mid s' begun begun'} h h' => by
    refine ⟨h.whole.trans h'.whole, ?_, List.pairwise_append.mpr ⟨h.ordered, h'.ordered, ?_⟩⟩
    · intro e he
      rcases List.mem_append.mp he with hfirst | hsecond
      · exact ⟨(h.within e hfirst).1, (h.within e hfirst).2.trans h'.whole⟩
      · exact ⟨h.whole.trans (h'.within e hsecond).1, (h'.within e hsecond).2⟩
    · intro earlier hearlier later hlater
      exact (h.within earlier hearlier).2.trans (h'.within later hlater).1
  opening := fun s demand => by
    have hrises : s.counted index ≤ (s.opening host.transpiler demand).1.counted index := by
      have hopened := Begun.opened_counted host.transpiler index ⟨s, demand⟩
      exact hopened ▸ Counters.le_add_right _ _
    refine ⟨hrises, ?_, List.pairwise_singleton _ _⟩
    intro e he
    rw [List.mem_singleton.mp he]
    exact ⟨le_refl _, hrises⟩
  closing := fun r p s => .of_eq index (s.counted_closing r p index)
  after := fun s deed => .of_eq index (s.counted_after deed index)

end

/-- What the loads of a list raise together. -/
theorem sum_tally_balance (t : Transpiler) (index : Nat) (begun : List Begun) :
    let raised := (begun.map (·.tally t index)).sum
    begun.countP (·.isAdmittedBy index) = raised.settled ∧
      raised.writeFailures + raised.mapFailures ≤ raised.compiles ∧
      (begun.flatMap (·.ownRequests t index)).length =
        raised.compiles + begun.countP (·.failsToCompile t index) ∧
      raised.settled ≤ begun.length := by
  induction begun with
  | nil => exact ⟨rfl, Nat.le_refl 0, rfl, Nat.le_refl 0⟩
  | cons e rest ih =>
      obtain ⟨hsettled, hfailures, hrequests, hbound⟩ := ih
      obtain ⟨hown, hownFailures, hownRequests⟩ := e.tally_balance t index
      have hone : (if e.isAdmittedBy index = true then 1 else 0) ≤ 1 := by split <;> omega
      simp only [List.map_cons, List.sum_cons, List.countP_cons, List.flatMap_cons,
        List.length_append, List.length_cons, Counters.settled, Counters.hits_add,
        Counters.compiles_add, Counters.fallbacks_add, Counters.writeFailures_add,
        Counters.mapFailures_add] at *
      omega

/-- Between loads nobody resets what the hooks have counted. -/
def Session.KeepsCounters (s s' : Session) : Prop := ∀ index, s'.counted index = s.counted index

/-- How the counters of a hook stand to the loads that have begun. -/
structure Balanced (t : Transpiler) (index : Nat) (begun : List Begun) (now : Counters) : Prop where
  /-- Every load that was let in is a hit, a compilation or a fallback. -/
  settled : begun.countP (·.isAdmittedBy index) = now.hits + now.compiles + now.fallbacks
  /-- It raises one of these while it is opened; other loads raise nothing. -/
  once : ∀ e ∈ begun,
    if e.isAdmittedBy index then (e.session.counted index).Settles ((e.opened t).counted index)
    else (e.opened t).counted index = e.session.counted index
  failures : now.writeFailures + now.mapFailures ≤ now.compiles
  /-- The hook asks the transpiler for what it compiles, and for what it cannot compile. -/
  requests : (begun.flatMap (·.ownRequests t index)).length =
    now.compiles + begun.countP (·.failsToCompile t index)
  compileErrors : ∀ e ∈ begun, e.failsToCompile t index = true →
    (e.opened t).counted index = e.session.counted index + { fallbacks := 1 }
  /-- So a counter of 32 bits does not overflow. -/
  small : now.hits < 2 ^ 32 ∧ now.compiles < 2 ^ 32 ∧ now.fallbacks < 2 ^ 32 ∧
    now.writeFailures < 2 ^ 32 ∧ now.mapFailures < 2 ^ 32

/-- Over any run of fewer than 2 ^ 32 loads, nested to any depth and with any outcomes, the
counters of a hook that had counted nothing are in balance, and none of them ever falls. -/
theorem counters_balance {host : Host} {start s : Session} {begun : List Begun} (index : Nat)
    (hrun : Ran host Session.KeepsCounters start begun s) (hnew : start.counted index = 0)
    (hfew : begun.length < 2 ^ 32) :
    Balanced host.transpiler index begun (s.counted index) ∧ Rising index start begun s := by
  have hraised : Raised host index start begun s :=
    (ledger_raised host index).ran (fun h => .of_eq host index (h index)) hrun
  have hrising : Rising index start begun s :=
    (ledger_rising host index).ran (fun h => .of_eq index (h index)) hrun
  refine ⟨?_, hrising⟩
  obtain ⟨hsettled, hfailures, hrequests, hbound⟩ :=
    sum_tally_balance host.transpiler index begun
  have hnow : s.counted index = (begun.map (·.tally host.transpiler index)).sum := by
    rw [hraised, hnew, zero_add]
  rw [← hnow] at hsettled hfailures hrequests hbound
  refine ⟨hsettled, ?_, hfailures, hrequests, ?_, ?_⟩
  · intro e _
    rw [Begun.opened_counted]
    obtain ⟨hadmitted, -, htally⟩ | ⟨course, obtained, hadmitted, -, -, htally⟩ :=
      e.tally_cases host.transpiler index
    · rw [if_neg (by simp [hadmitted]), htally, add_zero]
    · rw [if_pos hadmitted, htally]
      exact course.settles _
  · intro e _ hfails
    rw [Begun.opened_counted, Begun.tally_of_failsToCompile _ _ e hfails]
  · unfold Counters.settled at hbound
    omega

/-- One of the three loads of the two files that load each other is refused, and the hook
compiles the sources of the other two. -/
theorem counters_of_two_files : ∃ begun s,
    Ran Session.mutualHost Session.KeepsCounters Session.twoSources begun s ∧
      begun.length = 3 ∧ s.counted 0 = { compiles := 2 } ∧
      Balanced Session.mutualHost.transpiler 0 begun (s.counted 0) ∧
      Rising 0 Session.twoSources begun s := by
  have hcounted : (Session.require Session.mutualHost 3 Session.twoSources
      (.load ⟨"/a.coffee"⟩)).map (fun ended => ended.1.counted 0) = some { compiles := 2 } := by
    decide +kernel
  have hlength : (Session.history Session.mutualHost 3 Session.twoSources
      (.load ⟨"/a.coffee"⟩)).length = 3 := by decide +kernel
  obtain ⟨⟨s, loaded⟩, hload, hcompiles⟩ := Option.map_eq_some_iff.mp hcounted
  have hrun : Ran Session.mutualHost Session.KeepsCounters Session.twoSources _ s :=
    .require .start hload
  obtain ⟨hbalanced, hrising⟩ := counters_balance 0 hrun (by decide +kernel)
    (by rw [List.nil_append, hlength]; decide)
  exact ⟨_, s, hrun, hlength, hcompiles, hbalanced, hrising⟩

end ModuleCache
