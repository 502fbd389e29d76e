import Mathlib.Data.List.Dedup
import Mathlib.Data.List.Perm.Subperm
import ModuleCache.Proofs.Loading.Cycles
import ModuleCache.Proofs.Loading.Reach
import ModuleCache.Proofs.Loading.Registration

/-!
Loads come to an end. Where only hooks load files, and the code asks for files out of a
finite list, however these ask for each other, every load inside another one takes a file
that its hook is not loading yet, also where a hook hands a file on to another one; so the
files that the hooks are not loading get fewer, and the nesting has a bound. What a load comes
to does not depend on how much deeper than that loads may be nested.
-/

namespace ModuleCache

/-- The places that files have, each counted once however often it is named. -/
def places (files : List Path) : List (List Path.Component) := (files.map Path.components).dedup

theorem components_mem_places {files : List Path} {p : Path} (h : p ∈ files) :
    p.components ∈ places files := List.mem_dedup.mpr (List.mem_map_of_mem h)

namespace InProgress

/-- How many of the places have no file in progress. -/
def waiting (all : List (List Path.Component)) (s : InProgress) : Nat :=
  (all.filter fun place => s.active.all (·.components ≠ place)).length

theorem waiting_le (all : List (List Path.Component)) (s : InProgress) :
    s.waiting all ≤ all.length := List.length_filter_le _ all

theorem waiting_of_enter {all : List (List Path.Component)} {s s' : InProgress} {p : Path}
    (h : s.enter p = .ok s') (hp : p.components ∈ all) : s'.waiting all < s.waiting all := by
  have hfree : ∀ q ∈ s.active, q.components ≠ p.components := by
    intro q hq heq
    have hcontains : s.contains p = true := contains_iff.mpr ⟨q, hq, heq⟩
    rw [(enter_eq_ok h).1] at hcontains
    cases hcontains
  have hfilter : all.filter (fun place => s'.active.all (·.components ≠ place)) =
      (all.filter fun place => s.active.all (·.components ≠ place)).filter
        (p.components ≠ ·) := by
    rw [List.filter_filter, active_of_enter h]
    apply List.filter_congr
    intro place _
    simp [Bool.and_comm]
  unfold waiting
  rw [hfilter, List.length_filter_lt_length_iff_exists]
  exact ⟨p.components, by simpa [hp] using hfree, by simp⟩

/-- The files in progress are among the given ones, and no two of them are the same. -/
structure Ranges (files : List Path) (s : InProgress) : Prop where
  among : ∀ p ∈ s.active, p ∈ files
  distinct : (s.active.map Path.components).Nodup

theorem ranges_empty (files : List Path) : Ranges files .empty :=
  ⟨fun _ h => (List.not_mem_nil h).elim, List.nodup_nil⟩

theorem Ranges.enter {files : List Path} {s s' : InProgress} {p : Path} (h : Ranges files s)
    (hp : p ∈ files) (henter : s.enter p = .ok s') : Ranges files s' := by
  have hfree := (enter_eq_ok henter).1
  constructor
  · intro q hq
    rw [active_of_enter henter] at hq
    rcases List.mem_append.mp hq with hq | hq
    · exact h.among q hq
    · rw [List.mem_singleton.mp hq]
      exact hp
  · rw [active_of_enter henter, List.map_append, List.nodup_append]
    refine ⟨h.distinct, List.nodup_singleton _, ?_⟩
    intro place hplace other hother heq
    obtain ⟨q, hq, hplace⟩ := List.mem_map.mp hplace
    have hcontains : s.contains p = true :=
      contains_iff.mpr ⟨q, hq, by simp_all⟩
    rw [hfree] at hcontains
    cases hcontains

theorem Ranges.leave {files : List Path} {s : InProgress} (h : Ranges files s) (p : Path) :
    Ranges files (s.leave p) := by
  have hsub : (s.leave p).active.Sublist s.active := by
    have herased := (s.active.reverse.eraseP_sublist (p := (·.same p))).reverse
    rw [List.reverse_reverse] at herased
    exact herased
  exact ⟨fun q hq => h.among q (hsub.subset hq), h.distinct.sublist (hsub.map _)⟩

theorem Ranges.depth_le {files : List Path} {s : InProgress} (h : Ranges files s) :
    s.depth ≤ (places files).length := by
  have hsub : s.active.map Path.components ⊆ places files := by
    intro place hplace
    obtain ⟨p, hp, rfl⟩ := List.mem_map.mp hplace
    exact components_mem_places (h.among p hp)
  have hlength := (h.distinct.subperm hsub).length_le
  rw [List.length_map] at hlength
  exact hlength

end InProgress

/-- What code may do whose demands are for hooks to load certain files. -/
def Deed.Requires (P : Path → Prop) : Deed → Prop
  | .record _ | .consult | .alter _ => True
  | .ask (.load file) | .ask (.loadBy (.hook _) file) => P file
  | _ => False

namespace Deed.Requires

variable {P : Path → Prop}

theorem imp {Q : Path → Prop} (h : ∀ p, P p → Q p) (deed : Deed) (hdeed : deed.Requires P) :
    deed.Requires Q := by
  unfold Requires at hdeed ⊢
  split <;> simp_all

theorem file {demand : Demand} (h : (Deed.ask demand).Requires P) : P demand.file := by
  cases demand with
  | load file => exact h
  | loadBy handler file =>
      cases handler with
      | plain handler => exact h.elim
      | hook index => exact h
  | execute code file => exact h.elim

theorem keepsSlots (deed : Deed) (h : deed.Requires P) : deed.KeepsSlots := by
  cases deed with
  | assign claims extension handler => exact h
  | _ => trivial

/-- A hook that hands a file on asks another hook to load it. -/
theorem handed {s : Session} {demand : Demand} {handler : Handler}
    (h : (Deed.ask demand).Requires P) (hnext : (s.route demand).next? = some handler) :
    (Deed.ask (.loadBy handler demand.file)).Requires P := by
  obtain ⟨index, rfl⟩ := Session.Route.next?_eq_some hnext
  exact h.file

end Deed.Requires

namespace Session

/-- What finishes by one way to meet demands finishes by another, with the same outcome. -/
def Extends (require' require : Require) : Prop :=
  ∀ {s : Session} {demand : Demand} {ended : Session × Loaded},
    require s demand = some ended → require' s demand = some ended

namespace Extends

variable {require require' : Require} (h : Extends require' require)
include h

theorem act {deed : Deed} {s : Session} {done : Session × deed.Reply}
    (hact : s.act require deed = some done) : s.act require' deed = some done := by
  cases deed with
  | ask demand => exact h hact
  | _ => exact hact

theorem run {script : Script} {s : Session} {ended : Session × Except LoadError Unit}
    (hrun : Session.run require script s = some ended) :
    Session.run require' script s = some ended := by
  induction script generalizing s with
  | finish => exact hrun
  | fail error => exact hrun
  | act deed next ih =>
      obtain ⟨mid, hact, hrest⟩ := Option.bind_eq_some_iff.mp hrun
      exact Option.bind_eq_some_iff.mpr ⟨mid, h.act hact, ih mid.2 hrest⟩

theorem runOpened {host : Host} {next : Option Handler} {p : Path} {opened : Opened}
    {ended : Session × Loaded} (hrun : Session.runOpened host require next p opened = some ended) :
    Session.runOpened host require' next p opened = some ended := by
  obtain ⟨s, outcome⟩ := opened
  cases outcome with
  | error error =>
      cases next with
      | none => exact hrun
      | some handler => exact h hrun
  | ok code =>
      obtain ⟨mid, hmid, hend⟩ := Option.bind_eq_some_iff.mp hrun
      exact Option.bind_eq_some_iff.mpr ⟨mid, h.run hmid, hend⟩

end Extends

/-- A load that finishes does so as well where loads may be nested deeper. -/
theorem extends_require (host : Host) (depth more : Nat) :
    Extends (require host (depth + more)) (require host depth) := by
  induction depth with
  | zero =>
      intro s demand ended hload
      cases hload
  | succ depth ih =>
      intro s demand ended hload
      rw [Nat.succ_add]
      change dispatch host (require host depth) s demand = _ at hload
      change dispatch host (require host (depth + more)) s demand = _
      rw [dispatch_eq] at hload ⊢
      obtain ⟨ran, hran, hclosed⟩ := Option.map_eq_some_iff.mp hload
      exact Option.map_eq_some_iff.mpr ⟨ran, ih.runOpened hran, hclosed⟩

theorem maintained_setup {host : Host} {P : Path → Prop}
    (hscripts : ∀ code file, (host.evaluator code file).Does (Deed.Requires P)) (start : Session) :
    Maintained host (Deed.Requires P) (fun s => s.setup = start.setup) :=
  maintained_of_setup hscripts Deed.Requires.keepsSlots (fun hdemand _ => hdemand.handed)
    fun hs hsetup => hsetup.trans hs

def HooksOnly (s : Session) : Prop :=
  ∀ extension handler, s.registry.handler? extension ≠ some (.plain handler)

theorem HooksOnly.of_setup {s s' : Session} (h : s.HooksOnly) (hsetup : s'.setup = s.setup) :
    s'.HooksOnly := by
  have hregistry : s'.registry = s.registry := (Prod.mk.inj hsetup).1
  unfold HooksOnly
  rw [hregistry]
  exact h

theorem HooksOnly.install {s : Session} (h : s.HooksOnly) (index : Nat) :
    (s.install index).1.HooksOnly := by
  obtain ⟨-, hinstall⟩ | ⟨hook, -, -, ⟨-, hinstall⟩ | ⟨-, -, hregistry, -⟩⟩ := install_cases s index
  · rw [hinstall]
    exact h
  · rw [hinstall]
    exact h
  · intro extension handler
    rw [hregistry, Registry.handler?, slot?_set]
    split
    · simp [Slot.handler]
    · exact h extension handler

/-- Where only hooks load files, a file that is not refused is one that a hook admits. -/
theorem HooksOnly.route_cases {s : Session} (h : s.HooksOnly) {P : Path → Prop} {demand : Demand}
    (hdemand : (Deed.ask demand).Requires P) :
    (∃ error, s.route demand = .refused error) ∨
      ∃ index hook entered, s.route demand = .hook index hook entered := by
  cases hroute : s.route demand with
  | refused error => exact .inl ⟨error, rfl⟩
  | hook index hook entered => exact .inr ⟨index, hook, entered, rfl⟩
  | plain handler =>
      cases demand with
      | load file =>
          unfold route at hroute
          dsimp only at hroute
          split at hroute
          · cases hroute
          · next own hown =>
              rw [plain_of_routeBy hroute] at hown
              exact absurd hown (h _ handler)
      | loadBy own file =>
          rw [plain_of_routeBy hroute] at hdemand
          exact hdemand.elim
      | execute code file => exact hdemand.elim

/-- So a file that opens to code, or is handed on, is one that a hook admitted. -/
theorem HooksOnly.route_of_opening {s opened : Session} {t : Transpiler} {P : Path → Prop}
    {demand : Demand} (h : s.HooksOnly) (hdemand : (Deed.ask demand).Requires P)
    {outcome : Except LoadError String} (hopen : s.opening t demand = (opened, outcome))
    (hgoes : (∃ code, outcome = .ok code) ∨ (s.route demand).next? ≠ none) :
    ∃ index hook entered, s.route demand = .hook index hook entered := by
  refine (h.route_cases hdemand).resolve_left ?_
  rintro ⟨error, hroute⟩
  rw [opening_of_refused t hroute] at hopen
  rw [hroute] at hgoes
  rcases hgoes with ⟨code, rfl⟩ | hnext
  · cases hopen
  · exact hnext rfl

theorem sum_map_le {loading : List InProgress} {f : InProgress → Nat} {most : Nat}
    (h : ∀ active ∈ loading, f active ≤ most) : (loading.map f).sum ≤ loading.length * most := by
  have hle := List.sum_le_card_nsmul (loading.map f) most (List.forall_mem_map.mpr h)
  simpa using hle

def waiting (all : List (List Path.Component)) (loading : List InProgress) : Nat :=
  (loading.map (·.waiting all)).sum

theorem waiting_le (all : List (List Path.Component)) (loading : List InProgress) :
    waiting all loading ≤ loading.length * all.length :=
  sum_map_le fun active _ => active.waiting_le all

/-- A load that a hook admits leaves fewer places waiting while it is under way. -/
theorem waiting_during {all : List (List Path.Component)} {s : Session} {demand : Demand}
    {index : Nat} {hook : Hook} {entered : InProgress}
    (hroute : s.route demand = .hook index hook entered) (hp : demand.file.components ∈ all) :
    waiting all ((s.route demand).during s.loading) < waiting all s.loading := by
  obtain ⟨hhook, henter⟩ := route_eq_hook hroute
  have hfewer := InProgress.waiting_of_enter henter hp
  have hsum := sum_map_modify (getElem?_loading hhook) (·.waiting all) fun _ => entered
  rw [hroute]
  dsimp only [waiting, Route.during]
  omega

/-- A script comes to an end where its demands do. -/
theorem Keeps.run_finishes {A : Deed → Prop} {Inv : Session → Prop} {require : Require}
    (hkeeps : Keeps A Inv require)
    (hafter : ∀ {s : Session} {deed : Deed}, A deed → Inv s → Inv (s.after deed))
    (hfinish : ∀ {s : Session} {demand : Demand}, A (.ask demand) → Inv s →
      ∃ ended, require s demand = some ended)
    {script : Script} (hscript : script.Does A) {s : Session} (hs : Inv s) :
    ∃ ended, Session.run require script s = some ended := by
  induction script generalizing s with
  | finish => exact ⟨_, rfl⟩
  | fail error => exact ⟨_, rfl⟩
  | act deed next ih =>
      obtain ⟨⟨mid, reply⟩, hact⟩ : ∃ done, s.act require deed = some done := by
        cases deed with
        | ask demand => exact hfinish hscript.1 hs
        | _ => exact ⟨_, rfl⟩
      have hmid := hkeeps.act hafter hscript.1 hs hact
      obtain ⟨ended, hended⟩ := ih reply (hscript.2 reply) hmid
      exact ⟨ended, Option.bind_eq_some_iff.mpr ⟨(mid, reply), hact, hended⟩⟩

variable {host : Host} {files : List Path}

/-- A load finishes where loads may be nested deeper than there are places waiting. -/
theorem require_finishes
    (hscripts : ∀ code file, (host.evaluator code file).Does (Deed.Requires (· ∈ files)))
    {depth : Nat} {s : Session} {demand : Demand} (hs : s.HooksOnly)
    (hdemand : (Deed.ask demand).Requires (· ∈ files))
    (hdepth : waiting (places files) s.loading < depth) :
    ∃ ended, require host depth s demand = some ended := by
  induction depth generalizing s demand with
  | zero => omega
  | succ depth ih =>
      change ∃ ended, dispatch host (require host depth) s demand = some ended
      rw [dispatch_eq]
      have hopened := loading_opening s host.transpiler demand
      have hsetup := setup_opening s host.transpiler demand
      rcases hopen : s.opening host.transpiler demand with ⟨opened, outcome⟩
      rw [hopen] at hopened hsetup
      dsimp only at hopened hsetup
      -- what is asked for inside starts from where this load leaves the places waiting
      have hinside : (∃ code, outcome = .ok code) ∨ (s.route demand).next? ≠ none →
          waiting (places files) opened.loading < depth := by
        intro hgoes
        obtain ⟨index, hook, entered, hroute⟩ := hs.route_of_opening hdemand hopen hgoes
        have hfewer := waiting_during hroute (components_mem_places hdemand.file)
        rw [← hopened] at hfewer
        omega
      cases outcome with
      | error error =>
          cases hnext : (s.route demand).next? with
          | none => exact ⟨_, rfl⟩
          | some handler =>
              obtain ⟨ended, hended⟩ := ih (hs.of_setup hsetup) (hdemand.handed hnext)
                (hinside (.inr (by simp [hnext])))
              exact ⟨_, Option.map_eq_some_iff.mpr ⟨ended, hended, rfl⟩⟩
      | ok code =>
          have hkeeps : Keeps (Deed.Requires (· ∈ files))
              (fun s' => s'.HooksOnly ∧ s'.loading = opened.loading) (require host depth) := by
            intro s' after inner loaded hinner ⟨hs', hloading⟩ hload
            have hkept := (maintained_setup hscripts s').require depth hinner rfl hload
            exact ⟨hs'.of_setup hkept, (loading_require hload).trans hloading⟩
          obtain ⟨⟨ran, ended⟩, hrun⟩ := hkeeps.run_finishes
            (fun {s' deed} hdeed ⟨hs', hloading⟩ =>
              ⟨hs'.of_setup (s'.setup_after hdeed.keepsSlots),
                (s'.loading_after deed).trans hloading⟩)
            (fun {s' inner} hinner ⟨hs', hloading⟩ =>
              ih hs' hinner (by rw [hloading]; exact hinside (.inl ⟨code, rfl⟩)))
            (hscripts code demand.file) ⟨hs.of_setup hsetup, rfl⟩
          exact ⟨_, Option.map_eq_some_iff.mpr
            ⟨_, Option.bind_eq_some_iff.mpr ⟨(ran, ended), hrun, rfl⟩, rfl⟩⟩

def Ranges (files : List Path) (s : Session) : Prop := ∀ active ∈ s.loading, active.Ranges files

theorem maintained_ranges
    (hscripts : ∀ code file, (host.evaluator code file).Does (Deed.Requires (· ∈ files))) :
    Maintained host (Deed.Requires (· ∈ files)) (Ranges files) where
  opening := fun {s demand} hdemand hs => by
    unfold Ranges
    rw [loading_opening]
    cases hroute : s.route demand with
    | refused error => exact hs
    | plain handler => exact hs
    | hook index hook entered =>
        obtain ⟨hhook, henter⟩ := route_eq_hook hroute
        have hactive := List.mem_of_getElem? (getElem?_loading hhook)
        exact forall_mem_modify hs fun _ _ _ => (hs _ hactive).enter hdemand.file henter
  handed := fun hdemand _ => hdemand.handed
  closing := fun {s s' demand} _ _ hs' => by
    cases s.route demand with
    | refused error => exact hs'
    | plain handler => exact hs'
    | hook index hook entered =>
        change ∀ active ∈ (s'.modifyHook index _).loading, active.Ranges files
        rw [loading_leave]
        exact forall_mem_modify hs' fun active _ hactive => hactive.leave demand.file
  after := fun {s deed} _ hs => by
    unfold Ranges
    rw [loading_after]
    exact hs
  scripts := hscripts

section
variable {start s : Session} {first demand : Demand} {pending : List (Nat × Path)} {depth : Nat}

theorem Within.starts {A : Deed → Prop} (h : Within host start first pending depth s demand)
    (hfirst : A (.ask first)) : Starts host A (fun _ _ => False) start depth s demand := by
  induction h with
  | top depth => exact .top depth .start hfirst
  | inside _ hinside ih => exact .inside ih hinside

/-- What loads keep, and the first load starts from, holds wherever one inside it starts. -/
theorem Within.holds {A : Deed → Prop} {Inv : Session → Prop} (hkeeps : Maintained host A Inv)
    (hwithin : Within host start first pending depth s demand) (hfirst : A (.ask first))
    (hstart : Inv start) : A (.ask demand) ∧ Inv s :=
  (hwithin.starts hfirst).holds hkeeps (fun _ hnever => hnever.elim) hstart

/-- A load that begins adds to the files in progress what it adds to the pending loads. -/
theorem depths_during (s : Session) (demand : Demand) :
    (((s.route demand).during s.loading).map (·.depth)).sum =
      (s.loading.map (·.depth)).sum + ((s.route demand).begun demand.file).length := by
  cases hroute : s.route demand with
  | refused error => rfl
  | plain handler => rfl
  | hook index hook entered =>
      obtain ⟨hhook, henter⟩ := route_eq_hook hroute
      have hsum := sum_map_modify (getElem?_loading hhook) (·.depth) fun _ => entered
      have hone : entered.depth = hook.inProgress.depth + 1 := by
        unfold InProgress.depth
        rw [InProgress.active_of_enter henter, List.length_append, List.length_singleton]
      dsimp only [Route.during, Route.begun, List.length_singleton]
      omega

/-- Inside a load as many files are in progress as loads are pending. -/
theorem Within.length_pending (hstart : start.Idle)
    (hwithin : Within host start first pending depth s demand) :
    pending.length = (s.loading.map (·.depth)).sum := by
  induction hwithin with
  | top depth =>
      have hnone : ∀ active ∈ start.loading, active.depth ≤ 0 := by
        intro active hactive
        rw [hstart active hactive]
        exact Nat.le_refl 0
      exact (Nat.le_zero.mp (sum_map_le hnone)).symm
  | @inside pending s s' demand inner depth _ hinside ih =>
      rw [hinside.loading_eq, depths_during, List.length_append, ih]

/-- Where only hooks load files, and the code asks for files out of a finite list, every load
finishes, be it at the top or inside others, and beyond a bound its outcome does not depend on
how deep loads may be nested. No hook has more loads under way at once than there are places,
and the hooks together no more than that for each of them. -/
theorem loads_finish_within {first : Path}
    (hscripts : ∀ code file, (host.evaluator code file).Does (Deed.Requires (· ∈ files)))
    (hstart : start.HooksOnly) (hwithin : Within host start first pending depth s demand) :
    (∃ ended, ∀ depth', start.hooks.length * (places (first :: files)).length < depth' →
      require host depth' s demand = some ended) ∧
    (start.Idle →
      (∀ active ∈ (s.opening host.transpiler demand).1.loading,
        active.depth ≤ (places (first :: files)).length) ∧
      (pending ++ (s.route demand).begun demand.file).length ≤
        start.hooks.length * (places (first :: files)).length) := by
  have hscripts' : ∀ code file,
      (host.evaluator code file).Does (Deed.Requires (· ∈ first :: files)) :=
    fun code file => (hscripts code file).imp
      (Deed.Requires.imp fun _ => List.mem_cons_of_mem first)
  have hfirst : (Deed.ask first).Requires (· ∈ first :: files) := List.mem_cons_self
  obtain ⟨hdemand, hsetup⟩ := hwithin.holds (maintained_setup hscripts' start) hfirst rfl
  have hlength : s.loading.length = start.hooks.length := by
    have hhooks := congrArg List.length (Prod.mk.inj hsetup).2
    simpa [loading] using hhooks
  constructor
  · have hwaiting := waiting_le (places (first :: files)) s.loading
    rw [hlength] at hwaiting
    obtain ⟨ended, hended⟩ := require_finishes hscripts' (hstart.of_setup hsetup) hdemand
      (Nat.lt_succ_of_le hwaiting)
    refine ⟨ended, fun depth' hdepth => ?_⟩
    obtain ⟨more, rfl⟩ := Nat.exists_eq_add_of_le (Nat.succ_le_of_lt hdepth)
    exact extends_require host _ more hended
  · intro hidle
    have hempty : Ranges (first :: files) start := by
      intro active hactive
      rw [hidle active hactive]
      exact InProgress.ranges_empty _
    have hmaintained := maintained_ranges hscripts'
    have hranges := (hwithin.holds hmaintained hfirst hempty).2
    have hdepths : ∀ active ∈ (s.opening host.transpiler demand).1.loading,
        active.depth ≤ (places (first :: files)).length :=
      fun active hactive => (hmaintained.opening hdemand hranges active hactive).depth_le
    refine ⟨hdepths, ?_⟩
    calc (pending ++ (s.route demand).begun demand.file).length
      _ = ((s.opening host.transpiler demand).1.loading.map (·.depth)).sum := by
        rw [loading_opening, depths_during, List.length_append, hwithin.length_pending hidle]
      _ ≤ (s.opening host.transpiler demand).1.loading.length *
          (places (first :: files)).length := sum_map_le hdepths
      _ = start.hooks.length * (places (first :: files)).length := by
        rw [← hlength, loading_opening]
        cases s.route demand <;> simp [Route.during]

end

/-- The two files that load each other come to an end, with two loads under way at most. -/
theorem two_files_finish :
    (∃ ended, ∀ depth, 2 < depth →
      require mutualHost depth twoSources (.load ⟨"/a.coffee"⟩) = some ended) ∧
    ∀ active ∈ (twoSources.opening mutualHost.transpiler (.load ⟨"/a.coffee"⟩)).1.loading,
      active.depth ≤ 2 := by
  have hscripts : ∀ code file, (mutualHost.evaluator code file).Does
      (Deed.Requires (· ∈ [(⟨"/b.coffee"⟩ : Path), ⟨"//a.coffee"⟩])) := by
    intro code file
    unfold mutualHost
    dsimp only
    split <;> exact ⟨by simp [Deed.Requires], fun _ => trivial⟩
  have hhooks : twoSources.HooksOnly := by
    apply HooksOnly.install
    intro extension handler h
    cases h
  have hplaces : (places [(⟨"/a.coffee"⟩ : Path), ⟨"/b.coffee"⟩, ⟨"//a.coffee"⟩]).length = 2 := by
    decide
  have hone : twoSources.hooks.length = 1 := by decide +kernel
  have htop : Within mutualHost twoSources (.load ⟨"/a.coffee"⟩) [] 0 twoSources
      (.load ⟨"/a.coffee"⟩) := .top 0
  obtain ⟨hfinish, hbound⟩ := loads_finish_within hscripts hhooks htop
  rw [hplaces, hone] at hfinish hbound
  exact ⟨hfinish, (hbound (by decide +kernel)).1⟩

end Session
end ModuleCache
