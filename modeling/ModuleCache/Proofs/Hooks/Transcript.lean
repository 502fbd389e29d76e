import ModuleCache.Proofs.Hooks.Accounts

/-!
What is printed over whole runs. A hook opens a progress line and closes it while it opens
one file, and the code of that file runs only afterwards. So what several hooks print, loads
nested in any way, is whole lines one behind the other, one for each compilation.
-/

namespace ModuleCache

/-- A compilation by a hook, as its progress line tells it. -/
structure Block where
  /-- The place of the source below the root of its cache. -/
  relative : String
  request : Transpiler.Request
  succeeded : Bool

/-- The progress line of a compilation. -/
def Block.text (b : Block) : String :=
  Progress.opening b.relative ++ if b.succeeded then Progress.done else Progress.failed

def transcript (blocks : List Block) : String := String.join (blocks.map (·.text))

theorem transcript_append (blocks blocks' : List Block) :
    transcript (blocks ++ blocks') = transcript blocks ++ transcript blocks' := by
  simp [transcript]

/-- The compilation of a load, if the hook that let it in asks the transpiler. -/
def Begun.block? (t : Transpiler) (begun : Begun) : Option Block :=
  match begun.session.route begun.demand with
  | .hook index hook _ =>
    (begun.ownRequests t index).head?.map fun request =>
      { relative := (hook.layout.place begun.file).relative.text
        request
        succeeded := !begun.failsToCompile t index }
  | _ => none

/-- The hook that let a load in could not compile the source. -/
def Begun.failsInHook (t : Transpiler) (begun : Begun) : Bool :=
  match begun.session.route begun.demand with
  | .hook index _ _ => begun.failsToCompile t index
  | _ => false

def Course.block? (relative : String) : Course → Option Block
  | failed request _ _ => some ⟨relative, request, false⟩
  | built request _ _ => some ⟨relative, request, true⟩
  | _ => none

namespace Begun

theorem block?_of_hook {t : Transpiler} {begun : Begun} {index : Nat} {hook : Hook}
    {entered : InProgress} (hroute : begun.session.route begun.demand = .hook index hook entered) :
    let course := hook.layout.course t begun.session.files begun.file
    begun.ownRequests t index = course.requests ∧
      begun.block? t = course.block? (hook.layout.place begun.file).relative.text ∧
      begun.failsInHook t = (begun.block? t).any (!·.succeeded) := by
  obtain ⟨obtained, hobtained, hmade⟩ := begun.obtained?_of_hook t index hroute
  unfold block? failsInHook ownRequests failsToCompile
  rw [hroute]
  dsimp only
  rw [hobtained]
  dsimp only
  rw [hmade, List.drop_left]
  cases hook.layout.course t begun.session.files begun.file <;> exact ⟨rfl, rfl, rfl⟩

theorem failsInHook_eq (t : Transpiler) (begun : Begun) :
    begun.failsInHook t = (begun.block? t).any (!·.succeeded) := by
  cases hroute : begun.session.route begun.demand with
  | refused error => simp [failsInHook, block?, hroute]
  | plain handler => simp [failsInHook, block?, hroute]
  | hook index hook entered => exact (block?_of_hook hroute).2.2

/-- Opening a file prints nothing where no hook asks the transpiler. -/
theorem silent_of_ownRequests {t : Transpiler} {begun : Begun}
    (h : ∀ index, begun.ownRequests t index = []) :
    begun.block? t = none ∧ (begun.opened t).printed = begun.session.printed := by
  unfold opened
  cases hroute : begun.session.route begun.demand with
  | refused error =>
      rw [Session.opening_of_refused t hroute]
      exact ⟨by simp [block?, hroute], rfl⟩
  | plain handler =>
      obtain ⟨notes, hopen⟩ := Session.opening_of_plain t hroute
      rw [hopen]
      exact ⟨by simp [block?, hroute], rfl⟩
  | hook index hook entered =>
      obtain ⟨hown, hblock, -⟩ := @block?_of_hook t begun _ _ _ hroute
      obtain ⟨notes, hopen⟩ := Session.opening_of_hook t hroute
      have hmade := hown.symm.trans (h index)
      rw [hopen, hblock]
      dsimp only [file] at hmade ⊢
      generalize hook.layout.course t begun.session.files begun.demand.file = course at hmade ⊢
      cases course with
      | served code => exact ⟨rfl, String.append_empty⟩
      | unread cause => exact ⟨rfl, String.append_empty⟩
      | failed request compiled error => cases hmade
      | built request output written => cases hmade

end Begun

namespace Session

/-- All hooks print progress lines as they are. -/
def IsPlain (s : Session) : Prop := ∀ hook ∈ s.hooks, hook.style = .plain

theorem IsPlain.of_setups {s s' : Session} (h : s.IsPlain)
    (hsetups : s'.hooks.map Hook.setup = s.hooks.map Hook.setup) : s'.IsPlain := by
  have hstyles := congrArg (List.map (·.2.1)) hsetups
  rw [List.map_map, List.map_map] at hstyles
  intro hook hhook
  have hstyle : hook.style ∈ s.hooks.map (·.style) := by
    have hmem := List.mem_map_of_mem (f := fun h : Hook => h.style) hhook
    exact hstyles ▸ hmem
  obtain ⟨other, hother, hsame⟩ := List.mem_map.mp hstyle
  exact hsame ▸ h other hother

/-- The compilations that all hooks have counted together. -/
def compiles (s : Session) : Nat := (s.hooks.map (·.counters.compiles)).sum

end Session

/-- What a run prints, asks for and counts, told by the compilations of its loads. -/
structure Told (t : Transpiler) (s : Session) (begun : List Begun) (s' : Session) : Prop where
  printed : s'.printed = s.printed ++ transcript (begun.filterMap (·.block? t))
  /-- Where a load begins, whole lines have been printed. -/
  whole : ∀ e ∈ begun, ∃ earlier, earlier <+: begun.filterMap (·.block? t) ∧
    e.session.printed = s.printed ++ transcript earlier
  /-- The lines stand in the order in which the transpiler was asked. -/
  order : ∃ made, s'.requests = s.requests ++ made ∧
    ((begun.filterMap (·.block? t)).map (·.request)).Sublist made
  compiles : s'.compiles = s.compiles + (begun.filterMap (·.block? t)).countP (·.succeeded)

theorem Told.of_same {t : Transpiler} {s s' : Session} (hprinted : s'.printed = s.printed)
    (hrequests : s'.requests = s.requests) (hcompiles : s'.compiles = s.compiles) :
    Told t s [] s' where
  printed := by rw [hprinted]; exact String.append_empty.symm
  whole := fun _ he => (List.not_mem_nil he).elim
  order := ⟨[], by rw [hrequests, List.append_nil], .slnil⟩
  compiles := hcompiles

theorem Told.trans {t : Transpiler} {s mid s' : Session} {begun begun' : List Begun}
    (h : Told t s begun mid) (h' : Told t mid begun' s') : Told t s (begun ++ begun') s' := by
  obtain ⟨made, hmade, hsub⟩ := h.order
  obtain ⟨made', hmade', hsub'⟩ := h'.order
  refine ⟨?_, ?_, ⟨made ++ made', ?_, ?_⟩, ?_⟩
  · rw [List.filterMap_append, transcript_append, h'.printed, h.printed, String.append_assoc]
  · intro e he
    rw [List.filterMap_append]
    rcases List.mem_append.mp he with hfirst | hsecond
    · obtain ⟨earlier, hprefix, hprinted⟩ := h.whole e hfirst
      exact ⟨earlier, hprefix.trans (List.prefix_append _ _), hprinted⟩
    · obtain ⟨earlier, hprefix, hprinted⟩ := h'.whole e hsecond
      refine ⟨begun.filterMap (·.block? t) ++ earlier, (List.prefix_append_right_inj _).mpr hprefix,
        ?_⟩
      rw [hprinted, h.printed, transcript_append, String.append_assoc]
  · rw [hmade', hmade, List.append_assoc]
  · rw [List.filterMap_append, List.map_append]
    exact hsub.append hsub'
  · rw [List.filterMap_append, List.countP_append, h'.compiles, h.compiles, Nat.add_assoc]

theorem Session.compiles_modifyHook {s : Session} {index : Nat} {hook : Hook}
    (h : s.hooks[index]? = some hook) (change : Hook → Hook) (raised : Nat)
    (hchange : (change hook).counters.compiles = hook.counters.compiles + raised) :
    (s.modifyHook index change).compiles = s.compiles + raised := by
  have hsum := sum_map_modify h (·.counters.compiles) change
  unfold compiles modifyHook
  dsimp only at hsum ⊢
  omega

theorem Told.of_one {t : Transpiler} {s s' : Session} {demand : Demand} {block : Option Block}
    (hblock : Begun.block? t ⟨s, demand⟩ = block) (made : List Transpiler.Request)
    (hprinted : s'.printed = s.printed ++ transcript block.toList)
    (hrequests : s'.requests = s.requests ++ made)
    (horder : (block.toList.map (·.request)).Sublist made)
    (hcompiles : s'.compiles = s.compiles + block.toList.countP (·.succeeded)) :
    Told t s [⟨s, demand⟩] s' := by
  have hblocks : [(⟨s, demand⟩ : Begun)].filterMap (·.block? t) = block.toList := by
    cases block <;> simp [hblock]
  rw [← hblocks] at hprinted horder hcompiles
  refine ⟨hprinted, ?_, ⟨made, hrequests, horder⟩, hcompiles⟩
  intro begun hbegun
  rw [List.mem_singleton.mp hbegun]
  exact ⟨[], List.nil_prefix, String.append_empty.symm⟩

/-- Opening a file prints nothing, or the whole line of a compilation. -/
theorem told_opening {s : Session} (t : Transpiler) (demand : Demand) (hplain : s.IsPlain) :
    Told t s [⟨s, demand⟩] (s.opening t demand).1 := by
  cases hroute : s.route demand with
  | refused error =>
      have hblock : Begun.block? t ⟨s, demand⟩ = none := by simp [Begun.block?, hroute]
      rw [Session.opening_of_refused t hroute]
      apply Told.of_one hblock [] <;> simp [transcript]
  | plain handler =>
      have hblock : Begun.block? t ⟨s, demand⟩ = none := by simp [Begun.block?, hroute]
      obtain ⟨notes, hopen⟩ := Session.opening_of_plain t hroute
      rw [hopen]
      apply Told.of_one hblock (handler.supply t s.files demand.file).requests <;>
        simp [transcript, Session.compiles]
  | hook index hook entered =>
      obtain ⟨hhook, -⟩ := Session.route_eq_hook hroute
      have hstyle : hook.style = .plain := hplain hook (List.mem_of_getElem? hhook)
      obtain ⟨-, hblock, -⟩ := @Begun.block?_of_hook t ⟨s, demand⟩ _ _ _ hroute
      obtain ⟨notes, hopen⟩ := Session.opening_of_hook t hroute
      dsimp only [Begun.file] at hblock hopen
      rw [hopen, hstyle]
      generalize hook.layout.course t s.files demand.file = course at hblock ⊢
      refine Told.of_one hblock (course.requests ++ _) ?_ (List.append_assoc _ _ _) ?_
        ((Session.compiles_modifyHook hhook _ course.tally.compiles rfl).trans ?_)
      · cases course <;>
          simp [Course.printed, Course.block?, transcript, Block.text, Progress.Style.render]
      · cases course <;> simp [Course.requests, Course.block?]
      · cases course with
        | built request output written =>
            obtain ⟨writeFailed, mapFailed, -, htally⟩ := Course.tally_built request output written
            rw [htally]
            rfl
        | _ => rfl

theorem told_closing (t : Transpiler) (r : Session.Route) (p : Path) (s : Session) :
    Told t s [] (r.closing p s) := by
  cases r with
  | refused error => exact .of_same rfl rfl rfl
  | plain handler => exact .of_same rfl rfl rfl
  | hook index hook entered =>
      refine .of_same rfl rfl ?_
      unfold Session.compiles Session.Route.closing Session.modifyHook
      rw [Session.map_modify_of_eq]
      intro hook
      rfl

/-- Code prints and asks for nothing itself. -/
theorem told_after (t : Transpiler) (s : Session) (deed : Deed) : Told t s [] (s.after deed) := by
  obtain ⟨files, registry, records, hafter⟩ := s.after_eq deed
  rw [hafter]
  exact .of_same rfl rfl rfl

theorem ledger_told (host : Host) : Ledger host fun s begun s' =>
    s.IsPlain → s'.IsPlain ∧ Told host.transpiler s begun s' where
  refl := fun _ hplain => ⟨hplain, .of_same rfl rfl rfl⟩
  trans := fun h h' hplain =>
    have ⟨hmid, htold⟩ := h hplain
    have ⟨hend, htold'⟩ := h' hmid
    ⟨hend, htold.trans htold'⟩
  opening := fun s demand hplain =>
    ⟨hplain.of_setups (Prod.mk.inj (s.setup_opening host.transpiler demand)).2,
      told_opening host.transpiler demand hplain⟩
  closing := fun r p s hplain =>
    ⟨hplain.of_setups (Prod.mk.inj (Session.setup_closing r p s)).2,
      told_closing host.transpiler r p s⟩
  after := fun s deed hplain =>
    ⟨hplain.of_setups (congrArg _ (s.hooks_after deed)), told_after host.transpiler s deed⟩

/-- Between loads nobody else prints, compiles or changes how lines look. -/
structure Session.KeepsTranscript (s s' : Session) : Prop where
  plain : s.IsPlain → s'.IsPlain
  printed : s'.printed = s.printed
  requests : s'.requests = s.requests
  compiles : s'.compiles = s.compiles

/-- What the hooks print in a run, told by its loads. -/
structure Transcribed (t : Transpiler) (start : Session) (begun : List Begun) (s : Session) : Prop
    extends Told t start begun s where
  /-- A line that says so for every compilation that failed. -/
  failures : (begun.filterMap (·.block? t)).countP (!·.succeeded) = begun.countP (·.failsInHook t)
  /-- Where no hook asks the transpiler itself, nothing is printed. -/
  silent : ∀ e ∈ begun, (∀ index, e.ownRequests t index = []) →
    e.block? t = none ∧ (e.opened t).printed = e.session.printed

/-- Over any run of loads, nested to any depth and with any outcomes, hooks that share a
buffer fill it with the whole lines of their compilations, in the order in which these took
place: one that says it is done for each compilation that the hooks count, and one that says
it failed for each that did not succeed. -/
theorem printed_is_transcript {host : Host} {start s : Session} {begun : List Begun}
    (hrun : Ran host Session.KeepsTranscript start begun s) (hplain : start.IsPlain) :
    Transcribed host.transpiler start begun s := by
  have htold : Told host.transpiler start begun s :=
    ((ledger_told host).ran (fun h hplain => ⟨h.plain hplain,
      .of_same h.printed h.requests h.compiles⟩) hrun hplain).2
  refine ⟨htold, ?_, fun _ _ => Begun.silent_of_ownRequests⟩
  rw [List.countP_filterMap]
  apply List.countP_congr
  intro e _
  rw [Begun.failsInHook_eq]
  cases e.block? host.transpiler <;> rfl

/-- The two files that load each other, with a hook that prints. -/
def printingSources : Session :=
  { Session.twoSources with
    hooks := Session.twoSources.hooks.map fun hook => { hook with style := .plain } }

/-- A transpiler that crashes on one of the two sources. -/
def crashingHost : Host where
  transpiler := ⟨"crash", fun fs request => ⟨fs, [],
    if request.source = "y" then .error (.crashed none) else .ok ⟨request.source, none⟩⟩⟩
  evaluator := Session.mutualHost.evaluator

/-- The line of the file that asks for the other one is whole before the other one begins. -/
theorem lines_of_two_files : ∃ begun s,
    Ran crashingHost Session.KeepsTranscript printingSources begun s ∧
      s.printed = "compiling a.coffee...Done\ncompiling b.coffee...failed\n" ∧
      Transcribed crashingHost.transpiler printingSources begun s := by
  have hprinted : (Session.require crashingHost 3 printingSources (.load ⟨"/a.coffee"⟩)).map
      (·.1.printed) = some "compiling a.coffee...Done\ncompiling b.coffee...failed\n" := by
    decide +kernel
  obtain ⟨⟨s, loaded⟩, hload, hlines⟩ := Option.map_eq_some_iff.mp hprinted
  have hrun : Ran crashingHost Session.KeepsTranscript printingSources _ s :=
    .require .start hload
  have hplain : printingSources.IsPlain := by
    intro hook hhook
    obtain ⟨silent, -, rfl⟩ := List.mem_map.mp hhook
    rfl
  exact ⟨_, s, hrun, hlines, printed_is_transcript hrun hplain⟩

end ModuleCache
