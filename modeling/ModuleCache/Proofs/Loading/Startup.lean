import ModuleCache.Proofs.Loading.Registration
import ModuleCache.Proofs.Trace.Offers

/-!
A process in which loaders are brought up. Chains are shared: that of a loader may also be
the published one, so here every chain is known by a number, and whoever has the number works
on the same chain. Whatever is called in whatever order, the chain that is published first
stays the published one, bringing a loader up fails only when there is no transpiler, and a
loader that was brought up keeps its slot, its fallback, and the retriever of the transpiler
out of its chain.
-/

namespace ModuleCache

/-- The hook of the loader holds the slot for sources and falls back on the handler that
compiles on every load. -/
structure Session.HeldBy (s : Session) (settings : Settings) : Prop where
  slot : s.registry.slot? settings.extensions.source = some (.claimed (.hook Runtime.hook))
  hook : ∃ hook, s.hooks[Runtime.hook]? = some hook ∧ hook.layout = settings.layout ∧
    hook.isRegistered = true ∧ hook.fallback = some (.plain (.uncached settings.extensions))

namespace Session

/-- A registered hook stays as it is, whatever is called. -/
theorem hooks_call_of_registered {s : Session} {index : Nat} {hook : Hook}
    (hhook : s.hooks[index]? = some hook) (hregistered : hook.isRegistered = true)
    (c : SetupCall) : (s.call c).hooks[index]? = some hook := by
  cases c with
  | register extension offer => exact hooks_take s false extension offer ▸ hhook
  | claim extension offer => exact hooks_take s true extension offer ▸ hhook
  | create layout style =>
      have hlt := (List.getElem?_eq_some_iff.mp hhook).1
      exact (List.getElem?_append_left hlt).trans hhook
  | install other =>
      change (s.install other).1.hooks[index]? = some hook
      obtain ⟨-, h⟩ | ⟨own, hown, hfresh, ⟨-, h⟩ | ⟨-, -, -, hhooks⟩⟩ := install_cases s other
      · rw [h]
        exact hhook
      · rw [h]
        exact hhook
      · rw [hhooks, if_neg, hhook]
        rintro rfl
        rw [Option.some.inj (hhook.symm.trans hown), hfresh] at hregistered
        cases hregistered

variable {s : Session} {settings : Settings}

theorem HeldBy.call (h : s.HeldBy settings) (c : SetupCall) : (s.call c).HeldBy settings := by
  obtain ⟨hook, hhook, hlayout, hregistered, hfallback⟩ := h.hook
  exact ⟨slot?_call h.slot c, hook, hooks_call_of_registered hhook hregistered c, hlayout,
    hregistered, hfallback⟩

theorem HeldBy.of_setups (h : s.HeldBy settings) {s' : Session}
    (hslot : s'.registry.slot? settings.extensions.source =
      s.registry.slot? settings.extensions.source)
    (hsetups : s'.hooks.map Hook.setup = s.hooks.map Hook.setup) : s'.HeldBy settings := by
  obtain ⟨hook, hhook, hlayout, hregistered, hfallback⟩ := h.hook
  obtain ⟨hook', hhook', hkept⟩ := exists_hook_of_setups hsetups hhook
  obtain ⟨hlayout', hrest⟩ := Prod.mk.inj hkept
  obtain ⟨-, hrest⟩ := Prod.mk.inj hrest
  obtain ⟨hfallback', hregistered'⟩ := Prod.mk.inj hrest
  exact ⟨hslot.trans h.slot, hook', hhook', hlayout'.trans hlayout, hregistered'.trans hregistered,
    hfallback'.trans hfallback⟩

theorem HeldBy.of_setup (h : s.HeldBy settings) {s' : Session} (hsetup : s'.setup = s.setup) :
    s'.HeldBy settings := by
  obtain ⟨hregistry, hsetups⟩ := Prod.mk.inj hsetup
  exact h.of_setups (by rw [hregistry]) hsetups

/-- Whatever is loaded, and whatever the code does, the hook holds its slot. -/
theorem HeldBy.require (h : s.HeldBy settings) {host : Host} {depth : Nat} {demand : Demand}
    {s' : Session} {loaded : Loaded}
    (hload : Session.require host depth s demand = some (s', loaded)) : s'.HeldBy settings :=
  h.of_setups ((slot?_require h.slot hload).trans h.slot.symm) (setups_require hload)

/-- Installed at the start, the hook holds its slot. -/
theorem heldBy_install (settings : Settings) (style : Progress.Style) (files : FileSystem) :
    let started := (Runtime.sessionAtStart settings style files).install Runtime.hook
    started.1.HeldBy settings ∧ started.2 = .ok () := by
  intro started
  have hslot : (Runtime.sessionAtStart settings style files).registry.slot?
      settings.extensions.source = some (.registered (.plain (.uncached settings.extensions))) :=
    (slot?_set .empty _ _ _).trans (if_pos rfl)
  have hhook : (Runtime.sessionAtStart settings style files).hooks[Runtime.hook]? =
      some { layout := settings.layout, style } := rfl
  obtain ⟨hdone, -⟩ | ⟨hook, hown, -, ⟨hclaimed, -⟩ | ⟨-, hok, hregistry, hhooks⟩⟩ :=
    install_cases (Runtime.sessionAtStart settings style files) Runtime.hook
  · cases hdone _ hhook
  · rw [← Option.some.inj (hhook.symm.trans hown)] at hclaimed
    obtain ⟨handler, hother⟩ := isClaimed_iff.mp hclaimed
    cases hslot.symm.trans hother
  · obtain rfl := Option.some.inj (hhook.symm.trans hown)
    refine ⟨⟨?_, _, (hhooks _).trans (if_pos rfl), rfl, rfl, Registry.handler?_of_slot? hslot⟩, hok⟩
    rw [hregistry, slot?_set]
    exact if_pos rfl

end Session

/-- With a transpiler, a loader is brought up and its chain handed over for publication. -/
theorem Runtime.init_of_found (settings : Settings) (t : Transpiler) (found : Journal)
    (evaluator : Evaluator) (style : Progress.Style) (files : FileSystem)
    (published : Trace.Published) :
    ∃ session notes, session.HeldBy settings ∧
      Runtime.init settings (.ok t, found) evaluator style files published =
        (.ok ⟨settings, ⟨t, evaluator⟩, session, chainFor settings.layout⟩,
          (Trace.publish published (chainFor settings.layout)).1, notes) := by
  obtain ⟨hheld, hok⟩ := Session.heldBy_install settings style files
  unfold Runtime.init
  rcases hinstall : (sessionAtStart settings style files).install hook with ⟨session, outcome⟩
  rw [hinstall] at hheld hok
  cases outcome with
  | error e => cases hok
  | ok done =>
      refine ⟨_, _, ?_, rfl⟩
      apply hheld.of_setup
      dsimp only
      split <;> rfl

namespace Process

/-- A loader that was brought up, with the number of its chain. -/
structure Loader where
  settings : Settings
  host : Host
  session : Session
  chain : Nat

end Process

/-- The chains of a process in the order in which they were made, the loaders that were
brought up, and the number of the chain that is published. -/
structure Process where
  chains : List Trace.Chain := []
  loaders : List Process.Loader := []
  published : Option Nat := none

namespace Process

/-- The chain that is published, as it stands. -/
def publishedChain (p : Process) : Trace.Published := p.published.bind (p.chains[·]?)

/-- The number of the published chain once a call leaves `after` published: the one from
before, and if there was none, that of the chain the call is about. -/
def numberFor (p : Process) (own : Nat) (after : Trace.Published) : Option Nat :=
  p.published.or (after.map fun _ => own)

/-- Brings a loader up. Its chain is a new one. -/
def init (p : Process) (settings : Settings) (located : Located) (evaluator : Evaluator)
    (style : Progress.Style) (files : FileSystem) : Process × Except InitError Unit :=
  match Runtime.init settings located evaluator style files p.publishedChain with
  | (.error e, after, _) =>
    ({ p with published := p.numberFor p.chains.length after }, .error e)
  | (.ok rt, after, _) =>
    ({ chains := p.chains ++ [rt.chain]
       loaders := p.loaders ++ [⟨rt.settings, rt.host, rt.session, p.chains.length⟩]
       published := p.numberFor p.chains.length after }, .ok ())

/-- Publishes a chain and says whether that took effect. -/
def publish (p : Process) (index : Nat) : Process × Bool :=
  match p.chains[index]? with
  | none => (p, false)
  | some chain =>
    let (after, isFirst) := Trace.publish p.publishedChain chain
    ({ p with published := p.numberFor index after }, isFirst)

inductive Call where
  | init (settings : Settings) (located : Located) (evaluator : Evaluator)
    (style : Progress.Style) (files : FileSystem)
  /-- Somebody makes a chain of his own. -/
  | create
  | publish (index : Nat)
  /-- Something is offered to a chain, or blocked in it. -/
  | offer (index : Nat) (made : Trace.Chain.Call)
  /-- Something is registered or claimed in a loader, or another hook installed. -/
  | setUp (index : Nat) (made : SetupCall)
  /-- A file is loaded, or code is run. -/
  | require (index depth : Nat) (demand : Demand)

/-- A loader after a demand was met; it stays as it is if that comes to no end. -/
def Loader.require (l : Loader) (depth : Nat) (demand : Demand) : Loader :=
  { l with session := ((Session.require l.host depth l.session demand).map (·.1)).getD l.session }

def call (p : Process) : Call → Process
  | .init settings located evaluator style files =>
    (p.init settings located evaluator style files).1
  | .create => { p with chains := p.chains ++ [.empty] }
  | .publish index => (p.publish index).1
  | .offer index made => { p with chains := p.chains.modify index (·.call made) }
  | .setUp index made =>
    { p with loaders := p.loaders.modify index fun l => { l with session := l.session.call made } }
  | .require index depth demand =>
    { p with loaders := p.loaders.modify index (·.require depth demand) }

def calls (p : Process) (history : List Call) : Process := history.foldl call p

theorem calls_append (p : Process) (history later : List Call) :
    p.calls (history ++ later) = (p.calls history).calls later := List.foldl_append

/-- The number of the chain that a call hands over for publication: that of a loader that can
be brought up, or one that was made before. -/
def offered? (p : Process) : Call → Option Nat
  | .init _ (.ok _, _) _ _ _ => some p.chains.length
  | .publish index => if index < p.chains.length then some index else none
  | _ => none

/-- Without a transpiler nothing changes. With one there is a loader more, with a chain of its
own, which is published if nothing was. -/
theorem init_cases (p : Process) (settings : Settings) (located : Located) (evaluator : Evaluator)
    (style : Progress.Style) (files : FileSystem) :
    (∃ cause notes, located = (.error cause, notes) ∧
      p.init settings located evaluator style files = (p, .error (.transpiler cause))) ∨
    ∃ t notes session, located = (.ok t, notes) ∧ session.HeldBy settings ∧
      p.init settings located evaluator style files =
        ({ chains := p.chains ++ [Runtime.chainFor settings.layout]
           loaders := p.loaders ++ [⟨settings, ⟨t, evaluator⟩, session, p.chains.length⟩]
           published := p.published.or (some p.chains.length) }, .ok ()) := by
  rcases located with ⟨found, notes⟩
  cases found with
  | error cause =>
      refine .inl ⟨cause, notes, rfl, ?_⟩
      have hsame : p.numberFor p.chains.length p.publishedChain = p.published := by
        unfold numberFor publishedChain
        cases p.published <;> rfl
      change ({ p with published := p.numberFor p.chains.length p.publishedChain }, _) = _
      rw [hsame]
  | ok t =>
      obtain ⟨session, after, hheld, hinit⟩ :=
        Runtime.init_of_found settings t notes evaluator style files p.publishedChain
      refine .inr ⟨t, notes, session, rfl, hheld, ?_⟩
      unfold init
      rw [hinit]
      dsimp only
      unfold numberFor
      cases p.publishedChain <;> rfl

/-- The numbers of a process lead to chains, and its loaders are as they were brought up. -/
structure Established (p : Process) : Prop where
  numbered : ∀ index, p.published = some index → index < p.chains.length
  held : ∀ l ∈ p.loaders, l.session.HeldBy l.settings
  chains : ∀ l ∈ p.loaders, ∃ chain, p.chains[l.chain]? = some chain ∧ chain.Exclusive ∧
    Trace.builtinId ∈ chain.blocked

theorem Established.publish_cases {p : Process} (h : p.Established) (index : Nat) :
    (p.published = none ∧ index < p.chains.length ∧
      p.publish index = ({ p with published := some index }, true)) ∨
    (¬(p.published = none ∧ index < p.chains.length) ∧ p.publish index = (p, false)) := by
  unfold publish
  cases hchain : p.chains[index]? with
  | none =>
      refine .inr ⟨?_, rfl⟩
      rintro ⟨-, hlt⟩
      exact absurd (List.getElem?_eq_none_iff.mp hchain) (Nat.not_le_of_gt hlt)
  | some chain =>
      have hlt := (List.getElem?_eq_some_iff.mp hchain).1
      unfold publishedChain numberFor
      cases hpublished : p.published with
      | none => exact .inl ⟨rfl, hlt, rfl⟩
      | some first =>
          obtain ⟨own, hfirst⟩ : ∃ own, p.chains[first]? = some own :=
            ⟨_, List.getElem?_eq_getElem (h.numbered first hpublished)⟩
          refine .inr ⟨fun hnone => (nomatch hnone.1), ?_⟩
          simp only [Option.bind_some, hfirst, Trace.publish, Option.some_or]
          rw [← hpublished]

theorem builtin_blocked_chainFor (l : Layout) : (Runtime.chainFor l).Exclusive ∧
    Trace.builtinId ∈ (Runtime.chainFor l).blocked := by
  have hcalls : Runtime.chainFor l = Trace.Chain.empty.calls
      [.block Trace.builtinId, .insert .back (Trace.cacheRetriever l)] := rfl
  rw [hcalls]
  exact ⟨Trace.Chain.exclusive_empty.calls _, Trace.Chain.mem_blocked_calls.mpr (.inr (by simp))⟩

/-- More chains leave the numbers where they lead. -/
theorem Established.chains_append {p : Process} (h : p.Established) (more : List Trace.Chain) :
    ({ p with chains := p.chains ++ more } : Process).Established where
  numbered := fun index hindex => by
    have hlt := h.numbered index hindex
    rw [List.length_append]
    exact Nat.lt_add_right _ hlt
  held := h.held
  chains := fun l hl => by
    obtain ⟨chain, hchain, hkept⟩ := h.chains l hl
    have hlt := (List.getElem?_eq_some_iff.mp hchain).1
    exact ⟨chain, (List.getElem?_append_left hlt).trans hchain, hkept⟩

/-- What a loader's session is changed to does not matter, as long as the hook holds its
slot. -/
theorem Established.modify_loaders {p : Process} (h : p.Established) (index : Nat)
    (change : Loader → Loader) (hsettings : ∀ l, (change l).settings = l.settings)
    (hchain : ∀ l, (change l).chain = l.chain)
    (hheld : ∀ l, l.session.HeldBy l.settings → (change l).session.HeldBy l.settings) :
    ({ p with loaders := p.loaders.modify index change } : Process).Established where
  numbered := h.numbered
  held := Session.forall_mem_modify h.held fun l _ hl => by
    rw [hsettings]
    exact hheld l hl
  chains := Session.forall_mem_modify h.chains fun l _ hl => by
    rw [hchain]
    exact hl

theorem Established.call {p : Process} (h : p.Established) (c : Call) : (p.call c).Established := by
  cases c with
  | init settings located evaluator style files =>
      change (p.init settings located evaluator style files).1.Established
      obtain ⟨cause, notes, -, hinit⟩ | ⟨t, notes, session, -, hheld, hinit⟩ :=
        p.init_cases settings located evaluator style files
      · rw [hinit]
        exact h
      · rw [hinit]
        have hmore := h.chains_append [Runtime.chainFor settings.layout]
        constructor
        · intro index hindex
          cases hpublished : p.published with
          | some first =>
              rw [hpublished] at hindex
              exact hmore.numbered index (hpublished.trans hindex)
          | none =>
              rw [hpublished] at hindex
              rw [← Option.some.inj hindex, List.length_append]
              exact Nat.lt_succ_self _
        · intro l hl
          rcases List.mem_append.mp hl with hold | hnew
          · exact hmore.held l hold
          · rw [List.mem_singleton.mp hnew]
            exact hheld
        · intro l hl
          rcases List.mem_append.mp hl with hold | hnew
          · exact hmore.chains l hold
          · rw [List.mem_singleton.mp hnew]
            exact ⟨_, List.getElem?_concat_length, builtin_blocked_chainFor settings.layout⟩
  | create => exact h.chains_append [.empty]
  | publish index =>
      change (p.publish index).1.Established
      obtain ⟨-, hlt, hfirst⟩ | ⟨-, hsame⟩ := h.publish_cases index
      · rw [hfirst]
        exact ⟨fun other hother => Option.some.inj hother ▸ hlt, h.held, h.chains⟩
      · rw [hsame]
        exact h
  | offer index made =>
      refine ⟨?_, h.held, ?_⟩
      · intro other hother
        change other < (p.chains.modify index _).length
        rw [List.length_modify]
        exact h.numbered other hother
      · intro l hl
        obtain ⟨chain, hchain, hexclusive, hblocked⟩ := h.chains l hl
        change ∃ after, (p.chains.modify index _)[l.chain]? = some after ∧ _
        rw [List.getElem?_modify, hchain]
        by_cases heq : index = l.chain
        · refine ⟨chain.call made, by simp [heq], hexclusive.call made, ?_⟩
          exact (@Trace.Chain.mem_blocked_calls chain [made] _).mpr (.inl hblocked)
        · exact ⟨chain, by simp [heq], hexclusive, hblocked⟩
  | setUp index made =>
      exact h.modify_loaders index _ (fun _ => rfl) (fun _ => rfl) fun _ hl => hl.call made
  | require index depth demand =>
      apply h.modify_loaders index (·.require depth demand) (fun _ => rfl) (fun _ => rfl)
      intro l hl
      unfold Loader.require
      cases hload : Session.require l.host depth l.session demand with
      | none => exact hl
      | some ended => exact hl.require hload

theorem Established.calls {p : Process} (h : p.Established) (history : List Call) :
    (p.calls history).Established := by
  induction history generalizing p with
  | nil => exact h
  | cons c later ih => exact ih (h.call c)

/-- A process in which nothing was called yet. -/
def fresh : Process := {}

theorem established_fresh : fresh.Established :=
  ⟨fun _ h => (nomatch h), fun _ h => (List.not_mem_nil h).elim,
    fun _ h => (List.not_mem_nil h).elim⟩

/-- What a call leaves published: what was before, and if nothing was, what it hands over. -/
theorem Established.published_call {p : Process} (h : p.Established) (c : Call) :
    (p.call c).published = p.published.or (p.offered? c) := by
  cases c with
  | init settings located evaluator style files =>
      change (p.init settings located evaluator style files).1.published = _
      obtain ⟨cause, notes, rfl, hinit⟩ | ⟨t, notes, session, rfl, -, hinit⟩ :=
        p.init_cases settings located evaluator style files
      · rw [hinit]
        exact (Option.or_none).symm
      · rw [hinit]
        rfl
  | publish index =>
      change (p.publish index).1.published = p.published.or (if _ then _ else _)
      obtain ⟨hnone, hlt, hfirst⟩ | ⟨hnot, hsame⟩ := h.publish_cases index
      · rw [hfirst, hnone, if_pos hlt]
        rfl
      · rw [hsame]
        cases hpublished : p.published with
        | some first => rfl
        | none =>
            rw [if_neg fun hlt => hnot ⟨hpublished, hlt⟩]
            rfl
  | create => exact (Option.or_none).symm
  | offer index made => exact (Option.or_none).symm
  | setUp index made => exact (Option.or_none).symm
  | require index depth demand => exact (Option.or_none).symm

/-- What is published stays published. -/
theorem Established.published_calls {p : Process} (h : p.Established) {index : Nat}
    (hpublished : p.published = some index) (later : List Call) :
    (p.calls later).published = some index := by
  induction later generalizing p with
  | nil => exact hpublished
  | cons c later ih =>
      apply ih (h.call c)
      rw [h.published_call, hpublished]
      rfl

theorem Established.published_eq_none_iff {p : Process} (h : p.Established)
    (hfresh : p.published = none) {history : List Call} :
    (p.calls history).published = none ↔ ∀ earlier c later, history = earlier ++ c :: later →
      (p.calls earlier).offered? c = none := by
  induction history generalizing p with
  | nil =>
      refine iff_of_true hfresh ?_
      intro earlier c later heq
      cases earlier <;> cases heq
  | cons first rest ih =>
      have hfirst := h.published_call first
      rw [hfresh] at hfirst
      change ((p.call first).calls rest).published = none ↔ _
      constructor
      · intro hnone earlier c later heq
        have hnothing : (p.call first).published = none := by
          cases hpublished : (p.call first).published with
          | none => rfl
          | some index =>
              rw [(h.call first).published_calls hpublished rest] at hnone
              cases hnone
        cases earlier with
        | nil =>
            obtain ⟨rfl, -⟩ := List.cons.inj heq
            exact hfirst.symm.trans hnothing
        | cons made earlier =>
            obtain ⟨rfl, hrest⟩ := List.cons.inj heq
            exact (ih (h.call first) hnothing).mp hnone earlier c later hrest
      · intro hall
        have hnothing : (p.call first).published = none :=
          hfirst.trans (hall [] first rest rfl)
        rw [ih (h.call first) hnothing]
        intro earlier c later heq
        exact hall (first :: earlier) c later (congrArg (first :: ·) heq)

/-- What holds in a process after any history of calls. -/
structure Upheld (history : List Call) (p : Process) : Prop where
  /-- Nothing is published as long as no call hands a chain over. -/
  absent : p.published = none ↔ ∀ earlier c later, history = earlier ++ c :: later →
    (fresh.calls earlier).offered? c = none
  /-- The chain that is handed over first is published from then on. -/
  first : ∀ earlier c later index, history = earlier ++ c :: later →
    (fresh.calls earlier).published = none → (fresh.calls earlier).offered? c = some index →
    p.published = some index
  same : ∀ index, p.published = some index → ∀ later, (p.calls later).published = some index
  /-- A publication takes effect exactly if it is the first one, and otherwise changes
  nothing. -/
  publish : ∀ index,
    ((p.publish index).2 = true ↔ p.published = none ∧ index < p.chains.length) ∧
    ((p.publish index).2 = true → (p.publish index).1 = { p with published := some index }) ∧
    ((p.publish index).2 = false → (p.publish index).1 = p)
  /-- A loader cannot be brought up exactly if there is no transpiler, and then nothing
  changes. -/
  failed : ∀ settings located evaluator style files error,
    (p.init settings located evaluator style files).2 = .error error ↔
      p.init settings located evaluator style files = (p, .error error) ∧
        ∃ cause notes, located = (.error cause, notes) ∧ error = .transpiler cause
  /-- The published chain is what bringing up a loader leaves published. -/
  value : ∀ settings located evaluator style files,
    (p.init settings located evaluator style files).1.publishedChain =
      (Runtime.init settings located evaluator style files p.publishedChain).2.1
  held : ∀ l ∈ p.loaders, l.session.HeldBy l.settings
  /-- The chain of a loader never holds the retriever of the transpiler. -/
  builtin : ∀ l ∈ p.loaders, ∃ chain, p.chains[l.chain]? = some chain ∧
    Trace.builtinId ∉ chain.ids

/-- Bringing a loader up leaves that chain published that the values say. -/
theorem Established.publishedChain_init {p : Process} (h : p.Established) (settings : Settings)
    (located : Located) (evaluator : Evaluator) (style : Progress.Style) (files : FileSystem) :
    (p.init settings located evaluator style files).1.publishedChain =
      (Runtime.init settings located evaluator style files p.publishedChain).2.1 := by
  obtain ⟨cause, notes, rfl, hinit⟩ | ⟨t, notes, session, rfl, -, hinit⟩ :=
    p.init_cases settings located evaluator style files
  · rw [hinit]
    rfl
  · obtain ⟨started, after, -, hvalue⟩ :=
      Runtime.init_of_found settings t notes evaluator style files p.publishedChain
    rw [hinit, hvalue]
    unfold publishedChain
    cases hpublished : p.published with
    | none =>
        simp only [Option.none_or, Option.bind_some, Option.bind_none]
        exact List.getElem?_concat_length
    | some index =>
        have hlt := h.numbered index hpublished
        simp only [Option.some_or, Option.bind_some, List.getElem?_append_left hlt,
          List.getElem?_eq_getElem hlt, Trace.publish]

/-- Whatever is called in whatever order, loaders and the published chain are upheld. -/
theorem upheld_calls (history : List Call) : Upheld history (fresh.calls history) := by
  have hestablished := established_fresh.calls history
  constructor
  case absent => exact established_fresh.published_eq_none_iff rfl
  case first =>
    rintro earlier c later index rfl hnone hoffered
    have hearlier := established_fresh.calls earlier
    rw [calls_append]
    refine (hearlier.call c).published_calls ?_ later
    rw [hearlier.published_call, hnone, hoffered]
    rfl
  case same =>
    intro index hpublished later
    exact hestablished.published_calls hpublished later
  case publish =>
    intro index
    obtain ⟨hnone, hlt, hfirst⟩ | ⟨hnot, hsame⟩ := hestablished.publish_cases index
    · rw [hfirst]
      exact ⟨iff_of_true rfl ⟨hnone, hlt⟩, fun _ => rfl, fun h => (nomatch h)⟩
    · rw [hsame]
      exact ⟨iff_of_false Bool.false_ne_true hnot, fun h => (nomatch h), fun _ => rfl⟩
  case failed =>
    intro settings located evaluator style files error
    obtain ⟨cause, notes, rfl, hinit⟩ | ⟨t, notes, session, rfl, -, hinit⟩ :=
      (fresh.calls history).init_cases settings located evaluator style files
    · rw [hinit]
      constructor
      · intro herror
        rw [← Except.error.inj herror]
        exact ⟨rfl, cause, notes, rfl, rfl⟩
      · rintro ⟨heq, -⟩
        rw [heq]
    · rw [hinit]
      constructor
      · intro herror
        cases herror
      · rintro ⟨-, cause, notes', hlocated, -⟩
        cases hlocated
  case value => exact hestablished.publishedChain_init
  case held => exact hestablished.held
  case builtin =>
    intro l hl
    obtain ⟨chain, hchain, hexclusive, hblocked⟩ := hestablished.chains l hl
    exact ⟨chain, hchain, fun hmem => hexclusive.unblocked _ hmem hblocked⟩

end Process
end ModuleCache
