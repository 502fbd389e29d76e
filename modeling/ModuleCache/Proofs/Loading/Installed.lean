import ModuleCache.Proofs.Entries
import ModuleCache.Proofs.Loading.Progress
import ModuleCache.Proofs.Path.Suffix
import ModuleCache.Runtime

/-!
A loader with one hook. The hook holds the slot of its extension and no other, so tracked
files go to the hook and to nobody else; loads do not change that. A loader that is brought
up under settings is of this kind.
-/

namespace ModuleCache

/-- There is one hook, with a fallback that is missing or compiles on every load. -/
def OneHook (l : Layout) (s : Session) : Prop :=
  ∃ hook, s.hooks = [hook] ∧ hook.layout = l ∧
    (hook.fallback = none ∨ ∃ extensions, hook.fallback = some (.plain (.uncached extensions)))

/-- The hook is installed. -/
structure Installed (l : Layout) (s : Session) : Prop where
  hook : OneHook l s
  slot : s.registry.handler? l.extensions.source = some (.hook 0)
  only : ∀ extension index, s.registry.handler? extension = some (.hook index) →
    extension = l.extensions.source

/-- A file is one of those in play as far as they are tracked. -/
def InPlay (l : Layout) (files : Path → Prop) (p : Path) : Prop :=
  l.extensions.isTracked p = true → files p

variable {l : Layout}

theorem OneHook.of_setups {s s' : Session} (h : OneHook l s)
    (hsetups : s'.hooks.map Hook.setup = s.hooks.map Hook.setup) : OneHook l s' := by
  obtain ⟨hook, hhooks, hlayout, hfallback⟩ := h
  rw [hhooks] at hsetups
  obtain ⟨hook', hhooks', hhook'⟩ : ∃ hook', s'.hooks = [hook'] ∧ hook'.setup = hook.setup := by
    obtain ⟨hook', rest, hcons, hhook', hrest⟩ := List.map_eq_cons_iff.mp hsetups
    exact ⟨hook', by rw [hcons, List.map_eq_nil_iff.mp hrest], hhook'⟩
  obtain ⟨hlayout', hrest⟩ := Prod.mk.inj hhook'
  obtain ⟨-, hrest⟩ := Prod.mk.inj hrest
  obtain ⟨hfallback', -⟩ := Prod.mk.inj hrest
  exact ⟨hook', hhooks', hlayout'.trans hlayout, hfallback' ▸ hfallback⟩

theorem Installed.of_setup {s s' : Session} (h : Installed l s) (hsetup : s'.setup = s.setup) :
    Installed l s' := by
  obtain ⟨hregistry, hsetups⟩ := Prod.mk.inj hsetup
  obtain ⟨hhook, hslot, honly⟩ := h
  rw [← hregistry] at hslot honly
  exact ⟨hhook.of_setups hsetups, hslot, honly⟩

/-- One hook hands no file on to another. -/
theorem OneHook.next?_eq_none {s : Session} (h : OneHook l s) (demand : Demand) :
    (s.route demand).next? = none := by
  cases hroute : s.route demand with
  | refused error => rfl
  | plain handler => rfl
  | hook index own entered =>
      obtain ⟨hook, hhooks, -, hfallback⟩ := h
      have hown := List.mem_of_getElem? (Session.route_eq_hook hroute).1
      rw [hhooks, List.mem_singleton] at hown
      rw [hown]
      rcases hfallback with hnone | ⟨extensions, hsome⟩
      · exact congrArg Session.onward? hnone
      · exact congrArg Session.onward? hsome

/-- Who opens a file while one hook is installed: the hook only tracked files, which then
go to nobody else. -/
theorem Installed.route {s : Session} (h : Installed l s) (p : Path) :
    (∃ error, s.route p = .refused error) ∨
      (l.extensions.isTracked p = false ∧ ∃ handler, s.route p = .plain handler) ∨
      (l.extensions.isTracked p = true ∧ ∃ hook entered, s.route p = .hook 0 hook entered ∧
        hook.layout = l ∧ (hook.fallback = none ∨
          ∃ extensions, hook.fallback = some (.plain (.uncached extensions)))) := by
  obtain ⟨⟨hook, hhooks, hlayout, hfallback⟩, hslot, honly⟩ := h
  unfold Session.route Session.handlerFor?
  dsimp only
  cases hhandler : s.registry.handler? (p.extension?.getD "") with
  | none => exact .inl ⟨_, rfl⟩
  | some handler =>
      cases handler with
      | plain handler =>
          refine .inr (.inl ⟨?_, handler, rfl⟩)
          apply Bool.eq_false_iff.mpr
          intro htracked
          rw [Path.isTracked_iff.mp htracked, Option.getD_some, hslot] at hhandler
          cases hhandler
      | hook index =>
          have hext := honly _ _ hhandler
          rw [hext, hslot] at hhandler
          obtain rfl : 0 = index := Handler.hook.inj (Option.some.inj hhandler)
          have htracked : l.extensions.isTracked p = true := by
            rw [Path.isTracked_iff]
            cases hp : p.extension? with
            | none =>
                rw [hp] at hext
                exact absurd (congrArg String.toList hext.symm) l.extensions.source_bare.1
            | some extension =>
                rw [hp] at hext
                exact congrArg some hext
          simp only [Session.routeBy, hhooks, List.getElem?_cons_zero, Session.Route.ofHook]
          cases hook.inProgress.enter p with
          | error chain => exact .inl ⟨_, rfl⟩
          | ok entered =>
              exact .inr (.inr ⟨htracked, hook, entered, rfl, hlayout, hfallback⟩)

/-- The hook stays installed while code only has files loaded. -/
theorem Installed.of_loadsOnly {s : Session} (h : Installed l s) {P : Path → Prop} {deed : Deed}
    (hdeed : deed.LoadsOnly P) : Installed l (s.after deed) :=
  h.of_setup (s.setup_after hdeed.keepsSlots)

theorem Session.files_of_loadsOnly {s : Session} {P : Path → Prop} {deed : Deed}
    (hdeed : deed.LoadsOnly P) : (s.after deed).files = s.files := by
  cases deed with
  | alter change => exact hdeed.elim
  | assign claims extension handler => exact hdeed.elim
  | _ => rfl

theorem slot?_set (r : Registry) (extension other : String) (slot : Slot) :
    (r.set extension slot).slot? other =
      if other = extension then some slot else r.slot? other :=
  lookup_replace r.slots extension other slot

theorem Registry.handler?_of_slot? {r : Registry} {extension : String} {slot : Slot}
    (h : r.slot? extension = some slot) : r.handler? extension = some slot.handler :=
  congrArg (Option.map Slot.handler) h

namespace Session

/-- What a hook becomes when it claims its slot. -/
def takeSlot (s : Session) (h : Hook) : Hook :=
  { h with fallback := s.registry.handler? h.extension, isRegistered := true }

/-- What an installation comes to: nothing is left to do, or the slot is claimed already, or
the hook takes it. -/
theorem install_cases (s : Session) (index : Nat) :
    ((∀ hook, s.hooks[index]? = some hook → hook.isRegistered = true) ∧
      s.install index = (s, .ok ())) ∨
    ∃ hook, s.hooks[index]? = some hook ∧ hook.isRegistered = false ∧
      ((s.registry.isClaimed hook.extension = true ∧
        s.install index = (s, .error ⟨hook.extension⟩)) ∨
      (s.registry.isClaimed hook.extension = false ∧ (s.install index).2 = .ok () ∧
        (s.install index).1.registry = s.registry.set hook.extension (.claimed (.hook index)) ∧
        ∀ other, (s.install index).1.hooks[other]? =
          if other = index then some (s.takeSlot hook) else s.hooks[other]?)) := by
  cases hhook : s.hooks[index]? with
  | none => exact .inl ⟨fun hook h => (nomatch h), by simp [install, hhook]⟩
  | some hook =>
      cases hfresh : hook.isRegistered with
      | true =>
          refine .inl ⟨?_, by simp [install, hhook, hfresh]⟩
          intro other h
          rw [← Option.some.inj h]
          exact hfresh
      | false =>
          refine .inr ⟨hook, rfl, hfresh, ?_⟩
          cases hslot : s.registry.isClaimed hook.extension with
          | true => exact .inl ⟨rfl, by simp [install, hhook, hfresh, Registry.claim?, hslot]⟩
          | false =>
              have hmodify : ∀ fallback other, (s.hooks.modify index
                  fun h => { h with fallback, isRegistered := true })[other]? =
                    if other = index then some { hook with fallback, isRegistered := true }
                    else s.hooks[other]? := by
                intro fallback other
                rw [List.getElem?_modify]
                by_cases heq : other = index
                · simp [heq, hhook]
                · simp [heq, Ne.symm heq]
              simp only [install, hhook, hfresh, Registry.claim?, hslot, takeSlot]
              cases s.registry.handler? hook.extension <;>
                exact .inr ⟨trivial, rfl, rfl, hmodify _⟩

end Session

/-- A hook that gets the slot of its extension is installed, if what was there before can
be its fallback. -/
theorem installed_install {s : Session} {hook : Hook} (hhooks : s.hooks = [hook])
    (hfresh : hook.isRegistered = false)
    (hslot : s.registry.slot? hook.extension = none ∨
      ∃ extensions, s.registry.slot? hook.extension =
        some (.registered (.plain (.uncached extensions))))
    (honly : ∀ extension index, s.registry.handler? extension ≠ some (.hook index)) :
    Installed hook.layout (s.install 0).1 := by
  have hclaimed : s.registry.isClaimed hook.extension = false := by
    unfold Registry.isClaimed
    rcases hslot with h | ⟨extensions, h⟩ <;> rw [h] <;> rfl
  have hset : ∀ extension, (s.registry.set hook.extension (.claimed (.hook 0))).handler? extension =
      if extension = hook.extension then some (.hook 0) else s.registry.handler? extension := by
    intro extension
    unfold Registry.handler?
    rw [slot?_set]
    split <;> rfl
  have hfallback : s.registry.handler? hook.extension = none ∨
      ∃ extensions, s.registry.handler? hook.extension = some (.plain (.uncached extensions)) := by
    unfold Registry.handler?
    rcases hslot with h | ⟨extensions, h⟩
    · exact .inl (by rw [h]; rfl)
    · exact .inr ⟨extensions, by rw [h]; rfl⟩
  have hfirst : s.hooks[0]? = some hook := by
    rw [hhooks]
    rfl
  obtain ⟨hdone, -⟩ | ⟨own, hown, -, hinstall⟩ := Session.install_cases s 0
  · rw [hdone hook hfirst] at hfresh
    cases hfresh
  obtain rfl : hook = own := Option.some.inj (hfirst.symm.trans hown)
  obtain ⟨htaken, -⟩ | ⟨-, -, hregistry, hafter⟩ := hinstall
  · rw [hclaimed] at htaken
    cases htaken
  have hhooks' : (s.install 0).1.hooks = [s.takeSlot hook] := by
    apply List.ext_getElem?
    intro other
    rw [hafter, hhooks]
    cases other <;> rfl
  refine ⟨⟨_, hhooks', rfl, hfallback⟩, ?_, ?_⟩
  · rw [hregistry, hset]
    exact if_pos rfl
  · intro extension index hhandler
    rw [hregistry, hset] at hhandler
    split at hhandler
    · next heq => exact heq
    · exact absurd hhandler (honly extension index)

/-- A loader that starts with one hook. -/
theorem installed_of_addHook (files : FileSystem) (layout : Layout) (style : Progress.Style) :
    Installed layout (((({ files } : Session).addHook layout style).install 0).1) :=
  @installed_install _ { layout, style } rfl rfl (.inl rfl) fun _ _ h => nomatch h

theorem files_install (s : Session) (index : Nat) : (s.install index).1.files = s.files := by
  unfold Session.install
  split
  · rfl
  · split
    · rfl
    · split
      · rfl
      · dsimp only
        cases s.registry.handler? _ <;> rfl

/-- The session at the start has a handler for sources that a hook can fall back on. -/
theorem installed_atStart (settings : Settings) (style : Progress.Style) (files : FileSystem) :
    Installed settings.layout
      ((Runtime.sessionAtStart settings style files).install Runtime.hook).1 := by
  have hslot : ∀ extension, (Runtime.sessionAtStart settings style files).registry.slot? extension =
      if extension = settings.extensions.source then
        some (.registered (.plain (.uncached settings.extensions))) else none := by
    intro extension
    exact slot?_set .empty settings.extensions.source extension _
  refine @installed_install _ { layout := settings.layout, style } rfl rfl ?_ ?_
  · refine .inr ⟨settings.extensions, ?_⟩
    rw [hslot]
    exact if_pos rfl
  · intro extension index
    unfold Registry.handler?
    rw [hslot]
    split <;> simp [Slot.handler]

/-- A loader that is brought up has its hook installed and asks nobody but the retriever of
artifacts' maps about frames. -/
theorem Runtime.init_eq_ok {settings : Settings} {located : Located} {evaluator : Evaluator}
    {style : Progress.Style} {files : FileSystem} {published published' : Trace.Published}
    {rt : Runtime} {notes : Journal}
    (h : Runtime.init settings located evaluator style files published =
      (.ok rt, published', notes)) :
    Installed settings.layout rt.session ∧ rt.session.files = files ∧
      rt.chain = chainFor settings.layout := by
  have hinstalled := installed_atStart settings style files
  have hfiles := files_install (Runtime.sessionAtStart settings style files) Runtime.hook
  unfold Runtime.init at h
  split at h
  · cases h
  · dsimp only at h
    split at h
    · cases h
    · next session hsession =>
        rw [hsession] at hinstalled hfiles
        obtain ⟨hok, -⟩ := Prod.mk.inj h
        rw [← Except.ok.inj hok]
        refine ⟨hinstalled.of_setup ?_, ?_, rfl⟩
        · dsimp only
          split <;> rfl
        · dsimp only
          split <;> exact hfiles

/-- A transpiler that marks the text it is given, and code that does nothing. -/
def markingHost : Host where
  transpiler := ⟨"mark", fun fs request => ⟨fs, [], .ok ⟨"// " ++ request.source, none⟩⟩⟩
  evaluator := fun _ _ => .finish

/-- A loader with one hook for the given files. -/
def Session.loaderOf (layout : Layout) (nodes : List (Address × Node)) : Session :=
  let files : FileSystem := ⟨([], .directory true 0) :: nodes, [], 2, 1⟩
  ((({ files } : Session).addHook layout .silent).install 0).1

/-- An installation root that is a package. -/
def packagedLayout : Layout := .ofRoot ⟨"/lib/p"⟩ "c" "lib" .standard

/-- A source of that package, and one from elsewhere. -/
def packaged : Session :=
  .loaderOf packagedLayout [(["a.coffee"], .file "x".toUTF8 0o644 1), (["lib"], .directory true 0),
    (["lib", "p"], .directory true 0), (["lib", "p", "a.coffee"], .file "y".toUTF8 0o644 1)]

/-- A loader for all of a file system under the standard settings. -/
def Runtime.standard (host : Host) (files : FileSystem) : Runtime where
  settings := .standard ⟨"/"⟩
  host
  session :=
    { ((Runtime.sessionAtStart (.standard ⟨"/"⟩) .silent files).install 0).1 with notes := [] }
  chain := Runtime.chainFor (Settings.standard ⟨"/"⟩).layout

theorem Runtime.init_standard (host : Host) (files : FileSystem) :
    ∃ notes, Runtime.init (.standard ⟨"/"⟩) (.ok host.transpiler, []) host.evaluator .silent files
      none = (.ok (.standard host files), some (chainFor (Settings.standard ⟨"/"⟩).layout),
        notes) :=
  ⟨_, rfl⟩

end ModuleCache
