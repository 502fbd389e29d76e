import ModuleCache.Proofs.Loading.Course
import ModuleCache.Proofs.Loading.Run

/-!
What loads never change: of each hook its layout, its style, its fallback and whether it
holds its slot, and the table of handlers unless code assigns a slot. Which files are in
progress changes only where a file is entered and where it is left; apart from that, loads
touch files, counters, and what is printed, noted, asked for and recorded.
-/

namespace ModuleCache

/-- A hook but for what it has counted. -/
def Hook.uncounted (h : Hook) : Hook := { h with counters := {} }

/-- What a hook was set up with. -/
def Hook.setup (h : Hook) : Layout × Progress.Style × Option Handler × Bool :=
  (h.layout, h.style, h.fallback, h.isRegistered)

/-- What code may do that does not assign a slot. -/
def Deed.KeepsSlots : Deed → Prop
  | .assign .. => False
  | _ => True

theorem Deed.LoadsOnly.keepsSlots {P : Path → Prop} {deed : Deed} (h : deed.LoadsOnly P) :
    deed.KeepsSlots := by
  cases deed with
  | assign claims extension handler => exact h
  | _ => trivial

namespace Session

/-- The handlers and hooks of a session but for what the hooks have counted. -/
def kept (s : Session) : Registry × List Hook := (s.registry, s.hooks.map Hook.uncounted)

/-- What a session was set up with. -/
def setup (s : Session) : Registry × List (Layout × Progress.Style × Option Handler × Bool) :=
  (s.registry, s.hooks.map Hook.setup)

/-- The files that each hook of a session is loading. -/
def loading (s : Session) : List InProgress := s.hooks.map (·.inProgress)

theorem getElem?_loading {s : Session} {index : Nat} {hook : Hook}
    (h : s.hooks[index]? = some hook) : s.loading[index]? = some hook.inProgress := by
  rw [loading, List.getElem?_map, h]
  rfl

theorem setup_of_kept {s s' : Session} (h : s'.kept = s.kept) : s'.setup = s.setup := by
  obtain ⟨hregistry, hhooks⟩ := Prod.mk.inj h
  have hsetup := congrArg (List.map Hook.setup) hhooks
  rw [List.map_map, List.map_map] at hsetup
  exact Prod.ext hregistry hsetup

theorem loading_of_kept {s s' : Session} (h : s'.kept = s.kept) : s'.loading = s.loading := by
  have hloading := congrArg (List.map Hook.inProgress) (Prod.mk.inj h).2
  rw [List.map_map, List.map_map] at hloading
  exact hloading

theorem map_modify {α β : Type} {f : α → β} {change : α → α} {change' : β → β}
    (h : ∀ a, f (change a) = change' (f a)) (as : List α) (index : Nat) :
    (as.modify index change).map f = (as.map f).modify index change' := by
  induction as generalizing index with
  | nil => cases index <;> simp
  | cons a as ih =>
      cases index with
      | zero => simp [h]
      | succ index => simp [ih]

theorem map_modify_of_eq {α β : Type} {f : α → β} {change : α → α} (h : ∀ a, f (change a) = f a)
    (as : List α) (index : Nat) : (as.modify index change).map f = as.map f := by
  have hsame : (as.modify index change).map f = (as.map f).modify index id := map_modify h as index
  rw [hsame, List.modify_id]

theorem forall_mem_modify {α : Type} {P : α → Prop} {as : List α} (h : ∀ a ∈ as, P a) {index : Nat}
    {change : α → α} (hchange : ∀ a, as[index]? = some a → P a → P (change a)) :
    ∀ a ∈ as.modify index change, P a := by
  intro a ha
  obtain ⟨i, hi⟩ := List.mem_iff_getElem?.mp ha
  rw [List.getElem?_modify] at hi
  obtain ⟨old, hold, hnew⟩ := Option.map_eq_some_iff.mp hi
  have hkept := h old (List.mem_of_getElem? hold)
  split at hnew
  · next heq =>
      rw [← hnew]
      exact hchange old (heq ▸ hold) hkept
  · rw [← hnew]
    exact hkept

theorem kept_count (s : Session) (index : Nat) (change : Counters → Counters) :
    (s.count index change).kept = s.kept := by
  apply congrArg (Prod.mk s.registry)
  apply map_modify_of_eq
  intro hook
  rfl

theorem kept_openPlain (s : Session) (t : Transpiler) (handler : PlainHandler) (file : Path) :
    (s.openPlain t handler file).1.kept = s.kept := by
  obtain ⟨notes, hopen⟩ := openPlain_eq s t handler file
  rw [hopen]
  rfl

theorem kept_openEntered (s : Session) (t : Transpiler) (index : Nat) (hook : Hook)
    (file : Path) : (s.openEntered t index hook file).1.kept = s.kept := by
  obtain ⟨notes, hopen⟩ := openEntered_eq s t index hook file
  rw [hopen]
  exact kept_count s index (· + (hook.layout.course t s.files file).tally)

theorem setup_modifyHook {change : Hook → Hook} (h : ∀ hook, (change hook).setup = hook.setup)
    (s : Session) (index : Nat) : (s.modifyHook index change).setup = s.setup :=
  congrArg (Prod.mk s.registry) (map_modify_of_eq h s.hooks index)

/-- Opening a file leaves the set-up. -/
theorem setup_opening (s : Session) (t : Transpiler) (demand : Demand) :
    (s.opening t demand).1.setup = s.setup := by
  unfold opening
  cases s.route demand with
  | refused error => rfl
  | plain handler => exact setup_of_kept (kept_openPlain s t handler demand.file)
  | hook index hook entered =>
      dsimp only
      rw [setup_of_kept (kept_openEntered _ t index hook demand.file)]
      apply setup_modifyHook
      intro hook
      rfl

theorem setup_closing (r : Route) (file : Path) (s : Session) :
    (r.closing file s).setup = s.setup := by
  cases r with
  | refused error => rfl
  | plain handler => rfl
  | hook index hook entered =>
      apply setup_modifyHook
      intro hook
      rfl

theorem assign_eq (s : Session) (claims : Bool) (extension : String) (handler : Handler) :
    ∃ registry, (s.assign claims extension handler).1 = { s with registry } := by
  unfold assign register claim
  cases claims with
  | false => cases s.registry.register? extension handler <;> exact ⟨_, rfl⟩
  | true => cases s.registry.claim? extension handler <;> exact ⟨_, rfl⟩

/-- What code does itself is done to files, to the table of handlers and to the records. -/
theorem after_eq (s : Session) (deed : Deed) :
    ∃ files registry records, s.after deed = { s with files, registry, records } := by
  cases deed with
  | assign claims extension handler =>
      obtain ⟨registry, hassign⟩ := s.assign_eq claims extension handler
      exact ⟨_, registry, _, hassign⟩
  | _ => exact ⟨_, _, _, rfl⟩

/-- Code does nothing to hooks itself. -/
theorem hooks_after (s : Session) (deed : Deed) : (s.after deed).hooks = s.hooks := by
  obtain ⟨files, registry, records, hafter⟩ := s.after_eq deed
  rw [hafter]

theorem loading_after (s : Session) (deed : Deed) : (s.after deed).loading = s.loading :=
  congrArg (List.map Hook.inProgress) (hooks_after s deed)

theorem setup_after (s : Session) {deed : Deed} (h : deed.KeepsSlots) :
    (s.after deed).setup = s.setup := by
  cases deed with
  | assign claims extension handler => exact h.elim
  | _ => rfl

/-- What depends on the set-up alone is kept by all loads of code that assigns no slots. -/
theorem maintained_of_setup {host : Host} {A : Deed → Prop} {Inv : Session → Prop}
    (hscripts : ∀ code file, (host.evaluator code file).Does A)
    (hkeeps : ∀ deed, A deed → deed.KeepsSlots)
    (hhanded : ∀ {s : Session} {demand : Demand} {handler : Handler}, A (.ask demand) → Inv s →
      (s.route demand).next? = some handler → A (.ask (.loadBy handler demand.file)))
    (h : ∀ {s s' : Session}, Inv s → s'.setup = s.setup → Inv s') : Maintained host A Inv where
  opening := fun {s demand} _ hs => h hs (setup_opening s host.transpiler demand)
  handed := hhanded
  closing := fun {_ s' demand} _ _ hs' => h hs' (setup_closing _ demand.file s')
  after := fun {s deed} hdeed hs => h hs (s.setup_after (hkeeps deed hdeed))
  scripts := hscripts

theorem setup_require {host : Host}
    (hscripts : ∀ code file, (host.evaluator code file).Does Deed.KeepsSlots) {depth : Nat}
    {s s' : Session} {demand : Demand} {loaded : Loaded}
    (h : require host depth s demand = some (s', loaded)) : s'.setup = s.setup := by
  have hmaintained : Maintained host Deed.KeepsSlots fun s' => s'.setup = s.setup :=
    maintained_of_setup hscripts (fun _ => id) (fun _ _ _ => trivial)
      fun hs hsetup => hsetup.trans hs
  exact hmaintained.require depth trivial rfl h

/-- What depends on the set-up of the hooks alone is kept by all loads, whatever the code does. -/
theorem maintained_of_setups (host : Host) {Inv : Session → Prop}
    (h : ∀ {s s' : Session}, Inv s → s'.hooks.map Hook.setup = s.hooks.map Hook.setup → Inv s') :
    Maintained host (fun _ => True) Inv where
  opening := fun {s demand} _ hs =>
    h hs (Prod.mk.inj (s.setup_opening host.transpiler demand)).2
  handed := fun _ _ _ => trivial
  closing := fun {_ s' demand} _ _ hs' => h hs' (Prod.mk.inj (setup_closing _ demand.file s')).2
  after := fun {s deed} _ hs => h hs (congrArg _ (s.hooks_after deed))
  scripts := fun code file => (host.evaluator code file).does_any

theorem setups_require {host : Host} {depth : Nat} {s s' : Session} {demand : Demand}
    {loaded : Loaded} (h : require host depth s demand = some (s', loaded)) :
    s'.hooks.map Hook.setup = s.hooks.map Hook.setup := by
  have hmaintained : Maintained host (fun _ => True)
      fun s' => s'.hooks.map Hook.setup = s.hooks.map Hook.setup :=
    maintained_of_setups host fun hs hsetups => hsetups.trans hs
  exact hmaintained.require depth trivial rfl h

/-- Where the set-up of the hooks is the same, the hooks are, but for what they load and have
counted. -/
theorem exists_hook_of_setups {s s' : Session}
    (hsetups : s'.hooks.map Hook.setup = s.hooks.map Hook.setup) {index : Nat} {hook : Hook}
    (hhook : s.hooks[index]? = some hook) :
    ∃ hook', s'.hooks[index]? = some hook' ∧ hook'.setup = hook.setup := by
  have hsame : (s'.hooks.map Hook.setup)[index]? = some hook.setup := by
    rw [hsetups, List.getElem?_map, hhook]
    rfl
  rw [List.getElem?_map] at hsame
  exact Option.map_eq_some_iff.mp hsame

theorem files_closing (r : Route) (file : Path) (s : Session) :
    (r.closing file s).files = s.files := by
  cases r <;> rfl

end Session
end ModuleCache
