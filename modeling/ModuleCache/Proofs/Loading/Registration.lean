import Mathlib.Data.List.Induction
import ModuleCache.Proofs.Loading.Installed

/-!
Setting a loader up. Handlers are registered and slots claimed, hooks are created and
installed, in any order and any number of times. What is shown of every such history: a
claimed slot is never taken from its handler, a slot that nobody claimed holds what was
registered last, and a hook counts as registered exactly while the slot of its extension is
its own; its fallback is then what the slot held when the hook claimed it.
-/

namespace ModuleCache

/-- A handler that is at hand: a new one, or the one that a slot holds. -/
inductive Offer where
  | plain (handler : PlainHandler)
  | heldFor (extension : String)

inductive SetupCall where
  | register (extension : String) (offer : Offer)
  | claim (extension : String) (offer : Offer)
  | create (layout : Layout) (style : Progress.Style)
  | install (index : Nat)

namespace Session

def offered? (s : Session) : Offer → Option Handler
  | .plain handler => some (.plain handler)
  | .heldFor extension => s.registry.handler? extension

/-- Registers what is offered or claims a slot for it; there may be nothing. -/
def take (s : Session) (claims : Bool) (extension : String) (offer : Offer) : Session :=
  match s.offered? offer with
  | none => s
  | some handler => (s.assign claims extension handler).1

/-- What a call leaves, whether or not it took effect. -/
def call (s : Session) : SetupCall → Session
  | .register extension offer => s.take false extension offer
  | .claim extension offer => s.take true extension offer
  | .create layout style => s.addHook layout style
  | .install index => (s.install index).1

def calls (s : Session) (history : List SetupCall) : Session := history.foldl call s

theorem calls_append (s : Session) (history later : List SetupCall) :
    s.calls (history ++ later) = (s.calls history).calls later := List.foldl_append

theorem calls_concat (s : Session) (history : List SetupCall) (last : SetupCall) :
    s.calls (history ++ [last]) = (s.calls history).call last := calls_append s history [last]

/-- An attempt to put something into a slot: it takes effect exactly if nobody claimed the
slot, and leaves all other slots alone. -/
def Attempt (s : Session) (extension : String) (slot : Slot) (done : Session × Bool) : Prop :=
  (done.2 = true ↔ s.registry.isClaimed extension = false) ∧
    ∀ other, done.1.registry.slot? other =
      if done.2 = true ∧ other = extension then some slot else s.registry.slot? other

theorem attempt_register (s : Session) (extension : String) (handler : Handler) :
    s.Attempt extension (.registered handler) (s.register extension handler) := by
  unfold Attempt register Registry.register?
  cases s.registry.isClaimed extension with
  | true => simp
  | false => simp [slot?_set]

theorem attempt_claim (s : Session) (extension : String) (handler : Handler) :
    s.Attempt extension (.claimed handler) (s.claim extension handler) := by
  unfold Attempt claim Registry.claim?
  cases s.registry.isClaimed extension with
  | true => simp
  | false => simp [slot?_set]

/-- What a handler is put into a slot as. -/
def slotFor (claims : Bool) (handler : Handler) : Slot :=
  if claims then .claimed handler else .registered handler

theorem attempt_assign (s : Session) (claims : Bool) (extension : String) (handler : Handler) :
    s.Attempt extension (slotFor claims handler) (s.assign claims extension handler) := by
  cases claims with
  | false => exact attempt_register s extension handler
  | true => exact attempt_claim s extension handler

theorem handler_slotFor (claims : Bool) (handler : Handler) :
    (slotFor claims handler).handler = handler := by
  cases claims <;> rfl

theorem hooks_assign (s : Session) (claims : Bool) (extension : String) (handler : Handler) :
    (s.assign claims extension handler).1.hooks = s.hooks :=
  hooks_after s (.assign claims extension handler)

theorem hooks_take (s : Session) (claims : Bool) (extension : String) (offer : Offer) :
    (s.take claims extension offer).hooks = s.hooks := by
  unfold take
  cases s.offered? offer with
  | none => rfl
  | some handler => exact hooks_assign s claims extension handler

/-- Hooks and slots agree: a registered hook holds the slot of its extension, claimed, and no
other hook is in any slot. -/
structure Agrees (s : Session) : Prop where
  owner : ∀ {extension index}, s.registry.handler? extension = some (.hook index) →
    ∃ hook, s.hooks[index]? = some hook ∧ hook.isRegistered = true
  slot : ∀ {index hook}, s.hooks[index]? = some hook → hook.isRegistered = true →
    s.registry.slot? hook.extension = some (.claimed (.hook index))

theorem isClaimed_iff {r : Registry} {extension : String} :
    r.isClaimed extension = true ↔ ∃ handler, r.slot? extension = some (.claimed handler) := by
  unfold Registry.isClaimed
  cases r.slot? extension with
  | none => simp
  | some slot => cases slot <;> simp [Slot.isClaimed]

theorem isClaimed_of_slot? {r : Registry} {extension : String} {handler : Handler}
    (h : r.slot? extension = some (.claimed handler)) : r.isClaimed extension = true :=
  isClaimed_iff.mpr ⟨handler, h⟩

/-- A hook that is created is not registered yet. -/
theorem registered_addHook {s : Session} {layout : Layout} {style : Progress.Style} {index : Nat}
    {hook : Hook} (hhook : (s.addHook layout style).hooks[index]? = some hook)
    (hregistered : hook.isRegistered = true) : s.hooks[index]? = some hook := by
  change (s.hooks ++ [_])[index]? = some hook at hhook
  rw [List.getElem?_append] at hhook
  split at hhook
  · exact hhook
  · rw [List.getElem?_singleton] at hhook
    split at hhook
    · rw [← Option.some.inj hhook] at hregistered
      cases hregistered
    · cases hhook

theorem Attempt.keeps {s : Session} {extension : String} {slot : Slot} {done : Session × Bool}
    (h : s.Attempt extension slot done) {other : String} {handler : Handler}
    (hother : s.registry.slot? other = some (.claimed handler)) :
    done.1.registry.slot? other = some (.claimed handler) := by
  rw [h.2, if_neg, hother]
  rintro ⟨hdone, rfl⟩
  rw [h.1, isClaimed_of_slot? hother] at hdone
  cases hdone

theorem Attempt.handler? {s : Session} {extension : String} {slot : Slot} {done : Session × Bool}
    (h : s.Attempt extension slot done) {other : String} {handler : Handler}
    (hother : done.1.registry.handler? other = some handler) :
    slot.handler = handler ∨ s.registry.handler? other = some handler := by
  unfold Registry.handler? at hother ⊢
  rw [h.2] at hother
  split at hother
  · exact .inl (Option.some.inj hother)
  · exact .inr hother

/-- What is offered leaves hooks and slots in agreement: a hook is only offered where it holds
a slot already. -/
theorem Agrees.take {s : Session} (hs : s.Agrees) (claims : Bool) (extension : String)
    (offer : Offer) : (s.take claims extension offer).Agrees := by
  unfold Session.take
  cases hoffered : s.offered? offer with
  | none => exact hs
  | some handler =>
      have hattempt := attempt_assign s claims extension handler
      constructor
      · intro other index hother
        rw [hooks_assign]
        rcases hattempt.handler? hother with hnew | hold
        · rw [handler_slotFor] at hnew
          rw [hnew] at hoffered
          cases offer with
          | plain plain => cases hoffered
          | heldFor source => exact hs.owner hoffered
        · exact hs.owner hold
      · intro index hook hhook hregistered
        rw [hooks_assign] at hhook
        exact hattempt.keeps (hs.slot hhook hregistered)

theorem Agrees.addHook {s : Session} (hs : s.Agrees) (layout : Layout) (style : Progress.Style) :
    (s.addHook layout style).Agrees := by
  constructor
  · intro extension index hslot
    obtain ⟨hook, hhook, hregistered⟩ := hs.owner hslot
    have hlt := (List.getElem?_eq_some_iff.mp hhook).1
    exact ⟨hook, (List.getElem?_append_left hlt).trans hhook, hregistered⟩
  · intro index hook hhook hregistered
    exact hs.slot (registered_addHook hhook hregistered) hregistered

theorem Agrees.install {s : Session} (hs : s.Agrees) (index : Nat) :
    (s.install index).1.Agrees := by
  obtain ⟨-, h⟩ | ⟨hook, hhook, hfresh, ⟨-, h⟩ | ⟨hfree, -, hregistry, hhooks⟩⟩ :=
    install_cases s index
  · rw [h]
    exact hs
  · rw [h]
    exact hs
  · constructor
    · intro extension other hslot
      rw [hregistry, Registry.handler?, slot?_set] at hslot
      rw [hhooks]
      by_cases heq : other = index
      · exact ⟨s.takeSlot hook, if_pos heq, rfl⟩
      · rw [if_neg heq]
        split at hslot
        · exact absurd (Handler.hook.inj (Option.some.inj hslot)).symm heq
        · exact hs.owner hslot
    · intro other own hown hregistered
      rw [hregistry, slot?_set]
      rw [hhooks] at hown
      split at hown
      · next heq =>
          rw [← Option.some.inj hown, heq]
          exact if_pos rfl
      · have hslot := hs.slot hown hregistered
        rw [if_neg, hslot]
        intro heq
        rw [heq] at hslot
        rw [isClaimed_of_slot? hslot] at hfree
        cases hfree

theorem Agrees.call {s : Session} (hs : s.Agrees) (c : SetupCall) : (s.call c).Agrees := by
  cases c with
  | register extension offer => exact hs.take false extension offer
  | claim extension offer => exact hs.take true extension offer
  | create layout style => exact hs.addHook layout style
  | install index => exact hs.install index

/-- A claimed slot is not taken from its handler. -/
theorem slot?_assign {s : Session} {extension : String} {handler : Handler}
    (h : s.registry.slot? extension = some (.claimed handler)) (claims : Bool) (other : String)
    (rival : Handler) :
    (s.assign claims other rival).1.registry.slot? extension = some (.claimed handler) :=
  (attempt_assign s claims other rival).keeps h

/-- Nor is it by code that runs. -/
theorem slot?_require {host : Host} {depth : Nat} {s s' : Session} {demand : Demand}
    {loaded : Loaded} {extension : String} {handler : Handler}
    (h : s.registry.slot? extension = some (.claimed handler))
    (hload : require host depth s demand = some (s', loaded)) :
    s'.registry.slot? extension = some (.claimed handler) := by
  have hmaintained : Maintained host (fun _ => True)
      fun s => s.registry.slot? extension = some (.claimed handler) := by
    constructor
    case opening =>
      intro s demand _ hs
      rw [(Prod.mk.inj (s.setup_opening host.transpiler demand)).1]
      exact hs
    case handed => exact fun _ _ _ => trivial
    case closing =>
      intro s s' demand _ _ hs'
      rw [(Prod.mk.inj (setup_closing (s.route demand) demand.file s')).1]
      exact hs'
    case after =>
      intro s deed _ hs
      cases deed with
      | assign claims other rival => exact slot?_assign hs claims other rival
      | _ => exact hs
    case scripts => exact fun code file => (host.evaluator code file).does_any
  exact hmaintained.require depth trivial h hload

theorem slot?_take {s : Session} {extension : String} {handler : Handler}
    (h : s.registry.slot? extension = some (.claimed handler)) (claims : Bool) (other : String)
    (offer : Offer) :
    (s.take claims other offer).registry.slot? extension = some (.claimed handler) := by
  unfold take
  cases s.offered? offer with
  | none => exact h
  | some rival => exact slot?_assign h claims other rival

theorem slot?_call {s : Session} {extension : String} {handler : Handler}
    (h : s.registry.slot? extension = some (.claimed handler)) (c : SetupCall) :
    (s.call c).registry.slot? extension = some (.claimed handler) := by
  cases c with
  | register other offer => exact slot?_take h false other offer
  | claim other offer => exact slot?_take h true other offer
  | create layout style => exact h
  | install index =>
      change (s.install index).1.registry.slot? extension = _
      obtain ⟨-, heq⟩ | ⟨hook, -, -, ⟨-, heq⟩ | ⟨hfree, -, hregistry, -⟩⟩ := install_cases s index
      · rw [heq, h]
      · rw [heq, h]
      · rw [hregistry, slot?_set, if_neg, h]
        rintro rfl
        rw [isClaimed_of_slot? h] at hfree
        cases hfree

theorem slot?_calls {s : Session} {extension : String} {handler : Handler}
    (h : s.registry.slot? extension = some (.claimed handler)) (later : List SetupCall) :
    (s.calls later).registry.slot? extension = some (.claimed handler) := by
  induction later generalizing s with
  | nil => exact h
  | cons c later ih => exact ih (slot?_call h c)

/-- The handler that a call registers for an extension. -/
def registers? (s : Session) (extension : String) : SetupCall → Option Handler
  | .register other offer => if other = extension then s.offered? offer else none
  | _ => none

/-- The handler that was registered for an extension last, whether or not that took effect. -/
def lastRegistered? (extension : String) : Session → List SetupCall → Option Handler
  | _, [] => none
  | s, c :: later => (lastRegistered? extension (s.call c) later).or (s.registers? extension c)

theorem lastRegistered?_concat (extension : String) (s : Session) (history : List SetupCall)
    (c : SetupCall) :
    lastRegistered? extension s (history ++ [c]) =
      ((s.calls history).registers? extension c).or (lastRegistered? extension s history) := by
  induction history generalizing s with
  | nil => exact (Option.or_none).symm
  | cons first history ih =>
      change (lastRegistered? extension (s.call first) (history ++ [c])).or _ = _
      rw [ih, Option.or_assoc]
      rfl

/-- A registered hook was so before a call, or the call is its installation: then its slot
was not claimed, and what the slot held became its fallback. -/
theorem registered_call {s : Session} {c : SetupCall} {index : Nat} {hook : Hook}
    (hhook : (s.call c).hooks[index]? = some hook) (hregistered : hook.isRegistered = true) :
    s.hooks[index]? = some hook ∨
      c = .install index ∧ s.registry.isClaimed hook.extension = false ∧
        hook.fallback = s.registry.handler? hook.extension := by
  cases c with
  | register extension offer => exact .inl (hooks_take s false extension offer ▸ hhook)
  | claim extension offer => exact .inl (hooks_take s true extension offer ▸ hhook)
  | create layout style => exact .inl (registered_addHook hhook hregistered)
  | install other =>
      change (s.install other).1.hooks[index]? = some hook at hhook
      obtain ⟨-, h⟩ | ⟨own, -, -, ⟨-, h⟩ | ⟨hfree, -, -, hhooks⟩⟩ := install_cases s other
      · rw [h] at hhook
        exact .inl hhook
      · rw [h] at hhook
        exact .inl hhook
      · rw [hhooks] at hhook
        split at hhook
        · next heq =>
            rw [← Option.some.inj hhook, heq]
            exact .inr ⟨rfl, hfree, rfl⟩
        · exact .inl hhook

/-- A slot that nobody claimed after a call was not claimed before it, and holds what it held
then, unless the call registered something for it. -/
theorem slot?_call_of_not_claimed {s : Session} {c : SetupCall} {extension : String}
    (h : (s.call c).registry.isClaimed extension = false) :
    s.registry.isClaimed extension = false ∧
      (s.call c).registry.slot? extension =
        ((s.registers? extension c).map .registered).or (s.registry.slot? extension) := by
  have hbefore : s.registry.isClaimed extension = false := by
    apply Bool.eq_false_iff.mpr
    intro hclaimed
    obtain ⟨handler, hslot⟩ := isClaimed_iff.mp hclaimed
    rw [isClaimed_of_slot? (slot?_call hslot c)] at h
    cases h
  refine ⟨hbefore, ?_⟩
  cases c with
  | register other offer =>
      simp only [call, take, registers?]
      cases s.offered? offer with
      | none => simp
      | some handler =>
          obtain ⟨hdone, hslots⟩ := attempt_register s other handler
          change (s.register other handler).1.registry.slot? extension = _
          simp only [hslots, hdone]
          by_cases heq : other = extension
          · simp [heq, hbefore]
          · simp [heq, Ne.symm heq]
  | claim other offer =>
      simp only [call, take] at h ⊢
      cases hoffered : s.offered? offer with
      | none => rfl
      | some handler =>
          rw [hoffered] at h
          obtain ⟨hdone, hslots⟩ := attempt_claim s other handler
          change (s.claim other handler).1.registry.isClaimed extension = false at h
          change (s.claim other handler).1.registry.slot? extension = _
          rw [hslots, if_neg]
          · rfl
          · rintro ⟨htook, rfl⟩
            rw [Registry.isClaimed, hslots, if_pos ⟨htook, rfl⟩] at h
            cases h
  | create layout style => rfl
  | install index =>
      change (s.install index).1.registry.isClaimed extension = false at h
      change (s.install index).1.registry.slot? extension = _
      obtain ⟨-, heq⟩ | ⟨hook, -, -, ⟨-, heq⟩ | ⟨-, -, hregistry, -⟩⟩ := install_cases s index
      · rw [heq]
        rfl
      · rw [heq]
        rfl
      · rw [hregistry, Registry.isClaimed, slot?_set] at h
        rw [hregistry, slot?_set]
        split at h
        · cases h
        · next hne =>
            rw [if_neg hne]
            rfl

def unset (files : FileSystem) : Session := { files }

theorem agrees_unset (files : FileSystem) : (unset files).Agrees := by
  constructor
  · intro extension index h
    cases h
  · intro index hook h
    cases h

theorem agrees_calls {s : Session} (hs : s.Agrees) (history : List SetupCall) :
    (s.calls history).Agrees := by
  induction history generalizing s with
  | nil => exact hs
  | cons c later ih => exact ih (hs.call c)

/-- A slot that nobody claimed holds what was registered for it last. -/
theorem slot?_of_not_claimed (files : FileSystem) {history : List SetupCall} {extension : String}
    (h : ((unset files).calls history).registry.isClaimed extension = false) :
    ((unset files).calls history).registry.slot? extension =
      (lastRegistered? extension (unset files) history).map .registered := by
  induction history using List.reverseRecOn with
  | nil => rfl
  | append_singleton history c ih =>
      rw [calls_concat] at h ⊢
      obtain ⟨hbefore, hslot⟩ := slot?_call_of_not_claimed h
      rw [hslot, ih hbefore, lastRegistered?_concat]
      cases ((unset files).calls history).registers? extension c <;> rfl

/-- The call in a history by which a hook claimed its slot. Before it nobody had, and the
fallback is what the slot held then. -/
structure ClaimedIn (files : FileSystem) (history : List SetupCall) (index : Nat) (hook : Hook)
    (earlier later : List SetupCall) : Prop where
  history : history = earlier ++ .install index :: later
  free : ((unset files).calls earlier).registry.isClaimed hook.extension = false
  fallback : ((unset files).calls earlier).registry.handler? hook.extension = hook.fallback
  taken : ((unset files).calls (earlier ++ [.install index])).registry.slot? hook.extension =
    some (.claimed (.hook index))

theorem exists_claimedIn (files : FileSystem) {history : List SetupCall} {index : Nat} {hook : Hook}
    (hhook : ((unset files).calls history).hooks[index]? = some hook)
    (hregistered : hook.isRegistered = true) :
    ∃ earlier later, ClaimedIn files history index hook earlier later := by
  induction history using List.reverseRecOn with
  | nil => cases hhook
  | append_singleton history c ih =>
      have hagrees := agrees_calls (agrees_unset files) (history ++ [c])
      have hslot := hagrees.slot hhook hregistered
      rw [calls_concat] at hhook
      rcases registered_call hhook hregistered with hbefore | ⟨rfl, hfree, hfallback⟩
      · obtain ⟨earlier, later, hclaimed⟩ := ih hbefore
        refine ⟨earlier, later ++ [c], ?_, hclaimed.free, hclaimed.fallback, hclaimed.taken⟩
        rw [hclaimed.history]
        simp
      · exact ⟨history, [], rfl, hfree, hfallback.symm, hslot⟩

/-- What holds after every history of calls that set a loader up. -/
structure Protected (files : FileSystem) (history : List SetupCall) (s : Session) : Prop where
  /-- A claimed slot keeps its handler, whatever is called later. -/
  claimed : ∀ later extension handler, s.registry.slot? extension = some (.claimed handler) →
    (s.calls later).registry.slot? extension = some (.claimed handler)
  register : ∀ extension handler,
    s.Attempt extension (.registered handler) (s.register extension handler)
  claim : ∀ extension handler,
    s.Attempt extension (.claimed handler) (s.claim extension handler)
  /-- A slot that nobody claimed holds what was registered last. -/
  unclaimed : ∀ extension, s.registry.isClaimed extension = false →
    s.registry.handler? extension = lastRegistered? extension (unset files) history
  /-- The registered hooks are those that hold the slots of their extensions. -/
  holder : ∀ index hook, s.hooks[index]? = some hook →
    (hook.isRegistered = true ↔ s.registry.handler? hook.extension = some (.hook index))
  /-- Every extension has at most one registered hook. -/
  only : ∀ (index other : Nat) (hook rival : Hook), s.hooks[index]? = some hook →
    s.hooks[other]? = some rival → hook.isRegistered = true → rival.isRegistered = true →
    hook.extension = rival.extension → index = other
  /-- The fallback of a registered hook is what its slot held when the hook claimed it. -/
  fallback : ∀ index hook, s.hooks[index]? = some hook → hook.isRegistered = true →
    ∃ earlier later, ClaimedIn files history index hook earlier later
  /-- Installing a registered hook again changes nothing. -/
  again : ∀ index hook, s.hooks[index]? = some hook → hook.isRegistered = true →
    s.install index = (s, .ok ())
  /-- An installation fails exactly if the hook is not registered and its slot is claimed, and
  then it changes nothing. -/
  refused : ∀ index error, (s.install index).2 = .error error ↔
    s.install index = (s, .error error) ∧ ∃ hook, s.hooks[index]? = some hook ∧
      hook.isRegistered = false ∧ s.registry.isClaimed hook.extension = true ∧
      error = ⟨hook.extension⟩

/-- Whatever is called in whatever order, the slots stay protected. -/
theorem protected_calls (files : FileSystem) (history : List SetupCall) :
    Protected files history ((unset files).calls history) := by
  generalize hs : (unset files).calls history = s
  have hagrees : s.Agrees := hs ▸ agrees_calls (agrees_unset files) history
  constructor
  case claimed =>
    intro later extension handler h
    exact slot?_calls h later
  case register => exact attempt_register s
  case claim => exact attempt_claim s
  case unclaimed =>
    intro extension h
    have hslot := slot?_of_not_claimed files (hs ▸ h)
    rw [hs] at hslot
    rw [Registry.handler?, hslot]
    cases lastRegistered? extension (unset files) history <;> rfl
  case holder =>
    intro index hook hhook
    constructor
    · intro hregistered
      exact Registry.handler?_of_slot? (hagrees.slot hhook hregistered)
    · intro hslot
      obtain ⟨owner, howner, hregistered⟩ := hagrees.owner hslot
      rw [hhook] at howner
      rw [Option.some.inj howner]
      exact hregistered
  case only =>
    intro index other hook rival hhook hrival hregistered hregistered' heq
    have hslot := hagrees.slot hhook hregistered
    rw [heq, hagrees.slot hrival hregistered'] at hslot
    simpa using hslot.symm
  case fallback =>
    intro index hook hhook hregistered
    exact exists_claimedIn files (hs ▸ hhook) hregistered
  case again =>
    intro index hook hhook hregistered
    obtain ⟨-, h⟩ | ⟨own, hown, hfresh, -⟩ := install_cases s index
    · exact h
    · rw [hhook] at hown
      rw [Option.some.inj hown, hfresh] at hregistered
      cases hregistered
  case refused =>
    intro index error
    obtain ⟨-, h⟩ | ⟨hook, hhook, hfresh, ⟨hslot, h⟩ | ⟨-, hok, -⟩⟩ := install_cases s index
    · simp [h]
    · constructor
      · intro herror
        rw [h] at herror
        rw [← Except.error.inj herror]
        exact ⟨h, hook, hhook, hfresh, hslot, rfl⟩
      · rintro ⟨heq, -⟩
        rw [heq]
    · constructor
      · intro herror
        rw [hok] at herror
        cases herror
      · rintro ⟨heq, -⟩
        rw [heq]

end Session
end ModuleCache
