import Mathlib.Data.List.Induction
import Mathlib.Data.List.Nodup
import ModuleCache.Trace.Chain

/-!
Chains over whole histories. Retrievers are offered to a chain at its front or at its back,
and names are blocked, in any order and any number of times. A name that was blocked once
never comes back, no name stands twice, and the retrievers stand in an order that can be read
off the calls: the insertions at the front that survive, the latest first, and then those at
the back, the earliest first.
-/

namespace ModuleCache.Trace.Chain

/-- The end at which a retriever is offered. -/
inductive Side where
  | front
  | back
  deriving DecidableEq, Repr

/-- A list with a retriever more at an end. -/
def Side.add (side : Side) (r : Retriever) (retrievers : List Retriever) : List Retriever :=
  match side with
  | .front => r :: retrievers
  | .back => retrievers ++ [r]

inductive Call where
  | insert (side : Side) (r : Retriever)
  | block (id : String)

/-- Offers a retriever at an end and says whether the chain took it. -/
def insert (c : Chain) (side : Side) (r : Retriever) : Chain × Bool :=
  let taken :=
    match side with
    | .front => c.installFront? r
    | .back => c.install? r
  match taken with
  | some c => (c, true)
  | none => (c, false)

/-- What a call leaves, whether or not it took effect. -/
def call (c : Chain) : Call → Chain
  | .insert side r => (c.insert side r).1
  | .block id => c.block id

def calls (c : Chain) (history : List Call) : Chain := history.foldl call c

theorem calls_append (c : Chain) (history later : List Call) :
    c.calls (history ++ later) = (c.calls history).calls later := List.foldl_append

theorem calls_concat (c : Chain) (history : List Call) (last : Call) :
    c.calls (history ++ [last]) = (c.calls history).call last := calls_append c history [last]

theorem refuses_eq_true {c : Chain} {id : String} :
    c.refuses id = true ↔ id ∈ c.blocked ∨ id ∈ c.ids := by
  simp [refuses]

/-- What an offer comes to: the chain refuses the name and stays as it is, or it has the
retriever more. -/
theorem insert_cases (c : Chain) (side : Side) (r : Retriever) :
    (c.refuses r.id = true ∧ c.insert side r = (c, false)) ∨
      (c.refuses r.id = false ∧
        c.insert side r = ({ c with retrievers := side.add r c.retrievers }, true)) := by
  unfold insert install? installFront?
  cases hrefuses : c.refuses r.id with
  | true => exact .inl ⟨rfl, by cases side <;> rfl⟩
  | false => exact .inr ⟨rfl, by cases side <;> rfl⟩

/-- The names of a chain are different, and none of them is blocked. -/
structure Exclusive (c : Chain) : Prop where
  distinct : c.ids.Nodup
  unblocked : ∀ id ∈ c.ids, id ∉ c.blocked

theorem Side.perm_add (side : Side) (r : Retriever) (retrievers : List Retriever) :
    (side.add r retrievers).Perm (r :: retrievers) := by
  cases side with
  | front => exact List.Perm.refl _
  | back => exact List.perm_append_singleton r retrievers

theorem Exclusive.call {c : Chain} (h : c.Exclusive) (made : Call) : (c.call made).Exclusive := by
  cases made with
  | block id =>
      have hkept : (c.block id).ids.Sublist c.ids := List.filter_sublist.map _
      refine ⟨h.distinct.sublist hkept, ?_⟩
      intro other hother hblocked
      rcases List.mem_cons.mp hblocked with rfl | hearlier
      · obtain ⟨r, hr, hid⟩ := List.mem_map.mp hother
        exact absurd hid (by simpa using (List.mem_filter.mp hr).2)
      · exact h.unblocked other (hkept.subset hother) hearlier
  | insert side r =>
      change (c.insert side r).1.Exclusive
      obtain ⟨-, hsame⟩ | ⟨hfree, hmore⟩ := insert_cases c side r
      · rw [hsame]
        exact h
      · have hnew : ¬(r.id ∈ c.blocked ∨ r.id ∈ c.ids) := by
          rw [← refuses_eq_true, hfree]
          exact Bool.false_ne_true
        have hids : ((side.add r c.retrievers).map (·.id)).Perm (r.id :: c.ids) :=
          (side.perm_add r c.retrievers).map _
        rw [hmore]
        refine ⟨hids.nodup_iff.mpr ?_, ?_⟩
        · exact List.nodup_cons.mpr ⟨fun hmem => hnew (.inr hmem), h.distinct⟩
        · intro id hid
          rcases List.mem_cons.mp (hids.subset hid) with rfl | hold
          · exact fun hblocked => hnew (.inl hblocked)
          · exact h.unblocked id hold

theorem Exclusive.calls {c : Chain} (h : c.Exclusive) (history : List Call) :
    (c.calls history).Exclusive := by
  induction history generalizing c with
  | nil => exact h
  | cons made later ih => exact ih (h.call made)

theorem exclusive_empty : empty.Exclusive := ⟨List.nodup_nil, fun _ h => (List.not_mem_nil h).elim⟩

/-- The names that are blocked: those that were, and those that the calls block. -/
theorem mem_blocked_calls {c : Chain} {history : List Call} {id : String} :
    id ∈ (c.calls history).blocked ↔ id ∈ c.blocked ∨ .block id ∈ history := by
  induction history generalizing c with
  | nil => simp [calls]
  | cons made later ih =>
      change id ∈ ((c.call made).calls later).blocked ↔ _
      rw [ih]
      cases made with
      | block other =>
          change id ∈ other :: c.blocked ∨ _ ↔ _
          simp only [List.mem_cons, Call.block.injEq]
          tauto
      | insert side r =>
          have hsame : (c.call (.insert side r)).blocked = c.blocked := by
            change (c.insert side r).1.blocked = c.blocked
            obtain ⟨-, h⟩ | ⟨-, h⟩ := insert_cases c side r <;> rw [h]
          rw [hsame]
          simp

/-- A blocked name is in no chain that comes later, however it is offered. -/
theorem Exclusive.not_mem_ids_calls {c : Chain} (h : c.Exclusive) {id : String}
    (hblocked : id ∈ c.blocked) (later : List Call) : id ∉ (c.calls later).ids :=
  fun hmem => (h.calls later).unblocked id hmem (mem_blocked_calls.mpr (.inl hblocked))

/-! ### The order of what survives -/

/-- A call blocks a name. -/
def Call.blocks (id : String) : Call → Bool
  | .insert _ _ => false
  | .block other => other == id

theorem any_blocks {history : List Call} {id : String} :
    history.any (·.blocks id) = true ↔ .block id ∈ history := by
  rw [List.any_eq_true]
  constructor
  · rintro ⟨made, hmade, hblocks⟩
    cases made with
    | insert side r => cases hblocks
    | block other =>
        rw [← beq_iff_eq.mp hblocks]
        exact hmade
  · intro h
    exact ⟨_, h, beq_self_eq_true id⟩

instance (history : List Call) (id : String) : Decidable (.block id ∈ history) :=
  decidable_of_iff _ any_blocks

/-- After a history a name can be taken: no call blocked it, and no retriever has it. -/
def IsFree (history : List Call) (id : String) : Prop :=
  .block id ∉ history ∧ id ∉ (empty.calls history).ids

instance (history : List Call) (id : String) : Decidable (IsFree history id) :=
  inferInstanceAs (Decidable (_ ∧ _))

/-- The retrievers of the insertions at an end that survive, in the order of the calls: the
name could be taken after the calls before the insertion, and no later call blocks it. -/
def survivors (side : Side) : (earlier later : List Call) → List Retriever
  | _, [] => []
  | earlier, .block id :: later => survivors side (earlier ++ [.block id]) later
  | earlier, .insert own r :: later =>
    let rest := survivors side (earlier ++ [.insert own r]) later
    if own = side ∧ IsFree earlier r.id ∧ .block r.id ∉ later then r :: rest else rest

/-- One more insertion survives if its name can be taken, and takes nothing from the others. -/
theorem survivors_concat_insert (side own : Side) (r : Retriever) (earlier later : List Call) :
    survivors side earlier (later ++ [.insert own r]) =
      survivors side earlier later ++
        if own = side ∧ IsFree (earlier ++ later) r.id then [r] else [] := by
  induction later generalizing earlier with
  | nil =>
      rw [List.append_nil]
      simp [survivors]
  | cons made later ih =>
      cases made with
      | block id =>
          simp only [List.cons_append, survivors]
          rw [ih, List.append_assoc, List.singleton_append]
      | insert first s =>
          have hblocks : .block s.id ∈ later ++ [.insert own r] ↔ .block s.id ∈ later := by simp
          simp only [List.cons_append, survivors, hblocks]
          rw [ih, List.append_assoc, List.singleton_append]
          split <;> rfl

/-- Blocking a name takes the insertions of that name away, and no others. -/
theorem survivors_concat_block (side : Side) (id : String) (earlier later : List Call) :
    survivors side earlier (later ++ [.block id]) =
      (survivors side earlier later).filter (·.id ≠ id) := by
  induction later generalizing earlier with
  | nil => rfl
  | cons made later ih =>
      cases made with
      | block other =>
          simp only [List.cons_append, survivors]
          exact ih _
      | insert own r =>
          have hblocks : .block r.id ∉ later ++ [.block id] ↔ .block r.id ∉ later ∧ r.id ≠ id := by
            simp
          simp only [List.cons_append, survivors, hblocks]
          rw [ih]
          by_cases hid : r.id = id
          · simp only [hid, ne_eq, not_true_eq_false, and_false, if_false]
            split <;> simp [hid]
          · simp only [hid, ne_eq, not_false_eq_true, and_true]
            split <;> simp [hid]

theorem isFree_iff {history : List Call} {id : String} :
    IsFree history id ↔ (empty.calls history).refuses id = false := by
  rw [← Bool.not_eq_true, refuses_eq_true, mem_blocked_calls, not_or, not_or]
  exact ⟨fun h => ⟨⟨List.not_mem_nil, h.1⟩, h.2⟩, fun h => ⟨h.1.2, h.2⟩⟩

/-- The retrievers of a chain are the insertions that survive: those at the front, the latest
first, and behind them those at the back, the earliest first. -/
theorem retrievers_calls (history : List Call) :
    (empty.calls history).retrievers =
      (survivors .front [] history).reverse ++ survivors .back [] history := by
  induction history using List.reverseRecOn with
  | nil => rfl
  | append_singleton history last ih =>
      rw [calls_concat]
      cases last with
      | block id =>
          rw [survivors_concat_block, survivors_concat_block, ← List.filter_reverse,
            ← List.filter_append, ← ih]
          rfl
      | insert side r =>
          rw [survivors_concat_insert, survivors_concat_insert, List.nil_append]
          change ((empty.calls history).insert side r).1.retrievers = _
          obtain ⟨hrefused, h⟩ | ⟨hfree, h⟩ := insert_cases (empty.calls history) side r
          · have hnot : ¬IsFree history r.id := by
              rw [isFree_iff, hrefused]
              exact Bool.noConfusion
            rw [h, ih]
            simp [hnot]
          · rw [h]
            dsimp only
            rw [ih]
            have hfree := isFree_iff.mpr hfree
            cases side <;> simp [Side.add, hfree]

/-- What holds of a chain after a history of calls. -/
structure Orderly (history : List Call) (c : Chain) : Prop where
  distinct : c.ids.Nodup
  unblocked : ∀ id ∈ c.ids, .block id ∉ history
  /-- An offer is accepted exactly if its name was never blocked and is not there. -/
  accepted : ∀ side r, (c.insert side r).2 = true ↔ .block r.id ∉ history ∧ r.id ∉ c.ids
  /-- A refused offer changes nothing. -/
  refused : ∀ side r, (c.insert side r).2 = false → (c.insert side r).1 = c
  /-- A name that was blocked never comes back. -/
  gone : ∀ id, .block id ∈ history → ∀ later, id ∉ (c.calls later).ids
  order : c.retrievers = (survivors .front [] history).reverse ++ survivors .back [] history
  /-- Blocking a name leaves all retrievers of other names, in their order. -/
  blocking : ∀ id, (c.block id).retrievers = c.retrievers.filter (·.id ≠ id)

/-- Whatever is offered and blocked in whatever order, the chain is orderly. -/
theorem orderly_calls (history : List Call) : Orderly history (empty.calls history) := by
  have hexclusive := exclusive_empty.calls history
  have hblocked : ∀ {id}, .block id ∈ history ↔ id ∈ (empty.calls history).blocked := by
    intro id
    rw [mem_blocked_calls]
    exact ⟨.inr, fun h => h.resolve_left List.not_mem_nil⟩
  constructor
  case distinct => exact hexclusive.distinct
  case unblocked =>
    intro id hid hmem
    exact hexclusive.unblocked id hid (hblocked.mp hmem)
  case accepted =>
    intro side r
    have hfree := @isFree_iff history r.id
    unfold IsFree at hfree
    rw [hfree]
    obtain ⟨hrefused, h⟩ | ⟨htaken, h⟩ := insert_cases (empty.calls history) side r
    · simp [h, hrefused]
    · simp [h, htaken]
  case refused =>
    intro side r hrefused
    obtain ⟨-, h⟩ | ⟨-, h⟩ := insert_cases (empty.calls history) side r
    · rw [h]
    · rw [h] at hrefused
      cases hrefused
  case gone =>
    intro id hmem later
    exact hexclusive.not_mem_ids_calls (hblocked.mp hmem) later
  case order => exact retrievers_calls history
  case blocking =>
    intro id
    rfl

end ModuleCache.Trace.Chain
