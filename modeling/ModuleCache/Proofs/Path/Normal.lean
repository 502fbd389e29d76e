import ModuleCache.Path.Normal
import ModuleCache.Proofs.Path.Names

/-!
The normal form of a path, by what its reading keeps. The components kept so far, the
last of them first, stay normal from step to step; from an absolute path only the root
and names are left, and a file name at the end is never lost.
-/

namespace ModuleCache.Path

/-- What the reading of a normal form may keep, the last component first: names, below
them either the root or a run of steps upward. -/
def KeptNormal : List Component → Prop
  | [] => True
  | .name text :: rest => IsName text.toList ∧ KeptNormal rest
  | .up :: rest => ∀ c ∈ rest, c = .up
  | .root :: rest => rest = []
  | .here :: _ => False

theorem keptNormal_normalStep {kept : List Component} (h : KeptNormal kept) {c : Component}
    (hc : c.IsInner) : KeptNormal (normalStep kept c) := by
  cases c with
  | root => exact absurd hc id
  | here => exact absurd hc id
  | name text => exact ⟨hc, h⟩
  | up =>
      cases kept with
      | nil => simp [normalStep, KeptNormal]
      | cons top rest =>
          cases top with
          | root => exact h
          | here => exact absurd h id
          | name text => exact h.2
          | up =>
              intro c hmem
              rcases List.mem_cons.mp hmem with rfl | hrest
              · rfl
              · exact h c hrest

theorem keptNormal_foldl {cs kept : List Component} (h : KeptNormal kept)
    (hcs : ∀ c ∈ cs, c.IsInner) : KeptNormal (cs.foldl normalStep kept) := by
  induction cs generalizing kept with
  | nil => exact h
  | cons c cs ih =>
      exact ih (keptNormal_normalStep h (hcs c (by simp))) fun d hd => hcs d (by simp [hd])

/-- The first component of a path starts the reading, the others go on with it. -/
theorem keptNormal_of_wellFormed {cs : List Component} (h : WellFormed cs) :
    KeptNormal (cs.foldl normalStep []) := by
  cases cs with
  | nil => trivial
  | cons first rest =>
      obtain ⟨hfirst, hrest⟩ := h
      apply keptNormal_foldl _ hrest
      rcases hfirst with rfl | rfl | hinner
      · exact rfl
      · exact trivial
      · exact keptNormal_normalStep (show KeptNormal [] from trivial) hinner

theorem wellFormed_append {cs : List Component} (h : WellFormed cs) {c : Component}
    (hc : c.IsInner) : WellFormed (cs ++ [c]) := by
  cases cs with
  | nil => exact ⟨.inr (.inr hc), by simp⟩
  | cons first rest =>
      refine ⟨h.1, ?_⟩
      intro d hd
      rcases List.mem_append.mp hd with hrest | hlast
      · exact h.2 d hrest
      · rw [List.mem_singleton.mp hlast]
        exact hc

theorem wellFormed_reverse {kept : List Component} (h : KeptNormal kept) :
    WellFormed kept.reverse := by
  induction kept with
  | nil => trivial
  | cons top rest ih =>
      rw [List.reverse_cons]
      cases top with
      | here => exact absurd h id
      | name text => exact wellFormed_append (ih h.2) h.1
      | root =>
          obtain rfl : rest = [] := h
          exact ⟨.inl rfl, by simp⟩
      | up =>
          refine wellFormed_append (ih ?_) (c := .up) trivial
          cases rest with
          | nil => trivial
          | cons c rest =>
              obtain rfl : c = .up := h c (by simp)
              exact fun d hd => h d (by simp [hd])

/-- The components of a normal form are those that the reading kept. -/
theorem components_normalize (p : Path) :
    p.normalize.components = normalComponents p.components :=
  components_ofComponents (wellFormed_reverse (keptNormal_of_wellFormed (wellFormed_components p)))

theorem exists_names_of_keptNormal {kept : List Component} (h : KeptNormal kept) :
    ∃ (names : List String) (start : List Component), kept = names.map .name ++ start ∧
      (start = [.root] ∨ ∀ c ∈ start, c = .up) := by
  induction kept with
  | nil => exact ⟨[], [], rfl, .inr (by simp)⟩
  | cons top rest ih =>
      cases top with
      | here => exact absurd h id
      | root =>
          obtain rfl : rest = [] := h
          exact ⟨[], [.root], rfl, .inl rfl⟩
      | up => exact ⟨[], .up :: rest, rfl, .inr (List.forall_mem_cons.mpr ⟨rfl, h⟩)⟩
      | name text =>
          obtain ⟨names, start, rfl, hstart⟩ := ih h.2
          exact ⟨text :: names, start, rfl, hstart⟩

/-- A normal form is the root, or a run of steps upward, and names behind it. -/
theorem exists_names_normalize (p : Path) :
    ∃ (start : List Component) (names : List String),
      p.normalize.components = start ++ names.map .name ∧
        (start = [.root] ∨ ∀ c ∈ start, c = .up) := by
  obtain ⟨names, start, hkept, hstart⟩ :=
    exists_names_of_keptNormal (keptNormal_of_wellFormed (wellFormed_components p))
  refine ⟨start.reverse, names.reverse, ?_, by simpa [List.reverse_eq_iff] using hstart⟩
  rw [components_normalize, normalComponents, hkept, List.reverse_append, List.map_reverse]

/-- Behind a name a normal form has names only. -/
theorem isName_of_mem_drop_normalize {p : Path} {i : Nat} {text : String}
    (hi : p.normalize.components[i]? = some (.name text)) :
    ∀ c ∈ p.normalize.components.drop i, c.isName = true := by
  obtain ⟨start, names, hnormal, hstart⟩ := exists_names_normalize p
  rw [hnormal] at hi ⊢
  have hbehind : start.length ≤ i := by
    apply Nat.le_of_not_lt
    intro hlt
    rw [List.getElem?_append_left hlt] at hi
    have hmem := List.mem_of_getElem? hi
    rcases hstart with rfl | hup
    · simp at hmem
    · cases hup _ hmem
  obtain ⟨k, rfl⟩ : ∃ k, i = start.length + k := ⟨i - start.length, by omega⟩
  rw [List.drop_append]
  intro c hc
  rw [List.drop_eq_nil_of_le (by omega), List.nil_append] at hc
  obtain ⟨name, -, rfl⟩ := List.mem_map.mp (List.mem_of_mem_drop hc)
  rfl

/-- Two normal forms with the same components are the same path. -/
theorem normalize_eq_iff {p q : Path} :
    p.normalize = q.normalize ↔ p.normalize.components = q.normalize.components := by
  constructor
  · intro h
    rw [h]
  · intro h
    rw [components_normalize, components_normalize] at h
    rw [normalize, normalize, h]

/-- A name at the end of a path stays at the end of its normal form. -/
theorem normalComponents_append_name (cs : List Component) (text : String) :
    normalComponents (cs ++ [.name text]) = normalComponents cs ++ [.name text] := by
  simp [normalComponents, normalStep]

theorem fileName?_normalize {p : Path} {name : String} (h : p.fileName? = some name) :
    p.normalize.fileName? = some name := by
  rw [fileName?_eq_some_iff, components_normalize, components_eq_of_fileName? h,
    normalComponents_append_name]
  simp

/-! ### Absolute paths -/

theorem isAbsolute_iff {p : Path} : p.isAbsolute = true ↔ p.components.head? = some .root := by
  have hjoin := Text.join_split '/' p.text.toList
  change Text.join '/' p.pieces = _ at hjoin
  have hfree : ∀ piece ∈ p.pieces, '/' ∉ piece := fun _ h => not_mem_of_mem_pieces h
  rw [components_eq_componentsOf]
  unfold isAbsolute
  rw [← hjoin]
  cases hp : p.pieces with
  | nil => exact absurd hp p.pieces_ne_nil
  | cons first rest =>
      rw [hp] at hfree
      cases first with
      | nil => cases rest <;> simp [Text.join, componentsOf]
      | cons c cs =>
          have hc : c ≠ '/' := fun h => hfree (c :: cs) (by simp) (by simp [h])
          have hroot : (componentsOf ((c :: cs) :: rest)).head? ≠ some .root := by
            simp only [componentsOf, componentOf]
            split
            · next h => cases h
            · split
              · simp
              · split <;> simp
          have htext : (Text.join '/' ((c :: cs) :: rest)).head? = some c := by
            cases rest <;> rfl
          simp [htext, hc, hroot]

theorem foldl_normalStep_root {cs : List Component} (hcs : ∀ c ∈ cs, c.IsInner)
    {names : List String} (hnames : ∀ n ∈ names, IsName n.toList) :
    ∃ kept : List String, (∀ n ∈ kept, IsName n.toList) ∧
      cs.foldl normalStep (names.map .name ++ [.root]) = kept.map .name ++ [.root] := by
  induction cs generalizing names with
  | nil => exact ⟨names, hnames, rfl⟩
  | cons c cs ih =>
      have hrest : ∀ d ∈ cs, d.IsInner := fun d hd => hcs d (by simp [hd])
      have hc : c.IsInner := hcs c (by simp)
      rw [List.foldl_cons]
      cases c with
      | root => exact absurd hc id
      | here => exact absurd hc id
      | name text =>
          have htext : ∀ n ∈ text :: names, IsName n.toList := by
            intro n hn
            rcases List.mem_cons.mp hn with rfl | hn
            · exact hc
            · exact hnames n hn
          exact ih hrest htext
      | up =>
          cases names with
          | nil => exact ih hrest hnames
          | cons top names => exact ih hrest fun n hn => hnames n (by simp [hn])

/-- The normal form of an absolute path is the root with names behind it. -/
theorem components_normalize_of_isAbsolute {p : Path} (h : p.isAbsolute = true) :
    ∃ names : List String, (∀ n ∈ names, IsName n.toList) ∧
      p.normalize.components = .root :: names.map .name := by
  obtain ⟨rest, hrest⟩ := List.head?_eq_some_iff.mp (isAbsolute_iff.mp h)
  have hwf := wellFormed_components p
  rw [hrest] at hwf
  have hnone : ∀ n ∈ ([] : List String), IsName n.toList := by simp
  obtain ⟨kept, hkept, hfold⟩ := foldl_normalStep_root hwf.2 hnone
  refine ⟨kept.reverse, fun n hn => hkept n (by simpa using hn), ?_⟩
  have hstart : normalStep [] Component.root = [.root] := rfl
  simp only [List.map_nil, List.nil_append] at hfold
  rw [components_normalize, hrest, normalComponents, List.foldl_cons, hstart, hfold]
  simp

end ModuleCache.Path
