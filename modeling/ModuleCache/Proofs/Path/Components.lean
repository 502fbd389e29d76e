import ModuleCache.Path
import ModuleCache.Proofs.Text.Split

/-!
What the operations on paths do to components. A path is known by its pieces, the texts
between its slashes: cutting the text and joining the pieces undo each other, so every
statement about a text becomes one about a list of pieces and then about components.
Main statements: joining appends components, and a list of components that can be those
of a path is read back from the path written for it.
-/

namespace ModuleCache

namespace Path

/-- A text that can be the name of a directory entry. -/
def IsName (piece : List Char) : Prop :=
  '/' ∉ piece ∧ piece ≠ [] ∧ piece ≠ ['.'] ∧ piece ≠ ['.', '.']

/-- A component that can stand behind another one. -/
def Component.IsInner : Component → Prop
  | .up => True
  | .name text => IsName text.toList
  | _ => False

/-- A list of components that is the meaning of a path: only the first component can be
the root or a dot, and every name can be that of an entry. -/
def WellFormed : List Component → Prop
  | [] => True
  | first :: rest => (first = .root ∨ first = .here ∨ first.IsInner) ∧ ∀ c ∈ rest, c.IsInner

/-- The components that a list of pieces stands for. -/
def componentsOf : List (List Char) → List Component
  | [] => []
  | first :: rest =>
    if first = [] then (if rest = [] then [] else .root :: inner rest)
    else if first = ['.'] then .here :: inner rest
    else componentOf first :: inner rest

theorem components_eq_componentsOf (p : Path) : p.components = componentsOf p.pieces := rfl

theorem pieces_ne_nil (p : Path) : p.pieces ≠ [] := Text.split_ne_nil _ _

theorem not_mem_of_mem_pieces {p : Path} {piece : List Char} (h : piece ∈ p.pieces) :
    '/' ∉ piece := Text.not_mem_of_mem_split _ _ _ h

/-- The path that is written as the given pieces with slashes between them. -/
def ofPieces (pieces : List (List Char)) : Path := ⟨String.ofList (Text.join '/' pieces)⟩

theorem pieces_ofPieces {pieces : List (List Char)} (hne : pieces ≠ [])
    (hfree : ∀ piece ∈ pieces, '/' ∉ piece) : (ofPieces pieces).pieces = pieces := by
  simp [ofPieces, Path.pieces, Text.split_join hne hfree]

theorem componentOf_of_isName {piece : List Char} (h : IsName piece) :
    componentOf piece = .name (String.ofList piece) := by
  simp [componentOf, h.2.2.2]

theorem isInner_componentOf {piece : List Char} (hfree : '/' ∉ piece)
    (hidle : isIdle piece = false) : (componentOf piece).IsInner := by
  unfold componentOf
  split
  · trivial
  · next hup =>
      simp only [isIdle, Bool.or_eq_false_iff, beq_eq_false_iff_ne] at hidle
      simpa [Component.IsInner] using ⟨hfree, hidle.1, hidle.2, hup⟩

theorem inner_append (front back : List (List Char)) :
    inner (front ++ back) = inner front ++ inner back := by
  simp [inner]

theorem inner_cons_idle {piece : List Char} (h : isIdle piece = true) (rest : List (List Char)) :
    inner (piece :: rest) = inner rest := by
  simp [inner, h]

theorem inner_cons_of_not_idle {piece : List Char} (h : isIdle piece = false)
    (rest : List (List Char)) : inner (piece :: rest) = componentOf piece :: inner rest := by
  simp [inner, h]

theorem isInner_of_mem_inner {pieces : List (List Char)} (hfree : ∀ piece ∈ pieces, '/' ∉ piece)
    {c : Component} (hc : c ∈ inner pieces) : c.IsInner := by
  simp only [inner, List.mem_map, List.mem_filter] at hc
  obtain ⟨piece, ⟨hmem, hidle⟩, rfl⟩ := hc
  exact isInner_componentOf (hfree piece hmem) (by simpa using hidle)

/-- The components of any path are the meaning of a path. -/
theorem wellFormed_components (p : Path) : WellFormed p.components := by
  have hfree : ∀ piece ∈ p.pieces, '/' ∉ piece := fun _ h => not_mem_of_mem_pieces h
  rw [components_eq_componentsOf]
  cases hp : p.pieces with
  | nil => exact absurd hp p.pieces_ne_nil
  | cons first rest =>
      rw [hp] at hfree
      have hrest : ∀ c ∈ inner rest, c.IsInner := fun c hc =>
        isInner_of_mem_inner (fun piece hm => hfree piece (by simp [hm])) hc
      simp only [componentsOf]
      split
      · split
        · trivial
        · exact ⟨.inl rfl, hrest⟩
      · next hempty =>
          split
          · exact ⟨.inr (.inl rfl), hrest⟩
          · next hdot =>
              exact ⟨.inr (.inr (isInner_componentOf (hfree first (by simp))
                (by simp [isIdle, hempty, hdot]))), hrest⟩

/-! ### Joining -/

/-- Pieces without the empty one behind a slash at the end. -/
def dropSlash (pieces : List (List Char)) : List (List Char) :=
  if pieces.getLast? = some [] then pieces.dropLast else pieces

theorem pieces_append_slash (p : Path) (text : String) :
    pieces ⟨p.text ++ "/" ++ text⟩ = p.pieces ++ pieces ⟨text⟩ := by
  simp [pieces, Text.split_append_sep]

theorem pieces_join {a b : Path} (hb : b.isAbsolute = false) :
    (a.join b).pieces = dropSlash a.pieces ++ b.pieces := by
  unfold join
  simp only [hb, Bool.false_eq_true, if_false]
  rcases List.eq_nil_or_concat a.text.toList with hempty | ⟨front, last, hlast⟩
  · have htext : a.text = "" := String.toList_eq_nil_iff.mp hempty
    simp [pieces, htext, dropSlash, Text.split]
  · rw [List.concat_eq_append] at hlast
    by_cases hslash : last = '/'
    · have hpieces : a.pieces = Text.split '/' front ++ [[]] := by
        simp only [pieces, hlast, hslash]
        rw [Text.split_append_sep]
        rfl
      have hdrop : dropSlash a.pieces = Text.split '/' front := by
        simp [dropSlash, hpieces]
      rw [hdrop]
      simp [hlast, hslash, pieces, Text.split_append_sep]
    · have hdrop : dropSlash a.pieces = a.pieces := by
        have hend := Text.getLast?_split_ne_nil hslash front
        rw [← hlast] at hend
        exact if_neg hend
      rw [hdrop]
      simp only [hlast, List.getLast?_append, List.getLast?_singleton]
      simp [hslash, pieces_append_slash]

theorem dropSlash_cons {rest : List (List Char)} (hrest : rest ≠ []) (first : List Char) :
    dropSlash (first :: rest) = first :: dropSlash rest := by
  obtain ⟨next, more, rfl⟩ := List.exists_cons_of_ne_nil hrest
  unfold dropSlash
  rw [List.getLast?_cons_cons]
  split <;> rfl

theorem inner_dropSlash (pieces : List (List Char)) : inner (dropSlash pieces) = inner pieces := by
  unfold dropSlash
  split
  · next hend =>
      obtain ⟨front, rfl⟩ := List.getLast?_eq_some_iff.mp hend
      simp [inner, isIdle]
  · rfl

theorem componentsOf_dropSlash_append {front back : List (List Char)} (hne : front ≠ [])
    (hempty : front ≠ [[]]) (hback : back ≠ []) :
    componentsOf (dropSlash front ++ back) = componentsOf front ++ inner back := by
  obtain ⟨first, rest, rfl⟩ := List.exists_cons_of_ne_nil hne
  by_cases hrest : rest = []
  · subst hrest
    have hfirst : first ≠ [] := fun h => hempty (by simp [h])
    have hdrop : dropSlash [first] = [first] := by simp [dropSlash, hfirst]
    rw [hdrop]
    by_cases hdot : first = ['.']
    · simp [componentsOf, hdot, inner]
    · simp [componentsOf, hfirst, hdot, inner]
  · have hsome : dropSlash rest ++ back ≠ [] := by simp [hback]
    rw [dropSlash_cons hrest, List.cons_append]
    simp only [componentsOf, if_neg hsome, if_neg hrest, inner_append, inner_dropSlash]
    split
    · rfl
    · split <;> rfl

/-- Joining to a path that is not empty appends the components, a leading dot apart. -/
theorem components_join {a b : Path} (ha : a.text ≠ "") (hb : b.isAbsolute = false) :
    (a.join b).components = a.components ++ inner b.pieces := by
  have hempty : a.pieces ≠ [[]] := by
    intro h
    apply ha
    have hjoin := Text.join_split '/' a.text.toList
    change Text.join '/' a.pieces = _ at hjoin
    rw [h] at hjoin
    exact String.toList_eq_nil_iff.mp hjoin.symm
  rw [components_eq_componentsOf, pieces_join hb, components_eq_componentsOf,
    componentsOf_dropSlash_append a.pieces_ne_nil hempty b.pieces_ne_nil]

theorem join_empty_left (b : Path) : (⟨""⟩ : Path).join b = b := by
  unfold join
  split
  · rfl
  · simp

/-! ### Paths written from components -/

/-- The piece a component is written as. -/
def Component.piece (c : Component) : List Char := c.text.toList

theorem pieces_ofComponent {c : Component} (hc : c.IsInner) :
    (ofComponent c).pieces = [c.piece] := by
  have hfree : '/' ∉ c.piece := by
    cases c with
    | root => exact absurd hc id
    | here => exact absurd hc id
    | up => decide
    | name text => exact hc.1
  exact Text.split_of_not_mem hfree

theorem isAbsolute_of_pieces {p : Path} {first : List Char} {rest : List (List Char)}
    (h : p.pieces = first :: rest) (hne : first ≠ []) : p.isAbsolute = false := by
  have hfree : '/' ∉ first := not_mem_of_mem_pieces (p := p) (by simp [h])
  have hjoin := Text.join_split '/' p.text.toList
  change Text.join '/' p.pieces = _ at hjoin
  obtain ⟨c, cs, rfl⟩ := List.exists_cons_of_ne_nil hne
  have hc : c ≠ '/' := fun hslash => hfree (by simp [hslash])
  have hhead : (Text.join '/' ((c :: cs) :: rest)).head? = some c := by
    cases rest <;> rfl
  simp [isAbsolute, ← hjoin, h, hhead, hc]

theorem piece_ne_nil {c : Component} (hc : c.IsInner) : c.piece ≠ [] := by
  cases c with
  | root => exact absurd hc id
  | here => exact absurd hc id
  | up => decide
  | name text => exact hc.2.1

theorem isAbsolute_ofComponent {c : Component} (hc : c.IsInner) :
    (ofComponent c).isAbsolute = false :=
  isAbsolute_of_pieces (pieces_ofComponent hc) (piece_ne_nil hc)

theorem inner_piece {c : Component} (hc : c.IsInner) : inner [c.piece] = [c] := by
  cases c with
  | root => exact absurd hc id
  | here => exact absurd hc id
  | up => rfl
  | name text =>
      obtain ⟨-, hempty, hdot, hup⟩ := hc
      simp [inner, isIdle, componentOf, Component.piece, Component.text, hempty, hdot, hup]

theorem components_ofComponent {c : Component} (hc : c = .root ∨ c = .here ∨ c.IsInner) :
    (ofComponent c).components = [c] := by
  rcases hc with rfl | rfl | hc
  · decide
  · decide
  · have hpiece := inner_piece hc
    rw [components_eq_componentsOf, pieces_ofComponent hc]
    cases c with
    | root => exact absurd hc id
    | here => exact absurd hc id
    | up => rfl
    | name text =>
        obtain ⟨-, hempty, hdot, hup⟩ := hc
        simp [componentsOf, componentOf, Component.piece, Component.text, hempty, hdot, hup, inner]

theorem text_ne_empty_of_components_ne_nil {p : Path} (h : p.components ≠ []) : p.text ≠ "" := by
  intro htext
  apply h
  have : p = ⟨""⟩ := by cases p; simp_all
  rw [this]
  decide

theorem components_foldl_join {start : Path} (hstart : start.text ≠ "") {cs : List Component}
    (hcs : ∀ c ∈ cs, c.IsInner) :
    (cs.foldl (fun p c => p.join (ofComponent c)) start).components = start.components ++ cs := by
  induction cs generalizing start with
  | nil => simp
  | cons c cs ih =>
      have hc : c.IsInner := hcs c (by simp)
      have hjoin : (start.join (ofComponent c)).components = start.components ++ [c] := by
        rw [components_join hstart (isAbsolute_ofComponent hc), pieces_ofComponent hc,
          inner_piece hc]
      have hnext : (start.join (ofComponent c)).text ≠ "" :=
        text_ne_empty_of_components_ne_nil (by simp [hjoin])
      rw [List.foldl_cons, ih hnext fun d hd => hcs d (by simp [hd]), hjoin]
      simp

/-- A list of components that can be the meaning of a path is that of the path written
for it. -/
theorem components_ofComponents {cs : List Component} (h : WellFormed cs) :
    (ofComponents cs).components = cs := by
  cases cs with
  | nil => decide
  | cons first rest =>
      obtain ⟨hfirst, hrest⟩ := h
      have hsingle := components_ofComponent hfirst
      have htext : (ofComponent first).text ≠ "" :=
        text_ne_empty_of_components_ne_nil (by simp [hsingle])
      unfold ofComponents
      rw [List.foldl_cons, join_empty_left, components_foldl_join htext hrest, hsingle]
      rfl

/-! ### Paths written from inner components -/

theorem pieces_foldl_join {start : Path} (hstart : dropSlash start.pieces = start.pieces)
    {cs : List Component} (hcs : ∀ c ∈ cs, c.IsInner) :
    (cs.foldl (fun p c => p.join (ofComponent c)) start).pieces =
      start.pieces ++ cs.map Component.piece := by
  induction cs generalizing start with
  | nil => simp
  | cons c cs ih =>
      have hc : c.IsInner := hcs c (by simp)
      have hjoin : (start.join (ofComponent c)).pieces = start.pieces ++ [c.piece] := by
        rw [pieces_join (isAbsolute_ofComponent hc), pieces_ofComponent hc, hstart]
      have hnext : dropSlash (start.join (ofComponent c)).pieces =
          (start.join (ofComponent c)).pieces := by
        simp [hjoin, dropSlash, piece_ne_nil hc]
      rw [List.foldl_cons, ih hnext fun d hd => hcs d (by simp [hd]), hjoin]
      simp

/-- Inner components are written as their pieces. -/
theorem pieces_ofComponents {cs : List Component} (hne : cs ≠ []) (hcs : ∀ c ∈ cs, c.IsInner) :
    (ofComponents cs).pieces = cs.map Component.piece := by
  obtain ⟨first, rest, rfl⟩ := List.exists_cons_of_ne_nil hne
  have hfirst : first.IsInner := hcs first (by simp)
  have hpieces := pieces_ofComponent hfirst
  have hdrop : dropSlash (ofComponent first).pieces = (ofComponent first).pieces := by
    simp [hpieces, dropSlash, piece_ne_nil hfirst]
  unfold ofComponents
  rw [List.foldl_cons, join_empty_left,
    pieces_foldl_join hdrop fun d hd => hcs d (by simp [hd]), hpieces]
  rfl

theorem isAbsolute_of_isInner {p : Path} {first : Component} {rest : List Component}
    (h : p.components = first :: rest) (hfirst : first.IsInner) :
    p.isAbsolute = false ∧ inner p.pieces = first :: rest := by
  rw [components_eq_componentsOf] at h
  cases hp : p.pieces with
  | nil => exact absurd hp p.pieces_ne_nil
  | cons piece more =>
      simp only [hp, componentsOf] at h
      split at h
      · split at h
        · cases h
        · rw [← (List.cons.inj h).1] at hfirst
          exact absurd hfirst id
      · next hempty =>
          refine ⟨isAbsolute_of_pieces hp hempty, ?_⟩
          split at h
          · rw [← (List.cons.inj h).1] at hfirst
            exact absurd hfirst id
          · next hdot =>
              rw [← h, inner_cons_of_not_idle (by simp [isIdle, hempty, hdot])]

/-- Joining a path of inner components to any path appends them. -/
theorem components_join_of_isInner (a : Path) {b : Path} (hne : b.components ≠ [])
    (hinner : ∀ c ∈ b.components, c.IsInner) :
    (a.join b).components = a.components ++ b.components := by
  obtain ⟨first, rest, hb⟩ := List.exists_cons_of_ne_nil hne
  obtain ⟨habs, hpieces⟩ := isAbsolute_of_isInner hb (hinner first (by simp [hb]))
  by_cases ha : a.text = ""
  · have hempty : a = ⟨""⟩ := by cases a; simp_all
    rw [hempty, join_empty_left]
    rfl
  · rw [components_join ha habs, hpieces, hb]

theorem wellFormed_of_isInner {cs : List Component} (h : ∀ c ∈ cs, c.IsInner) :
    WellFormed cs := by
  cases cs with
  | nil => trivial
  | cons first rest =>
      obtain ⟨hfirst, hrest⟩ := List.forall_mem_cons.mp h
      exact ⟨.inr (.inr hfirst), hrest⟩

theorem components_join_ofComponents (a : Path) {cs : List Component} (hne : cs ≠ [])
    (hcs : ∀ c ∈ cs, c.IsInner) : (a.join (ofComponents cs)).components = a.components ++ cs := by
  have hcomponents := components_ofComponents (wellFormed_of_isInner hcs)
  rw [components_join_of_isInner a (by rwa [hcomponents]) (by rwa [hcomponents]), hcomponents]

/-- Joining the empty path appends at most a slash. -/
theorem components_join_empty (a : Path) : (a.join ⟨""⟩).components = a.components := by
  by_cases ha : a.text = ""
  · have hempty : a = ⟨""⟩ := by cases a; simp_all
    rw [hempty]
    rfl
  · rw [components_join ha rfl]
    simp [inner, pieces, Text.split, isIdle]

theorem same_iff {p q : Path} : p.same q = true ↔ p.components = q.components := by
  simp [same]

end Path
end ModuleCache
