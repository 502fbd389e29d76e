import Mathlib.Data.List.TakeWhile
import ModuleCache.Extensions
import ModuleCache.Proofs.Path.Components

/-!
File names, extensions and parent directories in terms of components. Everything here
rests on one cut: the pieces of a path up to the last one that names something. The part
in front of that piece gives the components of the parent, and the piece gives the last
component; whatever follows it gives none.
-/

namespace ModuleCache.Path

/-- The components of pieces that further pieces follow. -/
def leading : List (List Char) → List Component
  | [] => []
  | first :: rest =>
    if first = [] then .root :: inner rest
    else if first = ['.'] then .here :: inner rest
    else componentOf first :: inner rest

theorem componentsOf_append {front back : List (List Char)} {last : List Char}
    (hlast : isIdle last = false) :
    componentsOf (front ++ last :: back) = leading front ++ inner (last :: back) := by
  cases front with
  | nil =>
      simp only [isIdle, Bool.or_eq_false_iff, beq_eq_false_iff_ne] at hlast
      simp [componentsOf, leading, inner, isIdle, hlast.1, hlast.2]
  | cons first rest =>
      have hsome : rest ++ last :: back ≠ [] := by simp
      simp only [List.cons_append, componentsOf, leading, if_neg hsome, inner_append]
      split
      · rfl
      · split <;> rfl

theorem leading_append {front : List (List Char)} {last : List Char} (back : List (List Char))
    (hlast : isIdle last = false) :
    leading (front ++ last :: back) = leading front ++ inner (last :: back) := by
  cases front with
  | nil =>
      simp only [isIdle, Bool.or_eq_false_iff, beq_eq_false_iff_ne] at hlast
      simp [leading, inner, isIdle, hlast.1, hlast.2]
  | cons first rest =>
      simp only [List.cons_append, leading, inner_append]
      split
      · rfl
      · split <;> rfl

theorem inner_eq_nil {pieces : List (List Char)} (h : ∀ piece ∈ pieces, isIdle piece = true) :
    inner pieces = [] := by
  simpa [inner] using h

/-- The cut of a list of pieces at the last one that is not idle. -/
theorem pieces_of_dropWhile {pieces before : List (List Char)} {last : List Char}
    (h : pieces.reverse.dropWhile isIdle = last :: before) :
    ∃ tail, pieces = before.reverse ++ last :: tail ∧ isIdle last = false ∧ inner tail = [] := by
  refine ⟨(pieces.reverse.takeWhile isIdle).reverse, ?_, ?_, ?_⟩
  · have hcut : pieces.reverse.takeWhile isIdle ++ pieces.reverse.dropWhile isIdle =
        pieces.reverse := List.takeWhile_append_dropWhile
    rw [h] at hcut
    have hrev := congrArg List.reverse hcut
    simpa using hrev.symm
  · have hhead := List.head?_dropWhile_not isIdle pieces.reverse
    simpa [h] using hhead
  · apply inner_eq_nil
    intro piece hmem
    exact List.mem_takeWhile_imp (List.mem_reverse.mp hmem)

theorem isIdle_of_dropWhile_eq_nil {pieces : List (List Char)}
    (h : pieces.reverse.dropWhile isIdle = []) : ∀ piece ∈ pieces, isIdle piece = true := by
  intro piece hmem
  exact List.dropWhile_eq_nil_iff.mp h piece (by simpa using hmem)

/-- What the last piece of a path says about its pieces and its components. -/
theorem lastPiece?_eq_some {p : Path} {before : List (List Char)} {last : List Char}
    (h : p.lastPiece? = some (before, last)) :
    (∃ tail, p.pieces = before ++ last :: tail ∧ isIdle last = false ∧ inner tail = []) ∨
      (before = [] ∧ last = ['.'] ∧ p.components = [.here]) := by
  unfold lastPiece? at h
  split at h
  · next last' before' hdrop =>
      obtain ⟨tail, hpieces⟩ := pieces_of_dropWhile hdrop
      obtain ⟨rfl, rfl⟩ : before'.reverse = before ∧ last' = last := by simpa using h
      exact .inl ⟨tail, hpieces⟩
  · next hdrop =>
      split at h
      · next hhead =>
          obtain ⟨rfl, rfl⟩ : [] = before ∧ ['.'] = last := by simpa using h
          refine .inr ⟨rfl, rfl, ?_⟩
          obtain ⟨rest, hrest⟩ := List.head?_eq_some_iff.mp hhead
          have hidle := isIdle_of_dropWhile_eq_nil hdrop
          rw [hrest] at hidle
          have htail := inner_eq_nil fun piece hm => hidle piece (List.mem_cons_of_mem _ hm)
          rw [components_eq_componentsOf, hrest]
          simp [componentsOf, htail]
      · cases h

theorem components_of_lastPiece? {p : Path} {before : List (List Char)} {last : List Char}
    (h : p.lastPiece? = some (before, last)) :
    p.components = leading before ++ [if last = ['.'] then .here else componentOf last] := by
  rcases lastPiece?_eq_some h with ⟨tail, hpieces, hidle, htail⟩ | ⟨rfl, rfl, hhere⟩
  · have hdot : last ≠ ['.'] := by
      rintro rfl
      cases hidle
    rw [components_eq_componentsOf, hpieces, componentsOf_append hidle,
      inner_cons_of_not_idle hidle, htail, if_neg hdot]
  · simpa [leading] using hhere

theorem components_of_lastPiece?_eq_none {p : Path} (h : p.lastPiece? = none) :
    p.components = [] ∨ p.components = [.root] := by
  unfold lastPiece? at h
  split at h
  · cases h
  · next hdrop =>
      have hidle := isIdle_of_dropWhile_eq_nil hdrop
      split at h
      · cases h
      · next hhead =>
          rw [components_eq_componentsOf]
          cases hp : p.pieces with
          | nil => exact .inl rfl
          | cons first rest =>
              rw [hp] at hidle hhead
              have hfirst := hidle first (by simp)
              have hrest := inner_eq_nil fun piece hm => hidle piece (List.mem_cons_of_mem _ hm)
              have hdot : first ≠ ['.'] := by simpa using hhead
              have hempty : first = [] := by simpa [isIdle, hdot] using hfirst
              simp only [componentsOf, hempty, if_true, hrest]
              split
              · exact .inl rfl
              · exact .inr rfl

/-! ### File names -/

/-- The file name is the last component, when that is a name. -/
theorem fileName?_eq_some_iff {p : Path} {name : String} :
    p.fileName? = some name ↔ p.components.getLast? = some (.name name) := by
  unfold fileName?
  cases h : p.lastPiece? with
  | none =>
      rcases components_of_lastPiece?_eq_none h with hc | hc <;> simp [hc]
  | some cut =>
      obtain ⟨before, last⟩ := cut
      rw [components_of_lastPiece? h]
      by_cases hdot : last = ['.']
      · simp [hdot]
      · by_cases hup : last = ['.', '.']
        · simp [hup, componentOf]
        · simp [hdot, hup, componentOf]

theorem isName_of_fileName? {p : Path} {name : String} (h : p.fileName? = some name) :
    IsName name.toList := by
  have hlast := fileName?_eq_some_iff.mp h
  have hmem : Component.name name ∈ p.components := List.mem_of_getLast? hlast
  have hwf := wellFormed_components p
  cases hc : p.components with
  | nil => simp [hc] at hmem
  | cons first rest =>
      rw [hc] at hwf hmem
      rcases List.mem_cons.mp hmem with heq | hrest
      · rcases hwf.1 with h1 | h1 | h1
        · rw [← heq] at h1; cases h1
        · rw [← heq] at h1; cases h1
        · rw [← heq] at h1; exact h1
      · exact hwf.2 _ hrest

theorem components_eq_of_fileName? {p : Path} {name : String} (h : p.fileName? = some name) :
    p.components = p.components.dropLast ++ [.name name] := by
  have hlast := fileName?_eq_some_iff.mp h
  obtain ⟨front, hfront⟩ := List.getLast?_eq_some_iff.mp hlast
  simp [hfront]

theorem components_single {text : String} (h : IsName text.toList) :
    (⟨text⟩ : Path).components = [.name text] :=
  components_ofComponent (c := .name text) (.inr (.inr h))

theorem components_join_single (a : Path) {text : String} (h : IsName text.toList) :
    (a.join ⟨text⟩).components = a.components ++ [.name text] := by
  have hsingle := components_single h
  have hinner : ∀ c ∈ (⟨text⟩ : Path).components, c.IsInner := by
    intro c hc
    rw [hsingle] at hc
    rw [List.mem_singleton.mp hc]
    exact h
  rw [components_join_of_isInner a (by simp [hsingle]) hinner, hsingle]

/-! ### Parents -/

theorem mem_pieces_of_lastPiece? {p : Path} {before : List (List Char)} {last : List Char}
    (h : p.lastPiece? = some (before, last)) : ∀ piece ∈ before, '/' ∉ piece := by
  intro piece hmem
  rcases lastPiece?_eq_some h with ⟨tail, hpieces, -, -⟩ | ⟨rfl, -, -⟩
  · exact not_mem_of_mem_pieces (p := p) (by simp [hpieces, hmem])
  · cases hmem

theorem components_directoryText {before : List (List Char)}
    (hfree : ∀ piece ∈ before, '/' ∉ piece) :
    (⟨directoryText before⟩ : Path).components = leading before := by
  cases hdrop : before.reverse.dropWhile isIdle with
  | cons last earlier =>
      obtain ⟨tail, hbefore, hidle, htail⟩ := pieces_of_dropWhile hdrop
      have hkept : ∀ piece ∈ earlier.reverse ++ [last], '/' ∉ piece := by
        intro piece hmem
        apply hfree piece
        rw [hbefore]
        rcases List.mem_append.mp hmem with hfront | hlast
        · exact List.mem_append_left _ hfront
        · exact List.mem_append_right _ (List.mem_singleton.mp hlast ▸ List.mem_cons_self)
      have htext : (⟨directoryText before⟩ : Path) = ofPieces (earlier.reverse ++ [last]) := by
        simp [directoryText, hdrop, ofPieces]
      rw [htext, components_eq_componentsOf, pieces_ofPieces (by simp) hkept,
        componentsOf_append hidle, hbefore, leading_append _ hidle,
        inner_cons_of_not_idle hidle, inner_cons_of_not_idle hidle, htail]
      rfl
  | nil =>
      have hidle := isIdle_of_dropWhile_eq_nil hdrop
      cases before with
      | nil => decide
      | cons first rest =>
          have hrest : inner rest = [] :=
            inner_eq_nil fun piece hm => hidle piece (List.mem_cons_of_mem _ hm)
          have hfirst := hidle first (by simp)
          have htext : directoryText (first :: rest) =
              if first = [] then "/" else String.ofList first := by
            simp only [directoryText, hdrop]
          rw [htext]
          by_cases hempty : first = []
          · simp only [leading, if_pos hempty, hrest]
            decide
          · have hdot : first = ['.'] := by simpa [isIdle, hempty] using hfirst
            simp only [leading, hdot, hrest]
            decide

/-- The parent of a path has all its components but the last. -/
theorem components_parent? {p q : Path} (h : p.parent? = some q) :
    q.components = p.components.dropLast := by
  unfold parent? at h
  obtain ⟨⟨before, last⟩, hcut, rfl⟩ := Option.map_eq_some_iff.mp h
  rw [components_of_lastPiece? hcut, components_directoryText (mem_pieces_of_lastPiece? hcut)]
  simp

theorem exists_parent?_of_fileName? {p : Path} {name : String} (h : p.fileName? = some name) :
    ∃ q, p.parent? = some q := by
  unfold fileName? at h
  unfold parent?
  cases hcut : p.lastPiece? with
  | none => simp [hcut] at h
  | some cut => exact ⟨_, rfl⟩

/-- Replacing the file name replaces the last component. -/
theorem components_withFileName {p : Path} {old new : String} (hold : p.fileName? = some old)
    (hnew : IsName new.toList) :
    (p.withFileName new).components = p.components.dropLast ++ [.name new] := by
  obtain ⟨q, hq⟩ := exists_parent?_of_fileName? hold
  simp only [withFileName, hold, hq, Option.getD_some]
  rw [components_join_single q hnew, components_parent? hq]

end ModuleCache.Path
