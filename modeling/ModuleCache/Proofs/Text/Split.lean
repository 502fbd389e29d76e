import ModuleCache.Text.Split

/-!
Pieces joined by a separator and cut again. The cut gives back the pieces that were joined,
if none of them holds the separator; of pieces that are not empty it gives back these even
when there are none, where the cut leaves one empty piece.
-/

namespace ModuleCache.Text

theorem split_append_sep (sep : Char) (front back : List Char) :
    split sep (front ++ sep :: back) = split sep front ++ split sep back := by
  induction front with
  | nil => simp [split]
  | cons c front ih =>
      simp only [List.cons_append, split, ih]
      by_cases hc : c = sep
      · simp [hc]
      · cases hs : split sep front with
        | nil => exact absurd hs (split_ne_nil sep front)
        | cons piece pieces => simp [hc]

theorem split_of_not_mem {sep : Char} {cs : List Char} (h : sep ∉ cs) : split sep cs = [cs] := by
  induction cs with
  | nil => rfl
  | cons c cs ih =>
      obtain ⟨hc, hcs⟩ : sep ≠ c ∧ sep ∉ cs := by simpa using h
      simp [split, ih hcs, Ne.symm hc]

theorem split_join {sep : Char} {pieces : List (List Char)} (hne : pieces ≠ [])
    (hfree : ∀ piece ∈ pieces, sep ∉ piece) : split sep (join sep pieces) = pieces := by
  induction pieces with
  | nil => exact absurd rfl hne
  | cons piece rest ih =>
      have hpiece : sep ∉ piece := hfree piece (by simp)
      cases rest with
      | nil => exact split_of_not_mem hpiece
      | cons next rest =>
          have hrest := ih (by simp) fun p hp => hfree p (by simp [hp])
          rw [join, split_append_sep, split_of_not_mem hpiece, hrest]
          rfl

/-- A text that does not end in the separator has a last piece that is not empty. -/
theorem getLast?_split_ne_nil {sep last : Char} (hlast : last ≠ sep) (front : List Char) :
    (split sep (front ++ [last])).getLast? ≠ some [] := by
  induction front with
  | nil => simp [split, hlast]
  | cons c front ih =>
      simp only [List.cons_append, split]
      cases hs : split sep (front ++ [last]) with
      | nil => exact absurd hs (split_ne_nil _ _)
      | cons piece pieces =>
          rw [hs] at ih
          split
          · simpa using ih
          · cases pieces with
            | nil => simp
            | cons next rest => simpa using ih

/-- Joining and cutting keeps the pieces that are not empty. -/
theorem filter_split_join {sep : Char} {pieces : List (List Char)}
    (hfree : ∀ piece ∈ pieces, sep ∉ piece) :
    (split sep (join sep pieces)).filter (· ≠ []) = pieces.filter (· ≠ []) := by
  cases pieces with
  | nil => rfl
  | cons piece rest => rw [split_join (by simp) hfree]

theorem not_mem_join {sep c : Char} {pieces : List (List Char)} (hsep : c ≠ sep)
    (hfree : ∀ piece ∈ pieces, c ∉ piece) : c ∉ join sep pieces := by
  induction pieces with
  | nil => simp [join]
  | cons piece rest ih =>
      have hpiece : c ∉ piece := hfree piece (by simp)
      cases rest with
      | nil => exact hpiece
      | cons next rest =>
          have hrest := ih fun p hp => hfree p (by simp [hp])
          rw [join, List.mem_append, List.mem_cons]
          rintro (h | h | h)
          · exact hpiece h
          · exact hsep h
          · exact hrest h

theorem join_concat_eq_flatMap (sep : Char) (front : List (List Char)) (last : List Char) :
    join sep (front ++ [last]) = front.flatMap (· ++ [sep]) ++ last := by
  induction front with
  | nil => rfl
  | cons piece rest ih =>
      obtain ⟨next, more, hmore⟩ := List.exists_cons_of_ne_nil (l := rest ++ [last]) (by simp)
      rw [hmore] at ih
      rw [List.cons_append, hmore, join, ih]
      simp

theorem join_append_sep {sep : Char} {pieces : List (List Char)} (hne : pieces ≠ []) :
    join sep pieces ++ [sep] = pieces.flatMap (· ++ [sep]) := by
  obtain ⟨front, last, rfl⟩ := List.eq_nil_or_concat pieces |>.resolve_left hne
  rw [List.concat_eq_append, join_concat_eq_flatMap]
  simp

/-- A text ends in the separator exactly if there are pieces and an empty one behind them. -/
theorem getLast?_join_iff {sep : Char} {front : List (List Char)} {last : List Char}
    (hlast : sep ∉ last) :
    (join sep (front ++ [last])).getLast? = some sep ↔ last = [] ∧ front ≠ [] := by
  rw [join_concat_eq_flatMap]
  rcases List.eq_nil_or_concat last with rfl | ⟨before, final, rfl⟩
  · rcases List.eq_nil_or_concat front with rfl | ⟨more, piece, rfl⟩
    · simp
    · simp [List.concat_eq_append]
  · rw [List.concat_eq_append] at hlast ⊢
    have hfinal : final ≠ sep := by
      rintro rfl
      simp at hlast
    rw [← List.append_assoc, List.getLast?_concat]
    simp [hfinal]

end ModuleCache.Text
