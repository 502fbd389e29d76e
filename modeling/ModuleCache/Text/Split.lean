/-!
Cutting a text at a separator and putting the pieces together again. Nothing is
lost by the cut: joining the pieces with the separator gives the text back, and
no piece holds the separator.
-/

namespace ModuleCache.Text

/-- The pieces between the occurrences of `sep`. There is always one more piece
than there are separators, so the empty text has one empty piece. -/
def split (sep : Char) : List Char → List (List Char)
  | [] => [[]]
  | c :: cs =>
    if c = sep then [] :: split sep cs
    else match split sep cs with
      | [] => [[c]]
      | piece :: pieces => (c :: piece) :: pieces

/-- The pieces written one after the other with `sep` between them. -/
def join (sep : Char) : List (List Char) → List Char
  | [] => []
  | [piece] => piece
  | piece :: next :: pieces => piece ++ sep :: join sep (next :: pieces)

theorem split_ne_nil (sep : Char) (cs : List Char) : split sep cs ≠ [] := by
  cases cs with
  | nil => simp [split]
  | cons c cs =>
    simp only [split]
    split
    · simp
    · split <;> simp

theorem join_split (sep : Char) (cs : List Char) : join sep (split sep cs) = cs := by
  induction cs with
  | nil => rfl
  | cons c cs ih =>
    simp only [split]
    cases hs : split sep cs with
    | nil => exact absurd hs (split_ne_nil sep cs)
    | cons piece pieces =>
      rw [hs] at ih
      split
      · next h => subst h; simp [join, ih]
      · cases pieces with
        | nil => simp_all [join]
        | cons next rest => simp_all [join]

theorem not_mem_of_mem_split (sep : Char) (cs : List Char) :
    ∀ piece ∈ split sep cs, sep ∉ piece := by
  induction cs with
  | nil => simp [split]
  | cons c cs ih =>
    simp only [split]
    cases hs : split sep cs with
    | nil => exact absurd hs (split_ne_nil sep cs)
    | cons piece pieces =>
      rw [hs] at ih
      split
      · simpa using ih
      · next h =>
        intro p hp
        rcases List.mem_cons.1 hp with rfl | hp
        · simpa [Ne.symm h] using ih piece (by simp)
        · exact ih p (by simp [hp])

/-- The text from its last occurrence of `sep` on is cut off: what stands before it
and what stands after it, or nothing when `sep` does not occur. -/
def splitLast? (sep : Char) (cs : List Char) : Option (List Char × List Char) :=
  match (split sep cs).reverse with
  | last :: before :: earlier => some (join sep (before :: earlier).reverse, last)
  | _ => none

end ModuleCache.Text
