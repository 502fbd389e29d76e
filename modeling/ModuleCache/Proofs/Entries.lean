/-!
Tables kept as lists of entries under keys. An entry is put in by taking out what stands
under its key first, so no key has two entries.
-/

namespace ModuleCache

variable {κ ν : Type} [BEq κ] [LawfulBEq κ] [DecidableEq κ]

theorem lookup_cons_eq (entries : List (κ × ν)) (a b : κ) (value : ν) :
    ((a, value) :: entries).lookup b = if b = a then some value else entries.lookup b := by
  rw [List.lookup_cons]
  by_cases hba : b = a
  · simp [hba]
  · have hbeq : (b == a) = false := beq_false_of_ne hba
    simp [hbeq, hba]

theorem lookup_filter_ne (entries : List (κ × ν)) (a b : κ) :
    (entries.filter (·.1 ≠ a)).lookup b = if b = a then none else entries.lookup b := by
  induction entries with
  | nil => simp
  | cons entry entries ih =>
      obtain ⟨c, value⟩ := entry
      rw [lookup_cons_eq]
      by_cases hca : c = a
      · rw [List.filter_cons_of_neg (by simp [hca]), ih, hca]
        by_cases hba : b = a
        · simp [hba]
        · simp [hba]
      · rw [List.filter_cons_of_pos (by simp [hca]), lookup_cons_eq, ih]
        by_cases hbc : b = c
        · simp [hbc, hca]
        · simp [hbc]

/-- What stands under a key after an entry was put in. -/
theorem lookup_replace (entries : List (κ × ν)) (a b : κ) (value : ν) :
    ((a, value) :: entries.filter (·.1 ≠ a)).lookup b =
      if b = a then some value else entries.lookup b := by
  rw [lookup_cons_eq, lookup_filter_ne]
  by_cases hba : b = a
  · simp [hba]
  · simp [hba]

end ModuleCache
