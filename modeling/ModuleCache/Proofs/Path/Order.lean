import ModuleCache.Path

/-!
The order of paths. Components are ordered by their kind and then by what they name, and paths
by their components, the first that differ deciding. So any two paths stand at or before one
another, and of two that name different places one stands before the other.
-/

namespace ModuleCache.Path

/-- What a name is made of. Other components have one text each. -/
def Component.nameText : Component → String
  | .name text => text
  | _ => ""

/-- Components are ordered by their kind and within it by name. -/
theorem Component.compare_eq_compareLex :
    Component.compare =
      compareLex (compareOn Component.rank) (compareOn Component.nameText) := by
  funext a b
  cases a <;> cases b <;> rfl

instance : Std.TransCmp Component.compare := by
  rw [Component.compare_eq_compareLex]
  infer_instance

theorem Component.eq_of_rank {a b : Component} (hrank : a.rank = b.rank)
    (htext : a.nameText = b.nameText) : a = b := by
  cases a <;> cases b <;> simp_all [rank, nameText]

instance : Std.LawfulEqCmp Component.compare where
  eq_of_compare := by
    intro a b h
    rw [Component.compare_eq_compareLex, compareLex_eq_eq] at h
    exact Component.eq_of_rank (Std.LawfulEqOrd.eq_of_compare h.1)
      (Std.LawfulEqOrd.eq_of_compare h.2)

theorem compareComponents_eq_compareLex :
    compareComponents = List.compareLex Component.compare := by
  funext as bs
  induction as generalizing bs with
  | nil => cases bs <;> rfl
  | cons a as ih =>
      cases bs with
      | nil => rfl
      | cons b bs =>
          rw [compareComponents, ih, List.compareLex_cons_cons]

instance : Std.TransCmp compareComponents := by
  rw [compareComponents_eq_compareLex]
  infer_instance

instance : Std.LawfulEqCmp compareComponents := by
  rw [compareComponents_eq_compareLex]
  infer_instance

/-- `a` stands before `b` in the order of paths. -/
def IsBefore (a b : Path) : Prop := compareComponents a.components b.components = .lt

theorem le_transitive {a b c : Path} (hab : a.le b = true) (hbc : b.le c = true) : a.le c = true :=
  Std.TransCmp.isLE_trans hab hbc

theorem le_or_le (a b : Path) : (a.le b || b.le a) = true := by
  have hswap : compareComponents b.components a.components =
      (compareComponents a.components b.components).swap := Std.OrientedCmp.eq_swap
  unfold Path.le
  rw [hswap]
  cases compareComponents a.components b.components <;> rfl

/-- Of two places one stands before the other. -/
theorem isBefore_of_le {a b : Path} (hle : a.le b = true) (hne : a.components ≠ b.components) :
    a.IsBefore b := by
  unfold Path.le at hle
  unfold IsBefore
  cases hcompare : compareComponents a.components b.components with
  | lt => rfl
  | eq => exact absurd (Std.LawfulEqCmp.eq_of_compare hcompare) hne
  | gt => simp [hcompare] at hle

end ModuleCache.Path
