import ModuleCache.Proofs.Placement.Shape

/-!
When two sources are led to one place. Each of the three rules of placement divides a
source into the root of its cache and its place below it, and two sources meet when root,
cache directory and place put together are the same. A source outside the installation
root and outside every package is mirrored by its whole name, and nothing keeps the mirror
image apart from what stands below the root under the same names. The other way to meet
takes a cache directory that is called like the package container.
-/

namespace ModuleCache.Layout

open ModuleCache.Path

/-- The entry that holds a cache below its root. -/
def cacheEntry (l : Layout) : Component := .name (⟨l.cacheDir⟩ : Path).baseName

/-- No package holds the source, and neither does the installation root. -/
def IsMirrored (l : Layout) (cs : List Component) : Prop :=
  (∀ i, ¬ IsBoundary l.container cs i) ∧ ¬ l.installRoot.components <+: cs

/-- The mirror image of the source `cs` falls on the artifact of `ds`, whose cache stands
at `root`: `ds` has the names of `cs` below the installation root, or the installation
root itself stands inside the cache directory at `root`. -/
def Overlays (l : Layout) (cs ds root : List Component) : Prop :=
  l.IsMirrored cs ∧
    ((root = l.installRoot.components ∨ root = l.installRoot.components ++ [l.cacheEntry]) ∧
        ds = l.installRoot.components ++ cs.tail ∨
      ∃ between, l.installRoot.components = root ++ l.cacheEntry :: between ∧
        ds = root ++ between ++ l.cacheEntry :: cs.tail)

/-- A package is called like the cache directory, and inside it one file is called like a
package: only where the cache directory and the package container have one name. -/
def Swapped (l : Layout) (home home' : List Component × List Component) : Prop :=
  l.cacheEntry.text = l.container ∧ ∃ package file,
    home'.1 = home.1 ++ [l.cacheEntry, package] ∧
      home.2 = [package, l.cacheEntry, file] ∧ home'.2 = [file]

/-- The two sources, in normal form, are led to one artifact. -/
def Clash (l : Layout) (s t : Path) : Prop :=
  l.Overlays s.components t.components (l.cut t).1 ∨
    l.Overlays t.components s.components (l.cut s).1 ∨
    l.Swapped (l.cut s) (l.cut t) ∨ l.Swapped (l.cut t) (l.cut s)

/-! ### The three rules of placement -/

/-- How the components of an absolute source divide into the root of its cache and its
place below it, one case for each rule. -/
inductive IsCut (l : Layout) (cs : List Component) : List Component → List Component → Prop
  | package {outer below : List Component} {c p : Component} (hcontainer : c.text = l.container)
      (hbelow : below ≠ []) (hlast : ∀ i, IsBoundary l.container cs i → i ≤ outer.length)
      (h : cs = outer ++ [c, p] ++ below) : IsCut l cs (outer ++ [c, p]) below
  | inside {below : List Component} (hnone : ∀ i, ¬ IsBoundary l.container cs i)
      (h : cs = l.installRoot.components ++ below) : IsCut l cs l.installRoot.components below
  | mirrored {below : List Component} (hmirrored : l.IsMirrored cs) (h : cs = .root :: below) :
      IsCut l cs l.installRoot.components below

theorem filter_isName_of_forall {cs : List Component} (h : ∀ c ∈ cs, ∃ text, c = .name text) :
    cs.filter (·.isName) = cs := by
  apply List.filter_eq_self.mpr
  intro c hc
  obtain ⟨text, rfl⟩ := h c hc
  rfl

theorem isCut {l : Layout} (hroot : ∃ rest, l.installRoot.components = .root :: rest) {s : Path}
    {names : List String} (hs : s.components = .root :: names.map .name) :
    IsCut l s.components (l.cut s).1 (l.cut s).2 := by
  have hname : ∀ c ∈ s.components.tail, ∃ text, c = .name text := by
    intro c hc
    rw [hs] at hc
    obtain ⟨text, -, rfl⟩ := List.mem_map.mp hc
    exact ⟨text, rfl⟩
  unfold cut
  cases hcut : packageBoundary? l.container s.components with
  | some home =>
      obtain ⟨inside, below⟩ := home
      obtain ⟨i, ⟨hc, hlt⟩, hlast, rfl, rfl⟩ := packageBoundary?_eq_some_iff.mp hcut
      have hsplit : s.components.take (i + 2) =
          s.components.take i ++ [s.components[i], s.components[i + 1]] := by
        have hnext : s.components.take (i + 1 + 1) = s.components.take (i + 1) ++
            [s.components[i + 1]] := List.take_succ_eq_append_getElem (by omega)
        rw [hnext, List.take_succ_eq_append_getElem (by omega), List.append_assoc]
        rfl
      have hlength : (s.components.take i).length = i := by
        rw [List.length_take]
        omega
      rw [Option.getD_some, hsplit]
      refine .package ?_ ?_ ?_ ?_
      · rw [List.getElem?_eq_getElem (by omega)] at hc
        simpa using hc
      · intro h
        have := List.drop_eq_nil_iff.mp h
        omega
      · rw [hlength]
        exact hlast
      · rw [← hsplit, List.take_append_drop]
  | none =>
      have hnone := packageBoundary?_eq_none_iff.mp hcut
      simp only [Option.getD_none, belowInstallRoot_eq]
      split
      · next hprefix =>
          obtain ⟨below, hbelow⟩ := hprefix
          obtain ⟨rest, hrest⟩ := hroot
          have hdrop : s.components.drop l.installRoot.components.length = below := by
            rw [← hbelow, List.drop_left]
          rw [hdrop, filter_isName_of_forall]
          · exact .inside hnone hbelow.symm
          · intro c hc
            apply hname
            rw [← hbelow, hrest]
            simp [hc]
      · next hout =>
          have hall : s.components.filter (·.isName) = s.components.tail := by
            rw [hs, List.filter_cons_of_neg (by simp [Component.isName])]
            apply filter_isName_of_forall
            rw [hs] at hname
            exact hname
          rw [hall]
          refine .mirrored ⟨hnone, hout⟩ ?_
          rw [hs]
          rfl

/-! ### Where two cuts meet -/

theorem append_cons_eq_iff {α : Type} {k : α} {R R' B B' : List α} :
    R ++ k :: B = R' ++ k :: B' ↔
      (R = R' ∧ B = B') ∨ (∃ D, R' = R ++ k :: D ∧ B = D ++ k :: B') ∨
        ∃ D, R = R' ++ k :: D ∧ B' = D ++ k :: B := by
  constructor
  · intro h
    rcases List.append_eq_append_iff.mp h with ⟨D, hR, hB⟩ | ⟨D, hR, hB⟩
    · cases D with
      | nil => exact .inl ⟨by simpa using hR.symm, by simpa using hB⟩
      | cons x D =>
          obtain ⟨rfl, hrest⟩ := List.cons.inj hB
          exact .inr (.inl ⟨D, hR, hrest⟩)
    · cases D with
      | nil => exact .inl ⟨by simpa using hR, by simpa using hB.symm⟩
      | cons x D =>
          obtain ⟨rfl, hrest⟩ := List.cons.inj hB
          exact .inr (.inr ⟨D, hR, hrest⟩)
  · rintro (⟨rfl, rfl⟩ | ⟨D, rfl, rfl⟩ | ⟨D, rfl, rfl⟩)
    · rfl
    · simp
    · simp

theorem isBoundary_append {container : String} (front : List Component) {c p q : Component}
    (rest : List Component) (hc : c.text = container) :
    IsBoundary container (front ++ c :: p :: q :: rest) front.length := by
  simp [IsBoundary, hc]

theorem append_pair {outer R D : List Component} {c p k : Component}
    (h : outer ++ [c, p] = R ++ k :: D) :
    (D = [] ∧ R = outer ++ [c] ∧ k = p) ∨ (D = [p] ∧ R = outer ∧ k = c) ∨
      ∃ between, D = between ++ [c, p] ∧ outer = R ++ k :: between := by
  rcases List.eq_nil_or_concat D with rfl | ⟨D, last, rfl⟩
  · left
    have h' : (outer ++ [c]) ++ [p] = R ++ [k] := by simpa using h
    obtain ⟨hR, hk⟩ := List.append_inj' h' rfl
    exact ⟨rfl, hR.symm, (List.cons.inj hk).1.symm⟩
  · right
    rw [List.concat_eq_append] at h ⊢
    have h' : (outer ++ [c]) ++ [p] = (R ++ k :: D) ++ [last] := by simpa using h
    obtain ⟨hfront, hlast⟩ := List.append_inj' h' rfl
    obtain rfl : p = last := (List.cons.inj hlast).1
    rcases List.eq_nil_or_concat D with rfl | ⟨D, second, rfl⟩
    · left
      obtain ⟨hR, hk⟩ := List.append_inj' hfront rfl
      exact ⟨rfl, hR.symm, (List.cons.inj hk).1.symm⟩
    · right
      rw [List.concat_eq_append] at hfront ⊢
      have h'' : outer ++ [c] = (R ++ k :: D) ++ [second] := by simpa using hfront
      obtain ⟨houter, hc⟩ := List.append_inj' h'' rfl
      obtain rfl : c = second := (List.cons.inj hc).1
      exact ⟨D, by simp, houter⟩

variable {l : Layout} {cs ds R R' B B' D : List Component}

/-- No package inside the source starts behind the root of its cache. -/
theorem IsCut.no_boundary_below (h : IsCut l cs R B) {i : Nat}
    (hi : IsBoundary l.container cs i) : i + 2 ≤ R.length := by
  cases h with
  | package _ _ hlast _ =>
      have := hlast i hi
      simp
      omega
  | inside hnone _ => exact absurd hi (hnone i)
  | mirrored hmirrored _ => exact absurd hi (hmirrored.1 i)

theorem IsCut.eq_append_or_isMirrored (h : IsCut l cs R B) :
    cs = R ++ B ∨ (l.IsMirrored cs ∧ R = l.installRoot.components ∧ cs = .root :: B) := by
  cases h with
  | package _ _ _ h => exact .inl h
  | inside _ h => exact .inl h
  | mirrored hmirrored h => exact .inr ⟨hmirrored, rfl, h⟩

/-- A source is cut in front of nothing that looks like a package with something in it. -/
theorem IsCut.no_package_below (h : IsCut l cs R B) {front rest : List Component}
    {c p q : Component} (hc : c.text = l.container) : B ≠ front ++ c :: p :: q :: rest := by
  rintro rfl
  rcases h.eq_append_or_isMirrored with hcs | ⟨hmirrored, -, hcs⟩
  · have hboundary := isBoundary_append (R ++ front) (p := p) (q := q) rest hc
    rw [List.append_assoc, ← hcs] at hboundary
    have := h.no_boundary_below hboundary
    simp at this
    omega
  · have hboundary := isBoundary_append (.root :: front) (p := p) (q := q) rest hc
    rw [List.cons_append, ← hcs] at hboundary
    exact hmirrored.1 _ hboundary

/-- The cut of the second source falls further down: its root goes through the cache
directory of the first. -/
theorem IsCut.clash_of_deeper (hs : IsCut l cs R (D ++ l.cacheEntry :: B'))
    (ht : IsCut l ds (R ++ l.cacheEntry :: D) B') (hB' : B' ≠ []) (hne : cs ≠ ds) :
    l.Overlays cs ds (R ++ l.cacheEntry :: D) ∨ l.Overlays ds cs R ∨
      l.Swapped (R, D ++ l.cacheEntry :: B') (R ++ l.cacheEntry :: D, B') := by
  have hs' := hs.eq_append_or_isMirrored
  generalize hroot : R ++ l.cacheEntry :: D = root at ht ⊢
  cases ht with
  | @package outer _ c p hcontainer hbelow hlast hds =>
      rcases append_pair hroot.symm with ⟨rfl, rfl, hp⟩ | ⟨rfl, rfl, hc⟩ | ⟨between, rfl, houter⟩
      · -- the cache directory is the package, and nothing lies between the two cuts
        left
        rcases hs' with hcs | ⟨hmirrored, hR, hcs⟩
        · refine absurd ?_ hne
          rw [hcs, hds, hp]
          simp
        · refine ⟨hmirrored, .inl ⟨.inr ?_, ?_⟩⟩
          · rw [← hroot, hR]
          · rw [hds, hcs, ← hR, hp]
            simp
      · -- the cache directory is the container
        right
        right
        obtain ⟨file, more, rfl⟩ := List.exists_cons_of_ne_nil hB'
        cases more with
        | nil => exact ⟨by rw [hc, hcontainer], _, file, by rw [hc], rfl, rfl⟩
        | cons next more =>
            have hform : [p] ++ l.cacheEntry :: file :: next :: more =
                [p] ++ l.cacheEntry :: file :: next :: more := rfl
            exact absurd hform (hs.no_package_below (by rw [hc, hcontainer]))
      · have hform : between ++ [c, p] ++ l.cacheEntry :: B' =
            between ++ c :: p :: l.cacheEntry :: B' := by simp
        exact absurd hform (hs.no_package_below hcontainer)
  | inside hnone hds =>
      cases hs with
      | @package outer _ c p hcontainer hbelow hlast hcs =>
          -- the first source's package holds the installation root and with it the second
          refine absurd (isBoundary_append outer (p := p) (q := l.cacheEntry) (D ++ B')
            hcontainer) ?_
          have hds' : ds = outer ++ c :: p :: l.cacheEntry :: (D ++ B') := by
            rw [hds, ← hroot]
            simp
          rw [← hds']
          exact hnone _
      | inside => simp at hroot
      | mirrored => simp at hroot
  | mirrored hmirrored hds =>
      right
      left
      rcases hs' with hcs | ⟨-, hR, -⟩
      · refine ⟨hmirrored, .inr ⟨D, hroot.symm, ?_⟩⟩
        rw [hcs, hds]
        simp
      · rw [hR] at hroot
        simp at hroot

/-- Two sources with one root and one place: one of them is mirrored. -/
theorem IsCut.clash_of_level (hs : IsCut l cs R B) (ht : IsCut l ds R B) (hne : cs ≠ ds) :
    l.Overlays cs ds R ∨ l.Overlays ds cs R := by
  rcases hs.eq_append_or_isMirrored with hcs | ⟨hmirrored, hR, hcs⟩
  · rcases ht.eq_append_or_isMirrored with hds | ⟨hmirrored', hR', hds⟩
    · exact absurd (hcs.trans hds.symm) hne
    · exact .inr ⟨hmirrored', .inl ⟨.inl hR', by rw [hcs, hds, hR']; rfl⟩⟩
  · rcases ht.eq_append_or_isMirrored with hds | ⟨-, -, hds⟩
    · exact .inl ⟨hmirrored, .inl ⟨.inl hR, by rw [hcs, hds, hR]; rfl⟩⟩
    · exact absurd (hcs.trans hds.symm) hne

/-! ### Sources that meet -/

theorem IsCut.of_isMirrored (h : IsCut l cs R B) (hmirrored : l.IsMirrored cs) :
    R = l.installRoot.components ∧ cs = .root :: B := by
  cases h with
  | @package outer _ c p hcontainer hbelow _ hcs =>
      obtain ⟨q, rest, rfl⟩ := List.exists_cons_of_ne_nil hbelow
      have hboundary := isBoundary_append outer (p := p) (q := q) rest hcontainer
      have hcs' : cs = outer ++ c :: p :: q :: rest := by
        rw [hcs]
        simp
      rw [← hcs'] at hboundary
      exact absurd hboundary (hmirrored.1 _)
  | inside _ hcs => exact absurd ⟨_, hcs.symm⟩ hmirrored.2
  | mirrored _ hcs => exact ⟨rfl, hcs⟩

theorem Overlays.meet (h : l.Overlays cs ds R') (hs : IsCut l cs R B) (ht : IsCut l ds R' B') :
    R ++ l.cacheEntry :: B = R' ++ l.cacheEntry :: B' := by
  obtain ⟨hmirrored, hoverlay⟩ := h
  obtain ⟨hR, hcs⟩ := hs.of_isMirrored hmirrored
  have htail : cs.tail = B := by rw [hcs]; rfl
  rw [htail] at hoverlay
  rw [hR]
  rcases hoverlay with ⟨hroot, hds⟩ | ⟨between, hroot, hds⟩
  · have hcut : ds = R' ++ B' := by
      rcases ht.eq_append_or_isMirrored with h | ⟨hout, -, -⟩
      · exact h
      · exact absurd ⟨_, hds.symm⟩ hout.2
    rw [hds] at hcut
    rcases hroot with hroot | hroot
    · rw [hroot] at hcut ⊢
      rw [List.append_cancel_left hcut]
    · rw [hroot, List.append_assoc] at hcut
      rw [hroot, List.append_cancel_left hcut, List.append_assoc]
      rfl
  · have hcut : ds = R' ++ B' := by
      rcases ht.eq_append_or_isMirrored with h | ⟨-, hR', -⟩
      · exact h
      · rw [hR'] at hroot
        simp at hroot
    rw [hds, List.append_assoc] at hcut
    rw [hroot, ← List.append_cancel_left hcut]
    simp

theorem Swapped.meet (h : l.Swapped (R, B) (R', B')) :
    R ++ l.cacheEntry :: B = R' ++ l.cacheEntry :: B' := by
  obtain ⟨-, package, file, hR', hB, hB'⟩ := h
  simp only at hR' hB hB'
  rw [hR', hB, hB']
  simp

theorem Clash.meet {s t : Path} (h : l.Clash s t)
    (hs : IsCut l s.components (l.cut s).1 (l.cut s).2)
    (ht : IsCut l t.components (l.cut t).1 (l.cut t).2) :
    (l.cut s).1 ++ l.cacheEntry :: (l.cut s).2 = (l.cut t).1 ++ l.cacheEntry :: (l.cut t).2 := by
  rcases h with h | h | h | h
  · exact h.meet hs ht
  · exact (h.meet ht hs).symm
  · exact h.meet
  · exact h.meet.symm

/-- Below their roots and the cache directory two different sources meet exactly when they
clash. -/
theorem meet_iff_clash {s t : Path} (hs : IsCut l s.components (l.cut s).1 (l.cut s).2)
    (ht : IsCut l t.components (l.cut t).1 (l.cut t).2) (hs' : (l.cut s).2 ≠ [])
    (ht' : (l.cut t).2 ≠ []) (hne : s.components ≠ t.components) :
    (l.cut s).1 ++ l.cacheEntry :: (l.cut s).2 = (l.cut t).1 ++ l.cacheEntry :: (l.cut t).2 ↔
      l.Clash s t := by
  constructor
  · intro h
    rcases append_cons_eq_iff.mp h with ⟨hR, hB⟩ | ⟨D, hR, hB⟩ | ⟨D, hR, hB⟩
    · rw [← hR, ← hB] at ht
      rcases hs.clash_of_level ht hne with h' | h'
      · exact .inl (hR ▸ h')
      · exact .inr (.inl h')
    · rw [hB] at hs
      rw [hR] at ht
      rcases hs.clash_of_deeper ht ht' hne with h' | h' | h'
      · exact .inl (hR ▸ h')
      · exact .inr (.inl h')
      · rw [← hR, ← hB] at h'
        exact .inr (.inr (.inl h'))
    · rw [hB] at ht
      rw [hR] at hs
      rcases ht.clash_of_deeper hs hs' hne.symm with h' | h' | h'
      · exact .inr (.inl (hR ▸ h'))
      · exact .inl h'
      · rw [← hR, ← hB] at h'
        exact .inr (.inr (.inr h'))
  · intro h
    exact h.meet hs ht

end ModuleCache.Layout
