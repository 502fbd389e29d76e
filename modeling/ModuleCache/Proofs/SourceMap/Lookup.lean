import ModuleCache.SourceMap.Mappings

/-!
Which mapping a look-up takes. The mappings are sorted before they are searched, and the
sort keeps mappings of one place in the order in which they were written; so the search
gives what a reader of the mappings as they are written would choose: on the line of the
place, the greatest column that is not behind it, and the last mapping written for that.
-/

namespace ModuleCache

namespace Position

theorem le_iff {a b : Position} :
    a.le b = true ↔ a.line < b.line ∨ a.line = b.line ∧ a.column ≤ b.column := by
  unfold Position.le Position.compare
  simp only [compare, compareOfLessAndEq]
  by_cases hlt : a.line < b.line
  · simp [hlt]
  · by_cases heq : a.line = b.line
    · by_cases hcolumn : a.column < b.column
      · simp [heq, hcolumn, UInt32.le_of_lt hcolumn]
      · by_cases hsame : a.column = b.column
        · simp [heq, hsame]
        · have hbehind : ¬ a.column ≤ b.column := by grind
          simp [heq, hcolumn, hsame, hbehind]
    · simp [hlt, heq]

theorem le_trans {a b c : Position} (hab : a.le b = true) (hbc : b.le c = true) :
    a.le c = true := by
  rw [le_iff] at *
  grind

theorem le_total (a b : Position) : (a.le b || b.le a) = true := by
  rw [Bool.or_eq_true, le_iff, le_iff]
  grind

theorem le_antisymm {a b : Position} (hab : a.le b = true) (hba : b.le a = true) : a = b := by
  rw [le_iff] at *
  obtain ⟨line, column⟩ := a
  obtain ⟨line', column'⟩ := b
  grind

end Position

namespace SourceMap

/-- `a` stands at or before `b` in the generated code. -/
def Mapping.le (a b : Mapping) : Bool := a.generated.le b.generated

theorem Mapping.le_trans (a b c : Mapping) (hab : a.le b = true) (hbc : b.le c = true) :
    a.le c = true := Position.le_trans hab hbc

theorem Mapping.le_total (a b : Mapping) : (a.le b || b.le a) = true :=
  Position.le_total a.generated b.generated

/-- Mappings in the order of their places. -/
def sorted (mappings : List Mapping) : List Mapping := mappings.mergeSort Mapping.le

theorem pairwise_sorted (mappings : List Mapping) :
    (sorted mappings).Pairwise fun a b => a.le b = true :=
  List.pairwise_mergeSort Mapping.le_trans Mapping.le_total mappings

theorem mem_sorted {mappings : List Mapping} {m : Mapping} :
    m ∈ sorted mappings ↔ m ∈ mappings := List.mem_mergeSort

/-- Sorting keeps the order of the mappings of one place. -/
theorem filter_sorted (mappings : List Mapping) (place : Position) :
    (sorted mappings).filter (·.generated = place) = mappings.filter (·.generated = place) := by
  have hsame : (mappings.filter (·.generated = place)).Pairwise fun a b => a.le b = true := by
    apply List.pairwise_of_forall_mem_list
    intro a ha b hb
    have ha' : a.generated = place := by simpa using (List.mem_filter.mp ha).2
    have hb' : b.generated = place := by simpa using (List.mem_filter.mp hb).2
    rw [Mapping.le, ha', hb', Position.le_iff]
    exact .inr ⟨rfl, UInt32.le_refl _⟩
  have hsub : (mappings.filter (·.generated = place)).Sublist (sorted mappings) :=
    List.sublist_mergeSort Mapping.le_trans Mapping.le_total hsame List.filter_sublist
  have hsub' := hsub.filter (·.generated = place)
  rw [List.filter_filter] at hsub'
  have hperm : ((sorted mappings).filter (·.generated = place)).Perm
      (mappings.filter (·.generated = place)) := (List.mergeSort_perm mappings _).filter _
  simp only [Bool.and_self] at hsub'
  exact (hsub'.eq_of_length hperm.length_eq.symm).symm

/-- In a sorted list what stands at or before a place comes first. -/
theorem takeWhile_eq_filter {mappings : List Mapping} (place : Position)
    (h : mappings.Pairwise fun a b => a.le b = true) :
    mappings.takeWhile (·.generated.le place) = mappings.filter (·.generated.le place) := by
  induction mappings with
  | nil => rfl
  | cons m mappings ih =>
      obtain ⟨hm, hmappings⟩ := List.pairwise_cons.mp h
      by_cases hle : m.generated.le place = true
      · simp only [List.takeWhile_cons, List.filter_cons, hle, if_true, ih hmappings]
      · have hnone : mappings.filter (·.generated.le place) = [] := by
          rw [List.filter_eq_nil_iff]
          intro other hother hbefore
          exact hle (Position.le_trans (hm other hother) hbefore)
        simp [hle, hnone]

/-- Whatever governs a place in the sorted mappings is the last mapping written for the
greatest place that is not behind it. -/
theorem governing_sorted_iff {mappings : List Mapping} {place : Position} {m : Mapping} :
    governing (sorted mappings) place = some m ↔
      m.generated.le place = true ∧
        (∀ other ∈ mappings, other.generated.le place = true →
          other.generated.le m.generated = true) ∧
        (mappings.filter (·.generated = m.generated)).getLast? = some m := by
  have hforward : ∀ m, governing (sorted mappings) place = some m →
      m.generated.le place = true ∧
        (∀ other ∈ mappings, other.generated.le place = true →
          other.generated.le m.generated = true) ∧
        (mappings.filter (·.generated = m.generated)).getLast? = some m := by
    intro m hm
    rw [governing, takeWhile_eq_filter place (pairwise_sorted mappings)] at hm
    obtain ⟨front, hfront⟩ := List.getLast?_eq_some_iff.mp hm
    have hmem : m ∈ (sorted mappings).filter (·.generated.le place) := by simp [hfront]
    have hle : m.generated.le place = true := (List.mem_filter.mp hmem).2
    refine ⟨hle, ?_, ?_⟩
    · intro other hother hbefore
      have hother' : other ∈ (sorted mappings).filter (·.generated.le place) :=
        List.mem_filter.mpr ⟨mem_sorted.mpr hother, hbefore⟩
      have hpairwise := (pairwise_sorted mappings).filter (·.generated.le place)
      rw [hfront] at hother' hpairwise
      rcases List.mem_append.mp hother' with hin | hlast
      · exact (List.pairwise_append.mp hpairwise).2.2 other hin m (List.mem_singleton_self m)
      · rw [List.mem_singleton.mp hlast, Position.le_iff]
        exact .inr ⟨rfl, UInt32.le_refl _⟩
    · have hsame : (sorted mappings).filter (·.generated = m.generated) =
          ((sorted mappings).filter (·.generated.le place)).filter
            (·.generated = m.generated) := by
        rw [List.filter_filter]
        apply List.filter_congr
        intro other _
        by_cases heq : other.generated = m.generated
        · simp [heq, hle]
        · simp [heq]
      rw [← filter_sorted, hsame, hfront, List.filter_append,
        List.filter_cons_of_pos (by simp)]
      simp
  constructor
  · exact hforward m
  · rintro ⟨hle, hgreatest, hlast⟩
    obtain ⟨hmem, -⟩ := List.mem_filter.mp (List.mem_of_getLast? hlast)
    cases hfound : governing (sorted mappings) place with
    | none =>
        rw [governing, takeWhile_eq_filter place (pairwise_sorted mappings),
          List.getLast?_eq_none_iff, List.filter_eq_nil_iff] at hfound
        exact absurd hle (hfound m (mem_sorted.mpr hmem))
    | some found =>
        obtain ⟨hle', hgreatest', hlast'⟩ := hforward found hfound
        obtain ⟨hmem', -⟩ := List.mem_filter.mp (List.mem_of_getLast? hlast')
        have heq : found.generated = m.generated :=
          Position.le_antisymm (hgreatest found hmem' hle') (hgreatest' m hmem hle)
        rw [heq, hlast] at hlast'
        exact hlast'.symm

/-- Among mappings as they are written, `m` decides about a place: it stands on the line of
the place, no mapping on that line stands between it and the place, and it is the last one
that was written where it stands. -/
structure Governs (mappings : List Mapping) (place : Position) (m : Mapping) : Prop where
  line : m.generated.line = place.line
  column : m.generated.column ≤ place.column
  greatest : ∀ other ∈ mappings, other.generated.line = place.line →
    other.generated.column ≤ place.column → other.generated.column ≤ m.generated.column
  last : (mappings.filter (·.generated = m.generated)).getLast? = some m

/-- The search in the sorted mappings finds what governs the place. -/
theorem governs_iff {mappings : List Mapping} {place : Position} {m : Mapping} :
    Governs mappings place m ↔
      governing (sorted mappings) place = some m ∧ m.generated.line = place.line := by
  rw [governing_sorted_iff, Position.le_iff]
  constructor
  · rintro ⟨hline, hcolumn, hgreatest, hlast⟩
    refine ⟨⟨.inr ⟨hline, hcolumn⟩, ?_, hlast⟩, hline⟩
    intro other hother hbefore
    rw [Position.le_iff] at hbefore ⊢
    rcases hbefore with hlt | ⟨heq, hle⟩
    · exact .inl (hline ▸ hlt)
    · exact .inr ⟨heq.trans hline.symm, hgreatest other hother heq hle⟩
  · rintro ⟨⟨hbefore, hgreatest, hlast⟩, hline⟩
    refine ⟨hline, ?_, ?_, hlast⟩
    · rcases hbefore with hlt | ⟨-, hle⟩
      · rw [hline] at hlt
        exact absurd hlt (UInt32.lt_irrefl _)
      · exact hle
    · intro other hother heq hle
      have hbehind := hgreatest other hother (Position.le_iff.mpr (.inr ⟨heq, hle⟩))
      rw [Position.le_iff, heq, hline] at hbehind
      rcases hbehind with hlt | ⟨-, hle'⟩
      · exact absurd hlt (UInt32.lt_irrefl _)
      · exact hle'

/-- A text of mappings says of a place in generated code that it comes from `origin`. -/
def OriginAt (text : String) (place : Position) (origin : Origin) : Prop :=
  ∃ mappings mapping, decodeLines 0 .zero (segments text) = .ok mappings ∧
    Governs mappings place mapping ∧ mapping.origin = some origin

theorem OriginAt.unique {text : String} {place : Position} {origin origin' : Origin}
    (h : OriginAt text place origin) (h' : OriginAt text place origin') : origin = origin' := by
  obtain ⟨mappings, mapping, hdecode, hgoverns, horigin⟩ := h
  obtain ⟨mappings', mapping', hdecode', hgoverns', horigin'⟩ := h'
  rw [hdecode] at hdecode'
  rw [← Except.ok.inj hdecode', governs_iff] at hgoverns'
  rw [governs_iff, hgoverns'.1] at hgoverns
  rw [← Option.some.inj hgoverns.1, horigin'] at horigin
  exact (Option.some.inj horigin).symm

/-- What a look-up comes to once the mappings are read. -/
theorem lookup_eq {m : SourceMap} {place : Position} {mappings : List Mapping}
    (h : decodeLines 0 .zero (segments m.mappings) = .ok mappings) :
    m.lookup place = .ok (do
      let mapping ← governing (sorted mappings) place
      if mapping.generated.line ≠ place.line then none
      let origin ← mapping.origin
      let source ← m.sources[origin.source.toNat]?
      pure ⟨m.sourcePath source, origin.position, origin.name.bind (m.names[·.toNat]?)⟩) := by
  unfold lookup decode
  rw [h]
  rfl

/-- A look-up finds the place that the mappings give, if the map names its source. -/
theorem lookup_eq_some_iff {m : SourceMap} {place : Position} {location : Location} :
    m.lookup place = .ok (some location) ↔
      ∃ origin source, OriginAt m.mappings place origin ∧
        m.sources[origin.source.toNat]? = some source ∧
        location =
          ⟨m.sourcePath source, origin.position, origin.name.bind (m.names[·.toNat]?)⟩ := by
  cases hdecode : decodeLines 0 .zero (segments m.mappings) with
  | error e =>
      have herror : m.lookup place = .error e := by
        unfold lookup decode
        rw [hdecode]
        rfl
      rw [herror]
      constructor
      · intro h
        cases h
      · rintro ⟨origin, source, ⟨mappings, mapping, hok, -⟩, -⟩
        rw [hdecode] at hok
        cases hok
  | ok mappings =>
      rw [lookup_eq hdecode, Except.ok.injEq]
      constructor
      · intro h
        obtain ⟨mapping, hmapping, h⟩ := Option.bind_eq_some_iff.mp h
        split at h
        · cases h
        · next hline =>
            obtain ⟨origin, horigin, h⟩ := Option.bind_eq_some_iff.mp h
            obtain ⟨source, hsource, h⟩ := Option.bind_eq_some_iff.mp h
            refine ⟨origin, source, ⟨mappings, mapping, hdecode, ?_, horigin⟩, hsource,
              (Option.some.inj h).symm⟩
            exact governs_iff.mpr ⟨hmapping, by simpa using hline⟩
      · rintro ⟨origin, source, ⟨mappings', mapping, hdecode', hgoverns, horigin⟩, hsource, rfl⟩
        rw [hdecode] at hdecode'
        obtain rfl := Except.ok.inj hdecode'
        obtain ⟨hmapping, hline⟩ := governs_iff.mp hgoverns
        simp [hmapping, hline, horigin, hsource]

end SourceMap
end ModuleCache
