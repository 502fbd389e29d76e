import Mathlib.Data.List.Induction
import Mathlib.Data.List.TakeWhile
import ModuleCache.Proofs.SourceMap.Lookup

/-!
A look-up against a search that knows nothing of sorting. The search goes once through the
mappings in the order in which they are written and keeps the best one so far: it has to
stand on the line of the place and not behind it, and of two such mappings the one with the
greater column wins, of equal columns the later one. Main statement: that is what a look-up
comes to, whatever the order of the columns in the text; and where the text of the mappings
cannot be read, it cannot be read for any place.
-/

namespace ModuleCache.SourceMap

/-- The mappings of a source map in the order in which they are written. -/
def written (m : SourceMap) : Except Error (List Mapping) :=
  decodeLines 0 .zero (segments m.mappings)

/-- A mapping stands on the line of a place, and not behind the place. -/
def Mapping.Precedes (m : Mapping) (place : Position) : Prop :=
  m.generated.line = place.line ∧ m.generated.column ≤ place.column

instance (m : Mapping) (place : Position) : Decidable (m.Precedes place) :=
  inferInstanceAs (Decidable (_ ∧ _))

/-- One step of the search. A mapping takes the place of the best one so far, unless that
stands behind it. -/
def closer (place : Position) (best : Option Mapping) (m : Mapping) : Option Mapping :=
  if m.Precedes place ∧ ∀ b ∈ best, b.generated.column ≤ m.generated.column then some m else best

/-- What a search through a list finds for a place. -/
def nearest (place : Position) (mappings : List Mapping) : Option Mapping :=
  mappings.foldl (closer place) none

/-- The place in a source that a mapping leads to. It leads nowhere if it has no origin, or
one in a source that the map does not have. -/
def leadsTo (m : SourceMap) (mapping : Mapping) : Option Location := do
  let origin ← mapping.origin
  let source ← m.sources[origin.source.toNat]?
  pure ⟨m.sourcePath source, origin.position, origin.name.bind (m.names[·.toNat]?)⟩

/-- `path` is a source's name below a source root, if there is one: the root without the
slashes at its end, a slash, and the source. -/
inductive Below : Option String → String → String → Prop
  | unrooted (source : String) : Below none source source
  | empty (source : String) : Below (some "") source source
  | rooted (kept slashes source : String) (hroot : kept ++ slashes ≠ "")
      (hslashes : ∀ c ∈ slashes.toList, c = '/') (hkept : kept.toList.getLast? ≠ some '/') :
      Below (some (kept ++ slashes)) source (kept ++ "/" ++ source)

theorem below_sourcePath (m : SourceMap) (source : String) :
    Below m.sourceRoot source (m.sourcePath source) := by
  unfold sourcePath
  cases m.sourceRoot with
  | none => exact .unrooted source
  | some root =>
      by_cases hempty : root = ""
      · simp only [hempty, if_true]
        exact .empty source
      · simp only [hempty, if_false]
        generalize hslashes : (root.toList.reverse.takeWhile (· == '/')).reverse = slashes
        generalize hkept : (root.toList.reverse.dropWhile (· == '/')).reverse = kept
        have hsplit : root = String.ofList kept ++ String.ofList slashes := by
          rw [← String.ofList_append, ← hkept, ← hslashes, ← List.reverse_append,
            List.takeWhile_append_dropWhile, List.reverse_reverse, String.ofList_toList]
        have hpath : String.ofList (kept ++ '/' :: source.toList) =
            String.ofList kept ++ "/" ++ source := by
          apply String.toList_inj.mp
          simp
        rw [hpath, hsplit]
        refine .rooted _ _ source (hsplit ▸ hempty) ?_ ?_
        · intro c hc
          rw [String.toList_ofList, ← hslashes, List.mem_reverse] at hc
          simpa using List.mem_takeWhile_imp hc
        · rw [String.toList_ofList, ← hkept, List.getLast?_reverse]
          intro hhead
          have hslash := List.head?_dropWhile_not (· == '/') root.toList.reverse
          rw [hhead] at hslash
          simp at hslash

/-! ### What the search finds -/

theorem nearest_concat (place : Position) (mappings : List Mapping) (m : Mapping) :
    nearest place (mappings ++ [m]) = closer place (nearest place mappings) m := by
  simp [nearest, List.foldl_append]

theorem Governs.precedes {mappings : List Mapping} {place : Position} {m : Mapping}
    (h : Governs mappings place m) : m.Precedes place := ⟨h.line, h.column⟩

theorem Governs.mem {mappings : List Mapping} {place : Position} {m : Mapping}
    (h : Governs mappings place m) : m ∈ mappings :=
  (List.mem_filter.mp (List.mem_of_getLast? h.last)).1

theorem Governs.unique {mappings : List Mapping} {place : Position} {m m' : Mapping}
    (h : Governs mappings place m) (h' : Governs mappings place m') : m = m' :=
  Option.some.inj ((governs_iff.mp h).1.symm.trans (governs_iff.mp h').1)

/-- A mapping written last governs the place if no other one stands between it and the
place. -/
theorem governs_concat {mappings : List Mapping} {place : Position} {m : Mapping}
    (hm : m.Precedes place)
    (hgreatest : ∀ other ∈ mappings, other.Precedes place →
      other.generated.column ≤ m.generated.column) :
    Governs (mappings ++ [m]) place m where
  line := hm.1
  column := hm.2
  greatest := by
    intro other hother hline hcolumn
    rcases List.mem_append.mp hother with hin | hlast
    · exact hgreatest other hin ⟨hline, hcolumn⟩
    · rw [List.mem_singleton.mp hlast]
      exact UInt32.le_refl _
  last := by simp

/-- What governs a place goes on to do so when a mapping is written that stands on another
line, behind the place or in front of the governing one. -/
theorem Governs.concat {mappings : List Mapping} {place : Position} {m other : Mapping}
    (h : Governs mappings place m)
    (hother : other.Precedes place → other.generated.column < m.generated.column) :
    Governs (mappings ++ [other]) place m where
  line := h.line
  column := h.column
  greatest := by
    intro later hlater hline hcolumn
    rcases List.mem_append.mp hlater with hin | hlast
    · exact h.greatest later hin hline hcolumn
    · obtain rfl := List.mem_singleton.mp hlast
      exact UInt32.le_of_lt (hother ⟨hline, hcolumn⟩)
  last := by
    have hne : other.generated ≠ m.generated := by
      intro heq
      have hlt := hother ⟨heq ▸ h.line, heq ▸ h.column⟩
      rw [heq] at hlt
      exact UInt32.lt_irrefl _ hlt
    rw [List.filter_append, List.filter_cons_of_neg (by simpa using hne), List.filter_nil,
      List.append_nil]
    exact h.last

/-- What the search has found after every step, by induction on what is written last. -/
theorem nearest_governs (place : Position) (mappings : List Mapping) :
    (∀ m, nearest place mappings = some m → Governs mappings place m) ∧
      (nearest place mappings = none → ∀ m ∈ mappings, ¬ m.Precedes place) := by
  induction mappings using List.reverseRecOn with
  | nil => simp [nearest]
  | append_singleton mappings m ih =>
      obtain ⟨hfound, hnone⟩ := ih
      rw [nearest_concat, closer]
      split
      · next hcloser =>
          obtain ⟨hm, hbest⟩ := hcloser
          refine ⟨fun found h => ?_, fun h => nomatch h⟩
          rw [← Option.some.inj h]
          apply governs_concat hm
          intro other hother hprecedes
          cases hsofar : nearest place mappings with
          | none => exact absurd hprecedes (hnone hsofar other hother)
          | some best =>
              have hgoverns := hfound best hsofar
              exact UInt32.le_trans (hgoverns.greatest other hother hprecedes.1 hprecedes.2)
                (hbest best hsofar)
      · next hcloser =>
          constructor
          · intro found h
            apply (hfound found h).concat
            intro hm
            apply UInt32.not_le.mp
            intro hle
            refine hcloser ⟨hm, ?_⟩
            intro best hbest
            rwa [← Option.some.inj (h.symm.trans hbest)]
          · intro h other hother hprecedes
            rcases List.mem_append.mp hother with hin | hlast
            · exact hnone h other hin hprecedes
            · rw [List.mem_singleton.mp hlast] at hprecedes
              refine hcloser ⟨hprecedes, ?_⟩
              rw [h]
              exact fun best hbest => nomatch hbest

/-- The search finds what governs the place, if anything does. -/
theorem nearest_eq_some_iff {place : Position} {mappings : List Mapping} {m : Mapping} :
    nearest place mappings = some m ↔ Governs mappings place m := by
  obtain ⟨hfound, hnone⟩ := nearest_governs place mappings
  refine ⟨hfound m, fun hm => ?_⟩
  cases h : nearest place mappings with
  | none => exact absurd hm.precedes (hnone h m hm.mem)
  | some found => rw [(hfound found h).unique hm]

/-- The binary search in the sorted mappings, with its check of the line, and the search
through the mappings as they are written find the same. -/
theorem filter_governing_eq_nearest (place : Position) (mappings : List Mapping) :
    (governing (sorted mappings) place).filter (·.generated.line = place.line) =
      nearest place mappings := by
  apply Option.ext
  intro m
  rw [nearest_eq_some_iff, governs_iff, Option.filter_eq_some_iff, decide_eq_true_iff]

/-- A look-up finds what the search through the mappings as they are written finds: of the
mappings on the very line of the place, the one with the greatest column not behind it, and
of equal columns the last. It leads nowhere if it has no origin or one in a source that the
map does not have; else to the source below the source root, with its name if the map has
it. Mappings that cannot be read are an error for every place. -/
theorem lookup_eq_search (m : SourceMap) (place : Position) :
    (match m.decode with
      | .error e => m.lookup place = .error e
      | .ok decoded => ∃ mappings, m.written = .ok mappings ∧ decoded.Perm mappings ∧
          m.lookup place = .ok ((nearest place mappings).bind m.leadsTo)) ∧
      ∀ source, Below m.sourceRoot source (m.sourcePath source) := by
  refine ⟨?_, below_sourcePath m⟩
  cases hwritten : m.written with
  | error e =>
      have hdecode : m.decode = .error e := by
        unfold decode
        rw [← written, hwritten]
        rfl
      unfold lookup
      rw [hdecode]
      rfl
  | ok mappings =>
      have hdecode : m.decode = .ok (sorted mappings) := by
        unfold decode
        rw [← written, hwritten]
        rfl
      rw [hdecode]
      refine ⟨mappings, rfl, List.mergeSort_perm _ _, ?_⟩
      rw [lookup_eq hwritten, ← filter_governing_eq_nearest]
      cases governing (sorted mappings) place with
      | none => rfl
      | some mapping =>
          by_cases hline : mapping.generated.line = place.line
          · simp [Option.filter_some, hline, leadsTo]
          · simp [Option.filter_some, hline]

end ModuleCache.SourceMap
