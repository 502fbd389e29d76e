import ModuleCache.Proofs.Entries
import ModuleCache.Proofs.Json.Value
import ModuleCache.SourceMap

/-!
The JSON form of a source map read back: it gives the map that was written, whatever the
names and texts in it are.
-/

namespace ModuleCache.SourceMap

open Json

/-- The form of a field, if it is present, and the value that the form is read as. -/
def entry? (m : SourceMap) : Field → Option (List Char × Value)
  | .version => some (version.repr.toList, .number ['3'])
  | .file => m.file.map fun file => (quote file, .text (some file))
  | .sourceRoot => m.sourceRoot.map fun root => (quote root, .text (some root))
  | .sources =>
    some (writeList quote m.sources, .array (m.sources.map fun text => .text (some text)))
  | .sourcesContent => m.sourcesContent.map fun contents =>
    (writeList writeOptional contents,
      .array (contents.map fun content => content.elim .null fun text => .text (some text)))
  | .names => some (writeList quote m.names, .array (m.names.map fun text => .text (some text)))
  | .mappings => some (quote m.mappings, .text (some m.mappings))

/-- The fields that are present, in order. -/
def entries (m : SourceMap) : List (Field × List Char × Value) :=
  fields.filterMap fun field => (m.entry? field).map (field, ·)

theorem writeFields_eq (m : SourceMap) :
    m.writeFields = m.entries.map fun entry => (entry.1, entry.2.1) := by
  obtain ⟨file, root, sources, contents, names, mappings⟩ := m
  cases file <;> cases root <;> cases contents <;> rfl

/-! ### Reading the object -/

theorem writes_list {α : Type} {item : α → List Char} {value : α → Value}
    (h : ∀ a, Writes (item a) (value a)) (items : List α) :
    Writes (writeList item items) (.array (items.map value)) := by
  have hitems : ∀ entry ∈ items.map fun a => (item a, value a), Writes entry.1 entry.2 := by
    intro entry hentry
    obtain ⟨a, -, rfl⟩ := List.mem_map.mp hentry
    exact h a
  have hwrites := writes_array hitems
  rw [List.map_map, List.map_map] at hwrites
  exact hwrites

theorem writes_optional (content : Option String) :
    Writes (writeOptional content) (content.elim .null fun text => .text (some text)) := by
  cases content with
  | none => exact writes_null
  | some text => exact writes_quote text

theorem writes_entry {m : SourceMap} {field : Field} {entry : List Char × Value}
    (h : m.entry? field = some entry) : Writes entry.1 entry.2 := by
  cases field with
  | version =>
      rw [← Option.some.inj h]
      exact writes_three
  | file =>
      obtain ⟨file, -, rfl⟩ := Option.map_eq_some_iff.mp h
      exact writes_quote file
  | sourceRoot =>
      obtain ⟨root, -, rfl⟩ := Option.map_eq_some_iff.mp h
      exact writes_quote root
  | sources =>
      rw [← Option.some.inj h]
      exact writes_list writes_quote m.sources
  | sourcesContent =>
      obtain ⟨contents, -, rfl⟩ := Option.map_eq_some_iff.mp h
      exact writes_list writes_optional contents
  | names =>
      rw [← Option.some.inj h]
      exact writes_list writes_quote m.names
  | mappings =>
      rw [← Option.some.inj h]
      exact writes_quote m.mappings

/-- The JSON form is read as the object of the fields that are present. -/
theorem parse?_toJson (m : SourceMap) :
    parse? m.toJson =
      some (.object (m.entries.map fun entry => (some entry.1.key, entry.2.2))) := by
  have hmembers : ∀ member ∈ m.entries.map (fun entry => Member.mk entry.1.key entry.2.1 entry.2.2),
      Writes member.form member.value := by
    intro member hmember
    obtain ⟨entry, hentry, rfl⟩ := List.mem_map.mp hmember
    obtain ⟨field, -, hfield⟩ := List.mem_filterMap.mp hentry
    obtain ⟨found, hfound, rfl⟩ := Option.map_eq_some_iff.mp hfield
    exact writes_entry hfound
  have hne : m.entries.map (fun entry => Member.mk entry.1.key entry.2.1 entry.2.2) ≠ [] := by
    simp [entries, fields, entry?]
  have hparse := parse?_of_writes (writes_object hmembers hne)
  rw [List.map_map, List.map_map] at hparse
  unfold toJson
  rw [writeFields_eq, List.map_map]
  exact hparse

/-! ### Reading the fields -/

theorem field?_key (field : Field) : field? field.key = some field := by
  cases field <;> decide

theorem map_fst_filterMap {γ : Type} (value : Field → Option γ) (among : List Field) :
    (among.filterMap fun field => (value field).map (field, ·)).map (·.1) =
      among.filter fun field => (value field).isSome := by
  induction among with
  | nil => rfl
  | cons field among ih =>
      cases h : value field with
      | none =>
          rw [List.filterMap_cons_none (by simp [h]), ih, List.filter_cons_of_neg (by simp [h])]
      | some found =>
          rw [List.filterMap_cons_some (by simp [h]; rfl), List.map_cons, ih,
            List.filter_cons_of_pos (by simp [h])]

theorem lookup_filterMap {γ : Type} (value : Field → Option γ) (among : List Field)
    (field : Field) :
    (among.filterMap fun field => (value field).map (field, ·)).lookup field =
      if field ∈ among then value field else none := by
  induction among with
  | nil => rfl
  | cons other among ih =>
      by_cases heq : field = other
      · subst heq
        cases h : value field with
        | none => rw [List.filterMap_cons_none (by simp [h]), ih, h]; simp
        | some found =>
            rw [List.filterMap_cons_some (by simp [h]; rfl), lookup_cons_eq]
            simp
      · cases h : value other with
        | none => rw [List.filterMap_cons_none (by simp [h]), ih]; simp [heq]
        | some found =>
            rw [List.filterMap_cons_some (by simp [h]; rfl), lookup_cons_eq, if_neg heq, ih]
            simp [heq]

/-- The values of the fields that are present. -/
def values (m : SourceMap) : List (Field × Value) :=
  m.entries.map fun entry => (entry.1, entry.2.2)

theorem values_eq (m : SourceMap) :
    m.values = fields.filterMap fun field => ((m.entry? field).map (·.2)).map (field, ·) := by
  unfold values entries
  rw [List.map_filterMap]
  congr
  funext field
  rw [Option.map_map, Option.map_map]
  rfl

theorem nodup_values (m : SourceMap) : (m.values.map (·.1)).Nodup := by
  rw [values_eq, map_fst_filterMap]
  exact List.Pairwise.filter _ (by decide)

/-- Fields under different keys are all known. -/
theorem knownMembers_keys {known : List (Field × Value)} (h : (known.map (·.1)).Nodup) :
    knownMembers (known.map fun entry => (some entry.1.key, entry.2)) = some known := by
  induction known with
  | nil => rfl
  | cons entry known ih =>
      rw [List.map_cons, List.nodup_cons] at h
      have hnone : known.lookup entry.1 = none := by
        rw [List.lookup_eq_none_iff]
        intro other hother
        have hne : entry.1 ≠ other.1 := fun heq => h.1 (heq ▸ List.mem_map_of_mem hother)
        simpa using hne
      rw [List.map_cons, knownMembers, ih h.2]
      simp only [Option.bind_eq_bind, Option.bind_some, field?_key, hnone]
      rfl

/-- Under the key of a field stands the value of its form. -/
theorem lookup_values (m : SourceMap) (field : Field) :
    m.values.lookup field = (m.entry? field).map (·.2) := by
  rw [values_eq, lookup_filterMap, if_pos]
  cases field <;> decide

theorem mapM_map_of_eq {α β : Type} {read : β → Option α} {write : α → β}
    (h : ∀ a, read (write a) = some a) (items : List α) :
    (items.map write).mapM read = some items := by
  induction items with
  | nil => rfl
  | cons item items ih => simp [h, ih]

theorem readList_texts (texts : List String) :
    readList readString (.array (texts.map fun text => .text (some text))) = some texts := by
  apply mapM_map_of_eq
  intro text
  rfl

theorem readContents_optionals (contents : List (Option String)) :
    readContents (.array (contents.map fun content =>
      content.elim .null fun text => .text (some text))) = some (some contents) := by
  have hread : ∀ content : Option String,
      readOptional (content.elim .null fun text => .text (some text)) = some content := by
    intro content
    cases content <;> rfl
  simp [readContents, readList, mapM_map_of_eq hread]

/-- What the fields that are written stand for. -/
theorem ofFields?_values (m : SourceMap) : ofFields? m.values = some (version, m) := by
  have hversion : (m.values.lookup .version).bind readVersion = some version := by
    rw [lookup_values]
    rfl
  have hfile : ((m.values.lookup .file).map readOptional).getD (some none) = some m.file := by
    rw [lookup_values, entry?]
    cases m.file <;> rfl
  have hroot : ((m.values.lookup .sourceRoot).map readOptional).getD (some none) =
      some m.sourceRoot := by
    rw [lookup_values, entry?]
    cases m.sourceRoot <;> rfl
  have hcontents : ((m.values.lookup .sourcesContent).map readContents).getD (some none) =
      some m.sourcesContent := by
    rw [lookup_values, entry?]
    cases m.sourcesContent with
    | none => rfl
    | some contents => exact readContents_optionals contents
  have hsources : ((m.values.lookup .sources).map (readList readString)).getD (some []) =
      some m.sources := by
    rw [lookup_values]
    exact readList_texts m.sources
  have hnames : ((m.values.lookup .names).map (readList readString)).getD (some []) =
      some m.names := by
    rw [lookup_values]
    exact readList_texts m.names
  have hmappings : (m.values.lookup .mappings).bind readString = some m.mappings := by
    rw [lookup_values]
    rfl
  unfold ofFields?
  simp only [hversion, hfile, hroot, hsources, hcontents, hnames, hmappings, Option.bind_eq_bind,
    Option.bind_some]
  rfl

/-- A source map that was written is read back as it was. -/
theorem ofJson_toJson (m : SourceMap) : ofJson m.toJson = .ok m := by
  have hknown := knownMembers_keys (nodup_values m)
  unfold values at hknown
  rw [List.map_map] at hknown
  unfold ofJson
  rw [parse?_toJson, Option.bind_some, ofValue?]
  have hfields := ofFields?_values m
  unfold values at hfields
  simp only [Function.comp_def] at hknown
  simp only [hknown, Option.bind_eq_bind, Option.bind_some, hfields, if_true]

end ModuleCache.SourceMap
