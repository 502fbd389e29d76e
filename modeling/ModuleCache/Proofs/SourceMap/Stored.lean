import ModuleCache.Proofs.Result
import ModuleCache.Proofs.SourceMap.Json
import ModuleCache.Transpiler

/-!
Source maps as they are kept. A text is read, the map gets the names of its artifact and
sources, any number of times, and is written again. Whatever the text looked like, what is
written is read back as the very map, so writing it once more gives the same text, and so
does naming it once more.
-/

namespace ModuleCache.SourceMap

/-- The map under one name after the other: that of the artifact, and those of the sources. -/
def annotateAll (m : SourceMap) (names : List (String × List String)) : SourceMap :=
  names.foldl (fun m (file, sources) => m.annotate file sources) m

/-- The text that is kept of the map in `text`. -/
def rewrite (names : List (String × List String)) (text : String) : Except Error String := do
  pure ((← ofJson text).annotateAll names).toJson

theorem annotateAll_concat (m : SourceMap) (names : List (String × List String)) (file : String)
    (sources : List String) :
    m.annotateAll (names ++ [(file, sources)]) = (m.annotateAll names).annotate file sources := by
  simp [annotateAll]

theorem annotateMap_eq_rewrite (request : Transpiler.Request) (text : String) :
    Transpiler.annotateMap request text = rewrite [(request.generated, request.sources)] text :=
  rfl

theorem rewrite_eq_ok {names : List (String × List String)} {text kept : String} :
    rewrite names text = .ok kept ↔
      ∃ m, ofJson text = .ok m ∧ (m.annotateAll names).toJson = kept := by
  unfold rewrite
  simp only [bind_eq_ok, pure_eq_ok]

/-- What is written for a map is kept as it is under names that the map already has. -/
theorem rewrite_toJson {names : List (String × List String)} {m : SourceMap}
    (h : m.annotateAll names = m) : rewrite names m.toJson = .ok m.toJson := by
  rw [rewrite_eq_ok]
  exact ⟨m, ofJson_toJson m, by rw [h]⟩

/-- A text that is read as a map can be kept under any names. What is kept is one object of
the fields that are present, and is read as the map with those names; kept once more, as it
is or under the names that it got last, it stays the same text. -/
theorem rewrite_kept {text : String} {m : SourceMap} (hread : ofJson text = .ok m)
    (names : List (String × List String)) :
    ∃ kept, rewrite names text = .ok kept ∧
      Json.parse? kept = some (.object ((m.annotateAll names).values.map fun entry =>
        (some entry.1.key, entry.2))) ∧
      ofJson kept = .ok (m.annotateAll names) ∧
      rewrite [] kept = .ok kept ∧
      ∀ request : Transpiler.Request,
        names.getLast? = some (request.generated, request.sources) →
          Transpiler.annotateMap request kept = .ok kept := by
  refine ⟨(m.annotateAll names).toJson, rewrite_eq_ok.mpr ⟨m, hread, rfl⟩, ?_,
    ofJson_toJson _, rewrite_toJson rfl, ?_⟩
  · rw [parse?_toJson, values, List.map_map]
    rfl
  · intro request hlast
    obtain ⟨front, rfl⟩ := List.getLast?_eq_some_iff.mp hlast
    rw [annotateMap_eq_rewrite]
    apply rewrite_toJson
    rw [annotateAll_concat]
    rfl

/-- A map as another writer may spell it: an unknown key in front, no version before the
end, a character by its code and a text that is not known. -/
def foreignText : String :=
  "\x7b\"x\":[\x7b\x7d], \"mappings\":\"AAAA\",\"sourcesContent\":[null,\"\\u00e9\\n\"]," ++
    "\"sourceRoot\":null,\"version\":3\x7d"

theorem foreign_text_kept :
    ∃ kept, rewrite [("a.js", ["a.coffee"])] foreignText = .ok kept ∧
      ofJson kept = .ok ⟨some "a.js", none, ["a.coffee"], some [none, some "é\n"], [], "AAAA"⟩ ∧
      Transpiler.annotateMap ⟨"", ⟨"/a.coffee"⟩, "a.js", ["a.coffee"], true⟩ kept = .ok kept := by
  have hread : ofJson foreignText =
      .ok ⟨none, none, [], some [none, some "é\n"], [], "AAAA"⟩ := by
    have hsome : (ofJson foreignText).toOption =
        some ⟨none, none, [], some [none, some "é\n"], [], "AAAA"⟩ := by decide +kernel
    cases h : ofJson foreignText with
    | error e =>
        rw [h] at hsome
        cases hsome
    | ok m =>
        rw [h] at hsome
        rw [Option.some.inj hsome]
  obtain ⟨kept, hkept, -, hagain, -, hsame⟩ := rewrite_kept hread [("a.js", ["a.coffee"])]
  exact ⟨kept, hkept, hagain, hsame _ rfl⟩

end ModuleCache.SourceMap
