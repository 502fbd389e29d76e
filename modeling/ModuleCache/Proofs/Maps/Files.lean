import ModuleCache.Proofs.Coherence.Files
import ModuleCache.Proofs.FileSystem.Reading

/-!
The maps on disk. The map of a source stands beside the artifact of the source and has a
name of its own kind, so the only writes that can touch it are those of the source itself.
One that writes the artifact and no map leaves the map that was there.
-/

namespace ModuleCache

open FileSystem ModuleCache.Path

namespace Layout

/-- Where the map of a source is kept, seen from a directory. A source whose artifact and
map do not both have the names of their kind has none. -/
def mapAt? (l : Layout) (base : Address) (p : Path) : Option Address :=
  if (l.place p).cache.extension? = some l.extensions.output ∧
      (l.place p).map.extension? = some l.extensions.map then
    some (addressFrom base (l.place p).map)
  else none

/-- The content of the map of a source. -/
def map? (l : Layout) (fs : FileSystem) (p : Path) : Option ByteArray :=
  ((l.mapAt? fs.current p).bind fs.contentAt?).map (·.1)

/-- The sources of a run have each its own artifact, and no temporary name is that of a
map. -/
structure Distinct (l : Layout) (files : Path → Prop) (base : Address) (process : Nat) : Prop where
  tracked : ∀ p, files p → l.extensions.isTracked p = true
  artifacts : ∀ p q, files p → files q → p.same q = false →
    ∀ a, l.artifactAt? base p = some a → l.artifactAt? base q ≠ some a
  scratch : ∀ p q, files p → files q → ∀ a ∈ l.scratchAt base process p, l.mapAt? base q ≠ some a

end Layout

variable {l : Layout} {files : Path → Prop} {base : Address} {process : Nat}

theorem mapAt?_eq_some {p : Path} {a : Address} (h : l.mapAt? base p = some a) :
    (l.place p).cache.extension? = some l.extensions.output ∧
      (l.place p).map.extension? = some l.extensions.map ∧
      a = addressFrom base (l.place p).map := by
  unfold Layout.mapAt? at h
  split at h
  · next hext => exact ⟨hext.1, hext.2, (Option.some.inj h).symm⟩
  · cases h

theorem mapAt?_of_normalize_eq {p q : Path} (h : p.normalize = q.normalize) :
    l.mapAt? base p = l.mapAt? base q := by
  unfold Layout.mapAt?
  rw [place_of_normalize_eq h]

theorem map?_of_normalize_eq {fs : FileSystem} {p q : Path} (h : p.normalize = q.normalize) :
    l.map? fs p = l.map? fs q := by
  unfold Layout.map?
  rw [mapAt?_of_normalize_eq h]

/-- A map and its artifact differ in nothing but the extension. -/
theorem components_of_extensions {p : Path}
    (hcache : (l.place p).cache.extension? = some l.extensions.output)
    (hmap : (l.place p).map.extension? = some l.extensions.map) :
    ∃ directory stem,
      (l.place p).cache.components =
        directory ++ [.name (String.ofList (stem ++ '.' :: l.extensions.output.toList))] ∧
      (l.place p).map.components =
        directory ++ [.name (String.ofList (stem ++ '.' :: l.extensions.map.toList))] := by
  obtain ⟨name, stem, hname, hcut⟩ := extension?_eq_some_iff.mp hcache
  obtain ⟨isLast, -, hcomponents, -⟩ := components_swap hname hcut l.extensions.map_bare
  obtain ⟨name', -, hname', -⟩ := extension?_eq_some_iff.mp hmap
  have hlast := fileName?_eq_some_iff.mp hname'
  rw [Layout.place_map, Extensions.toMap] at hlast ⊢
  rw [hcomponents, List.getLast?_concat, Option.some.injEq] at hlast
  have hrenamed : renamed stem isLast l.extensions.map =
      .name (String.ofList (stem ++ '.' :: l.extensions.map.toList)) := by
    unfold renamed at hlast ⊢
    split at hlast
    · cases hlast
    · next hstem => rw [if_neg hstem]
  refine ⟨(l.place p).cache.components.dropLast, stem, ?_, ?_⟩
  · rw [← (splitExtension_eq_some_iff.mp hcut).1, String.ofList_toList]
    exact components_eq_of_fileName? hname
  · rw [hcomponents, hrenamed]

/-- Sources that share a map share an artifact. -/
theorem artifactAt?_of_mapAt?_eq {p q : Path} {a : Address} (hp : l.mapAt? base p = some a)
    (hq : l.mapAt? base q = some a) :
    ∃ b, l.artifactAt? base p = some b ∧ l.artifactAt? base q = some b := by
  obtain ⟨hcache, hmap, ha⟩ := mapAt?_eq_some hp
  obtain ⟨hcache', hmap', ha'⟩ := mapAt?_eq_some hq
  obtain ⟨directory, stem, hcomponents, hcomponents'⟩ := components_of_extensions hcache hmap
  obtain ⟨directory', stem', hother, hother'⟩ := components_of_extensions hcache' hmap'
  rw [addressFrom_of_components hcomponents'] at ha
  rw [addressFrom_of_components hother', ha] at ha'
  obtain ⟨hdirectory, hname⟩ := List.append_singleton_inj.mp ha'
  have hstem : stem = stem' := by
    have hchars := congrArg String.toList hname
    simpa using hchars
  refine ⟨addressFrom base (l.place p).cache, ?_, ?_⟩
  · rw [Layout.artifactAt?, if_pos hcache]
  · rw [Layout.artifactAt?, if_pos hcache', addressFrom_of_components hcomponents,
      addressFrom_of_components hother, hdirectory, hstem]

theorem mapAt?_ne_artifact {p q : Path} {a : Address} (hmap : l.mapAt? base p = some a)
    (hcache : (l.place q).cache.extension? = some l.extensions.output) :
    a ≠ addressFrom base (l.place q).cache := by
  obtain ⟨-, hext, ha⟩ := mapAt?_eq_some hmap
  intro heq
  have hkind : addressExtension? (addressFrom base (l.place q).cache) = some l.extensions.output :=
    addressExtension?_addressFrom hcache
  rw [← heq, ha, addressExtension?_addressFrom hext] at hkind
  exact absurd (Option.some.inj hkind).symm l.extensions.output_ne_map

/-- Sources with different artifacts are distinct where temporary names have an extension
that maps do not have. -/
theorem Layout.Distinct.of_extensions (htracked : ∀ p, files p → l.extensions.isTracked p = true)
    (hartifacts : ∀ p q, files p → files q → p.same q = false →
      ∀ a, l.artifactAt? base p = some a → l.artifactAt? base q ≠ some a)
    (hmap : l.extensions.map ≠ "tmp") : l.Distinct files base process where
  tracked := htracked
  artifacts := hartifacts
  scratch := by
    intro p q _ _ a ha hmapAt
    obtain ⟨-, hext, haddress⟩ := mapAt?_eq_some hmapAt
    have htemporary := addressExtension?_scratchAt ha
    rw [haddress, addressExtension?_addressFrom hext] at htemporary
    exact hmap (Option.some.inj htemporary)

/-! ### Reading a map -/

/-- Only the map of a source can be read as such. -/
theorem map?_of_readText {fs : FileSystem} (htree : fs.IsTree) {p : Path}
    (htracked : l.extensions.isTracked p = true) {text : String}
    (h : fs.readText (l.place p).map = .ok text) : l.map? fs p = some text.toUTF8 := by
  obtain ⟨mode, modified, hfind, -⟩ := readText_eq_ok h
  obtain ⟨⟨name, hname⟩, hends⟩ := named_of_find_file htree hfind
  have hcache : (l.place p).cache.extension? = some l.extensions.output := by
    by_cases hext : (l.place p).cache.extension? = some l.extensions.output
    · exact hext
    · -- then the map would be called as the artifact is
      rw [Layout.place_map, Extensions.toMap, swap_of_extension?_ne hext] at hname hends
      exact Layout.extension?_cache htracked hname hends
  unfold Layout.map?
  rw [Layout.mapAt?, if_pos ⟨hcache, Layout.extension?_map hcache hname⟩]
  have hnode := (find_eq_ok hfind).2
  simp only [Option.bind_some, FileSystem.contentAt?, fileAt?_eq_some.mpr hnode, Option.map_some]

/-- A file whose artifact is written has both names, unless its map cannot have one. -/
theorem mapAt?_of_written {p : Path} (htracked : l.extensions.isTracked p = true)
    {name name' : String} (hname : (l.place p).cache.fileName? = some name)
    (hends : (l.place p).cache.EndsInName) (hname' : (l.place p).map.fileName? = some name') :
    l.mapAt? base p = some (addressFrom base (l.place p).map) := by
  have hcache := Layout.extension?_cache htracked hname hends
  exact if_pos ⟨hcache, Layout.extension?_map hcache hname'⟩

theorem Layout.Distinct.map_ne_scratch (h : l.Distinct files base process) {fs : FileSystem}
    (hbase : fs.current = base) (hprocess : fs.process = process) {p q : Path} (hp : files p)
    (hq : files q) {a : Address} (hmapAt : l.mapAt? fs.current p = some a) :
    a ≠ Store.temporaryAt fs (l.place q).cache ∧ a ≠ Store.temporaryAt fs (l.place q).map := by
  have hscratch := h.scratch q p hq hp
  rw [← hbase, ← hprocess] at hscratch
  constructor
  · intro heq
    exact hscratch a (Layout.mem_scratchAt.mpr (.inl heq)) hmapAt
  · intro heq
    exact hscratch a (Layout.mem_scratchAt.mpr (.inr heq)) hmapAt

/-- Writing the artifact of one source, with or without a map, leaves the map of another. -/
theorem map?_write_other (h : l.Distinct files base process) {fs : FileSystem}
    (hbase : fs.current = base) (hprocess : fs.process = process) {p q : Path}
    (hp : files p) (hq : files q) (hne : p.same q = false) (content : String)
    (mapContent : Option String) :
    l.map? (Store.write fs (l.place q).cache (l.place q).map content mapContent).fs p =
      l.map? fs p := by
  have hcurrent :=
    (Store.write_leaves fs (l.place q).cache (l.place q).map content mapContent).current
  have hchanges := fun a => Store.write_changes fs (l.place q).cache (l.place q).map content
    mapContent (a := a)
  generalize (Store.write fs (l.place q).cache (l.place q).map content mapContent).fs = fs'
    at hcurrent hchanges ⊢
  unfold Layout.map?
  rw [hcurrent]
  cases hmapAt : l.mapAt? fs.current p with
  | none => rfl
  | some a =>
      obtain ⟨hscratch, hscratch'⟩ := h.map_ne_scratch hbase hprocess hp hq hmapAt
      have hsame : fs'.fileAt? a = fs.fileAt? a := by
        rcases hchanges a hscratch hscratch' with
          hsame | ⟨⟨name, hname⟩, hends, ⟨hcache, -⟩ | ⟨hmap, name', hname'⟩⟩
        · exact hsame
        · have hext := Layout.extension?_cache (h.tracked q hq) hname hends
          exact absurd hcache (mapAt?_ne_artifact hmapAt hext)
        · have hmapAt' : l.mapAt? fs.current q = some a := by
            rw [hmap]
            exact mapAt?_of_written (h.tracked q hq) hname hends hname'
          obtain ⟨b, hb, hb'⟩ := artifactAt?_of_mapAt?_eq hmapAt hmapAt'
          rw [hbase] at hb hb'
          exact absurd hb' (h.artifacts p q hp hq hne b hb)
      simp only [Option.bind_some, FileSystem.contentAt?, hsame]

/-- What is in the place of the map after the artifact was written: the map that came with
it, if that was written too, and else what was there before. -/
theorem map?_write (h : l.Distinct files base process) {fs : FileSystem}
    (hbase : fs.current = base) (hprocess : fs.process = process) {p : Path} (hp : files p)
    {content : String} {mapContent : Option String} {written : Bool}
    (hwritten : (Store.write fs (l.place p).cache (l.place p).map content mapContent).outcome =
      .ok written) :
    if written then
      ∃ text, mapContent = some text ∧
        l.map? (Store.write fs (l.place p).cache (l.place p).map content mapContent).fs p =
          some text.toUTF8
    else
      l.map? (Store.write fs (l.place p).cache (l.place p).map content mapContent).fs p =
        l.map? fs p := by
  have hcurrent :=
    (Store.write_leaves fs (l.place p).cache (l.place p).map content mapContent).current
  have hcases := Store.write_cases fs (l.place p).cache (l.place p).map content mapContent
  generalize Store.write fs (l.place p).cache (l.place p).map content mapContent = result
    at hcurrent hcases hwritten ⊢
  unfold Layout.map?
  rw [hcurrent]
  rcases hcases with ⟨⟨e, herror⟩, -⟩ | ⟨mid, hartifact, hmap⟩
  · rw [herror] at hwritten
    cases hwritten
  · obtain ⟨name, hname⟩ := hartifact.named
    rcases hmap with ⟨houtcome, hleaves⟩ | ⟨text, htext, houtcome, hmap⟩
    · rw [houtcome] at hwritten
      obtain rfl : false = written := Except.ok.inj hwritten
      rw [if_neg Bool.false_ne_true]
      cases hmapAt : l.mapAt? fs.current p with
      | none => rfl
      | some a =>
          obtain ⟨hscratch, hscratch'⟩ := h.map_ne_scratch hbase hprocess hp hp hmapAt
          have hcache := Layout.extension?_cache (h.tracked p hp) hname hartifact.ends
          have hother := mapAt?_ne_artifact hmapAt hcache
          have hsame : result.fs.fileAt? a = fs.fileAt? a :=
            (hartifact.leaves.trans hleaves).files a (by simp [hother, hscratch, hscratch'])
          simp only [Option.bind_some, FileSystem.contentAt?, hsame]
    · rw [houtcome] at hwritten
      obtain rfl : true = written := Except.ok.inj hwritten
      rw [if_pos rfl]
      refine ⟨text, htext, ?_⟩
      obtain ⟨name', hname'⟩ := hmap.named
      have hcontent := hmap.written
      rw [hartifact.leaves.current] at hcontent
      rw [mapAt?_of_written (h.tracked p hp) hname hartifact.ends hname']
      simp only [Option.bind_some, FileSystem.contentAt?, hcontent, Option.map_some]

/-- The temporary name of a map is neither the artifact's name nor its temporary name. -/
theorem temporary_map_apart (fs : FileSystem) {p : Path}
    (hcache : (l.place p).cache.extension? = some l.extensions.output)
    (hmap : (l.place p).map.extension? = some l.extensions.map) :
    Store.temporaryAt fs (l.place p).map ≠ Store.temporaryAt fs (l.place p).cache ∧
      Store.temporaryAt fs (l.place p).map ≠ addressFrom fs.current (l.place p).cache := by
  obtain ⟨directory, stem, hcomponents, hcomponents'⟩ := components_of_extensions hcache hmap
  have hnamed : ∀ {q : Path} {name : String}, q.components = directory ++ [.name name] →
      Store.temporaryAt fs q =
        directory.foldl addressStep fs.current ++ [name ++ Store.temporarySuffix fs.process] := by
    intro q name h
    have hname : q.fileName? = some name := fileName?_eq_some_iff.mpr (by simp [h])
    have htemporary := Store.components_temporary (n := fs.process) hname
    rw [h, List.dropLast_concat] at htemporary
    exact addressFrom_of_components htemporary
  rw [hnamed hcomponents', hnamed hcomponents, addressFrom_of_components hcomponents]
  constructor
  · intro heq
    have hchars := congrArg String.toList (List.append_singleton_inj.mp heq).2
    simp only [String.toList_append, String.toList_ofList, List.append_cancel_right_eq,
      List.append_cancel_left_eq, List.cons.injEq, true_and] at hchars
    exact l.extensions.output_ne_map (String.toList_inj.mp hchars).symm
  · intro heq
    have hchars := congrArg String.toList (List.append_singleton_inj.mp heq).2
    simp only [String.toList_append, String.toList_ofList, List.append_assoc,
      List.append_cancel_left_eq, List.cons_append, List.cons.injEq, true_and] at hchars
    have hdot : '.' ∈ l.extensions.output.toList := by
      rw [← hchars]
      simp [Store.toList_temporarySuffix]
    exact l.extensions.output_bare.dot_not_mem hdot

/-- An artifact is not called as its map is while that is written, whatever the map is called. -/
theorem temporary_map_ne_artifact (fs : FileSystem) {p : Path}
    (hcache : (l.place p).cache.extension? = some l.extensions.output) :
    Store.temporaryAt fs (l.place p).map ≠ addressFrom fs.current (l.place p).cache := by
  cases hmap : (l.place p).map.fileName? with
  | some name => exact (temporary_map_apart fs hcache (Layout.extension?_map hcache hmap)).2
  | none =>
      -- then the artifact's stem is a dot, and its map a step upward
      obtain ⟨name, stem, hname, hcut⟩ := extension?_eq_some_iff.mp hcache
      obtain ⟨isLast, -, hcomponents, -⟩ := components_swap hname hcut l.extensions.map_bare
      have hstem : stem = ['.'] := by
        by_contra hne
        have hnamed : (l.place p).map.fileName? =
            some (String.ofList (stem ++ '.' :: l.extensions.map.toList)) := by
          rw [fileName?_eq_some_iff, Layout.place_map, Extensions.toMap, hcomponents,
            List.getLast?_concat, renamed, if_neg fun h => hne h.1]
        rw [hmap] at hnamed
        cases hnamed
      rw [Store.temporaryAt,
        addressFrom_of_components (Store.components_temporary_of_none hmap),
        addressFrom_of_components (components_eq_of_fileName? hname)]
      intro heq
      have hchars := congrArg String.toList (List.append_singleton_inj.mp heq).2
      rw [(splitExtension_eq_some_iff.mp hcut).1, hstem, baseName, hmap] at hchars
      exact Store.temporarySuffix_ne fs.process _ hchars

/-- An artifact that was written can be read at once, where what lay under its temporary name
could be read. -/
theorem readText_written_artifact {fs : FileSystem} {p : Path}
    (htracked : l.extensions.isTracked p = true) {content : String} {mapContent : Option String}
    {mapWritten : Bool}
    (hscratch : fs.modeAt (Store.temporaryAt fs (l.place p).cache) &&& 0o400 ≠ 0)
    (hwritten : (Store.write fs (l.place p).cache (l.place p).map content mapContent).outcome =
      .ok mapWritten) :
    (Store.write fs (l.place p).cache (l.place p).map content mapContent).fs.readText
      (l.place p).cache = .ok content := by
  have hcases := Store.write_cases fs (l.place p).cache (l.place p).map content mapContent
  generalize Store.write fs (l.place p).cache (l.place p).map content mapContent = result
    at hcases hwritten ⊢
  rcases hcases with ⟨⟨e, herror⟩, -⟩ | ⟨mid, hartifact, hmap⟩
  · rw [herror] at hwritten
    cases hwritten
  · have hcurrent := hartifact.leaves.current
    have hscratchAt := Store.temporaryAt_of_leaves hartifact.leaves
    obtain ⟨name, hname⟩ := hartifact.named
    have hcache := Layout.extension?_cache htracked hname hartifact.ends
    have htemporary := (temporary_map_ne_artifact fs hcache).symm
    have hread := hartifact.readText hscratch
    rcases hmap with ⟨-, hleaves⟩ | ⟨text, -, -, hmap⟩
    · exact hleaves.readText_of_ok (by simpa [hcurrent, hscratchAt] using htemporary) hread
    · obtain ⟨name', hname'⟩ := hmap.named
      have hmapAt : l.mapAt? fs.current p = some (addressFrom fs.current (l.place p).map) :=
        mapAt?_of_written htracked hname hartifact.ends hname'
      have hother := mapAt?_ne_artifact hmapAt hcache
      exact hmap.leaves.readText_of_ok
        (by simpa [hcurrent, hscratchAt] using ⟨htemporary, hother.symm⟩) hread

end ModuleCache
