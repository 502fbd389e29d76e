import ModuleCache.Proofs.Placement.Shape
import ModuleCache.Proofs.Store
import ModuleCache.Transpiler

/-!
When artifacts may be served. A file system is coherent if every artifact that is not
older than its source holds what the transpiler gives for that source. Nothing but the
contents and times of sources and artifacts enters into it, and a write of what was just
compiled keeps it, whether it succeeds, fails half-way or cannot write the map.
-/

namespace ModuleCache

open FileSystem

/-- The content and the time of the file at an address. -/
def FileSystem.contentAt? (fs : FileSystem) (a : Address) : Option (ByteArray × Time) :=
  (fs.fileAt? a).map fun (content, _, modified) => (content, modified)

/-- The content and the time of the file a source's path spells out. -/
def FileSystem.source? (fs : FileSystem) (p : Path) : Option (ByteArray × Time) :=
  fs.contentAt? (addressFrom fs.current p)

namespace Layout

/-- Where the artifact of a source is kept, seen from a directory. A source whose
artifact's path does not end in an artifact's name has none. -/
def artifactAt? (l : Layout) (base : Address) (p : Path) : Option Address :=
  if (l.place p).cache.extension? = some l.extensions.output then
    some (addressFrom base (l.place p).cache)
  else none

/-- The content and the time of the artifact of a source. -/
def artifact? (l : Layout) (fs : FileSystem) (p : Path) : Option (ByteArray × Time) :=
  (l.artifactAt? fs.current p).bind fs.contentAt?

/-- Where a process writes an artifact and its map before it moves them into place. -/
def scratchAt (l : Layout) (base : Address) (process : Nat) (p : Path) : List Address :=
  [addressFrom base (Store.temporary process (l.place p).cache),
    addressFrom base (Store.temporary process (l.place p).map)]

theorem mem_scratchAt {l : Layout} {fs : FileSystem} {p : Path} {a : Address} :
    a ∈ l.scratchAt fs.current fs.process p ↔
      a = Store.temporaryAt fs (l.place p).cache ∨ a = Store.temporaryAt fs (l.place p).map := by
  simp [scratchAt, Store.temporaryAt]

/-- The sources of a run do not get into each other's way: those that are spelled
differently in normal form have different artifacts, and no temporary name is that of a
source or an artifact. -/
structure Apart (l : Layout) (files : Path → Prop) (base : Address) (process : Nat) : Prop where
  tracked : ∀ p, files p → l.extensions.isTracked p = true
  artifacts : ∀ p q, files p → files q → p.normalize ≠ q.normalize →
    ∀ a, l.artifactAt? base p = some a → l.artifactAt? base q ≠ some a
  scratch : ∀ p q, files p → files q → ∀ a ∈ l.scratchAt base process p,
    a ≠ addressFrom base q ∧ l.artifactAt? base q ≠ some a

end Layout

/-- What a transpiler answers, as a function of the text alone. -/
abbrev Answering := String → Except Transpiler.Fault Transpiler.Output

/-- The bytes `code` are what is answered for the text with the bytes `source`. -/
def Answering.Gives (answer : Answering) (source code : ByteArray) : Prop :=
  ∃ text output, answer text = .ok output ∧ source = text.toUTF8 ∧ code = output.code.toUTF8

/-- Every artifact that is not older than its source belongs to the source as it is. -/
def Coherent (l : Layout) (files : Path → Prop) (answer : Answering) (fs : FileSystem) : Prop :=
  ∀ p, files p → ∀ source changed code written, fs.source? p = some (source, changed) →
    l.artifact? fs p = some (code, written) → changed ≤ written → answer.Gives source code

/-! ### Addresses of sources, artifacts and maps -/

section
variable {l : Layout} {files : Path → Prop} {base : Address} {process : Nat}

theorem place_of_normalize_eq {p q : Path} (h : p.normalize = q.normalize) :
    l.place p = l.place q := by
  rw [Layout.place_eq, Layout.place_eq, h]

theorem source?_of_normalize_eq {fs : FileSystem} {p q : Path} (h : p.normalize = q.normalize) :
    fs.source? p = fs.source? q := by
  unfold FileSystem.source?
  rw [addressFrom_of_normalize_eq h]

theorem artifactAt?_eq_some {p : Path} {a : Address} (h : l.artifactAt? base p = some a) :
    (l.place p).cache.extension? = some l.extensions.output ∧
      a = addressFrom base (l.place p).cache := by
  unfold Layout.artifactAt? at h
  split at h
  · next hext => exact ⟨hext, (Option.some.inj h).symm⟩
  · cases h

theorem addressExtension?_artifactAt? {p : Path} {a : Address}
    (h : l.artifactAt? base p = some a) : addressExtension? a = some l.extensions.output := by
  obtain ⟨hext, ha⟩ := artifactAt?_eq_some h
  rw [ha]
  exact addressExtension?_addressFrom hext

theorem addressExtension?_source {p : Path} (h : l.extensions.isTracked p = true) :
    addressExtension? (addressFrom base p) = some l.extensions.source :=
  addressExtension?_addressFrom (Path.isTracked_iff.mp h)

/-- A temporary name is no source's and no artifact's, unless these have the extension of
temporary names. -/
theorem addressExtension?_scratchAt {p : Path} {a : Address} (h : a ∈ l.scratchAt base process p) :
    addressExtension? a = some "tmp" := by
  have htemporary : ∀ q : Path, addressExtension? (addressFrom base (Store.temporary process q)) =
      some "tmp" := fun q => addressExtension?_addressFrom (Store.extension?_temporary _ q)
  simp only [Layout.scratchAt, List.mem_cons, List.not_mem_nil, or_false] at h
  rcases h with h | h
  · rw [h, htemporary]
  · rw [h, htemporary]

/-- Sources with different artifacts do not get into each other's way where none of the
extensions is that of temporary names. -/
theorem Layout.Apart.of_extensions (htracked : ∀ p, files p → l.extensions.isTracked p = true)
    (hartifacts : ∀ p q, files p → files q → p.normalize ≠ q.normalize →
      ∀ a, l.artifactAt? base p = some a → l.artifactAt? base q ≠ some a)
    (hsource : l.extensions.source ≠ "tmp") (houtput : l.extensions.output ≠ "tmp") :
    l.Apart files base process where
  tracked := htracked
  artifacts := hartifacts
  scratch := by
    intro p q _ hq a ha
    have htemporary := addressExtension?_scratchAt ha
    constructor
    · rintro rfl
      rw [addressExtension?_source (htracked q hq)] at htemporary
      exact hsource (Option.some.inj htemporary)
    · intro hartifact
      rw [addressExtension?_artifactAt? hartifact] at htemporary
      exact houtput (Option.some.inj htemporary)

/-! ### Writing what was compiled -/

/-- After the artifact of `p` was written, sources are as they were, and so are artifacts,
save that the artifact of `p` may have the content that was written. -/
theorem write_frame (hapart : l.Apart files base process) {fs : FileSystem}
    (hbase : fs.current = base) (hprocess : fs.process = process) {p q : Path}
    (hp : files p) (hq : files q) (content : String) (mapContent : Option String) :
    let fs' := (Store.write fs (l.place p).cache (l.place p).map content mapContent).fs
    fs'.source? q = fs.source? q ∧
      (l.artifact? fs' q = l.artifact? fs q ∨
        (q.normalize = p.normalize ∧ l.artifact? fs' q = some (content.toUTF8, fs.now))) := by
  have hcurrent :=
    (Store.write_leaves fs (l.place p).cache (l.place p).map content mapContent).current
  have hchanges := fun a => Store.write_changes fs (l.place p).cache (l.place p).map content
    mapContent (a := a)
  generalize (Store.write fs (l.place p).cache (l.place p).map content mapContent).fs = fs'
    at hcurrent hchanges ⊢
  have hscratch := hapart.scratch p q hp hq
  rw [← hbase, ← hprocess] at hscratch
  have hcache : (l.place p).cache.extension? = some l.extensions.output →
      addressExtension? (addressFrom fs.current (l.place p).cache) = some l.extensions.output :=
    addressExtension?_addressFrom
  have hmap : (l.place p).map.extension? = some l.extensions.map →
      addressExtension? (addressFrom fs.current (l.place p).map) = some l.extensions.map :=
    addressExtension?_addressFrom
  constructor
  · have hsource : addressExtension? (addressFrom fs.current q) = some l.extensions.source :=
      addressExtension?_source (hapart.tracked q hq)
    have hsame : fs'.fileAt? (addressFrom fs.current q) =
        fs.fileAt? (addressFrom fs.current q) := by
      rcases hchanges _ (hscratch _ (Layout.mem_scratchAt.mpr (.inl rfl))).1.symm
        (hscratch _ (Layout.mem_scratchAt.mpr (.inr rfl))).1.symm with
        h | ⟨⟨name, hname⟩, hends, ⟨ha, -⟩ | ⟨ha, name', hname'⟩⟩
      · exact h
      · have hext := Layout.extension?_cache (hapart.tracked p hp) hname hends
        rw [ha, hcache hext] at hsource
        exact absurd (Option.some.inj hsource).symm l.extensions.source_ne_output
      · have hext := Layout.extension?_cache (hapart.tracked p hp) hname hends
        rw [ha, hmap (Layout.extension?_map hext hname')] at hsource
        exact absurd (Option.some.inj hsource).symm l.extensions.source_ne_map
    unfold FileSystem.source? FileSystem.contentAt?
    rw [hcurrent, hsame]
  · unfold Layout.artifact?
    rw [hcurrent]
    cases hq' : l.artifactAt? fs.current q with
    | none => exact .inl rfl
    | some a =>
        have hartifact := addressExtension?_artifactAt? hq'
        have hapart' : ∀ b ∈ l.scratchAt fs.current fs.process p, a ≠ b := by
          rintro b hb rfl
          exact (hscratch a hb).2 hq'
        simp only [Option.bind_some, FileSystem.contentAt?]
        rcases hchanges a (hapart' _ (Layout.mem_scratchAt.mpr (.inl rfl)))
          (hapart' _ (Layout.mem_scratchAt.mpr (.inr rfl))) with
          h | ⟨⟨name, hname⟩, hends, ⟨ha, mode, hwritten⟩ | ⟨ha, name', hname'⟩⟩
        · exact .inl (by rw [h])
        · have hext := Layout.extension?_cache (hapart.tracked p hp) hname hends
          by_cases hnormal : q.normalize = p.normalize
          · exact .inr ⟨hnormal, by rw [hwritten]; rfl⟩
          · have hp' : l.artifactAt? fs.current p = some a := by
              rw [Layout.artifactAt?, if_pos hext, ha]
            rw [hbase] at hp' hq'
            exact absurd hp' (hapart.artifacts q p hq hp hnormal a hq')
        · have hext := Layout.extension?_cache (hapart.tracked p hp) hname hends
          rw [ha, hmap (Layout.extension?_map hext hname')] at hartifact
          exact absurd (Option.some.inj hartifact).symm l.extensions.output_ne_map

/-- Writing what the transpiler gives for a source as it is keeps everything coherent. -/
theorem coherent_write {answer : Answering} (hapart : l.Apart files base process) {fs : FileSystem}
    (hbase : fs.current = base) (hprocess : fs.process = process)
    (hcoherent : Coherent l files answer fs) {p : Path} (hp : files p)
    {source : ByteArray} {changed : Time} (hsource : fs.source? p = some (source, changed))
    {content : String} (hgives : answer.Gives source content.toUTF8)
    (mapContent : Option String) :
    Coherent l files answer
      (Store.write fs (l.place p).cache (l.place p).map content mapContent).fs := by
  intro q hq source' changed' code written hsource' hartifact hfresh
  obtain ⟨hsame, hartifact' | ⟨hnormal, hartifact'⟩⟩ :=
    write_frame hapart hbase hprocess hp hq content mapContent
  · rw [hsame] at hsource'
    rw [hartifact'] at hartifact
    exact hcoherent q hq source' changed' code written hsource' hartifact hfresh
  · rw [hsame, source?_of_normalize_eq hnormal, hsource] at hsource'
    rw [hartifact'] at hartifact
    obtain ⟨rfl, -⟩ := Prod.mk.inj (Option.some.inj hsource')
    obtain ⟨rfl, -⟩ := Prod.mk.inj (Option.some.inj hartifact)
    exact hgives

end

end ModuleCache
