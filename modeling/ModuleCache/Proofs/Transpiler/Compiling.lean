import ModuleCache.Proofs.Loading.Course
import ModuleCache.Proofs.SourceMap.Stored
import ModuleCache.SourceMap.Mappings

/-!
What compiling a source makes of a transpiler's answer. A fault becomes an error about the
source. Code is taken as it is, whatever map came with it; of the map everything is kept but
the names of the files, and those are put in so that compiling it once more changes nothing.
-/

namespace ModuleCache.Transpiler

theorem annotateMap_eq_ok_iff {request : Request} {text own : String} :
    annotateMap request text = .ok own ↔
      ∃ m, SourceMap.ofJson text = .ok m ∧
        (m.annotate request.generated request.sources).toJson = own := by
  rw [SourceMap.annotateMap_eq_rewrite, SourceMap.rewrite_eq_ok]
  rfl

/-- The names that are put in stay when they are put in once more. -/
theorem annotateMap_self {request : Request} {text own : String}
    (h : annotateMap request text = .ok own) : annotateMap request own = .ok own := by
  rw [SourceMap.annotateMap_eq_rewrite] at h ⊢
  obtain ⟨m, -, rfl⟩ := SourceMap.rewrite_eq_ok.mp h
  exact SourceMap.rewrite_toJson rfl

/-- The map that is kept is the one that came, under the right names, if it can be read. -/
theorem map_annotated_eq_some_iff {output : Output} {request : Request} {own : String} :
    (output.annotated request).1.map = some own ↔
      ∃ text, output.map = some text ∧ annotateMap request text = .ok own := by
  unfold Output.annotated
  cases output.map with
  | none => simp
  | some text =>
      rw [Option.map_some]
      cases hannotate : annotateMap request text with
      | error e => simp [hannotate]
      | ok found => simp [hannotate]

theorem map_annotated {output : Output} {request : Request} {raw : String} {m : SourceMap}
    (houtput : output.map = some raw) (hraw : SourceMap.ofJson raw = .ok m) :
    (output.annotated request).1.map =
      some (m.annotate request.generated request.sources).toJson := by
  rw [map_annotated_eq_some_iff]
  exact ⟨raw, houtput, annotateMap_eq_ok_iff.mpr ⟨m, hraw, rfl⟩⟩

/-- A fault becomes an error about the source, and code and map become what they are under the
names of the request. -/
theorem outcome_compile (t : Transpiler) (fs : FileSystem) (request : Request) :
    (t.compile fs request).outcome =
      match (t.run fs request).outcome with
      | .error fault => .error (fault.toError request.file)
      | .ok output => .ok ⟨output.code, (output.annotated request).1.map⟩ := by
  cases hanswer : (t.run fs request).outcome with
  | error fault =>
      unfold compile
      simp only [hanswer]
  | ok output =>
      unfold compile
      simp only [hanswer]
      rw [← output.code_annotated request]

/-- What is kept of the map that came with the code for `file`: nothing of a text that is no
source map, else a map under the names of the artifact and the source. -/
structure KeepsMap (request : Request) (raw kept : Option String) : Prop where
  isSome_iff : kept.isSome ↔ ∃ text m, raw = some text ∧ SourceMap.ofJson text = .ok m
  /-- Read again, it has the right names and no source root. The rest is as it came, so the
  mappings are read as they were, or fail as they did. -/
  reads : ∀ own, kept = some own → ∀ text m, raw = some text → SourceMap.ofJson text = .ok m →
    ∃ map, SourceMap.ofJson own = .ok map ∧ map.file = some request.generated ∧
      map.sources = [request.file.baseName] ∧ map.sourceRoot = none ∧
      map.names = m.names ∧ map.sourcesContent = m.sourcesContent ∧
      map.mappings = m.mappings ∧ map.decode = m.decode
  /-- A transpiler that answers with it has it kept as it is. -/
  again : ∀ own, kept = some own → ∀ (t : Transpiler) (fs : FileSystem) (code : String),
    (t.run fs request).outcome = .ok ⟨code, some own⟩ →
      (t.compile fs request).outcome = .ok ⟨code, some own⟩

theorem keepsMap_annotated (output : Output) (source : String) (file : Path)
    (generated : String) :
    KeepsMap (.ofSource source file generated) output.map
      (output.annotated (.ofSource source file generated)).1.map where
  isSome_iff := by
    rw [Option.isSome_iff_exists]
    constructor
    · rintro ⟨own, hown⟩
      obtain ⟨text, htext, hannotate⟩ := map_annotated_eq_some_iff.mp hown
      obtain ⟨m, hm, -⟩ := annotateMap_eq_ok_iff.mp hannotate
      exact ⟨text, m, htext, hm⟩
    · rintro ⟨text, m, htext, hm⟩
      exact ⟨_, map_annotated htext hm⟩
  reads := by
    intro own hown text m htext hm
    obtain rfl := Option.some.inj (hown.symm.trans (map_annotated htext hm))
    exact ⟨_, SourceMap.ofJson_toJson _, rfl, rfl, rfl, rfl, rfl, rfl, rfl⟩
  again := by
    intro own hown t fs code hanswer
    obtain ⟨text, -, hannotate⟩ := map_annotated_eq_some_iff.mp hown
    rw [outcome_compile, hanswer]
    simp only
    rw [map_annotated_eq_some_iff.mpr ⟨own, rfl, annotateMap_self hannotate⟩]

/-- Compiling a source leaves the files as the transpiler left them. A transpiler that refuses
the source or crashes becomes an error with the source's path and its words. Its code becomes
the code, whatever map comes with it, and the map is kept with nothing but its names changed. -/
theorem compile_isolates (t : Transpiler) (fs : FileSystem) (source : String) (file : Path)
    (generated : String) :
    let request := Request.ofSource source file generated
    (t.compile fs request).fs = (t.run fs request).fs ∧
      match (t.run fs request).outcome with
      | .error (.failed message) =>
        (t.compile fs request).outcome = .error (.transpile file message)
      | .error (.crashed message) =>
        (t.compile fs request).outcome =
          .error (.crashed file (message.getD "non-string panic payload"))
      | .ok output =>
        ∃ kept, (t.compile fs request).outcome = .ok ⟨output.code, kept⟩ ∧
          KeepsMap request output.map kept := by
  intro request
  refine ⟨t.fs_compile fs request, ?_⟩
  rw [outcome_compile]
  cases (t.run fs request).outcome with
  | error fault =>
      cases fault with
      | failed message => rfl
      | crashed message => rfl
  | ok output => exact ⟨_, rfl, keepsMap_annotated output source file generated⟩

/-- A transpiler that answers every request with the same code and map. -/
def constant (code : String) (map : Option String) : Transpiler where
  name := "constant"
  run fs _ := ⟨fs, [], .ok ⟨code, map⟩⟩

/-- A map that names another source below a source root. -/
def foreignMap : SourceMap :=
  ⟨none, some "/tmp/", ["stdin"], none, ["x"], "AAAAA"⟩

/-- A map that a first compilation has put the names into is kept by a second one as it is. -/
theorem compiled_map_compiles_to_itself :
    let request := Request.ofSource "x = 1" ⟨"/app/a.coffee"⟩ "a.js"
    ∃ own,
      ((constant "var x = 1" (some foreignMap.toJson)).compile ⟨[], [], 0, 0⟩ request).outcome =
        .ok ⟨"var x = 1", some own⟩ ∧
      ((constant "x" (some own)).compile ⟨[], [], 0, 0⟩ request).outcome = .ok ⟨"x", some own⟩ := by
  intro request
  obtain ⟨-, kept, hkept, hmap⟩ := compile_isolates
    (constant "var x = 1" (some foreignMap.toJson)) ⟨[], [], 0, 0⟩ "x = 1" ⟨"/app/a.coffee"⟩ "a.js"
  have hread := SourceMap.ofJson_toJson foreignMap
  obtain ⟨own, rfl⟩ := Option.isSome_iff_exists.mp (hmap.isSome_iff.mpr ⟨_, _, rfl, hread⟩)
  exact ⟨own, hkept, hmap.again own rfl (constant "x" (some own)) ⟨[], [], 0, 0⟩ "x" rfl⟩

end ModuleCache.Transpiler
