import ModuleCache.Proofs.FileSystem.Frame

/-!
The operations that make an artifact: creating directories, writing a file, removing one
and moving one into place. For each, what it leaves and what it does at the addresses its
paths lead to.
-/

namespace ModuleCache.FileSystem

open ModuleCache.Path

variable {fs fs' : FileSystem}

theorem not_isDirectoryAt_of_none {a : Address} (h : fs.node? a = none) :
    ¬ fs.IsDirectoryAt a := by
  rintro ⟨writable, modified, hnode⟩
  rw [h] at hnode
  cases hnode

theorem not_isDirectoryAt_of_file {a : Address} {content : ByteArray} {mode : Nat}
    {modified : Time} (h : fs.node? a = some (.file content mode modified)) :
    ¬ fs.IsDirectoryAt a := by
  rintro ⟨writable, modified', hnode⟩
  rw [h] at hnode
  cases hnode

/-- Behind the name of a file no slash can follow. -/
theorem endsInName_of_find_file {fs : FileSystem} {p : Path} {content : ByteArray} {mode : Nat}
    {modified : Time} (h : fs.find p = .ok (.file content mode modified)) : p.EndsInName := by
  obtain ⟨hlocate, hnode⟩ := find_eq_ok h
  obtain ⟨-, -, hwalk⟩ := bind_eq_ok.mp hlocate
  rcases List.eq_nil_or_concat p.pieces with hnil | ⟨front, last, hlast⟩
  · exact absurd hnil p.pieces_ne_nil
  · rw [List.concat_eq_append] at hlast
    rw [hlast] at hwalk
    obtain ⟨mid, -, hstep⟩ := walk_append_eq_ok hwalk
    obtain ⟨hdirectory, -⟩ := walk_cons_eq_ok hstep
    refine ⟨front, last, hlast, ?_⟩
    by_contra hidle
    have haddress := walk_eq_ok hstep
    rw [inner_cons_idle (Bool.of_not_eq_false hidle)] at haddress
    have hfile := not_isDirectoryAt_of_file hnode
    rw [haddress] at hfile
    exact hfile hdirectory

/-- In a tree only paths that end in a name lead to files. -/
theorem named_of_find_file {fs : FileSystem} (htree : fs.IsTree) {p : Path} {content : ByteArray}
    {mode : Nat} {modified : Time} (h : fs.find p = .ok (.file content mode modified)) :
    (∃ name, p.fileName? = some name) ∧ p.EndsInName := by
  have hends := endsInName_of_find_file h
  refine ⟨?_, hends⟩
  obtain ⟨front, last, hlast, hidle⟩ := hends
  obtain ⟨hlocate, hnode⟩ := find_eq_ok h
  obtain ⟨-, -, hwalk⟩ := bind_eq_ok.mp hlocate
  rw [hlast] at hwalk
  obtain ⟨mid, -, hstep⟩ := walk_append_eq_ok hwalk
  obtain ⟨hdirectory, -⟩ := walk_cons_eq_ok hstep
  have haddress := walk_eq_ok hstep
  rw [inner_cons_of_not_idle hidle] at haddress
  have hup : last ≠ ['.', '.'] := by
    intro hup
    have hfile := not_isDirectoryAt_of_file hnode
    rw [haddress, hup] at hfile
    exact hfile (htree.dropLast hdirectory)
  refine ⟨String.ofList last, ?_⟩
  rw [fileName?_eq_some_iff, components_eq_componentsOf, hlast, componentsOf_append hidle,
    inner_cons_of_not_idle hidle, componentOf, if_neg hup]
  simp [Path.inner]

/-- Only `touched` counts that is not back to what it was. -/
theorem Leaves.drop {touched : List Address} {a : Address} (h : Leaves fs fs' (a :: touched))
    (ha : fs'.fileAt? a = fs.fileAt? a) : Leaves fs fs' touched where
  current := h.current
  now := h.now
  process := h.process
  directories := h.directories
  tree := h.tree
  files := fun b hb => by
    by_cases hba : b = a
    · rw [hba, ha]
    · exact h.files b (by simp [hba, hb])

/-! ### Directories -/

theorem createDirectory_leaves {p : Path} (h : fs.createDirectory p = .ok fs') :
    Leaves fs fs' [] := by
  have hnew : ∀ {directory : Address} {name : String}, fs.IsDirectoryAt directory →
      (if (fs.node? (directory ++ [name])).isSome then throw IoError.exists
        else do
          fs.checkWritable directory
          pure ((fs.set (directory ++ [name]) (.directory true fs.now)).stamp directory)) =
        Except.ok fs' → Leaves fs fs' [] := by
    intro directory name hdirectory h
    split at h
    · exact absurd h throw_ne_ok
    · next hnone =>
        obtain ⟨-, -, h⟩ := bind_eq_ok.mp h
        rw [← pure_eq_ok.mp h]
        have habsent : fs.node? (directory ++ [name]) = none := by simpa using hnone
        have hset := leaves_set (.directory true fs.now) hdirectory
          (not_isDirectoryAt_of_none habsent)
        have hsame : (fs.set (directory ++ [name]) (.directory true fs.now)).fileAt?
            (directory ++ [name]) = fs.fileAt? (directory ++ [name]) := by
          simp [fileAt?, node?_set, habsent]
        exact (hset.drop hsame).trans (leaves_stamp _ directory)
  obtain ⟨ending, hending, h⟩ := bind_eq_ok.mp h
  cases ending with
  | dots directory => exact absurd h throw_ne_ok
  | entry directory name => exact hnew (isDirectoryAt_of_ending hending) h
  | slashed directory name => exact hnew (isDirectoryAt_of_ending hending) h

theorem createDirectoriesWithin_leaves (fs : FileSystem) (p : Path) (bound : Nat) :
    Leaves fs (fs.createDirectoriesWithin p bound).1 [] := by
  induction bound generalizing p with
  | zero => exact .refl fs
  | succ bound ih =>
      rw [createDirectoriesWithin]
      split
      · exact .refl fs
      · split
        · next made hmade => exact createDirectory_leaves hmade
        · split
          · exact .refl fs
          · next parent _ =>
              have habove := ih parent
              split
              · next made e hmade =>
                  rw [hmade] at habove
                  exact habove
              · next made hmade =>
                  rw [hmade] at habove
                  split
                  · next done hdone => exact habove.trans (createDirectory_leaves hdone)
                  · split <;> exact habove
        · split <;> exact .refl fs

/-- Creating directories leaves every file. -/
theorem createDirectories_leaves (fs : FileSystem) (p : Path) :
    Leaves fs (fs.createDirectories p).1 [] := createDirectoriesWithin_leaves fs p _

/-! ### Files -/

/-- The permission bits of what is written at an address: those of the file that is there,
or of a new one. -/
def modeAt (fs : FileSystem) (a : Address) : Nat := ((fs.fileAt? a).map (·.2.1)).getD defaultMode

/-- What a write comes to: the file its path leads to has the content, and the time of day
as its time. -/
theorem writeBytes_eq_ok {p : Path} {content : ByteArray}
    (h : fs.writeBytes p content = .ok fs') :
    Leaves fs fs' [addressFrom fs.current p] ∧
      fs'.fileAt? (addressFrom fs.current p) =
        some (content, fs.modeAt (addressFrom fs.current p), fs.now) := by
  obtain ⟨ending, hending, h⟩ := bind_eq_ok.mp h
  cases ending with
  | dots directory => exact absurd h throw_ne_ok
  | slashed directory name => exact absurd h throw_ne_ok
  | entry directory name =>
      have hdirectory := isDirectoryAt_of_ending hending
      rw [(ending_eq_entry hending).1]
      dsimp only at h
      split at h
      · exact absurd h throw_ne_ok
      · next old mode modified hnode =>
          split at h
          · exact absurd h throw_ne_ok
          · rw [← pure_eq_ok.mp h]
            refine ⟨leaves_set _ hdirectory (not_isDirectoryAt_of_file hnode), ?_⟩
            rw [modeAt, fileAt?_eq_some.mpr hnode]
            exact fileAt?_eq_some.mpr (by rw [node?_set, if_pos rfl]; rfl)
      · next hnode =>
          obtain ⟨-, -, h⟩ := bind_eq_ok.mp h
          rw [← pure_eq_ok.mp h]
          have hset := leaves_set (.file content defaultMode fs.now) hdirectory
            (not_isDirectoryAt_of_none hnode)
          have hstamp := leaves_stamp
            (fs.set (directory ++ [name]) (.file content defaultMode fs.now)) directory
          have hnone : fs.fileAt? (directory ++ [name]) = none := by simp [fileAt?, hnode]
          refine ⟨hset.trans hstamp, ?_⟩
          rw [modeAt, hnone, hstamp.files _ (by simp)]
          exact fileAt?_eq_some.mpr (by rw [node?_set, if_pos rfl]; rfl)

theorem removeFile_eq_ok {p : Path} (h : fs.removeFile p = .ok fs') :
    Leaves fs fs' [addressFrom fs.current p] ∧ fs'.fileAt? (addressFrom fs.current p) = none := by
  obtain ⟨ending, hending, h⟩ := bind_eq_ok.mp h
  cases ending with
  | dots directory => exact absurd h throw_ne_ok
  | slashed directory name =>
      dsimp only at h
      split at h <;> exact absurd h throw_ne_ok
  | entry directory name =>
      rw [(ending_eq_entry hending).1]
      dsimp only at h
      split at h
      · exact absurd h throw_ne_ok
      · exact absurd h throw_ne_ok
      · next hnode =>
          obtain ⟨-, -, h⟩ := bind_eq_ok.mp h
          rw [← pure_eq_ok.mp h]
          have herase := leaves_erase (not_isDirectoryAt_of_file hnode)
          have hstamp := leaves_stamp (fs.erase (directory ++ [name])) directory
          refine ⟨herase.trans hstamp, ?_⟩
          rw [hstamp.files _ (by simp)]
          simp [fileAt?, node?_erase]

theorem checkWritable_of_new {directory : Address} (h : fs.checkWritable directory = .ok ())
    (name : String) (content : ByteArray) :
    ((fs.set (directory ++ [name]) (.file content defaultMode fs.now)).stamp
      directory).checkWritable directory = .ok () := by
  have hother : directory ≠ directory ++ [name] := by simp
  unfold checkWritable stamp at *
  simp only [node?_set, if_neg hother] at *
  cases hnode : fs.node? directory with
  | none => simp [hnode, node?_set, hother]
  | some node =>
      rw [hnode] at h
      cases node with
      | file content mode modified => simp [hnode, node?_set, hother]
      | directory writable modified =>
          cases writable with
          | false => cases h
          | true => simp [node?_set]

/-- A file that was new can be removed again. -/
theorem removeFile_of_writeBytes {p : Path} {content : ByteArray}
    (h : fs.writeBytes p content = .ok fs')
    (hnew : fs.fileAt? (addressFrom fs.current p) = none) :
    ∃ fs'', fs'.removeFile p = .ok fs'' := by
  obtain ⟨hleaves, hwritten⟩ := writeBytes_eq_ok h
  obtain ⟨ending, hending, h⟩ := bind_eq_ok.mp h
  have hending' := ending_mono hleaves.directories hleaves.current hending
  cases ending with
  | dots directory => exact absurd h throw_ne_ok
  | slashed directory name => exact absurd h throw_ne_ok
  | entry directory name =>
      rw [(ending_eq_entry hending).1] at hnew hwritten
      have hfile := fileAt?_eq_some.mp hwritten
      dsimp only at h
      split at h
      · exact absurd h throw_ne_ok
      · next old mode modified hnode =>
          rw [fileAt?_eq_some.mpr hnode] at hnew
          cases hnew
      · obtain ⟨_, hwritable, h⟩ := bind_eq_ok.mp h
        have hstill := checkWritable_of_new hwritable name content
        rw [pure_eq_ok.mp h] at hstill
        refine ⟨(fs'.erase (directory ++ [name])).stamp directory,
          bind_eq_ok.mpr ⟨_, hending', ?_⟩⟩
        dsimp only
        rw [hfile]
        exact bind_eq_ok.mpr ⟨(), hstill, rfl⟩

/-- A file is only moved to a path that ends in a name. -/
theorem rename_target {source target : Path} (h : fs.rename source target = .ok fs') :
    (∃ name, target.fileName? = some name) ∧ target.EndsInName := by
  obtain ⟨sourceEnd, -, h⟩ := bind_eq_ok.mp h
  obtain ⟨targetEnd, htarget, h⟩ := bind_eq_ok.mp h
  cases targetEnd with
  | dots => cases sourceEnd <;> exact absurd h throw_ne_ok
  | slashed => cases sourceEnd <;> exact absurd h throw_ne_ok
  | entry directory name =>
      obtain ⟨-, hname, hends⟩ := ending_eq_entry htarget
      exact ⟨⟨name, hname⟩, hends⟩

/-- What moving a file comes to: the target path leads to what the source path led to. -/
theorem rename_eq_ok {source target : Path} (h : fs.rename source target = .ok fs')
    (hne : addressFrom fs.current source ≠ addressFrom fs.current target) :
    Leaves fs fs' [addressFrom fs.current source, addressFrom fs.current target] ∧
      fs'.fileAt? (addressFrom fs.current target) = fs.fileAt? (addressFrom fs.current source) ∧
      fs'.fileAt? (addressFrom fs.current source) = none := by
  obtain ⟨sourceEnd, hsource, h⟩ := bind_eq_ok.mp h
  obtain ⟨targetEnd, htarget, h⟩ := bind_eq_ok.mp h
  cases sourceEnd with
  | dots => exact absurd h throw_ne_ok
  | slashed => exact absurd h throw_ne_ok
  | entry sourceDirectory sourceName =>
      cases targetEnd with
      | dots => exact absurd h throw_ne_ok
      | slashed => exact absurd h throw_ne_ok
      | entry directory name =>
          rw [(ending_eq_entry hsource).1, (ending_eq_entry htarget).1] at hne ⊢
          have hdirectory : fs.IsDirectoryAt directory := isDirectoryAt_of_ending htarget
          dsimp only at h
          split at h
          · exact absurd h throw_ne_ok
          · exact absurd h throw_ne_ok
          · next content mode modified hnode =>
              obtain ⟨-, -, h⟩ := bind_eq_ok.mp h
              split at h
              · exact absurd h throw_ne_ok
              · next hfile =>
                  rw [if_neg hne] at h
                  rw [← pure_eq_ok.mp h]
                  have herase := leaves_erase (not_isDirectoryAt_of_file hnode)
                  have htarget' : ¬ (fs.erase (sourceDirectory ++ [sourceName])).IsDirectoryAt
                      (directory ++ [name]) := by
                    rintro ⟨writable, modified', hfound⟩
                    rw [node?_erase, if_neg (Ne.symm hne)] at hfound
                    exact hfile writable modified' hfound
                  have hset := leaves_set (.file content mode modified)
                    (herase.directories _ hdirectory) htarget'
                  have hstamp := (leaves_stamp ((fs.erase (sourceDirectory ++ [sourceName])).set
                    (directory ++ [name]) (.file content mode modified)) sourceDirectory).trans
                      (leaves_stamp _ directory)
                  refine ⟨(herase.trans hset).trans hstamp, ?_, ?_⟩
                  · rw [hstamp.files _ (by simp), fileAt?_eq_some.mpr hnode]
                    exact fileAt?_eq_some.mpr (by rw [node?_set, if_pos rfl])
                  · rw [hstamp.files _ (by simp), hset.files _ (mt List.mem_singleton.mp hne)]
                    simp [fileAt?, node?_erase]

/-- The path that a file was moved to leads to it. -/
theorem locate_of_rename {source target : Path} (h : fs.rename source target = .ok fs')
    (hne : addressFrom fs.current source ≠ addressFrom fs.current target) :
    fs'.locate target = .ok (addressFrom fs.current target) := by
  have hleaves := (rename_eq_ok h hne).1
  obtain ⟨sourceEnd, -, h⟩ := bind_eq_ok.mp h
  obtain ⟨targetEnd, htarget, h⟩ := bind_eq_ok.mp h
  cases targetEnd with
  | dots => cases sourceEnd <;> exact absurd h throw_ne_ok
  | slashed => cases sourceEnd <;> exact absurd h throw_ne_ok
  | entry directory name =>
      rw [(ending_eq_entry htarget).1]
      exact locate_mono hleaves.directories hleaves.current (locate_of_ending htarget)

end ModuleCache.FileSystem
