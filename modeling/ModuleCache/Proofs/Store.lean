import ModuleCache.Proofs.FileSystem.Operations
import ModuleCache.Store

/-!
What a write to the store changes. A file is either replaced as a whole or left alone;
besides it only its temporary name is touched. An artifact that fails leaves the map
alone, and a map that fails leaves the artifact.
-/

namespace ModuleCache.Store

open FileSystem ModuleCache.Path

/-! ### Temporary names -/

section
variable {n : Nat}

theorem toList_temporarySuffix (n : Nat) :
    (temporarySuffix n).toList = ('.' :: Nat.toDigits 10 n) ++ ".tmp".toList := by
  have hrepr : (toString n).toList = Nat.toDigits 10 n := by
    rw [← String.toList_ofList (l := Nat.toDigits 10 n), ← Nat.repr_eq_ofList_toDigits]
    rfl
  rw [temporarySuffix, String.toList_append, String.toList_append, hrepr]
  rfl

theorem slash_not_mem_temporarySuffix (n : Nat) : '/' ∉ (temporarySuffix n).toList := by
  have hdigits : '/' ∉ Nat.toDigits 10 n := fun h =>
    absurd (Nat.isDigit_of_mem_toDigits (by decide) (by decide) h) (by decide)
  rw [toList_temporarySuffix]
  simp [hdigits]

/-- What ends in such a suffix is longer than it. -/
theorem length_temporarySuffix (n : Nat) : 5 ≤ (temporarySuffix n).toList.length := by
  simp [toList_temporarySuffix]

/-- Behind the dot of such a suffix no second dot follows. -/
theorem temporarySuffix_ne (n : Nat) (rest : List Char) :
    (temporarySuffix n).toList ≠ '.' :: '.' :: rest := by
  rw [toList_temporarySuffix]
  have hne : Nat.toDigits 10 n ≠ [] := Nat.toDigits_ne_nil
  obtain ⟨digit, digits, hdigits⟩ := List.exists_cons_of_ne_nil hne
  have hmem : digit ∈ Nat.toDigits 10 n := by simp [hdigits]
  have hdigit := Nat.isDigit_of_mem_toDigits (by decide) (by decide) hmem
  rw [hdigits]
  intro h
  obtain rfl : digit = '.' := (List.cons.inj (List.cons.inj h).2).1
  exact absurd hdigit (by decide)

theorem isName_temporary {name : String} (h : '/' ∉ name.toList) :
    IsName (name ++ temporarySuffix n).toList := by
  have hlength := length_temporarySuffix n
  rw [String.toList_append]
  refine ⟨?_, ?_, ?_, ?_⟩
  · rw [List.mem_append, not_or]
    exact ⟨h, slash_not_mem_temporarySuffix n⟩
  all_goals
    intro heq
    have hlen := congrArg List.length heq
    simp only [List.length_append, List.length_cons, List.length_nil] at hlen
    omega

/-- The temporary name of a file stands beside the file. -/
theorem components_temporary {p : Path} {name : String} (h : p.fileName? = some name) :
    (temporary n p).components = p.components.dropLast ++ [.name (name ++ temporarySuffix n)] := by
  unfold temporary
  rw [baseName, h]
  exact components_withFileName h (isName_temporary (isName_of_fileName? h).1)

/-- Where there is no file's name, the temporary name is one below. -/
theorem components_temporary_of_none {p : Path} (h : p.fileName? = none) :
    (temporary n p).components = p.components ++ [.name (p.baseName ++ temporarySuffix n)] := by
  have hname : IsName (p.baseName ++ temporarySuffix n).toList := by
    rw [baseName, h]
    exact isName_temporary (by decide)
  rw [temporary, withFileName, h]
  exact components_join_single p hname

theorem fileName?_temporary (n : Nat) (p : Path) :
    (temporary n p).fileName? = some (p.baseName ++ temporarySuffix n) := by
  rw [fileName?_eq_some_iff]
  cases h : p.fileName? with
  | some name =>
      rw [components_temporary h, baseName, h]
      simp
  | none =>
      rw [components_temporary_of_none h]
      simp

/-- Whatever a file is called, its temporary name has an extension of its own. -/
theorem extension?_temporary (n : Nat) (p : Path) : (temporary n p).extension? = some "tmp" := by
  have hcut : splitExtension (p.baseName ++ temporarySuffix n).toList =
      (p.baseName.toList ++ '.' :: Nat.toDigits 10 n, some "tmp".toList) := by
    rw [String.toList_append, toList_temporarySuffix]
    refine splitExtension_eq_some_iff.mpr ⟨?_, by decide, by simp⟩
    rw [← List.append_assoc]
    rfl
  exact extension?_eq_some_iff.mpr ⟨_, _, fileName?_temporary n p, hcut⟩

/-- A file and its temporary name are never the same. -/
theorem temporary_apart (n : Nat) (p : Path) (base : Address) :
    addressFrom base (temporary n p) ≠ addressFrom base p := by
  cases h : p.fileName? with
  | some name =>
      rw [addressFrom_of_components (components_temporary h),
        addressFrom_of_components (components_eq_of_fileName? h)]
      intro heq
      have hname := congrArg (List.length ∘ String.toList) (List.append_singleton_inj.mp heq).2
      have hlength := length_temporarySuffix n
      simp only [Function.comp_apply, String.toList_append, List.length_append] at hname
      omega
  | none =>
      rw [addressFrom_of_components (components_temporary_of_none h)]
      intro heq
      have hlength := congrArg List.length heq
      simp [addressFrom] at hlength

/-- Where a file is written before it is moved into place. -/
def temporaryAt (fs : FileSystem) (p : Path) : Address :=
  addressFrom fs.current (temporary fs.process p)

theorem temporaryAt_of_leaves {fs fs' : FileSystem} {touched : List Address}
    (h : Leaves fs fs' touched) (p : Path) : temporaryAt fs' p = temporaryAt fs p := by
  rw [temporaryAt, h.current, h.process]
  rfl

end

/-! ### Replacing one file -/

/-- A file was replaced, or was new: its path now leads to the content, written just now,
and nothing is left under its temporary name. -/
structure Replaced (fs fs' : FileSystem) (p : Path) (content : String) : Prop where
  named : ∃ name, p.fileName? = some name
  ends : p.EndsInName
  reached : fs'.locate p = .ok (addressFrom fs.current p)
  leaves : Leaves fs fs' [temporaryAt fs p, addressFrom fs.current p]
  written : fs'.fileAt? (addressFrom fs.current p) =
    some (content.toUTF8, fs.modeAt (temporaryAt fs p), fs.now)
  removed : fs'.fileAt? (temporaryAt fs p) = none

/-- A file that was replaced can be read at once, where what lay under its temporary name could
be read. -/
theorem Replaced.readText {fs fs' : FileSystem} {p : Path} {content : String}
    (h : Replaced fs fs' p content)
    (hscratch : fs.modeAt (temporaryAt fs p) &&& 0o400 ≠ 0) :
    fs'.readText p = .ok content :=
  readText_of_find (find_of_locate h.reached (fileAt?_eq_some.mp h.written)) hscratch

theorem Replaced.after {fs mid fs' : FileSystem} {p : Path} {content : String}
    (h : Leaves fs mid []) (h' : Replaced mid fs' p content) : Replaced fs fs' p content := by
  obtain ⟨hnamed, hends, hreached, hleaves, hwritten, hremoved⟩ := h'
  rw [temporaryAt_of_leaves h] at hleaves hwritten hremoved
  rw [h.current] at hreached hleaves hwritten
  rw [h.now, modeAt, h.files _ (by simp)] at hwritten
  exact ⟨hnamed, hends, hreached, h.trans hleaves, hwritten, hremoved⟩

theorem replace_eq_ok {fs fs' : FileSystem} {p : Path} {content : String}
    (h : replace fs p content = (fs', .ok ())) : Replaced fs fs' p content := by
  unfold replace at h
  split at h
  · cases h
  · next written hwrite =>
      split at h
      · next moved hmove =>
          obtain rfl : moved = fs' := (Prod.mk.inj h).1
          obtain ⟨hnamed, hends⟩ := rename_target hmove
          obtain ⟨hleaves, hcontent⟩ := writeBytes_eq_ok hwrite
          change Leaves fs written [temporaryAt fs p] at hleaves
          obtain ⟨hleaves', htarget, hsource⟩ := rename_eq_ok hmove (temporary_apart _ p _)
          have hreached := locate_of_rename hmove (temporary_apart _ p _)
          rw [hleaves.current] at hleaves' htarget hsource hreached
          change Leaves written moved [temporaryAt fs p, _] at hleaves'
          refine ⟨hnamed, hends, hreached, ?_, htarget.trans hcontent, hsource⟩
          exact (hleaves.trans hleaves').mono (by simp)
      · cases h

theorem leaves_discard (fs : FileSystem) (p : Path) :
    Leaves fs (discard fs p) [temporaryAt fs p] := by
  unfold discard
  cases hremove : fs.removeFile (temporary fs.process p) with
  | error e => exact (Leaves.refl fs).mono (by simp)
  | ok removed => exact (removeFile_eq_ok hremove).1

/-- What is discarded is no longer there, if it could be removed. -/
theorem fileAt?_discard {fs : FileSystem} {p : Path} (h : fs.fileAt? (temporaryAt fs p) = none) :
    (discard fs p).fileAt? (temporaryAt fs p) = none := by
  unfold discard
  cases hremove : fs.removeFile (temporary fs.process p) with
  | error e => exact h
  | ok removed => exact (removeFile_eq_ok hremove).2

theorem replace_eq_error {fs fs' : FileSystem} {p : Path} {content : String} {cause : IoError}
    (h : replace fs p content = (fs', .error cause)) :
    Leaves fs fs' [temporaryAt fs p] := by
  unfold replace at h
  split at h
  · rw [← (Prod.mk.inj h).1]
    exact leaves_discard fs p
  · next written hwrite =>
      have hleaves : Leaves fs written [temporaryAt fs p] := (writeBytes_eq_ok hwrite).1
      split at h
      · cases h
      · rw [← (Prod.mk.inj h).1]
        have hdiscard := leaves_discard written p
        rw [temporaryAt_of_leaves hleaves] at hdiscard
        exact (hleaves.trans hdiscard).mono (by simp)

theorem writeArtifact_eq_ok {fs fs' : FileSystem} {p : Path} {content : String}
    (h : writeArtifact fs p content = (fs', .ok ())) : Replaced fs fs' p content := by
  unfold writeArtifact at h
  split at h
  · next directory hparent =>
      have hmade := createDirectories_leaves fs directory
      split at h
      · cases h
      · next made heq =>
          rw [heq] at hmade
          obtain ⟨hfs, hok⟩ := Prod.mk.inj h
          exact .after hmade (replace_eq_ok (Prod.ext hfs (mapError_eq_ok hok)))
  · obtain ⟨hfs, hok⟩ := Prod.mk.inj h
    exact replace_eq_ok (Prod.ext hfs (mapError_eq_ok hok))

theorem writeArtifact_eq_error {fs fs' : FileSystem} {p : Path} {content : String} {e : Error}
    (h : writeArtifact fs p content = (fs', .error e)) :
    Leaves fs fs' [temporaryAt fs p] := by
  unfold writeArtifact at h
  split at h
  · next directory hparent =>
      have hmade := createDirectories_leaves fs directory
      split at h
      · next made cause heq =>
          rw [heq] at hmade
          rw [← (Prod.mk.inj h).1]
          exact hmade.mono (by simp)
      · next made heq =>
          rw [heq] at hmade
          obtain ⟨hfs, herror⟩ := Prod.mk.inj h
          obtain ⟨cause, hcause, -⟩ := mapError_eq_error herror
          have hleaves := replace_eq_error (Prod.ext hfs hcause)
          rw [temporaryAt_of_leaves hmade] at hleaves
          exact hmade.trans hleaves
  · obtain ⟨hfs, herror⟩ := Prod.mk.inj h
    obtain ⟨cause, hcause, -⟩ := mapError_eq_error herror
    exact replace_eq_error (Prod.ext hfs hcause)

/-- A map is written as an artifact is, and differs only in what its errors are called. -/
theorem writeMap_eq (fs : FileSystem) (p : Path) (content : String) :
    (writeMap fs p content).1 = (writeArtifact fs p content).1 ∧
      ((writeMap fs p content).2 = .ok () ↔ (writeArtifact fs p content).2 = .ok ()) := by
  unfold writeMap writeArtifact
  cases p.parent? with
  | none =>
      rcases hreplace : replace fs p content with ⟨replaced, outcome⟩
      cases outcome <;> simp [hreplace, Except.mapError]
  | some directory =>
      rcases hmade : fs.createDirectories directory with ⟨made, outcome⟩
      cases outcome with
      | error cause => simp [hmade]
      | ok _ =>
          rcases hreplace : replace made p content with ⟨replaced, outcome⟩
          cases outcome <;> simp [hmade, hreplace, Except.mapError]

theorem writeMap_eq_ok {fs fs' : FileSystem} {p : Path} {content : String}
    (h : writeMap fs p content = (fs', .ok ())) : Replaced fs fs' p content := by
  obtain ⟨hfs, hok⟩ := writeMap_eq fs p content
  rw [h] at hfs hok
  exact writeArtifact_eq_ok (Prod.ext hfs.symm (hok.mp rfl))

theorem writeMap_eq_error {fs fs' : FileSystem} {p : Path} {content : String} {e : Error}
    (h : writeMap fs p content = (fs', .error e)) :
    Leaves fs fs' [temporaryAt fs p] := by
  obtain ⟨hfs, hok⟩ := writeMap_eq fs p content
  rw [h] at hfs hok
  cases hwrite : (writeArtifact fs p content).2 with
  | ok _ => exact absurd (hok.mpr hwrite) (by simp)
  | error e' =>
      have hpair : writeArtifact fs p content = (fs', .error e') := Prod.ext hfs.symm hwrite
      exact writeArtifact_eq_error hpair

/-! ### An artifact and its map -/

/-- What a write of an artifact with its map comes to, by its outcome. -/
theorem write_cases (fs : FileSystem) (artifact map : Path) (content : String)
    (mapContent : Option String) :
    ((∃ e, (write fs artifact map content mapContent).outcome = .error e) ∧
        Leaves fs (write fs artifact map content mapContent).fs
          [temporaryAt fs artifact]) ∨
      ∃ mid, Replaced fs mid artifact content ∧
        (((write fs artifact map content mapContent).outcome = .ok false ∧
            Leaves mid (write fs artifact map content mapContent).fs
              [temporaryAt fs map]) ∨
          ∃ text, mapContent = some text ∧
            (write fs artifact map content mapContent).outcome = .ok true ∧
            Replaced mid (write fs artifact map content mapContent).fs map text) := by
  unfold write
  rcases hartifact : writeArtifact fs artifact content with ⟨mid, outcome⟩
  cases outcome with
  | error e => exact .inl ⟨⟨e, rfl⟩, writeArtifact_eq_error hartifact⟩
  | ok _ =>
      have hreplaced := writeArtifact_eq_ok hartifact
      refine .inr ⟨mid, hreplaced, ?_⟩
      cases mapContent with
      | none => exact .inl ⟨rfl, (Leaves.refl mid).mono (by simp)⟩
      | some text =>
          rcases hmap : writeMap mid map text with ⟨done, outcome⟩
          cases outcome with
          | error e =>
              have hleaves := writeMap_eq_error hmap
              rw [temporaryAt_of_leaves hreplaced.leaves] at hleaves
              simp only [hmap]
              exact .inl ⟨trivial, hleaves⟩
          | ok _ =>
              simp only [hmap]
              exact .inr ⟨text, rfl, trivial, writeMap_eq_ok hmap⟩

/-- A write touches an artifact, its map and their temporary names. -/
theorem write_leaves (fs : FileSystem) (artifact map : Path) (content : String)
    (mapContent : Option String) :
    Leaves fs (write fs artifact map content mapContent).fs
      [temporaryAt fs artifact, temporaryAt fs map,
        addressFrom fs.current artifact, addressFrom fs.current map] := by
  rcases write_cases fs artifact map content mapContent with
    ⟨-, hleaves⟩ | ⟨mid, hartifact, ⟨-, hleaves⟩ | ⟨text, -, -, hmap⟩⟩
  · exact hleaves.mono (by simp)
  · exact (hartifact.leaves.trans hleaves).mono (by simp)
  · have hleaves := hmap.leaves
    rw [temporaryAt_of_leaves hartifact.leaves, hartifact.leaves.current] at hleaves
    exact (hartifact.leaves.trans hleaves).mono (by simp)

/-- A file that is different after a write, and stands under no temporary name, is the
artifact with its new content or the map. -/
theorem write_changes (fs : FileSystem) (artifact map : Path) (content : String)
    (mapContent : Option String) {a : Address}
    (hartifact : a ≠ temporaryAt fs artifact)
    (hmap : a ≠ temporaryAt fs map) :
    (write fs artifact map content mapContent).fs.fileAt? a = fs.fileAt? a ∨
      ((∃ name, artifact.fileName? = some name) ∧ artifact.EndsInName ∧
        ((a = addressFrom fs.current artifact ∧ ∃ mode,
            (write fs artifact map content mapContent).fs.fileAt? a =
              some (content.toUTF8, mode, fs.now)) ∨
          (a = addressFrom fs.current map ∧ ∃ name, map.fileName? = some name))) := by
  have hcontent : ∀ {mid : FileSystem}, Replaced fs mid artifact content →
      mid.fileAt? a = fs.fileAt? a ∨ (a = addressFrom fs.current artifact ∧
        ∃ mode, mid.fileAt? a = some (content.toUTF8, mode, fs.now)) := by
    intro mid h
    by_cases ha : a = addressFrom fs.current artifact
    · rw [ha]
      exact .inr ⟨rfl, _, h.written⟩
    · exact .inl (h.leaves.files a (by simp [hartifact, ha]))
  rcases write_cases fs artifact map content mapContent with
    ⟨-, hleaves⟩ | ⟨mid, hreplaced, ⟨-, hleaves⟩ | ⟨text, -, -, hreplaced'⟩⟩
  · exact .inl (hleaves.files a (by simp [hartifact]))
  · rw [hleaves.files a (by simp [hmap])]
    rcases hcontent hreplaced with h | h
    · exact .inl h
    · exact .inr ⟨hreplaced.named, hreplaced.ends, .inl h⟩
  · have hleaves := hreplaced'.leaves
    rw [temporaryAt_of_leaves hreplaced.leaves, hreplaced.leaves.current] at hleaves
    by_cases ha : a = addressFrom fs.current map
    · exact .inr ⟨hreplaced.named, hreplaced.ends, .inr ⟨ha, hreplaced'.named⟩⟩
    · rw [hleaves.files a (by simp [hmap, ha])]
      rcases hcontent hreplaced with h | h
      · exact .inl h
      · exact .inr ⟨hreplaced.named, hreplaced.ends, .inl h⟩

/-! ### Nothing left behind -/

/-- Where no file stood under the temporary name, none stands there afterwards. -/
theorem replace_temporary {fs : FileSystem} {p : Path} (content : String)
    (h : fs.fileAt? (temporaryAt fs p) = none) :
    (replace fs p content).1.fileAt? (temporaryAt fs p) = none := by
  rcases hreplace : replace fs p content with ⟨fs', outcome⟩
  cases outcome with
  | ok _ => exact (replace_eq_ok hreplace).removed
  | error cause =>
      unfold replace at hreplace
      split at hreplace
      · rw [← (Prod.mk.inj hreplace).1]
        exact fileAt?_discard h
      · next written hwrite =>
          split at hreplace
          · cases hreplace
          · have hleaves : Leaves fs written [temporaryAt fs p] := (writeBytes_eq_ok hwrite).1
            obtain ⟨removed, hremove⟩ := removeFile_of_writeBytes hwrite h
            have hgone := (removeFile_eq_ok hremove).2
            rw [hleaves.current] at hgone
            rw [← (Prod.mk.inj hreplace).1]
            unfold discard
            rw [hleaves.process, hremove]
            exact hgone

theorem writeArtifact_leaves (fs : FileSystem) (p : Path) (content : String) :
    Leaves fs (writeArtifact fs p content).1
      [temporaryAt fs p, addressFrom fs.current p] := by
  rcases hwrite : writeArtifact fs p content with ⟨fs', outcome⟩
  cases outcome with
  | ok _ => exact (writeArtifact_eq_ok hwrite).leaves
  | error e => exact (writeArtifact_eq_error hwrite).mono (by simp)

theorem writeArtifact_temporary {fs : FileSystem} {p : Path} (content : String)
    (h : fs.fileAt? (temporaryAt fs p) = none) :
    (writeArtifact fs p content).1.fileAt? (temporaryAt fs p) = none := by
  unfold writeArtifact
  split
  · next directory hparent =>
      have hmade := createDirectories_leaves fs directory
      split
      · next made cause heq =>
          rw [heq] at hmade
          rw [hmade.files _ (by simp), h]
      · next made heq =>
          rw [heq] at hmade
          rw [← hmade.files _ (by simp), ← temporaryAt_of_leaves hmade] at h
          rw [← temporaryAt_of_leaves hmade]
          exact replace_temporary content h
  · exact replace_temporary content h

/-- Where no file is, none comes to be, but under the name that is written. -/
theorem writeArtifact_none {fs : FileSystem} {p : Path} (content : String) {a : Address}
    (h : fs.fileAt? (temporaryAt fs p) = none) (hnone : fs.fileAt? a = none)
    (hne : a ≠ addressFrom fs.current p) : (writeArtifact fs p content).1.fileAt? a = none := by
  by_cases htemporary : a = temporaryAt fs p
  · rw [htemporary]
    exact writeArtifact_temporary content h
  · rw [(writeArtifact_leaves fs p content).files a (by simp [htemporary, hne]), hnone]

/-- A write leaves nothing under the temporary names, where nothing was and they are neither
the artifact's name nor the map's. -/
theorem write_none {fs : FileSystem} {artifact map : Path} (content : String)
    (mapContent : Option String) {scratch : List Address}
    (hscratch : scratch =
      [temporaryAt fs artifact, temporaryAt fs map])
    (h : ∀ a ∈ scratch, fs.fileAt? a = none ∧ a ≠ addressFrom fs.current artifact ∧
      a ≠ addressFrom fs.current map) :
    ∀ a ∈ scratch, (write fs artifact map content mapContent).fs.fileAt? a = none := by
  have hartifact := (h _ (by rw [hscratch]; exact List.mem_cons_self)).1
  have hmap : temporaryAt fs map ∈ scratch := by simp [hscratch]
  have hmade : ∀ a ∈ scratch, (writeArtifact fs artifact content).1.fileAt? a = none :=
    fun a ha => writeArtifact_none content hartifact (h a ha).1 (h a ha).2.1
  have hleaves := writeArtifact_leaves fs artifact content
  intro a ha
  unfold write
  rcases hwrite : writeArtifact fs artifact content with ⟨mid, outcome⟩
  rw [hwrite] at hmade hleaves
  cases outcome with
  | error e => exact hmade a ha
  | ok _ =>
      cases mapContent with
      | none => exact hmade a ha
      | some text =>
          have hwritten : (writeMap mid map text).1.fileAt? a = none := by
            rw [(writeMap_eq mid map text).1]
            apply writeArtifact_none text
            · rw [temporaryAt_of_leaves hleaves]
              exact hmade _ hmap
            · exact hmade a ha
            · rw [hleaves.current]
              exact (h a ha).2.2
          rcases hwriteMap : writeMap mid map text with ⟨done, outcome⟩
          rw [hwriteMap] at hwritten
          simp only [hwriteMap]
          cases outcome <;> exact hwritten

end ModuleCache.Store
