import ModuleCache.Proofs.FileSystem.Reading
import ModuleCache.Proofs.Store

/-!
A write of an artifact with its map, seen from outside. Whatever is in the way, each of the
two files is there as a whole afterwards or is as it was, the artifact's failure is the
write's, the map's is not, and neither leaves a file under a temporary name. The directories
in front of a file that failed may stay.
-/

namespace ModuleCache

namespace Store

open FileSystem ModuleCache.Path

/-- An artifact and its map stand at addresses of their own, and nothing else is under the
names that they are written under first. -/
structure Apart (fs : FileSystem) (artifact map : Path) : Prop where
  files : addressFrom fs.current artifact ≠ addressFrom fs.current map
  scratch : temporaryAt fs artifact ≠ addressFrom fs.current map
  mapScratch : temporaryAt fs map ≠ addressFrom fs.current artifact
  vacant : fs.fileAt? (temporaryAt fs artifact) = none
  mapVacant : fs.fileAt? (temporaryAt fs map) = none

variable {fs fs' : FileSystem} {artifact map p : Path} {content : String}
  {mapContent : Option String}

/-- A write leaves no file under a temporary name. -/
theorem Apart.cleared (h : Apart fs artifact map) (content : String)
    (mapContent : Option String) :
    ∀ p ∈ [artifact, map],
      (write fs artifact map content mapContent).fs.fileAt? (temporaryAt fs p) = none := by
  have hspare : ∀ a ∈ [temporaryAt fs artifact, temporaryAt fs map],
      fs.fileAt? a = none ∧ a ≠ addressFrom fs.current artifact ∧
        a ≠ addressFrom fs.current map := by
    simp only [List.forall_mem_cons, List.not_mem_nil, false_implies, implies_true, and_true]
    exact ⟨⟨h.vacant, temporary_apart _ artifact _, h.scratch⟩,
      h.mapVacant, h.mapScratch, temporary_apart _ map _⟩
  have hnone := write_none content mapContent rfl hspare
  simpa using hnone

/-- Where nothing was under the temporary name, a file that was replaced can be read, and
nothing but it has changed. -/
theorem Replaced.settled (h : Replaced fs fs' p content)
    (hvacant : fs.fileAt? (temporaryAt fs p) = none) :
    Leaves fs fs' [addressFrom fs.current p] ∧ fs'.readText p = .ok content := by
  refine ⟨h.leaves.drop (h.removed.trans hvacant.symm), h.readText ?_⟩
  rw [modeAt, hvacant]
  decide

/-- The only error of a write names the artifact or the directory it belongs in. -/
theorem write_eq_error {e : Error}
    (h : (write fs artifact map content mapContent).outcome = .error e) :
    ∃ path cause, e = .artifactWrite path cause ∧
      (path = artifact ∨ artifact.parent? = some path) := by
  have hartifact : (writeArtifact fs artifact content).2 = .error e := by
    unfold write at h
    split at h
    · next hwrite =>
        rw [hwrite, Except.error.inj h]
    · split at h
      · cases h
      · split at h <;> cases h
  unfold writeArtifact at hartifact
  split at hartifact
  · next directory hparent =>
      split at hartifact
      · next made cause _ =>
          exact ⟨directory, cause, (Except.error.inj hartifact).symm, .inr hparent⟩
      · obtain ⟨cause, -, he⟩ := mapError_eq_error hartifact
        exact ⟨artifact, cause, he, .inl rfl⟩
  · obtain ⟨cause, -, he⟩ := mapError_eq_error hartifact
    exact ⟨artifact, cause, he, .inl rfl⟩

/-- A write fails for want of the artifact or of a directory for it, and then no file is
different from before; else the artifact has the content. If the write says that the map was
written, it has what was given for it; else what its path led to it leads to still. No other
file is different, and none is left under a temporary name. -/
theorem write_all_or_nothing (h : Apart fs artifact map) {result : Written}
    (hresult : write fs artifact map content mapContent = result) :
    (∀ p ∈ [artifact, map], result.fs.fileAt? (temporaryAt fs p) = none) ∧
    match result.outcome with
    | .error e =>
        (∃ path cause, e = .artifactWrite path cause ∧
          (path = artifact ∨ artifact.parent? = some path)) ∧
        Leaves fs result.fs []
    | .ok mapWritten =>
        result.fs.readText artifact = .ok content ∧
        if mapWritten then
          (∃ text, mapContent = some text ∧ result.fs.readText map = .ok text) ∧
          Leaves fs result.fs [addressFrom fs.current artifact, addressFrom fs.current map]
        else
          (∀ file, fs.fileFound? map = some file → result.fs.fileFound? map = some file) ∧
          Leaves fs result.fs [addressFrom fs.current artifact] := by
  have hcleared := h.cleared content mapContent
  have hcases := write_cases fs artifact map content mapContent
  rw [hresult] at hcleared hcases
  have hscratch := hcleared artifact (by simp)
  have hmapScratch := hcleared map (by simp)
  refine ⟨hcleared, ?_⟩
  rcases hcases with ⟨⟨e, houtcome⟩, hleaves⟩ | ⟨mid, hartifact, hmap⟩
  · rw [houtcome]
    exact ⟨write_eq_error (hresult ▸ houtcome), hleaves.drop (hscratch.trans h.vacant.symm)⟩
  · obtain ⟨hmid, hread⟩ := hartifact.settled h.vacant
    have hcurrent := hmid.current
    have hvacant : mid.fileAt? (temporaryAt fs map) = none := by
      rw [hmid.files _ (by simpa using h.mapScratch), h.mapVacant]
    rcases hmap with ⟨houtcome, hleaves⟩ | ⟨text, htext, houtcome, hmap⟩
    · have hdone : Leaves mid result.fs [] := hleaves.drop (hmapScratch.trans hvacant.symm)
      have hall : Leaves fs result.fs [addressFrom fs.current artifact] := hmid.trans hdone
      rw [houtcome]
      refine ⟨hdone.readText_of_ok (by simp) hread, ?_⟩
      rw [if_neg Bool.false_ne_true]
      exact ⟨fun file => hall.fileFound?_of_some (by simpa using h.files.symm), hall⟩
    · rw [← temporaryAt_of_leaves hmid] at hvacant
      obtain ⟨hdone, hreadMap⟩ := hmap.settled hvacant
      rw [hcurrent] at hdone
      rw [houtcome]
      refine ⟨hdone.readText_of_ok (by simpa [hcurrent] using h.files) hread, ?_⟩
      rw [if_pos rfl]
      exact ⟨⟨text, htext, hreadMap⟩, hmid.trans hdone⟩

/-- A directory with an artifact, and with a directory where its map should be. -/
def blockedMap : FileSystem where
  nodes := [([], .directory true 0), (["c"], .directory true 0),
    (["c", "a.js"], .file "old".toUTF8 0o644 1), (["c", "a.map"], .directory true 0)]
  current := []
  now := 2
  process := 1

/-- The artifact is replaced there, and nothing else. -/
theorem write_blockedMap :
    ∃ written, written = (write blockedMap ⟨"/c/a.js"⟩ ⟨"/c/a.map"⟩ "new" (some "map")).fs ∧
      written.readText ⟨"/c/a.js"⟩ = .ok "new" ∧ Leaves blockedMap written [["c", "a.js"]] := by
  have hapart : Apart blockedMap ⟨"/c/a.js"⟩ ⟨"/c/a.map"⟩ :=
    ⟨by decide, by decide, by decide, by decide, by decide⟩
  obtain ⟨result, hresult⟩ : ∃ result, write blockedMap ⟨"/c/a.js"⟩ ⟨"/c/a.map"⟩ "new"
      (some "map") = result := ⟨_, rfl⟩
  have houtcome : result.outcome = .ok false := by
    rw [← hresult]
    rfl
  have hall := (write_all_or_nothing hapart hresult).2
  rw [houtcome] at hall
  exact ⟨_, congrArg Written.fs hresult.symm, hall.1, hall.2.2⟩

end Store
end ModuleCache
