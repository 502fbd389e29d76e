import ModuleCache.Proofs.Result
import ModuleCache.Runtime

/-!
The chain of a loader. It holds the retriever that reads the maps of artifacts and no
other, so what it says is what that retriever says.
-/

namespace ModuleCache.Runtime

open Trace

theorem retrievers_chainFor (l : Layout) : (chainFor l).retrievers = [cacheRetriever l] := rfl

theorem retrieve_cacheRetriever {l : Layout} {fs : FileSystem} {p : Path} {found : Retrieved} :
    (cacheRetriever l).retrieve fs p = .ok found ↔
      l.extensions.isTracked p = true ∧ fs.readText (l.place p).map = .ok found.map ∧
        found.url = p := by
  unfold cacheRetriever readMap
  dsimp only
  split
  · next htracked =>
      cases hread : fs.readText (l.place p).map with
      | error cause =>
          constructor
          · intro h
            cases h
          · rintro ⟨-, htext, -⟩
            cases htext
      | ok text =>
          constructor
          · intro h
            rw [← Except.ok.inj h]
            exact ⟨htracked, rfl, rfl⟩
          · rintro ⟨-, htext, hurl⟩
            rw [← hurl, Except.ok.inj htext]
            rfl
  · next huntracked => simp [huntracked]

/-- The chain finds a map for a tracked file, and then the text in the place of its map. -/
theorem retrieve_chainFor {l : Layout} {fs : FileSystem} {p : Path} {found : Retrieved} :
    (chainFor l).retrieve fs p = some found ↔
      l.extensions.isTracked p = true ∧ fs.readText (l.place p).map = .ok found.map ∧
        found.url = p := by
  rw [← retrieve_cacheRetriever, Chain.retrieve, retrievers_chainFor, List.findSome?_singleton,
    toOption_eq_some]

theorem answer_eq_ok_iff {r : Retriever} {fs : FileSystem} {frame : Frame}
    {found : Except Overflow Frame} :
    r.answer fs frame = .ok found ↔
      ∃ own, r.retrieve fs frame.file = .ok own ∧ originOf frame own = .ok (some found) := by
  unfold Retriever.answer
  rw [bind_eq_ok]
  constructor
  · rintro ⟨own, hretrieve, h⟩
    refine ⟨own, hretrieve, ?_⟩
    split at h
    · next origin horigin => rw [horigin, pure_eq_ok.mp h]
    · exact absurd h throw_ne_ok
    · exact absurd h throw_ne_ok
  · rintro ⟨own, hretrieve, horigin⟩
    refine ⟨own, hretrieve, ?_⟩
    rw [horigin]
    rfl

/-- A chain with one retriever says what that one says. -/
theorem lookup_single {c : Chain} {r : Retriever} (h : c.retrievers = [r]) {fs : FileSystem}
    {frame : Frame} {found : Except Overflow Frame} :
    c.lookup fs frame = some found ↔ r.answer fs frame = .ok found := by
  rw [Chain.lookup, h, List.findSome?_singleton, toOption_eq_some]

end ModuleCache.Runtime
