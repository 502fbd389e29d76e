import ModuleCache.Proofs.SourceMap.Json
import ModuleCache.Proofs.SourceMap.Lookup
import ModuleCache.Proofs.Trace.Chain

/-!
The lines and columns of frames that were led back. Frames are counted from one and source
maps from zero, so a frame goes in as one less and comes out as one more. On the way in zero
stays zero. On the way out one more than the greatest word is no word: the mappings of a map
can lead to that word as to any other, and then there is no frame but a crash.
-/

namespace ModuleCache.Trace

theorem zeroBased_of_ne_zero {n : UInt32} (h : n ≠ 0) : zeroBased n = n - 1 := if_neg h

theorem toNat_zeroBased (n : UInt32) : (zeroBased n).toNat = n.toNat - 1 := by
  by_cases h : n = 0
  · rw [h]
    rfl
  · have hpositive : 1 ≤ n := by grind
    rw [zeroBased_of_ne_zero h, UInt32.toNat_sub_of_le _ _ hpositive]
    rfl

/-- The line and the column of a place that is counted from zero are words when they are counted
from one. -/
def IsNumbered (position : Position) : Prop :=
  position.line.toNat + 1 < UInt32.size ∧ position.column.toNat + 1 < UInt32.size

instance (position : Position) : Decidable (IsNumbered position) :=
  inferInstanceAs (Decidable (_ ∧ _))

theorem oneBased_eq_ok {n one : UInt32} : oneBased n = .ok one ↔ one.toNat = n.toNat + 1 := by
  unfold oneBased
  by_cases h : n.toNat + 1 < UInt32.size
  · have hmore : (n + 1).toNat = n.toNat + 1 := by
      rw [UInt32.toNat_add]
      exact Nat.mod_eq_of_lt h
    rw [if_pos h, Except.ok.injEq, ← UInt32.toNat_inj, hmore, eq_comm]
  · rw [if_neg h]
    constructor
    · intro hone
      cases hone
    · intro hone
      exact absurd (hone ▸ one.toNat_lt) h

theorem exists_oneBased {n : UInt32} :
    (∃ one, oneBased n = .ok one) ↔ n.toNat + 1 < UInt32.size := by
  simp only [oneBased_eq_ok]
  constructor
  · rintro ⟨one, hone⟩
    rw [← hone]
    exact one.toNat_lt
  · intro h
    exact ⟨UInt32.ofNat (n.toNat + 1), UInt32.toNat_ofNat_of_lt' h⟩

theorem frameAt_eq_ok {function : Option String} {file : Path} {position : Position}
    {found : Frame} :
    frameAt function file position = .ok found ↔
      found.function = function ∧ found.file = file ∧
        found.line.toNat = position.line.toNat + 1 ∧
        found.column.toNat = position.column.toNat + 1 := by
  unfold frameAt
  simp only [bind_eq_ok, pure_eq_ok, oneBased_eq_ok]
  constructor
  · rintro ⟨line, hline, column, hcolumn, rfl⟩
    exact ⟨rfl, rfl, hline, hcolumn⟩
  · rintro ⟨rfl, rfl, hline, hcolumn⟩
    exact ⟨_, hline, _, hcolumn, rfl⟩

theorem exists_frameAt {function : Option String} {file : Path} {position : Position} :
    (∃ found, frameAt function file position = .ok found) ↔ IsNumbered position := by
  unfold frameAt IsNumbered
  simp only [bind_eq_ok, pure_eq_ok, ← exists_oneBased]
  constructor
  · rintro ⟨-, line, hline, column, hcolumn, -⟩
    exact ⟨⟨line, hline⟩, ⟨column, hcolumn⟩⟩
  · rintro ⟨⟨line, hline⟩, ⟨column, hcolumn⟩⟩
    exact ⟨_, line, hline, column, hcolumn, rfl⟩

/-- The outcome is a frame at the place, the line and the column of which are counted from
zero and those of the frame from one, or a crash where one of them is the greatest word. -/
structure CountedFromOne (position : Position) (outcome : Except Overflow Frame) : Prop where
  exact : ∀ found, outcome = .ok found →
    found.line.toNat = position.line.toNat + 1 ∧ found.column.toNat = position.column.toNat + 1
  found_iff : (∃ found, outcome = .ok found) ↔ IsNumbered position

theorem countedFromOne_frameAt (function : Option String) (file : Path) (position : Position) :
    CountedFromOne position (frameAt function file position) where
  exact := fun _ h => (frameAt_eq_ok.mp h).2.2
  found_iff := exists_frameAt

/-- What a found map says about a frame. -/
theorem originOf_eq_ok_iff {frame : Frame} {found : Except Overflow Frame} {own : Retrieved} :
    originOf frame own = .ok (some found) ↔
      ∃ map location, SourceMap.ofJson own.map = .ok map ∧
        map.lookup ⟨zeroBased frame.line, zeroBased frame.column⟩ = .ok (some location) ∧
        found = frameAt frame.function (sourceFile own.url location.source)
          location.position := by
  unfold originOf
  rw [bind_eq_ok]
  constructor
  · rintro ⟨map, hmap, h⟩
    obtain ⟨answer, hanswer, h⟩ := bind_eq_ok.mp h
    obtain ⟨location, rfl, hfound⟩ := Option.map_eq_some_iff.mp (pure_eq_ok.mp h)
    exact ⟨map, location, hmap, hanswer, hfound.symm⟩
  · rintro ⟨map, location, hmap, hlocation, rfl⟩
    exact ⟨map, hmap, bind_eq_ok.mpr ⟨_, hlocation, rfl⟩⟩

theorem originOf_toJson {frame : Frame} {found : Except Overflow Frame} {url : Path}
    {m : SourceMap} :
    originOf frame ⟨url, m.toJson⟩ = .ok (some found) ↔
      ∃ location, m.lookup ⟨zeroBased frame.line, zeroBased frame.column⟩ = .ok (some location) ∧
        found = frameAt frame.function (sourceFile url location.source) location.position := by
  rw [originOf_eq_ok_iff]
  simp [SourceMap.ofJson_toJson]

theorem Chain.exists_of_lookup {c : Chain} {fs : FileSystem} {frame : Frame}
    {outcome : Except Overflow Frame} (h : c.lookup fs frame = some outcome) :
    ∃ r ∈ c.retrievers, ∃ own, r.retrieve fs frame.file = .ok own ∧
      originOf frame own = .ok (some outcome) := by
  obtain ⟨r, hr, hanswer⟩ := List.exists_of_findSome?_eq_some h
  exact ⟨r, hr, Runtime.answer_eq_ok_iff.mp (toOption_eq_some.mp hanswer)⟩

/-- What a look-up comes to, if anybody knows where the frame comes from, is said by a map that
one of the retrievers has for the file. The mappings of that lead from the frame's line and
column, each less one if it is not 0, to an origin. If the line and the column of the origin are
not the greatest word, a frame is found, and its line and column are one more than those; else
the look-up crashes. -/
theorem Chain.coordinates_of_lookup {c : Chain} {fs : FileSystem} {frame : Frame}
    {outcome : Except Overflow Frame} (h : c.lookup fs frame = some outcome) :
    ∃ r ∈ c.retrievers, ∃ own map place origin,
      r.retrieve fs frame.file = .ok own ∧ SourceMap.ofJson own.map = .ok map ∧
      place.line.toNat = frame.line.toNat - 1 ∧ place.column.toNat = frame.column.toNat - 1 ∧
      SourceMap.OriginAt map.mappings place origin ∧
      CountedFromOne origin.position outcome := by
  obtain ⟨r, hr, own, hretrieve, horiginOf⟩ := Chain.exists_of_lookup h
  obtain ⟨map, location, hmap, hlocation, rfl⟩ := originOf_eq_ok_iff.mp horiginOf
  obtain ⟨origin, source, horigin, -, rfl⟩ := SourceMap.lookup_eq_some_iff.mp hlocation
  exact ⟨r, hr, own, map, _, origin, hretrieve, hmap, toNat_zeroBased _, toNat_zeroBased _,
    horigin, countedFromOne_frameAt _ _ _⟩

/-- A map that leads from the first place of the generated code to the last line there is. -/
def lastLineMap : SourceMap where
  file := none
  sourceRoot := none
  sources := ["a.coffee"]
  sourcesContent := none
  names := []
  mappings := "AA+/////HM"

/-- A retriever that has that map for one file, and for no other. -/
def lastLineRetriever : Retriever where
  id := "last-line"
  retrieve _ file := if file = ⟨"/app/a.coffee"⟩ then .ok ⟨file, lastLineMap.toJson⟩ else .error []

theorem retrieve_lastLineRetriever :
    lastLineRetriever.retrieve ⟨[], [], 0, 0⟩ ⟨"/app/a.coffee"⟩ =
      .ok ⟨⟨"/app/a.coffee"⟩, lastLineMap.toJson⟩ := by
  simp [lastLineRetriever]

theorem originAt_lastLineMap :
    SourceMap.OriginAt lastLineMap.mappings ⟨0, 0⟩ ⟨0, ⟨4294967295, 6⟩, none⟩ :=
  ⟨[⟨⟨0, 0⟩, some ⟨0, ⟨4294967295, 6⟩, none⟩⟩], ⟨⟨0, 0⟩, some ⟨0, ⟨4294967295, 6⟩, none⟩⟩,
    by rfl, ⟨rfl, by decide, by simp, rfl⟩, rfl⟩

theorem answer_lastLineRetriever :
    lastLineRetriever.answer ⟨[], [], 0, 0⟩ ⟨none, ⟨"/app/a.coffee"⟩, 1, 1⟩ = .ok (.error {}) :=
  Runtime.answer_eq_ok_iff.mpr ⟨_, retrieve_lastLineRetriever, originOf_toJson.mpr
    ⟨_, SourceMap.lookup_eq_some_iff.mpr ⟨_, _, originAt_lastLineMap, rfl, rfl⟩, by rfl⟩⟩

/-- Where that map leads a frame to the last line, the look-up crashes. -/
theorem Chain.last_line_crashes :
    ∃ origin,
      Chain.lookup ⟨[lastLineRetriever], []⟩ ⟨[], [], 0, 0⟩ ⟨none, ⟨"/app/a.coffee"⟩, 1, 1⟩ =
        some (.error {}) ∧
      SourceMap.OriginAt lastLineMap.mappings ⟨0, 0⟩ origin ∧
      origin.position.line.toNat + 1 = UInt32.size ∧ ¬IsNumbered origin.position := by
  have hcrash := (Runtime.lookup_single (c := ⟨[lastLineRetriever], []⟩) rfl).mpr
    answer_lastLineRetriever
  obtain ⟨r, hr, own, map, ⟨line, column⟩, origin, hown, hmap, hline, hcolumn, horigin,
    hcounted⟩ := coordinates_of_lookup hcrash
  obtain rfl := List.mem_singleton.mp hr
  obtain rfl := Except.ok.inj (retrieve_lastLineRetriever.symm.trans hown)
  obtain rfl := Except.ok.inj ((SourceMap.ofJson_toJson lastLineMap).symm.trans hmap)
  obtain rfl : line = 0 := UInt32.toNat_inj.mp hline
  obtain rfl : column = 0 := UInt32.toNat_inj.mp hcolumn
  obtain rfl := horigin.unique originAt_lastLineMap
  refine ⟨_, hcrash, originAt_lastLineMap, by decide, fun hnumbered => ?_⟩
  obtain ⟨found, hfound⟩ := hcounted.found_iff.mpr hnumbered
  cases hfound

end ModuleCache.Trace
