import ModuleCache.Proofs.Trace.Coordinates

/-!
Chains as searches for the first answer. A retriever declines a frame for one of four reasons:
it has no map for the file, what it has is no source map, the mappings of that cannot be read,
or they do not lead from the place of the frame to a source. All four are passed over alike, so
the retrievers that decline could as well not be there, and the order among the others decides.
One that does not decline may still crash, where it leads to a line or a column that cannot be
counted from one; then nobody else is asked, and a trace with such a frame has no text.
-/

namespace ModuleCache.Trace

/-- The place in generated code that a frame names. Frames are counted from one. -/
def placeOf (frame : Frame) : Position := ⟨zeroBased frame.line, zeroBased frame.column⟩

/-- Why a retriever says nothing about a frame. -/
inductive Retriever.Declines (r : Retriever) (fs : FileSystem) (frame : Frame) : Prop where
  | noMap {notes : Journal} (hretrieve : r.retrieve fs frame.file = .error notes)
  | noSourceMap {own : Retrieved} {e : SourceMap.Error}
      (hretrieve : r.retrieve fs frame.file = .ok own)
      (hmap : SourceMap.ofJson own.map = .error e)
  | noMappings {own : Retrieved} {map : SourceMap} {e : SourceMap.Error}
      (hretrieve : r.retrieve fs frame.file = .ok own)
      (hmap : SourceMap.ofJson own.map = .ok map) (hdecode : map.decode = .error e)
  /-- The mappings give no origin for the place, or one in a source that the map does not have. -/
  | noLocation {own : Retrieved} {map : SourceMap} {mappings : List SourceMap.Mapping}
      (hretrieve : r.retrieve fs frame.file = .ok own)
      (hmap : SourceMap.ofJson own.map = .ok map) (hdecode : map.decode = .ok mappings)
      (hnone : ∀ origin, SourceMap.OriginAt map.mappings (placeOf frame) origin →
        map.sources[origin.source.toNat]? = none)

/-- The retriever has a map for the file of the frame that leads from its place to a source.
That makes `outcome` of the frame: the frame at the place in the source, or a crash if the line
or the column of that is the greatest word. -/
def Retriever.LeadsTo (r : Retriever) (fs : FileSystem) (frame : Frame)
    (outcome : Except Overflow Frame) : Prop :=
  ∃ own map origin source, r.retrieve fs frame.file = .ok own ∧
    SourceMap.ofJson own.map = .ok map ∧
    SourceMap.OriginAt map.mappings (placeOf frame) origin ∧
    map.sources[origin.source.toNat]? = some source ∧
    outcome = frameAt frame.function (sourceFile own.url (map.sourcePath source)) origin.position

theorem Retriever.answer_eq_ok {r : Retriever} {fs : FileSystem} {frame : Frame}
    {outcome : Except Overflow Frame} :
    r.answer fs frame = .ok outcome ↔ r.LeadsTo fs frame outcome := by
  rw [Runtime.answer_eq_ok_iff]
  constructor
  · rintro ⟨own, hretrieve, horiginOf⟩
    obtain ⟨map, location, hmap, hlocation, rfl⟩ := originOf_eq_ok_iff.mp horiginOf
    obtain ⟨origin, source, horigin, hsource, rfl⟩ := SourceMap.lookup_eq_some_iff.mp hlocation
    exact ⟨own, map, origin, source, hretrieve, hmap, horigin, hsource, rfl⟩
  · rintro ⟨own, map, origin, source, hretrieve, hmap, horigin, hsource, rfl⟩
    have hlocation := SourceMap.lookup_eq_some_iff.mpr ⟨origin, source, horigin, hsource, rfl⟩
    exact ⟨own, hretrieve, originOf_eq_ok_iff.mpr ⟨map, _, hmap, hlocation, rfl⟩⟩

/-- A retriever that does not lead a frame anywhere declines it, and only such a one. -/
theorem Retriever.declines_iff {r : Retriever} {fs : FileSystem} {frame : Frame} :
    r.Declines fs frame ↔ ∀ outcome, ¬r.LeadsTo fs frame outcome := by
  constructor
  · rintro h outcome ⟨own, map, origin, source, hretrieve, hmap, horigin, hsource, -⟩
    cases h with
    | noMap hnone =>
        rw [hretrieve] at hnone
        cases hnone
    | noSourceMap hown hnone =>
        obtain rfl := Except.ok.inj (hretrieve.symm.trans hown)
        rw [hmap] at hnone
        cases hnone
    | noMappings hown hread hnone =>
        obtain rfl := Except.ok.inj (hretrieve.symm.trans hown)
        obtain rfl := Except.ok.inj (hmap.symm.trans hread)
        obtain ⟨mappings, mapping, hlines, -, -⟩ := horigin
        rw [SourceMap.decode, hlines] at hnone
        cases hnone
    | noLocation hown hread hdecode hnone =>
        obtain rfl := Except.ok.inj (hretrieve.symm.trans hown)
        obtain rfl := Except.ok.inj (hmap.symm.trans hread)
        rw [hnone origin horigin] at hsource
        cases hsource
  · intro h
    cases hretrieve : r.retrieve fs frame.file with
    | error notes => exact .noMap hretrieve
    | ok own =>
      cases hmap : SourceMap.ofJson own.map with
      | error e => exact .noSourceMap hretrieve hmap
      | ok map =>
        cases hdecode : map.decode with
        | error e => exact .noMappings hretrieve hmap hdecode
        | ok mappings =>
          refine .noLocation hretrieve hmap hdecode fun origin horigin => ?_
          cases hsource : map.sources[origin.source.toNat]? with
          | none => rfl
          | some source =>
              exact absurd ⟨own, map, origin, source, hretrieve, hmap, horigin, hsource, rfl⟩ (h _)

theorem Retriever.answer_eq_none {r : Retriever} {fs : FileSystem} {frame : Frame} :
    (r.answer fs frame).toOption = none ↔ r.Declines fs frame := by
  rw [declines_iff, Option.eq_none_iff_forall_ne_some]
  simp only [ne_eq, toOption_eq_some, answer_eq_ok]

instance (r : Retriever) (fs : FileSystem) (frame : Frame) : Decidable (r.Declines fs frame) :=
  decidable_of_iff _ Retriever.answer_eq_none

namespace Chain

/-- The retrievers that say something about a frame, in order. -/
def answering (c : Chain) (fs : FileSystem) (frame : Frame) : List Retriever :=
  c.retrievers.filter (¬·.Declines fs frame)

/-- Those that decline take no part in a look-up. -/
theorem lookup_eq_answering (c : Chain) (fs : FileSystem) (frame : Frame) :
    c.lookup fs frame =
      (c.answering fs frame).findSome? fun r => (r.answer fs frame).toOption := by
  unfold lookup answering
  induction c.retrievers with
  | nil => rfl
  | cons r later ih =>
      by_cases hdeclines : r.Declines fs frame
      · rw [List.findSome?_cons, Retriever.answer_eq_none.mpr hdeclines, ih,
          List.filter_cons_of_neg (by simpa using hdeclines)]
      · rw [List.findSome?_cons, ih, List.filter_cons_of_pos (by simpa using hdeclines),
          List.findSome?_cons]

theorem formatTrace_eq (c : Chain) (fs : FileSystem) (message : String) (frames : List Frame) :
    c.formatTrace fs message frames =
      (frames.mapM (c.originOrSelf fs)).map fun origins =>
        message ++ String.join (origins.map fun origin => "\n    " ++ origin.render) := by
  unfold formatTrace
  induction frames generalizing message with
  | nil => simp [pure, Except.pure, Except.map]
  | cons frame later ih =>
      rw [List.foldlM_cons, List.mapM_cons]
      cases c.originOrSelf fs frame with
      | error e => rfl
      | ok origin =>
          change List.foldlM _ (message ++ "\n    " ++ origin.render) later = _
          rw [ih]
          cases hlater : later.mapM (c.originOrSelf fs) with
          | error e => rfl
          | ok origins =>
              simp [bind, Except.bind, pure, Except.pure, Except.map, String.append_assoc]

/-- What a chain makes of a frame is decided by the first retriever that does not decline. -/
structure DecidedByFirst (c : Chain) (fs : FileSystem) (frame : Frame) : Prop where
  found : ∀ outcome, c.lookup fs frame = some outcome ↔
    ∃ before r after, c.retrievers = before ++ r :: after ∧
      (∀ earlier ∈ before, earlier.Declines fs frame) ∧ r.LeadsTo fs frame outcome
  nothing : c.lookup fs frame = none ↔ ∀ r ∈ c.retrievers, r.Declines fs frame
  translated : ∀ outcome, c.lookup fs frame = some outcome → c.originOrSelf fs frame = outcome
  untouched : (∀ r ∈ c.retrievers, r.Declines fs frame) → c.originOrSelf fs frame = .ok frame
  /-- Retrievers that decline can be put in anywhere, left out and moved about. -/
  decliners : ∀ other : Chain, other.answering fs frame = c.answering fs frame →
    other.lookup fs frame = c.lookup fs frame ∧
      other.originOrSelf fs frame = c.originOrSelf fs frame

/-- Every frame is decided by the first retriever that does not decline it, and in a trace the
frames come out in their order, each as it does alone, unless one of them crashes. -/
theorem first_answer_decides (c : Chain) (fs : FileSystem) :
    (∀ frame, c.DecidedByFirst fs frame) ∧
      ∀ message frames, c.formatTrace fs message frames =
        (frames.mapM (c.originOrSelf fs)).map fun origins =>
          message ++ String.join (origins.map fun origin => "\n    " ++ origin.render) := by
  refine ⟨fun frame => ?_, c.formatTrace_eq fs⟩
  have hnothing : c.lookup fs frame = none ↔ ∀ r ∈ c.retrievers, r.Declines fs frame := by
    unfold lookup
    rw [List.findSome?_eq_none_iff]
    simp only [Retriever.answer_eq_none]
  constructor
  case found =>
    intro outcome
    unfold lookup
    rw [List.findSome?_eq_some_iff]
    simp only [Retriever.answer_eq_none, toOption_eq_some, Retriever.answer_eq_ok]
    constructor
    · rintro ⟨before, r, after, hretrievers, hleads, hdecline⟩
      exact ⟨before, r, after, hretrievers, hdecline, hleads⟩
    · rintro ⟨before, r, after, hretrievers, hdecline, hleads⟩
      exact ⟨before, r, after, hretrievers, hleads, hdecline⟩
  case nothing => exact hnothing
  case translated =>
    intro outcome h
    rw [originOrSelf, h]
    rfl
  case untouched =>
    intro h
    rw [originOrSelf, hnothing.mpr h]
    rfl
  case decliners =>
    intro other h
    have hlookup : other.lookup fs frame = c.lookup fs frame := by
      rw [lookup_eq_answering, h, ← lookup_eq_answering]
    exact ⟨hlookup, by rw [originOrSelf, hlookup, originOrSelf]⟩

/-- A retriever that has one text for every file. -/
def ofText (id text : String) : Retriever where
  id
  retrieve _ file := .ok ⟨file, text⟩

/-- A map with one source, or none, and the given mappings. -/
def smallMap (sources : List String) (mappings : String) : SourceMap :=
  ⟨none, none, sources, none, [], mappings⟩

-- Three retrievers that decline, each for a reason of its own, and one that does not.

def broken : Retriever := ofText "broken" "\x7b"

def garbled : Retriever := ofText "garbled" (smallMap ["a.coffee"] "!").toJson

def sourceless : Retriever := ofText "sourceless" (smallMap [] "AAAA").toJson

def usable : Retriever := ofText "usable" (smallMap ["a.coffee"] "AAAA").toJson

/-- Whether they stand in front of it or behind it, the retrievers that decline leave the frame
to the one that does not. -/
theorem unusable_maps_passed_over :
    let frame : Frame := ⟨some "f", ⟨"/app/a.js"⟩, 1, 5⟩
    let found : Frame := ⟨some "f", ⟨"/app/a.coffee"⟩, 1, 1⟩
    lookup ⟨[broken, garbled, sourceless, usable], []⟩ ⟨[], [], 0, 0⟩ frame = some (.ok found) ∧
      lookup ⟨[garbled, usable, broken], ["sourceless"]⟩ ⟨[], [], 0, 0⟩ frame =
        some (.ok found) := by
  intro frame found
  have hbroken : broken.Declines ⟨[], [], 0, 0⟩ frame := by
    have hnone : (SourceMap.ofJson "\x7b").toOption = none := by decide +kernel
    cases hread : SourceMap.ofJson "\x7b" with
    | error e => exact .noSourceMap rfl hread
    | ok map =>
        rw [hread] at hnone
        cases hnone
  have hgarbled : garbled.Declines ⟨[], [], 0, 0⟩ frame :=
    .noMappings rfl (SourceMap.ofJson_toJson _) (by rfl)
  have hsourceless : sourceless.Declines ⟨[], [], 0, 0⟩ frame :=
    .noLocation rfl (SourceMap.ofJson_toJson _) (by rfl) fun _ _ => rfl
  have hplace : placeOf frame = ⟨0, 4⟩ := by decide
  have horigin : SourceMap.OriginAt "AAAA" ⟨0, 4⟩ ⟨0, ⟨0, 0⟩, none⟩ :=
    ⟨[⟨⟨0, 0⟩, some ⟨0, ⟨0, 0⟩, none⟩⟩], ⟨⟨0, 0⟩, some ⟨0, ⟨0, 0⟩, none⟩⟩,
      by rfl, ⟨rfl, by decide, by simp, rfl⟩, rfl⟩
  have husable : usable.LeadsTo ⟨[], [], 0, 0⟩ frame (.ok found) :=
    ⟨_, _, _, "a.coffee", rfl, SourceMap.ofJson_toJson _, hplace ▸ horigin, rfl,
      (frameAt_eq_ok.mpr ⟨rfl, by decide, by decide, by decide⟩).symm⟩
  have hanswers : ¬usable.Declines ⟨[], [], 0, 0⟩ frame := fun h =>
    Retriever.declines_iff.mp h _ husable
  have hdecided :=
    (first_answer_decides ⟨[broken, garbled, sourceless, usable], []⟩ ⟨[], [], 0, 0⟩).1 frame
  have hlookup := (hdecided.found _).mpr
    ⟨[broken, garbled, sourceless], usable, [], rfl, by simp [hbroken, hgarbled, hsourceless],
      husable⟩
  refine ⟨hlookup, ?_⟩
  rw [← hlookup]
  refine (hdecided.decliners _ ?_).1
  simp [answering, hbroken, hgarbled, hsourceless, hanswers]

/-- A retriever that does not decline and finds no frame: it crashes, and in a trace the text for
the other frame is lost with that. -/
theorem crash_takes_trace_along :
    let chain : Chain := ⟨[lastLineRetriever], []⟩
    let frame : Frame := ⟨none, ⟨"/app/a.coffee"⟩, 1, 1⟩
    ¬lastLineRetriever.Declines ⟨[], [], 0, 0⟩ frame ∧
      (∀ found, chain.lookup ⟨[], [], 0, 0⟩ frame ≠ some (.ok found)) ∧
      chain.originOrSelf ⟨[], [], 0, 0⟩ ⟨none, ⟨"/app/b.coffee"⟩, 3, 4⟩ =
        .ok ⟨none, ⟨"/app/b.coffee"⟩, 3, 4⟩ ∧
      ∀ text, chain.formatTrace ⟨[], [], 0, 0⟩ "crash" [⟨none, ⟨"/app/b.coffee"⟩, 3, 4⟩, frame] ≠
        .ok text := by
  intro chain frame
  have hcrash : chain.lookup ⟨[], [], 0, 0⟩ frame = some (.error {}) :=
    (Runtime.lookup_single (c := chain) rfl).mpr answer_lastLineRetriever
  have hself : chain.originOrSelf ⟨[], [], 0, 0⟩ frame = .error {} := by
    rw [originOrSelf, hcrash]
    rfl
  have hother : chain.originOrSelf ⟨[], [], 0, 0⟩ ⟨none, ⟨"/app/b.coffee"⟩, 3, 4⟩ =
      .ok ⟨none, ⟨"/app/b.coffee"⟩, 3, 4⟩ := by
    have hnoMap : lastLineRetriever.retrieve ⟨[], [], 0, 0⟩ ⟨"/app/b.coffee"⟩ = .error [] := by
      simp [lastLineRetriever]
    have hdeclines : lastLineRetriever.Declines ⟨[], [], 0, 0⟩ ⟨none, ⟨"/app/b.coffee"⟩, 3, 4⟩ :=
      .noMap hnoMap
    have hnone : chain.lookup ⟨[], [], 0, 0⟩ ⟨none, ⟨"/app/b.coffee"⟩, 3, 4⟩ = none := by
      rw [lookup, List.findSome?_singleton, Retriever.answer_eq_none.mpr hdeclines]
    rw [originOrSelf, hnone]
    rfl
  refine ⟨?_, ?_, hother, ?_⟩
  · intro hdeclines
    have hnone := Retriever.answer_eq_none.mpr hdeclines
    rw [answer_lastLineRetriever] at hnone
    cases hnone
  · intro found hfound
    rw [hcrash] at hfound
    cases hfound
  · intro text htext
    rw [formatTrace_eq, List.mapM_cons, hother, List.mapM_cons, hself] at htext
    cases htext

end Chain
end ModuleCache.Trace
