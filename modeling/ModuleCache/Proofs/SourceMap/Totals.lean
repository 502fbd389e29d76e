import Mathlib.Algebra.Group.Nat.Defs
import Mathlib.Algebra.Ring.Int.Defs
import ModuleCache.Proofs.Result
import ModuleCache.Proofs.SourceMap.Nearest

/-!
The numbers of a mapping as sums. A column of generated code is the sum of the first numbers of
the segments up to it on its line; every other number of a mapping is the sum of the numbers of its
kind in all segments up to it, on whatever line those stand. The sums are those of unbounded
integers, and the words in a mapping are equal to them.
-/

namespace ModuleCache.SourceMap

/-- A segment that was read. -/
structure Reading where
  line : Nat
  numbers : List Int
  deriving DecidableEq, Repr

/-- The sum of the numbers at a place in segments. One that has no number there adds nothing. -/
def total (i : Nat) (read : List Reading) : Int := (read.map (·.numbers.getD i 0)).sum

/-- The sums behind the segments that were read, on a line. -/
def totals (read : List Reading) (line : Nat) : Sums where
  column := total 0 (read.filter (·.line = line))
  source := total 1 read
  sourceLine := total 2 read
  sourceColumn := total 3 read
  name := total 4 read

/-- The mapping of a segment shows the sums behind it: one number says nothing of an origin, and
four say nothing of a name. -/
structure Mapping.Shows (g : Mapping) (r : Reading) (s : Sums) : Prop where
  line : g.generated.line.toNat = r.line
  column : (g.generated.column.toNat : Int) = s.column
  origin : match g.origin with
    | none => r.numbers.length = 1
    | some origin => (origin.source.toNat : Int) = s.source ∧
        (origin.position.line.toNat : Int) = s.sourceLine ∧
        (origin.position.column.toNat : Int) = s.sourceColumn ∧
        match origin.name with
        | none => r.numbers.length = 4
        | some name => r.numbers.length = 5 ∧ (name.toNat : Int) = s.name

/-- Every segment has its mapping, which shows the sums up to it, those of earlier segments
counted in. -/
def AddsUp (before : List Reading) : List Reading → List Mapping → Prop
  | [], [] => True
  | r :: rest, g :: later =>
    g.Shows r (totals (before ++ [r]) r.line) ∧ AddsUp (before ++ [r]) rest later
  | _, _ => False

theorem AddsUp.append {before read more : List Reading} {mappings later : List Mapping}
    (h : AddsUp before read mappings) (hmore : AddsUp (before ++ read) more later) :
    AddsUp before (read ++ more) (mappings ++ later) := by
  induction read generalizing before mappings with
  | nil =>
      cases mappings with
      | nil => simpa using hmore
      | cons g mappings => exact absurd h id
  | cons r read ih =>
      cases mappings with
      | nil => exact absurd h id
      | cons g mappings =>
          refine ⟨h.1, ih h.2 ?_⟩
          rw [List.append_assoc]
          exact hmore

/-! ### One segment -/

theorem toNat_of_word32? {value : Int} {word : UInt32} (h : word32? value = some word) :
    (word.toNat : Int) = value := by
  unfold word32? at h
  split at h
  · next hrange =>
      rw [← Option.some.inj h, UInt32.toNat_ofNat_of_lt' (by omega)]
      omega
  · cases h

theorem total_concat (i : Nat) (read : List Reading) (r : Reading) :
    total i (read ++ [r]) = total i read + r.numbers.getD i 0 := by
  simp [total]

/-- The sums with the numbers of a segment added. -/
def Sums.add (s : Sums) (numbers : List Int) : Sums where
  column := s.column + numbers.getD 0 0
  source := s.source + numbers.getD 1 0
  sourceLine := s.sourceLine + numbers.getD 2 0
  sourceColumn := s.sourceColumn + numbers.getD 3 0
  name := s.name + numbers.getD 4 0

theorem totals_concat (read : List Reading) (r : Reading) :
    totals (read ++ [r]) r.line = (totals read r.line).add r.numbers := by
  simp only [totals, Sums.add, total_concat, List.filter_append]
  rw [List.filter_cons_of_pos (by simp), List.filter_nil, total_concat]

/-- A segment that is accepted adds its numbers to the sums, and its mapping shows them. -/
theorem advance_eq_some {s s' : Sums} {r : Reading} {g : Mapping} (hline : r.line < 2 ^ 32)
    (h : s.advance (UInt32.ofNat r.line) r.numbers = some (s', g)) :
    s' = s.add r.numbers ∧ g.Shows r s' := by
  obtain ⟨line, numbers⟩ := r
  have hword : (UInt32.ofNat line).toNat = line := UInt32.toNat_ofNat_of_lt' hline
  simp only [Sums.advance, Option.bind_eq_bind, Option.pure_def] at h
  split at h
  · simp only [Option.bind_eq_some_iff, Option.some.injEq, Prod.mk.injEq] at h
    obtain ⟨column, hcolumn, rfl, rfl⟩ := h
    exact ⟨by simp [Sums.add], ⟨hword, toNat_of_word32? hcolumn, rfl⟩⟩
  · simp only [Option.bind_eq_some_iff, Option.some.injEq, Prod.mk.injEq] at h
    obtain ⟨column, hcolumn, source, hsource, sourceLine, hsourceLine, sourceColumn,
      hsourceColumn, rfl, rfl⟩ := h
    exact ⟨by simp [Sums.add], ⟨hword, toNat_of_word32? hcolumn, toNat_of_word32? hsource,
      toNat_of_word32? hsourceLine, toNat_of_word32? hsourceColumn, rfl⟩⟩
  · simp only [Option.bind_eq_some_iff, Option.some.injEq, Prod.mk.injEq] at h
    obtain ⟨column, hcolumn, source, hsource, sourceLine, hsourceLine, sourceColumn,
      hsourceColumn, name, hname, rfl, rfl⟩ := h
    exact ⟨by simp [Sums.add], ⟨hword, toNat_of_word32? hcolumn, toNat_of_word32? hsource,
      toNat_of_word32? hsourceLine, toNat_of_word32? hsourceColumn, rfl,
      toNat_of_word32? hname⟩⟩
  · cases h

/-! ### Whole texts -/

/-- The texts of the segments, each with the number of its line. -/
def textsFrom (first : Nat) (lines : List (List String)) : List (Nat × String) :=
  (lines.zipIdx first).flatMap fun (segments, line) => segments.map (line, ·)

/-- The segments that were read are those of the texts, none left out. -/
def ReadsAll (texts : List (Nat × String)) (read : List Reading) : Prop :=
  texts.map (fun t => (t.1, Vlq.decode t.2)) = read.map fun r => (r.line, .ok r.numbers)

theorem ReadsAll.append {texts more : List (Nat × String)} {read later : List Reading}
    (h : ReadsAll texts read) (hmore : ReadsAll more later) :
    ReadsAll (texts ++ more) (read ++ later) := by
  unfold ReadsAll at *
  rw [List.map_append, List.map_append, h, hmore]

theorem ReadsAll.line_eq {line : Nat} {segments : List String} {read : List Reading}
    (h : ReadsAll (segments.map (line, ·)) read) : ∀ r ∈ read, r.line = line := by
  intro r hr
  have hmem : (r.line, Except.ok r.numbers) ∈
      (segments.map (line, ·)).map fun t => (t.1, Vlq.decode t.2) := by
    rw [h]
    exact List.mem_map_of_mem hr
  simp only [List.map_map, List.mem_map, Function.comp_apply, Prod.mk.injEq] at hmem
  obtain ⟨segment, -, hline, -⟩ := hmem
  exact hline.symm

theorem decodeLine_addsUp {before : List Reading} {line : Nat} {segments : List String} {s : Sums}
    {mappings : List Mapping} (hline : line < 2 ^ 32)
    (h : decodeLine line (totals before line) segments = .ok (s, mappings)) :
    ∃ read, ReadsAll (segments.map (line, ·)) read ∧ s = totals (before ++ read) line ∧
      AddsUp before read mappings := by
  -- the sums at hand are always the totals of what was read, with one more segment at each step
  induction segments generalizing before s mappings with
  | nil =>
      cases h
      exact ⟨[], rfl, by rw [List.append_nil], trivial⟩
  | cons segment segments ih =>
      rw [decodeLine] at h
      cases hread : Vlq.decode segment with
      | error cause => simp [hread] at h
      | ok numbers =>
          simp only [hread] at h
          cases hadvance : (totals before line).advance (UInt32.ofNat line) numbers with
          | none => simp [hadvance] at h
          | some out =>
              obtain ⟨next, g⟩ := out
              simp only [hadvance] at h
              obtain ⟨⟨s', later⟩, hrest, hout⟩ := bind_eq_ok.mp h
              cases hout
              obtain ⟨hnext, hshows⟩ := advance_eq_some (r := ⟨line, numbers⟩) hline hadvance
              have htotals : next = totals (before ++ [⟨line, numbers⟩]) line := by
                rw [hnext]
                exact (totals_concat before ⟨line, numbers⟩).symm
              rw [htotals] at hrest hshows
              obtain ⟨read, hall, hs, hadds⟩ := ih hrest
              have hfirst : ReadsAll [(line, segment)] [⟨line, numbers⟩] := by
                simp [ReadsAll, hread]
              refine ⟨⟨line, numbers⟩ :: read, hfirst.append hall, ?_, hshows, hadds⟩
              rw [hs, List.append_assoc]
              rfl

/-- On a line that nothing was read on yet, the column is zero and the other sums go on. -/
theorem newLine_totals {read : List Reading} {line next : Nat}
    (hread : ∀ r ∈ read, r.line < next) : (totals read line).newLine = totals read next := by
  have hnone : read.filter (·.line = next) = [] := by
    rw [List.filter_eq_nil_iff]
    intro r hr
    simpa using Nat.ne_of_lt (hread r hr)
  simp [totals, Sums.newLine, hnone, total]

theorem decodeLines_addsUp {before : List Reading} {line last : Nat} {lines : List (List String)}
    {mappings : List Mapping} (hlines : line + lines.length ≤ 2 ^ 32)
    (hbefore : ∀ r ∈ before, r.line < line)
    (h : decodeLines line (totals before last) lines = .ok mappings) :
    ∃ read, ReadsAll (textsFrom line lines) read ∧ AddsUp before read mappings := by
  induction lines generalizing before line last mappings with
  | nil =>
      cases h
      exact ⟨[], rfl, trivial⟩
  | cons segments lines ih =>
      rw [List.length_cons] at hlines
      rw [decodeLines, newLine_totals hbefore] at h
      obtain ⟨⟨s, here⟩, hline, h⟩ := bind_eq_ok.mp h
      obtain ⟨later, hrest, hout⟩ := bind_eq_ok.mp h
      cases hout
      obtain ⟨read, hall, rfl, hadds⟩ := decodeLine_addsUp (by omega) hline
      have hread : ∀ r ∈ before ++ read, r.line < line + 1 := by
        intro r hr
        rcases List.mem_append.mp hr with hr | hr
        · exact Nat.lt_succ_of_lt (hbefore r hr)
        · rw [hall.line_eq r hr]
          exact Nat.lt_succ_self line
      obtain ⟨more, hmore, hlater⟩ := ih (by omega) hread hrest
      refine ⟨read ++ more, ?_, hadds.append hlater⟩
      exact hall.append hmore

/-- The mappings of a text show the sums of the numbers in its segments. -/
theorem written_addsUp {m : SourceMap} {mappings : List Mapping}
    (hlines : (segments m.mappings).length < 2 ^ 32) (h : m.written = .ok mappings) :
    ∃ read, ReadsAll (textsFrom 0 (segments m.mappings)) read ∧ AddsUp [] read mappings := by
  have hzero : Sums.zero = totals [] 0 := rfl
  rw [written, hzero] at h
  exact decodeLines_addsUp (by omega) (by simp) h

end ModuleCache.SourceMap
