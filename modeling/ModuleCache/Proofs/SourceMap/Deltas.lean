import ModuleCache.Proofs.SourceMap.Lookup
import ModuleCache.Proofs.Text.Split
import ModuleCache.Proofs.Vlq

/-!
Mappings written as differences. Segments that give their numbers in full, line by line, are
turned into the compact form: a number is replaced by its difference to the last one of its
kind, where the generated column starts anew on every line and the other numbers do not.
Main statement: the text written so is read back as the same segments, in the order of
their generated places.
-/

namespace ModuleCache.SourceMap

/-- A segment of a generated line with its numbers given in full. -/
structure Segment where
  column : UInt32
  origin : Option Origin
  deriving DecidableEq, Repr

namespace Segment

/-- The mapping that a segment gives on a line. Lines are counted in 32 bits. -/
def on (line : Nat) (g : Segment) : Mapping := ⟨⟨UInt32.ofNat line, g.column⟩, g.origin⟩

/-- The differences to the numbers that came last. A name is given last, if there is one. -/
def differences (last : Sums) (g : Segment) : List Int :=
  (g.column.toNat - last.column) ::
    match g.origin with
    | none => []
    | some origin =>
      [origin.source.toNat - last.source, origin.position.line.toNat - last.sourceLine,
        origin.position.column.toNat - last.sourceColumn] ++
      match origin.name with
      | none => []
      | some name => [name.toNat - last.name]

/-- The numbers that came last, once a segment is written. What it does not give stays. -/
def replace (last : Sums) (g : Segment) : Sums :=
  match g.origin with
  | none => { last with column := g.column.toNat }
  | some origin =>
    { column := g.column.toNat
      source := origin.source.toNat
      sourceLine := origin.position.line.toNat
      sourceColumn := origin.position.column.toNat
      name := (origin.name.map fun name => (name.toNat : Int)).getD last.name }

end Segment

/-- Writes the segments of a line, some of which may be empty, and gives the numbers that
came last. -/
def writeLine (last : Sums) : List (Option Segment) → Sums × List String
  | [] => (last, [])
  | none :: rest =>
    let (last, texts) := writeLine last rest
    (last, "" :: texts)
  | some segment :: rest =>
    let text := Vlq.encode (segment.differences last)
    let (last, texts) := writeLine (segment.replace last) rest
    (last, text :: texts)

def writeLines (last : Sums) : List (List (Option Segment)) → List (List String)
  | [] => []
  | line :: rest =>
    let (last, texts) := writeLine last.newLine line
    texts :: writeLines last rest

def joinLine (texts : List String) : List Char := Text.join ',' (texts.map String.toList)

/-- The text of the mappings: the lines with semicolons between them. -/
def writeMappings (lines : List (List (Option Segment))) : String :=
  String.ofList (Text.join ';' ((writeLines .zero lines).map joinLine))

def mappingsOn (line : Nat) (segments : List (Option Segment)) : List Mapping :=
  segments.filterMap (·.map (·.on line))

/-- The mappings of all segments of the lines from the given one on, in the order in which
they are written. -/
def mappingsFrom (first : Nat) (lines : List (List (Option Segment))) : List Mapping :=
  (lines.zipIdx first).flatMap fun (segments, line) => mappingsOn line segments

theorem word32?_toNat (word : UInt32) : word32? (word.toNat : Int) = some word := by
  have hsize := word.toNat_lt_size
  unfold word32?
  rw [if_pos (by omega)]
  simp

/-- What the differences add up to are the numbers of the segment. -/
theorem advance_differences (last : Sums) (line : Nat) (g : Segment) :
    last.advance (UInt32.ofNat line) (g.differences last) = some (g.replace last, g.on line) := by
  obtain ⟨column, origin⟩ := g
  have hsum : ∀ (past : Int) (word : UInt32), past + (word.toNat - past) = word.toNat := by
    intro past word
    omega
  cases origin with
  | none =>
      simp [Segment.differences, Segment.replace, Segment.on, Sums.advance, hsum, word32?_toNat]
  | some origin =>
      obtain ⟨source, ⟨sourceLine, sourceColumn⟩, name⟩ := origin
      cases name <;>
        simp [Segment.differences, Segment.replace, Segment.on, Sums.advance, hsum, word32?_toNat]

/-- Numbers that words of 32 bits can hold. -/
def Sums.Fits (s : Sums) : Prop :=
  ∀ value ∈ [s.column, s.source, s.sourceLine, s.sourceColumn, s.name],
    0 ≤ value ∧ value ≤ Vlq.maxMagnitude

theorem Sums.fits_zero : Sums.zero.Fits := by
  simp [Sums.Fits, Sums.zero]

theorem Sums.Fits.newLine {s : Sums} (h : s.Fits) : s.newLine.Fits := by
  simp only [Sums.Fits, Sums.newLine, List.forall_mem_cons] at h ⊢
  exact ⟨⟨by omega, by omega⟩, h.2⟩

theorem toNat_le_maxMagnitude (word : UInt32) :
    0 ≤ (word.toNat : Int) ∧ (word.toNat : Int) ≤ Vlq.maxMagnitude := by
  have hsize := word.toNat_lt_size
  unfold Vlq.maxMagnitude
  omega

theorem Sums.Fits.replace {last : Sums} (h : last.Fits) (g : Segment) : (g.replace last).Fits := by
  simp only [Sums.Fits, List.forall_mem_cons] at h ⊢
  obtain ⟨-, hsource, hline, hcolumn, hname, hnil⟩ := h
  obtain ⟨column, origin⟩ := g
  cases origin with
  | none => exact ⟨toNat_le_maxMagnitude column, hsource, hline, hcolumn, hname, hnil⟩
  | some origin =>
      obtain ⟨source, position, name⟩ := origin
      refine ⟨toNat_le_maxMagnitude column, toNat_le_maxMagnitude source,
        toNat_le_maxMagnitude position.line, toNat_le_maxMagnitude position.column, ?_, hnil⟩
      cases name with
      | none => exact hname
      | some name => exact toNat_le_maxMagnitude name

theorem natAbs_sub_le {past : Int} (hpast : 0 ≤ past ∧ past ≤ Vlq.maxMagnitude) (word : UInt32) :
    ((word.toNat : Int) - past).natAbs ≤ Vlq.maxMagnitude := by
  have hword := toNat_le_maxMagnitude word
  omega

theorem natAbs_differences_le {last : Sums} (h : last.Fits) (g : Segment) :
    ∀ value ∈ g.differences last, value.natAbs ≤ Vlq.maxMagnitude := by
  simp only [Sums.Fits, List.forall_mem_cons] at h
  obtain ⟨hgenerated, hsource, hline, hcolumn, hname, -⟩ := h
  obtain ⟨column, origin⟩ := g
  cases origin with
  | none => simp [Segment.differences, natAbs_sub_le hgenerated]
  | some origin =>
      obtain ⟨source, ⟨sourceLine, sourceColumn⟩, name⟩ := origin
      cases name <;>
        simp [Segment.differences, natAbs_sub_le hgenerated, natAbs_sub_le hsource,
          natAbs_sub_le hline, natAbs_sub_le hcolumn, natAbs_sub_le hname]

/-- A line that is written is read back, and leaves the same numbers behind. -/
theorem decodeLine_writeLine {last : Sums} (h : last.Fits) (line : Nat)
    (segments : List (Option Segment)) :
    (writeLine last segments).1.Fits ∧
      decodeLine line last ((writeLine last segments).2.filter (· ≠ "")) =
        .ok ((writeLine last segments).1, mappingsOn line segments) := by
  induction segments generalizing last with
  | nil => exact ⟨h, rfl⟩
  | cons segment rest ih =>
      cases segment with
      | none => exact ih h
      | some g =>
          obtain ⟨hfits, hrest⟩ := ih (h.replace g)
          have hne : Vlq.encode (g.differences last) ≠ "" := by
            intro hempty
            exact Vlq.encode_cons_ne_nil _ _ (congrArg String.toList hempty)
          refine ⟨hfits, ?_⟩
          simp only [writeLine]
          rw [List.filter_cons_of_pos (by simpa using hne), decodeLine,
            Vlq.decode_encode (natAbs_differences_le h g)]
          simp only [advance_differences]
          rw [hrest]
          rfl

theorem decodeLines_writeLines {last : Sums} (h : last.Fits) (first : Nat)
    (lines : List (List (Option Segment))) :
    decodeLines first last ((writeLines last lines).map (·.filter (· ≠ ""))) =
      .ok (mappingsFrom first lines) := by
  induction lines generalizing last first with
  | nil => rfl
  | cons line rest ih =>
      obtain ⟨hfits, hline⟩ := decodeLine_writeLine h.newLine first line
      simp only [writeLines, List.map_cons, decodeLines]
      rw [hline]
      change (decodeLines (first + 1) _ _ >>= _) = _
      rw [ih hfits]
      rfl

theorem not_mem_writeLine {c : Char} (hc : c ∉ Vlq.alphabet) (last : Sums)
    (segments : List (Option Segment)) : ∀ text ∈ (writeLine last segments).2, c ∉ text.toList := by
  induction segments generalizing last with
  | nil => simp [writeLine]
  | cons segment rest ih =>
      cases segment with
      | none => simpa [writeLine] using ih last
      | some g =>
          simp only [writeLine, List.forall_mem_cons]
          refine ⟨?_, ih _⟩
          intro hmem
          exact hc (Vlq.mem_alphabet_of_mem_encode hmem)

theorem not_mem_writeLines {c : Char} (hc : c ∉ Vlq.alphabet) (last : Sums)
    (lines : List (List (Option Segment))) :
    ∀ texts ∈ writeLines last lines, ∀ text ∈ texts, c ∉ text.toList := by
  induction lines generalizing last with
  | nil => simp [writeLines]
  | cons line rest ih =>
      simp only [writeLines, List.forall_mem_cons]
      exact ⟨not_mem_writeLine hc _ line, ih _⟩

/-- A line that is written is cut into its segments again, without the empty ones. -/
theorem cut_joinLine {texts : List String} (h : ∀ text ∈ texts, ',' ∉ text.toList) :
    ((Text.split ',' (joinLine texts)).filter (· ≠ [])).map String.ofList =
      texts.filter (· ≠ "") := by
  unfold joinLine
  rw [Text.filter_split_join (by simpa using h), List.filter_map, List.map_map]
  simp [Function.comp_def]

theorem segments_writeMappings (lines : List (List (Option Segment))) (hne : lines ≠ []) :
    segments (writeMappings lines) = (writeLines .zero lines).map (·.filter (· ≠ "")) := by
  have hcomma := not_mem_writeLines (c := ',') (by decide) .zero lines
  have hsemicolon := not_mem_writeLines (c := ';') (by decide) .zero lines
  have hlines : (writeLines .zero lines).map joinLine ≠ [] := by
    cases lines with
    | nil => exact absurd rfl hne
    | cons line rest => simp [writeLines]
  have hfree : ∀ line ∈ (writeLines .zero lines).map joinLine, ';' ∉ line := by
    simp only [List.forall_mem_map]
    intro texts htexts
    apply Text.not_mem_join (by decide)
    simpa using hsemicolon texts htexts
  unfold segments writeMappings
  rw [String.toList_ofList, Text.split_join hlines hfree, List.map_map]
  apply List.map_congr_left
  intro texts htexts
  exact cut_joinLine (hcomma texts htexts)

/-- Mappings that are written as differences are read back: the same segments on the same
lines, sorted by their generated places, and at each place in the order in which they were
written. Empty lines and empty segments leave no trace but the numbers of the lines. -/
theorem decode_writeMappings (m : SourceMap) (lines : List (List (Option Segment))) :
    ∃ decoded, ({ m with mappings := writeMappings lines }).decode = .ok decoded ∧
      decoded.Perm (mappingsFrom 0 lines) ∧
      (decoded.Pairwise fun a b => a.generated.le b.generated = true) ∧
      ∀ place, decoded.filter (·.generated = place) =
        (mappingsFrom 0 lines).filter (·.generated = place) := by
  have hread : decodeLines 0 .zero (segments (writeMappings lines)) =
      .ok (mappingsFrom 0 lines) := by
    by_cases hne : lines = []
    · rw [hne]
      rfl
    · rw [segments_writeMappings lines hne]
      exact decodeLines_writeLines Sums.fits_zero 0 lines
  refine ⟨sorted (mappingsFrom 0 lines), ?_, List.mergeSort_perm _ _, pairwise_sorted _,
    filter_sorted _⟩
  unfold decode
  rw [hread]
  rfl

end ModuleCache.SourceMap
