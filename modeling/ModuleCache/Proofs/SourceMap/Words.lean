import ModuleCache.Proofs.SourceMap.Deltas
import ModuleCache.Proofs.SourceMap.Totals
import ModuleCache.Proofs.Vlq.Words

/-!
Mappings read in machine words. The sums of the differences are signed words of 64 bits here, and
the reader stops wherever one of them would not be what it should: where a sum comes near to what
64 bits can hold, where a number of a segment is missing, where a segment is accepted and a sum
then has no word of 32 bits, and where the number of a line has none. Main statement: it never
stops, and reads every text, well formed or not, as unbounded numbers do.
-/

namespace ModuleCache.SourceMap

/-- The sums of the differences in words. -/
structure WordSums where
  column : Int64
  source : Int64
  sourceLine : Int64
  sourceColumn : Int64
  name : Int64
  deriving DecidableEq

namespace WordSums

def zero : WordSums := ⟨0, 0, 0, 0, 0⟩

/-- The numbers that the words stand for. -/
def toSums (s : WordSums) : Sums :=
  ⟨s.column.toInt, s.source.toInt, s.sourceLine.toInt, s.sourceColumn.toInt, s.name.toInt⟩

def newLine (s : WordSums) : WordSums := { s with column := 0 }

end WordSums

/-- The sum of two words, unless the exact sum is not above `-2^32` and below `2^33`. -/
def add? (a b : Int64) : Option Int64 :=
  if -2 ^ 32 < a.toInt + b.toInt ∧ a.toInt + b.toInt < 2 ^ 33 then some (a + b) else none

/-- A signed word that 32 bits can hold, as that word. -/
def narrow? (word : Int64) : Option UInt32 :=
  if 0 ≤ word ∧ word < Int64.ofNat UInt32.size then some word.toUInt64.toUInt32 else none

namespace WordSums

/-- Adds the number of a generated column. -/
def addColumn? (s : WordSums) (number : Int64) : Option WordSums := do
  let column ← add? s.column number
  some { s with column }

/-- Adds the numbers of an origin. Nothing comes out if one is missing. -/
def addOrigin? (s : WordSums) (numbers : List Int64) : Option WordSums := do
  let source ← add? s.source (← numbers[1]?)
  let sourceLine ← add? s.sourceLine (← numbers[2]?)
  let sourceColumn ← add? s.sourceColumn (← numbers[3]?)
  some { s with source, sourceLine, sourceColumn }

/-- Adds the number of a name. Nothing comes out if it is missing. -/
def addName? (s : WordSums) (numbers : List Int64) : Option WordSums := do
  let name ← add? s.name (← numbers[4]?)
  some { s with name }

/-- The origin that the sums give, if they are in range. -/
def origin? (s : WordSums) (name : Option UInt32) : Option Origin := do
  let source ← narrow? s.source
  let sourceLine ← narrow? s.sourceLine
  let sourceColumn ← narrow? s.sourceColumn
  some ⟨source, ⟨sourceLine, sourceColumn⟩, name⟩

/-- The sums behind a segment and its mapping, or `some none` if the segment is malformed. -/
def advance? (s : WordSums) (line : UInt32) (numbers : List Int64) :
    Option (Option (WordSums × Mapping)) :=
  match numbers.head? with
  | none => some none
  | some first => do
    let s ← s.addColumn? first
    match narrow? s.column with
    | none => some none
    | some column =>
      match numbers.length with
      | 1 => some (some (s, ⟨⟨line, column⟩, none⟩))
      | 4 => do
        let s ← s.addOrigin? numbers
        some ((s.origin? none).map fun origin => (s, ⟨⟨line, column⟩, some origin⟩))
      | 5 => do
        let s ← s.addOrigin? numbers
        let s ← s.addName? numbers
        some ((narrow? s.name).bind fun name =>
          (s.origin? (some name)).map fun origin => (s, ⟨⟨line, column⟩, some origin⟩))
      | _ => some none

end WordSums

instance (s : Sums) : Decidable s.Fits :=
  inferInstanceAs (Decidable (∀ value ∈ [s.column, s.source, s.sourceLine, s.sourceColumn, s.name],
    0 ≤ value ∧ value ≤ Vlq.maxMagnitude))

/-- Reads the segments of one line. Behind a segment that is accepted all sums have to be in
range. -/
def readLine (line : Nat) : WordSums → List String → Option (Except Error (WordSums × List Mapping))
  | s, [] => some (.ok (s, []))
  | s, segment :: segments =>
    match Vlq.readWords 0 0 false segment.toList with
    | none => none
    | some (.error cause) => some (.error (.segment line segment cause))
    | some (.ok numbers) =>
      match s.advance? (UInt32.ofNat line) numbers with
      | none => none
      | some none => some (.error (.malformed line segment))
      | some (some (s, mapping)) =>
        if s.toSums.Fits then
          (readLine line s segments).map (·.map fun (s, mappings) => (s, mapping :: mappings))
        else none

/-- Reads the groups of segments from a line on, whose number has to fit into 32 bits. -/
def readLines (line : Nat) : WordSums → List (List String) → Option (Except Error (List Mapping))
  | _, [] => some (.ok [])
  | s, segments :: rest =>
    if line < 2 ^ 32 then
      match readLine line s.newLine segments with
      | none => none
      | some (.error e) => some (.error e)
      | some (.ok (s, mappings)) => (readLines (line + 1) s rest).map (·.map (mappings ++ ·))
    else none

/-- The mappings of a source map, read in words and sorted. -/
def decodeWords (m : SourceMap) : Option (Except Error (List Mapping)) :=
  (readLines 0 .zero (segments m.mappings)).map (·.map sorted)

/-! ### One segment -/

/-- A segment that is accepted leaves all sums in range. -/
theorem Sums.Fits.advance {s s' : Sums} {r : Reading} {g : Mapping} (h : s.Fits)
    (hline : r.line < 2 ^ 32)
    (hadvance : s.advance (UInt32.ofNat r.line) r.numbers = some (s', g)) : s'.Fits := by
  obtain ⟨hsum, ⟨-, hcolumn, horigin⟩⟩ := advance_eq_some hline hadvance
  -- a sum that the segment has no number for is the one that was in range before
  have hkeep : ∀ i, r.numbers.length ≤ i → r.numbers.getD i 0 = 0 := by
    intro i hi
    rw [List.getD_eq_getElem?_getD, List.getElem?_eq_none hi]
    rfl
  simp only [Sums.Fits, List.forall_mem_cons] at h ⊢
  obtain ⟨-, hsource, hsourceLine, hsourceColumn, hname, hnil⟩ := h
  refine ⟨hcolumn ▸ toNat_le_maxMagnitude g.generated.column, ?_⟩
  cases hg : g.origin with
  | none =>
      simp only [hg] at horigin
      simp only [hsum, Sums.add, hkeep 1 (by omega), hkeep 2 (by omega), hkeep 3 (by omega),
        hkeep 4 (by omega), Int.add_zero]
      exact ⟨hsource, hsourceLine, hsourceColumn, hname, hnil⟩
  | some origin =>
      simp only [hg] at horigin
      obtain ⟨hsource', hsourceLine', hsourceColumn', hnamed⟩ := horigin
      refine ⟨hsource' ▸ toNat_le_maxMagnitude origin.source,
        hsourceLine' ▸ toNat_le_maxMagnitude origin.position.line,
        hsourceColumn' ▸ toNat_le_maxMagnitude origin.position.column, ?_, hnil⟩
      cases hgname : origin.name with
      | none =>
          simp only [hgname] at hnamed
          simp only [hsum, Sums.add, hkeep 4 (by omega), Int.add_zero]
          exact hname
      | some name =>
          simp only [hgname] at hnamed
          exact hnamed.2 ▸ toNat_le_maxMagnitude name

/-- The sums of an origin are in range, whatever the column has become. -/
theorem Sums.Fits.origins {s s' : Sums} {column : Int} (h : s.Fits)
    (hs : s' = ⟨column, s.source, s.sourceLine, s.sourceColumn, s.name⟩) :
    ∀ value ∈ [s'.source, s'.sourceLine, s'.sourceColumn],
      0 ≤ value ∧ value ≤ Vlq.maxMagnitude := by
  subst hs
  intro value hvalue
  apply h
  simp only [List.mem_cons] at hvalue ⊢
  tauto

theorem toInt_add? {a b : Int64} (ha : 0 ≤ a.toInt ∧ a.toInt ≤ Vlq.maxMagnitude)
    (hb : b.toInt.natAbs ≤ Vlq.maxMagnitude) :
    add? a b = some (a + b) ∧ (a + b).toInt = a.toInt + b.toInt := by
  simp only [Vlq.maxMagnitude, UInt32.size] at ha hb
  refine ⟨if_pos ⟨by omega, by omega⟩, ?_⟩
  rw [Int64.toInt_add, Int.bmod_eq_of_le] <;> omega

theorem narrow?_eq (word : Int64) : narrow? word = word32? word.toInt := by
  have hzero : 0 ≤ word ↔ 0 ≤ word.toInt := Int64.le_iff_toInt_le
  have hsize : word < Int64.ofNat UInt32.size ↔ word.toInt < UInt32.size := Int64.lt_iff_toInt_lt
  unfold narrow? word32?
  simp only [hzero, hsize]
  by_cases hrange : 0 ≤ word.toInt ∧ word.toInt < UInt32.size
  · have hword : word.toUInt64.toNat = word.toInt.toNat :=
      Int64.toNat_toUInt64_of_le (hzero.mpr hrange.1)
    rw [if_pos hrange, if_pos hrange, Option.some.injEq, ← UInt32.toNat_inj,
      UInt64.toNat_toUInt32, hword, UInt32.toNat_ofNat_of_lt' (by omega)]
    exact Nat.mod_eq_of_lt (show word.toInt.toNat < UInt32.size by omega)
  · rw [if_neg hrange, if_neg hrange]

section Segment

variable {s : WordSums} {a b c d e : Int64}

theorem addColumn?_eq (h : s.toSums.Fits) (ha : a.toInt.natAbs ≤ Vlq.maxMagnitude) :
    ∃ s', s.addColumn? a = some s' ∧ narrow? s'.column = word32? (s.toSums.column + a.toInt) ∧
      s'.toSums = ⟨s.toSums.column + a.toInt, s.toSums.source, s.toSums.sourceLine,
        s.toSums.sourceColumn, s.toSums.name⟩ := by
  have hcolumn : 0 ≤ s.toSums.column ∧ s.toSums.column ≤ Vlq.maxMagnitude := h _ (by simp)
  obtain ⟨hfirst, hsum⟩ := toInt_add? hcolumn ha
  refine ⟨{ s with column := s.column + a }, ?_, ?_, ?_⟩
  · simp [WordSums.addColumn?, hfirst]
  · rw [narrow?_eq, hsum]
    rfl
  · simp [WordSums.toSums, hsum]

/-- The numbers of an origin are there when a segment has four, and their sums are exact. -/
theorem addOrigin?_eq (rest : List Int64)
    (h : ∀ value ∈ [s.toSums.source, s.toSums.sourceLine, s.toSums.sourceColumn],
      0 ≤ value ∧ value ≤ Vlq.maxMagnitude)
    (hnumbers : ∀ number ∈ [b, c, d], number.toInt.natAbs ≤ Vlq.maxMagnitude) :
    ∃ s', s.addOrigin? (a :: b :: c :: d :: rest) = some s' ∧
      s'.toSums = ⟨s.toSums.column, s.toSums.source + b.toInt, s.toSums.sourceLine + c.toInt,
        s.toSums.sourceColumn + d.toInt, s.toSums.name⟩ := by
  simp only [List.forall_mem_cons] at h hnumbers
  obtain ⟨hsource, hsourceLine, hsourceColumn, -⟩ := h
  obtain ⟨hb, hc, hd, -⟩ := hnumbers
  obtain ⟨hsecond, hsecondSum⟩ := toInt_add? hsource hb
  obtain ⟨hthird, hthirdSum⟩ := toInt_add? hsourceLine hc
  obtain ⟨hfourth, hfourthSum⟩ := toInt_add? hsourceColumn hd
  refine ⟨⟨s.column, s.source + b, s.sourceLine + c, s.sourceColumn + d, s.name⟩, ?_, ?_⟩
  · simp [WordSums.addOrigin?, hsecond, hthird, hfourth]
  · simp [WordSums.toSums, hsecondSum, hthirdSum, hfourthSum]

theorem addName?_eq (h : 0 ≤ s.toSums.name ∧ s.toSums.name ≤ Vlq.maxMagnitude)
    (he : e.toInt.natAbs ≤ Vlq.maxMagnitude) :
    ∃ s', s.addName? [a, b, c, d, e] = some s' ∧
      narrow? s'.name = word32? (s.toSums.name + e.toInt) ∧
      s'.toSums = ⟨s.toSums.column, s.toSums.source, s.toSums.sourceLine, s.toSums.sourceColumn,
        s.toSums.name + e.toInt⟩ := by
  obtain ⟨hfifth, hsum⟩ := toInt_add? h he
  refine ⟨{ s with name := s.name + e }, ?_, ?_, ?_⟩
  · simp [WordSums.addName?, hfifth]
  · rw [narrow?_eq, hsum]
    rfl
  · simp [WordSums.toSums, hsum]

end Segment

/-- The origin that sums give, if they are in range. -/
def Sums.origin? (s : Sums) (name : Option UInt32) : Option Origin := do
  let source ← word32? s.source
  let sourceLine ← word32? s.sourceLine
  let sourceColumn ← word32? s.sourceColumn
  some ⟨source, ⟨sourceLine, sourceColumn⟩, name⟩

theorem origin?_eq (s : WordSums) (name : Option UInt32) :
    s.origin? name = s.toSums.origin? name := by
  simp only [WordSums.origin?, narrow?_eq]
  rfl

section Counts

variable (s : Sums) (line : UInt32) (a b c d e : Int)

theorem advance_four :
    s.advance line [a, b, c, d] = (word32? (s.column + a)).bind fun column =>
      let s : Sums := ⟨s.column + a, s.source + b, s.sourceLine + c, s.sourceColumn + d, s.name⟩
      (s.origin? none).map fun origin => (s, ⟨⟨line, column⟩, some origin⟩) := by
  simp [Sums.advance, Sums.origin?, Option.map_bind]

theorem advance_five :
    s.advance line [a, b, c, d, e] = (word32? (s.column + a)).bind fun column =>
      (word32? (s.name + e)).bind fun name =>
        let s : Sums :=
          ⟨s.column + a, s.source + b, s.sourceLine + c, s.sourceColumn + d, s.name + e⟩
        (s.origin? (some name)).map fun origin => (s, ⟨⟨line, column⟩, some origin⟩) := by
  cases hname : word32? (s.name + e) <;>
    simp [Sums.advance, Sums.origin?, Option.map_bind, hname]

end Counts

section Taken

variable {s : WordSums} (h : s.toSums.Fits) (line : UInt32) {a b c d e : Int64}
include h

theorem advance?_one (hnumbers : ∀ number ∈ [a], number.toInt.natAbs ≤ Vlq.maxMagnitude) :
    (s.advance? line [a]).map (·.map (Prod.map WordSums.toSums id)) =
      some (s.toSums.advance line [a.toInt]) := by
  obtain ⟨s₁, hfirst, hnarrow, hs₁⟩ := addColumn?_eq h (hnumbers a (by simp))
  simp only [WordSums.advance?, List.head?_cons, hfirst, Option.bind_eq_bind, Option.bind_some,
    hnarrow, List.length_cons, List.length_nil, Sums.advance]
  cases word32? (s.toSums.column + a.toInt) with
  | none => rfl
  | some column => simp [hs₁]

theorem advance?_four
    (hnumbers : ∀ number ∈ [a, b, c, d], number.toInt.natAbs ≤ Vlq.maxMagnitude) :
    (s.advance? line [a, b, c, d]).map (·.map (Prod.map WordSums.toSums id)) =
      some (s.toSums.advance line [a.toInt, b.toInt, c.toInt, d.toInt]) := by
  obtain ⟨ha, horigin⟩ := List.forall_mem_cons.mp hnumbers
  obtain ⟨s₁, hfirst, hnarrow, hs₁⟩ := addColumn?_eq h ha
  obtain ⟨s₂, hsecond, hs₂⟩ := addOrigin?_eq (a := a) [] (h.origins hs₁) horigin
  simp only [hs₁] at hs₂
  simp only [WordSums.advance?, List.head?_cons, hfirst, Option.bind_eq_bind, Option.bind_some,
    hnarrow, List.length_cons, List.length_nil, hsecond, origin?_eq, advance_four]
  cases word32? (s.toSums.column + a.toInt) with
  | none => rfl
  | some column => simp [hs₂, Function.comp_def]

theorem advance?_five
    (hnumbers : ∀ number ∈ [a, b, c, d, e], number.toInt.natAbs ≤ Vlq.maxMagnitude) :
    (s.advance? line [a, b, c, d, e]).map (·.map (Prod.map WordSums.toSums id)) =
      some (s.toSums.advance line [a.toInt, b.toInt, c.toInt, d.toInt, e.toInt]) := by
  simp only [List.forall_mem_cons] at hnumbers
  obtain ⟨ha, hb, hc, hd, he, -⟩ := hnumbers
  obtain ⟨s₁, hfirst, hnarrow, hs₁⟩ := addColumn?_eq h ha
  obtain ⟨s₂, hsecond, hs₂⟩ := addOrigin?_eq (a := a) (b := b) (c := c) (d := d) [e]
    (h.origins hs₁) (by simp [hb, hc, hd])
  simp only [hs₁] at hs₂
  have hname : 0 ≤ s₂.toSums.name ∧ s₂.toSums.name ≤ Vlq.maxMagnitude := by
    rw [hs₂]
    exact h _ (by simp)
  obtain ⟨s₃, hthird, hnamed, hs₃⟩ := addName?_eq (a := a) (b := b) (c := c) (d := d) hname he
  simp only [hs₂] at hnamed hs₃
  simp only [WordSums.advance?, List.head?_cons, hfirst, Option.bind_eq_bind, Option.bind_some,
    hnarrow, List.length_cons, List.length_nil, hsecond, hthird, hnamed, origin?_eq, advance_five]
  cases word32? (s.toSums.column + a.toInt) with
  | none => rfl
  | some column =>
      cases word32? (s.toSums.name + e.toInt) with
      | none => rfl
      | some name => simp [hs₃, Function.comp_def]

/-- A segment is taken in words as it is in unbounded numbers, whatever its count of numbers. -/
theorem advance?_eq (numbers : List Int64)
    (hnumbers : ∀ number ∈ numbers, number.toInt.natAbs ≤ Vlq.maxMagnitude) :
    (s.advance? line numbers).map (·.map (Prod.map WordSums.toSums id)) =
      some (s.toSums.advance line (numbers.map Int64.toInt)) := by
  match numbers, hnumbers with
  | [], _ => rfl
  | [a], hnumbers => exact advance?_one h line hnumbers
  | [a, b, c, d], hnumbers => exact advance?_four h line hnumbers
  | [a, b, c, d, e], hnumbers => exact advance?_five h line hnumbers
  | [a, b], hnumbers | [a, b, c], hnumbers | a :: b :: c :: d :: e :: f :: rest, hnumbers =>
      obtain ⟨s₁, hfirst, hnarrow, -⟩ := addColumn?_eq h (hnumbers a (by simp))
      simp only [WordSums.advance?, List.head?_cons, hfirst, Option.bind_eq_bind, Option.bind_some,
        hnarrow]
      cases word32? (s.toSums.column + a.toInt) <;> rfl

end Taken

/-! ### Whole texts -/

/-- The values of a segment fit into words of 32 bits. -/
theorem natAbs_le_of_decode {segment : String} {values : List Int}
    (h : Vlq.decode segment = .ok values) : ∀ value ∈ values, value.natAbs ≤ Vlq.maxMagnitude :=
  Vlq.natAbs_le_of_reads (Vlq.reads_groups h)

theorem readWords_segment (segment : String) :
    ∃ outcome, Vlq.readWords 0 0 false segment.toList = some outcome ∧
      outcome.map (·.map Int64.toInt) = Vlq.decode segment :=
  Option.map_eq_some_iff.mp
    (Vlq.readWords_eq 0 0 0 rfl (by omega) (by decide) _)

/-- A line is read in words as in unbounded numbers, and the sums stay in range. -/
theorem readLine_eq {s : WordSums} (h : s.toSums.Fits) {line : Nat} (hline : line < 2 ^ 32)
    (segments : List String) :
    ∃ outcome, readLine line s segments = some outcome ∧
      outcome.map (Prod.map WordSums.toSums id) = decodeLine line s.toSums segments ∧
      ∀ out, outcome = .ok out → out.1.toSums.Fits := by
  -- a segment starts from what the one in front of it left, and that is in range
  induction segments generalizing s with
  | nil =>
      refine ⟨_, rfl, rfl, ?_⟩
      rintro out ⟨⟩
      exact h
  | cons segment segments ih =>
      obtain ⟨numbers, hnumbers, hdecode⟩ := readWords_segment segment
      rw [readLine, decodeLine, hnumbers, ← hdecode]
      cases numbers with
      | error cause =>
          refine ⟨_, rfl, rfl, ?_⟩
          rintro out ⟨⟩
      | ok numbers =>
          have hsmall := natAbs_le_of_decode hdecode.symm
          obtain ⟨next, hnext, hadvance⟩ := Option.map_eq_some_iff.mp
            (advance?_eq h (UInt32.ofNat line) numbers (by simpa using hsmall))
          simp only [hnext, Except.map]
          rw [← hadvance]
          cases next with
          | none =>
              refine ⟨_, rfl, rfl, ?_⟩
              rintro out ⟨⟩
          | some next =>
              obtain ⟨s', g⟩ := next
              have hfits : s'.toSums.Fits :=
                h.advance (r := ⟨line, numbers.map Int64.toInt⟩) hline hadvance.symm
              obtain ⟨later, hlater, hrest, hkept⟩ := ih hfits
              simp only [Option.map_some, Prod.map_apply, id_eq, if_pos hfits, hlater]
              rw [← hrest]
              cases later with
              | error e =>
                  refine ⟨_, rfl, rfl, ?_⟩
                  rintro out ⟨⟩
              | ok out =>
                  refine ⟨_, rfl, rfl, ?_⟩
                  rintro out' ⟨⟩
                  exact hkept out rfl

theorem readLines_eq {s : WordSums} (h : s.toSums.Fits) {line : Nat} (lines : List (List String))
    (hlines : line + lines.length ≤ 2 ^ 32) :
    readLines line s lines = some (decodeLines line s.toSums lines) := by
  induction lines generalizing s line with
  | nil => rfl
  | cons segments lines ih =>
      rw [List.length_cons] at hlines
      have hline : line < 2 ^ 32 := by omega
      have hnew : s.newLine.toSums = s.toSums.newLine := rfl
      obtain ⟨outcome, hread, hdecode, hkept⟩ :=
        readLine_eq (s := s.newLine) (hnew ▸ h.newLine) hline segments
      rw [hnew] at hdecode
      rw [readLines, if_pos hline, hread, decodeLines, ← hdecode]
      cases outcome with
      | error e => rfl
      | ok out =>
          simp only
          rw [ih (hkept out rfl) (by omega)]
          change _ = some (decodeLines (line + 1) out.1.toSums lines >>= _)
          cases decodeLines (line + 1) out.1.toSums lines <;> rfl

/-- Reading mappings in words of 64 bits, for every text of fewer than `2^32` lines, whatever it
is. The digits of a number stay below `2^35` and lose no bit, every sum is above `-2^32` and below
`2^33` before it is looked at, no number that is asked for is missing, and behind a segment that is
accepted all sums are in `[0, 2^32)`: the reader in words, which stops where one of these fails,
never stops and comes to what unbounded numbers come to. Every mapping shows the exact sums of the
numbers in the segments up to it. -/
theorem decode_stays_in_words (m : SourceMap) (hlines : (segments m.mappings).length < 2 ^ 32) :
    m.decodeWords = some m.decode ∧
      ∀ decoded, m.decode = .ok decoded →
        ∃ read mappings, ReadsAll (textsFrom 0 (segments m.mappings)) read ∧
          AddsUp [] read mappings ∧ decoded = sorted mappings := by
  have hdecode : m.decode = m.written.map sorted := by
    rw [decode, written]
    cases decodeLines 0 .zero (segments m.mappings) <;> rfl
  constructor
  · have hzero : WordSums.zero.toSums.Fits := Sums.fits_zero
    have hread : readLines 0 .zero (segments m.mappings) =
        some (decodeLines 0 .zero (segments m.mappings)) :=
      readLines_eq hzero (segments m.mappings) (by omega)
    rw [decodeWords, hread, hdecode]
    rfl
  · intro decoded h
    rw [hdecode] at h
    obtain ⟨mappings, hwritten, rfl⟩ := map_eq_ok.mp h
    obtain ⟨read, hall, hadds⟩ := written_addsUp hlines hwritten
    exact ⟨read, mappings, hall, hadds, rfl⟩

/-- A map whose source lines go up by the greatest number and down by it again. -/
def steepMap : SourceMap :=
  { file := none, sourceRoot := none, sources := ["a.coffee"], sourcesContent := none, names := []
    mappings := "AA+/////HA;CA//////HA" }

/-- The mappings of that map: the first source line is the greatest one, the second the least. -/
def steepMappings : List Mapping :=
  [⟨⟨0, 0⟩, some ⟨0, ⟨4294967295, 0⟩, none⟩⟩, ⟨⟨1, 1⟩, some ⟨0, ⟨0, 0⟩, none⟩⟩]

theorem steep_sums_stay_in_words :
    (segments steepMap.mappings).length < 2 ^ 32 ∧ steepMap.decodeWords = some (.ok steepMappings) ∧
      ∃ read mappings, ReadsAll (textsFrom 0 (segments steepMap.mappings)) read ∧
        AddsUp [] read mappings ∧ steepMappings = sorted mappings := by
  have hlines : (segments steepMap.mappings).length < 2 ^ 32 := by decide +kernel
  have hwritten : decodeLines 0 .zero (segments steepMap.mappings) = .ok steepMappings := by rfl
  have hsorted : sorted steepMappings = steepMappings :=
    List.mergeSort_of_pairwise (by decide +kernel)
  have hdecode : steepMap.decode = .ok steepMappings := by
    rw [decode, hwritten]
    exact congrArg Except.ok hsorted
  obtain ⟨hwords, hsums⟩ := decode_stays_in_words steepMap hlines
  exact ⟨hlines, hdecode ▸ hwords, hsums _ hdecode⟩

end ModuleCache.SourceMap
