import Mathlib.Data.List.Forall2
import ModuleCache.Proofs.Text.Split
import ModuleCache.Transpiler.MapComment

/-!
What is left of code when the lines that name a source map are dropped. A line is taken with
what ends it: a line break, with or without a carriage return in front, or the end of the text.
The lines that remain keep their content and their order, and there is a break behind each of
them. The code is cut and joined at breaks, so the break in front of a last line that is dropped
goes with it, and a text that ended in a break ends in one also when none of its lines remains.
-/

namespace ModuleCache.Transpiler

/-! ### Lines and what ends them -/

inductive LineEnd where
  /-- A line break. -/
  | feed
  /-- A line break behind a carriage return. -/
  | returnFeed
  /-- The end of the text. -/
  | none
  deriving DecidableEq, Repr

def LineEnd.chars : LineEnd → List Char
  | .feed => ['\n']
  | .returnFeed => ['\r', '\n']
  | .none => []

structure Line where
  content : List Char
  ending : LineEnd
  deriving DecidableEq, Repr

/-- The line as it stands in a text. -/
def Line.chars (l : Line) : List Char := l.content ++ l.ending.chars

/-- The line of a piece that a line break follows. -/
def brokenLine (piece : List Char) : Line :=
  if piece.getLast? = some '\r' then ⟨piece.dropLast, .returnFeed⟩ else ⟨piece, .feed⟩

/-- The line behind the last line break. There is none when the text ends there. -/
def openLine (piece : List Char) : List Line := if piece = [] then [] else [⟨piece, .none⟩]

/-- The lines of pieces between line breaks. -/
def linesFrom : List (List Char) → List Line
  | [] => []
  | [last] => openLine last
  | piece :: rest => brokenLine piece :: linesFrom rest

/-- The lines of a text with what ends them. -/
def linesIn (code : String) : List Line := linesFrom (Text.split '\n' code.toList)

theorem linesFrom_concat (front : List (List Char)) (last : List Char) :
    linesFrom (front ++ [last]) = front.map brokenLine ++ openLine last := by
  induction front with
  | nil => rfl
  | cons piece rest ih =>
      obtain ⟨next, more, hmore⟩ := List.exists_cons_of_ne_nil (l := rest ++ [last]) (by simp)
      rw [hmore] at ih
      rw [List.cons_append, hmore, linesFrom, ih]
      · rfl
      · simp

theorem linesOf_concat (front : List (List Char)) (last : List Char) :
    linesOf (front ++ [last]) = front.map chomp ++ (openLine last).map (·.content) := by
  induction front with
  | nil =>
      rw [List.nil_append, linesOf, openLine]
      split <;> rfl
  | cons piece rest ih =>
      obtain ⟨next, more, hmore⟩ := List.exists_cons_of_ne_nil (l := rest ++ [last]) (by simp)
      rw [hmore] at ih
      rw [List.cons_append, hmore, linesOf, ih]
      · rfl
      · simp

theorem content_brokenLine (piece : List Char) : (brokenLine piece).content = chomp piece := by
  unfold brokenLine chomp
  split <;> rfl

theorem ending_brokenLine_ne_none (piece : List Char) : (brokenLine piece).ending ≠ .none := by
  unfold brokenLine
  split <;> simp

theorem chars_brokenLine (piece : List Char) : (brokenLine piece).chars = piece ++ ['\n'] := by
  unfold brokenLine
  split
  · next hreturn =>
      obtain ⟨front, rfl⟩ := List.getLast?_eq_some_iff.mp hreturn
      simp [Line.chars, LineEnd.chars]
  · rfl

theorem chars_openLine (piece : List Char) : (openLine piece).flatMap Line.chars = piece := by
  unfold openLine
  split
  · next hempty => rw [hempty]; rfl
  · simp [Line.chars, LineEnd.chars]

/-- Every text is its pieces between line breaks. -/
theorem exists_pieces (code : String) : ∃ front last,
    Text.split '\n' code.toList = front ++ [last] ∧
      code.toList = Text.join '\n' (front ++ [last]) ∧ ∀ piece ∈ front ++ [last], '\n' ∉ piece := by
  obtain ⟨front, last, hpieces⟩ :=
    (List.eq_nil_or_concat _).resolve_left (Text.split_ne_nil '\n' code.toList)
  rw [List.concat_eq_append] at hpieces
  refine ⟨front, last, hpieces, ?_, ?_⟩
  · rw [← hpieces, Text.join_split]
  · rw [← hpieces]
    exact Text.not_mem_of_mem_split _ _

/-- The lines of a text make it up. -/
theorem chars_linesIn (code : String) : (linesIn code).flatMap Line.chars = code.toList := by
  obtain ⟨front, last, hpieces, htext, -⟩ := exists_pieces code
  rw [linesIn, hpieces, linesFrom_concat, List.flatMap_append, chars_openLine, htext,
    Text.join_concat_eq_flatMap, List.flatMap_map]
  simp only [chars_brokenLine]

/-! ### The lines that remain -/

/-- The lines that name no source map. -/
def remaining (code : String) : List Line := (linesIn code).filter (!namesMap ·.content)

/-- The contents of the lines that remain of those with a break behind them. -/
def keptContents (front : List (List Char)) : List (List Char) :=
  (front.map chomp).filter (!namesMap ·)

/-- The line behind the last line break, if it remains. -/
def keptOpen (last : List Char) : List Line := (openLine last).filter (!namesMap ·.content)

section Pieces

variable {code : String} {front : List (List Char)} {last : List Char}

theorem remaining_of_pieces (hpieces : Text.split '\n' code.toList = front ++ [last]) :
    remaining code = (front.map brokenLine).filter (!namesMap ·.content) ++ keptOpen last := by
  rw [remaining, linesIn, hpieces, linesFrom_concat, List.filter_append]
  rfl

/-- The code that is left, from the contents of the lines that remain. -/
theorem toList_stripMapComments (hpieces : Text.split '\n' code.toList = front ++ [last])
    (htext : code.toList = Text.join '\n' (front ++ [last])) (hlast : '\n' ∉ last) :
    (stripMapComments code).toList =
      Text.join '\n' (keptContents front ++ (keptOpen last).map (·.content)) ++
        if last = [] ∧ front ≠ [] then ['\n'] else [] := by
  have hlines : (lines code.toList).filter (!namesMap ·) =
      keptContents front ++ (keptOpen last).map (·.content) := by
    rw [lines, hpieces, linesOf_concat, List.filter_append,
      List.filter_map (f := Line.content)]
    rfl
  unfold stripMapComments
  dsimp only
  rw [hlines, htext]
  simp only [Text.getLast?_join_iff hlast, String.toList_ofList]
  split <;> simp

/-- What a line that remains keeps: its content and its break, which may lose the carriage
return in front of it. -/
def Line.Remains (l kept : Line) : Prop :=
  kept.content = l.content ∧
    (kept.ending = l.ending ∨ l.ending = .returnFeed ∧ kept.ending = .feed)

/-- The line with a plain break if there is a break. -/
def Line.plain (l : Line) : Line :=
  ⟨l.content, if l.ending = .returnFeed then .feed else l.ending⟩

theorem Line.remains_plain (l : Line) : l.Remains l.plain := by
  refine ⟨rfl, ?_⟩
  unfold Line.plain
  by_cases hreturn : l.ending = .returnFeed
  · exact .inr ⟨hreturn, if_pos hreturn⟩
  · exact .inl (if_neg hreturn)

theorem plain_brokenLine (piece : List Char) : (brokenLine piece).plain = ⟨chomp piece, .feed⟩ := by
  unfold brokenLine chomp
  split <;> rfl

/-- The code ends in a line that names a source map and has no break behind it. -/
def endsInComment (code : String) : Bool :=
  (linesIn code).getLast?.any fun l => l.ending = .none && namesMap l.content

/-- The break in front of a last line that is dropped. -/
def lostBreak (code : String) (kept : List Line) : List Char :=
  if endsInComment code then (kept.getLast?.map (·.ending.chars)).getD [] else []

theorem plain_remaining (hpieces : Text.split '\n' code.toList = front ++ [last]) :
    (remaining code).map Line.plain =
      (keptContents front).map (⟨·, .feed⟩) ++ keptOpen last := by
  have hopen : (keptOpen last).map Line.plain = keptOpen last := by
    unfold keptOpen openLine
    split
    · rfl
    · by_cases hmap : namesMap last <;> simp [hmap, Line.plain]
  rw [remaining_of_pieces hpieces, List.map_append, hopen, List.filter_map, keptContents,
    List.filter_map, List.map_map, List.map_map]
  congr 2
  · exact funext plain_brokenLine
  · exact List.filter_congr fun piece _ => by simp [content_brokenLine]

/-- The line behind the last break is there and is kept, is there and is dropped, or is
not there. -/
theorem keptOpen_cases (last : List Char) :
    (last ≠ [] ∧ namesMap last = false ∧ keptOpen last = [⟨last, .none⟩]) ∨
      (last ≠ [] ∧ namesMap last = true ∧ keptOpen last = []) ∨
      (last = [] ∧ keptOpen last = []) := by
  by_cases hlast : last = []
  · exact .inr (.inr ⟨hlast, by simp [keptOpen, openLine, hlast]⟩)
  · cases hmap : namesMap last with
    | false => exact .inl ⟨hlast, rfl, by simp [keptOpen, openLine, hlast, hmap]⟩
    | true => exact .inr (.inl ⟨hlast, rfl, by simp [keptOpen, openLine, hlast, hmap]⟩)

theorem endsInComment_of_pieces (hpieces : Text.split '\n' code.toList = front ++ [last]) :
    endsInComment code = true ↔ last ≠ [] ∧ namesMap last = true := by
  rw [endsInComment, linesIn, hpieces, linesFrom_concat]
  by_cases hlast : last = []
  · cases hfront : front.getLast? with
    | none => simp [openLine, hlast, hfront]
    | some piece => simp [openLine, hlast, hfront, ending_brokenLine_ne_none]
  · simp [openLine, hlast]

theorem flatMap_chars_feed (contents : List (List Char)) :
    (contents.map (Line.mk · .feed)).flatMap Line.chars = contents.flatMap (· ++ ['\n']) := by
  rw [List.flatMap_map]
  rfl

/-- The code that is left and the break that is dropped are the lines that remain. -/
theorem strip_append_lostBreak (hpieces : Text.split '\n' code.toList = front ++ [last])
    (htext : code.toList = Text.join '\n' (front ++ [last])) (hlast : '\n' ∉ last)
    {kept : List Line} (hkept : kept = (keptContents front).map (⟨·, .feed⟩) ++ keptOpen last)
    (hsome : kept ≠ []) :
    (stripMapComments code).toList ++ lostBreak code kept = kept.flatMap Line.chars := by
  have hends := endsInComment_of_pieces hpieces
  rw [toList_stripMapComments hpieces htext hlast, lostBreak]
  rcases keptOpen_cases last with ⟨hne, hmap, hopen⟩ | ⟨hne, hmap, hopen⟩ | ⟨hempty, hopen⟩
  · have hno : ¬ endsInComment code = true := fun h => by simpa [hmap] using (hends.mp h).2
    rw [hkept, List.flatMap_append, flatMap_chars_feed, if_neg hno, hopen, if_neg (by simp [hne]),
      List.map_singleton, Text.join_concat_eq_flatMap]
    simp [Line.chars, LineEnd.chars]
  · rw [hopen, List.append_nil] at hkept
    have hcontents : keptContents front ≠ [] := by simpa [hkept] using hsome
    rw [if_pos (hends.mpr ⟨hne, hmap⟩), hopen, if_neg (by simp [hne]), hkept, flatMap_chars_feed,
      ← Text.join_append_sep hcontents]
    obtain ⟨before, final, hfinal⟩ := (List.eq_nil_or_concat _).resolve_left hcontents
    simp [hfinal, List.concat_eq_append, LineEnd.chars]
  · rw [hopen, List.append_nil] at hkept
    have hcontents : keptContents front ≠ [] := by simpa [hkept] using hsome
    have hfront : front ≠ [] := by
      rintro rfl
      exact hcontents rfl
    have hno : ¬ endsInComment code = true := fun h => (hends.mp h).1 hempty
    rw [if_neg hno, hopen, if_pos ⟨hempty, hfront⟩, hkept, flatMap_chars_feed,
      ← Text.join_append_sep hcontents]
    simp

end Pieces

/-- Lines that are left of code: they are the remaining ones in their order, and the text that
is left consists of them. -/
structure Stripped (code : String) (kept : List Line) : Prop where
  lines : List.Forall₂ Line.Remains (remaining code) kept
  text : kept ≠ [] →
    (stripMapComments code).toList ++ lostBreak code kept = kept.flatMap Line.chars
  nothing : kept = [] →
    stripMapComments code = if code.toList.getLast? = some '\n' then "\n" else ""

theorem stripped_plain (code : String) : Stripped code ((remaining code).map Line.plain) := by
  obtain ⟨front, last, hpieces, htext, hfree⟩ := exists_pieces code
  have hlast : '\n' ∉ last := hfree last (by simp)
  have hkept := plain_remaining hpieces
  refine ⟨?_, strip_append_lostBreak hpieces htext hlast hkept, fun hnone => ?_⟩
  · rw [List.forall₂_map_right_iff]
    exact List.forall₂_same.mpr fun l _ => l.remains_plain
  · have hbreak : code.toList.getLast? = some '\n' ↔ last = [] ∧ front ≠ [] := by
      rw [htext, Text.getLast?_join_iff hlast]
    rw [hkept, List.append_eq_nil_iff, List.map_eq_nil_iff] at hnone
    rw [← String.toList_inj, toList_stripMapComments hpieces htext hlast, hnone.1, hnone.2]
    simp only [hbreak]
    split <;> rfl

/-! ### Code that is left as it is -/

/-- The content of a line that is neither dropped nor loses a carriage return. -/
structure Ordinary (piece : List Char) : Prop where
  free : '\n' ∉ piece
  unmapped : namesMap piece = false
  plain : piece.getLast? ≠ some '\r'

/-- Pieces between line breaks of which none is dropped and none loses a carriage return. The
last one has no break behind it. -/
structure LeftAlone (front : List (List Char)) (last : List Char) : Prop where
  front : ∀ piece ∈ front, Ordinary piece
  free : '\n' ∉ last
  unmapped : namesMap last = false

theorem stripMapComments_of_leftAlone {code : String} {front : List (List Char)}
    {last : List Char} (htext : code.toList = Text.join '\n' (front ++ [last]))
    (halone : LeftAlone front last) : stripMapComments code = code := by
  have hpieces : Text.split '\n' code.toList = front ++ [last] := by
    refine htext ▸ Text.split_join (by simp) fun piece hpiece => ?_
    rcases List.mem_append.mp hpiece with hfront | hlast
    · exact (halone.front piece hfront).free
    · exact List.mem_singleton.mp hlast ▸ halone.free
  have hcontents : keptContents front = front := by
    have hchomp : front.map chomp = front :=
      (List.map_congr_left fun piece hpiece => if_neg (halone.front piece hpiece).plain).trans
        (List.map_id front)
    rw [keptContents, hchomp, List.filter_eq_self]
    intro piece hpiece
    simp [(halone.front piece hpiece).unmapped]
  rw [← String.toList_inj, toList_stripMapComments hpieces htext halone.free, hcontents, htext]
  rcases keptOpen_cases last with ⟨hne, -, hopen⟩ | ⟨-, hmap, -⟩ | ⟨rfl, hopen⟩
  · rw [hopen, if_neg (by simp [hne])]
    simp
  · exact absurd hmap (by simp [halone.unmapped])
  · rw [hopen]
    by_cases hfront : front = []
    · rw [hfront]
      rfl
    · rw [if_pos ⟨rfl, hfront⟩, List.map_nil, List.append_nil, Text.join_append_sep hfront,
        Text.join_concat_eq_flatMap, List.append_nil]

theorem leftAlone_of_lines {code : String} {front : List (List Char)} {last : List Char}
    (hpieces : Text.split '\n' code.toList = front ++ [last])
    (hfree : ∀ piece ∈ front ++ [last], '\n' ∉ piece)
    (hlines : ∀ l ∈ linesIn code, l.ending ≠ .returnFeed ∧ namesMap l.content = false) :
    LeftAlone front last := by
  rw [linesIn, hpieces, linesFrom_concat] at hlines
  refine ⟨fun piece hpiece => ?_, hfree last (by simp), ?_⟩
  · obtain ⟨hending, hmap⟩ :=
      hlines (brokenLine piece) (List.mem_append_left _ (List.mem_map_of_mem hpiece))
    have hplain : piece.getLast? ≠ some '\r' := fun hreturn =>
      hending (by rw [brokenLine, if_pos hreturn])
    rw [brokenLine, if_neg hplain] at hmap
    exact ⟨hfree piece (by simp [hpiece]), hmap, hplain⟩
  · by_cases hempty : last = []
    · rw [hempty]
      rfl
    · exact (hlines ⟨last, .none⟩ (by simp [openLine, hempty])).2

theorem chomp_sublist (piece : List Char) : (chomp piece).Sublist piece := by
  unfold chomp
  split
  · exact List.dropLast_sublist piece
  · exact List.Sublist.refl piece

/-- The lines that remain are ordinary ones, unless a carriage return stood in front of the one
that the break lost. -/
theorem ordinary_of_mem_keptContents {front : List (List Char)} {content : List Char}
    (hfree : ∀ piece ∈ front, '\n' ∉ piece)
    (hreturns : ∀ l ∈ (front.map brokenLine).filter (!namesMap ·.content),
      l.ending = .returnFeed → l.content.getLast? ≠ some '\r')
    (hmem : content ∈ keptContents front) : Ordinary content := by
  obtain ⟨hfront, hmap⟩ := List.mem_filter.mp hmem
  obtain ⟨piece, hpiece, rfl⟩ := List.mem_map.mp hfront
  have hkept : brokenLine piece ∈ (front.map brokenLine).filter (!namesMap ·.content) :=
    List.mem_filter.mpr ⟨List.mem_map_of_mem hpiece, by rwa [content_brokenLine]⟩
  refine ⟨fun h => hfree piece hpiece ((chomp_sublist piece).subset h), by simpa using hmap, ?_⟩
  by_cases hreturn : piece.getLast? = some '\r'
  · have hcontent := hreturns _ hkept (by rw [brokenLine, if_pos hreturn])
    rwa [content_brokenLine] at hcontent
  · rwa [chomp, if_neg hreturn]

/-- The code that is left is left alone from then on. Only when all lines are dropped does its
shape differ from that of the lines that remain. -/
theorem exists_leftAlone_of_strip (code : String)
    (hreturns : ∀ l ∈ remaining code, l.ending = .returnFeed →
      l.content.getLast? ≠ some '\r') :
    ∃ front last, (stripMapComments code).toList = Text.join '\n' (front ++ [last]) ∧
      LeftAlone front last := by
  obtain ⟨front, last, hpieces, htext, hfree⟩ := exists_pieces code
  have hlast : '\n' ∉ last := hfree last (by simp)
  rw [remaining_of_pieces hpieces] at hreturns
  have hordinary : ∀ content ∈ keptContents front, Ordinary content := fun content hmem =>
    ordinary_of_mem_keptContents (fun piece h => hfree piece (by simp [h]))
      (fun l hl => hreturns l (List.mem_append_left _ hl)) hmem
  rw [toList_stripMapComments hpieces htext hlast]
  rcases keptOpen_cases last with ⟨hne, hmap, hopen⟩ | ⟨hne, -, hopen⟩ | ⟨rfl, hopen⟩
  · refine ⟨keptContents front, last, ?_, hordinary, hlast, hmap⟩
    rw [hopen, if_neg (by simp [hne])]
    simp
  · rw [hopen, if_neg (by simp [hne])]
    rcases List.eq_nil_or_concat (keptContents front) with hnone | ⟨before, final, hsome⟩
    · exact ⟨[], [], by rw [hnone]; rfl, by simp, by simp, rfl⟩
    · rw [List.concat_eq_append] at hsome
      rw [hsome] at hordinary ⊢
      have hfinal := hordinary final (by simp)
      exact ⟨before, final, by simp, fun piece h => hordinary piece (by simp [h]), hfinal.free,
        hfinal.unmapped⟩
  · rw [hopen, List.map_nil, List.append_nil]
    by_cases hfront : front = []
    · exact ⟨[], [], by rw [hfront]; rfl, by simp, by simp, rfl⟩
    · rw [if_pos ⟨rfl, hfront⟩]
      by_cases hnone : keptContents front = []
      · refine ⟨[[]], [], by rw [hnone]; rfl, fun piece h => ?_, by simp, rfl⟩
        obtain rfl := List.mem_singleton.mp h
        exact ⟨by simp, rfl, by simp⟩
      · refine ⟨keptContents front, [], ?_, hordinary, by simp, rfl⟩
        rw [Text.join_append_sep hnone, Text.join_concat_eq_flatMap, List.append_nil]

/-- Of the lines that make up a text those that name a source map are dropped, and no others.
Code without such lines whose breaks have no carriage return in front of them is left as it is,
and so is code from which the lines are dropped, if none of the others ends in two carriage
returns and a break. -/
theorem stripMapComments_keeps_rest (code : String) :
    (linesIn code).flatMap Line.chars = code.toList ∧ (∃ kept, Stripped code kept) ∧
      ((∀ l ∈ linesIn code, l.ending ≠ .returnFeed ∧ namesMap l.content = false) →
        stripMapComments code = code) ∧
      ((∀ l ∈ remaining code, l.ending = .returnFeed → l.content.getLast? ≠ some '\r') →
        stripMapComments (stripMapComments code) = stripMapComments code) := by
  refine ⟨chars_linesIn code, ⟨_, stripped_plain code⟩, fun hlines => ?_, fun hreturns => ?_⟩
  · obtain ⟨front, last, hpieces, htext, hfree⟩ := exists_pieces code
    exact stripMapComments_of_leftAlone htext (leftAlone_of_lines hpieces hfree hlines)
  · obtain ⟨front, last, htext, halone⟩ := exists_leftAlone_of_strip code hreturns
    exact stripMapComments_of_leftAlone htext halone

/-- A comment between two lines is dropped once and for all, and a line that only speaks of the
comments stays. -/
theorem comment_between_lines_dropped :
    (∃ kept, Stripped "a;\r\n  //# sourceMappingURL=a.js.map\nb;" kept) ∧
      stripMapComments (stripMapComments "a;\r\n  //# sourceMappingURL=a.js.map\nb;") =
        stripMapComments "a;\r\n  //# sourceMappingURL=a.js.map\nb;" ∧
      stripMapComments "// sourceMappingURL is documented here\nvar a;\n" =
        "// sourceMappingURL is documented here\nvar a;\n" :=
  ⟨(stripMapComments_keeps_rest _).2.1, (stripMapComments_keeps_rest _).2.2.2 (by decide),
    (stripMapComments_keeps_rest _).2.2.1 (by decide)⟩

/-- The break in front of a last comment is dropped with it, a break stays behind the only line,
a carriage return is lost with each run, and so the lines that remain are not what is left. -/
theorem breaks_change_with_comments :
    (stripMapComments "var a;\n//@ sourceMappingURL=a.map" = "var a;" ∧
      (remaining "var a;\n//@ sourceMappingURL=a.map").flatMap Line.chars = "var a;\n".toList) ∧
    (stripMapComments "//# sourceMappingURL=a.js.map\n" = "\n" ∧
      (remaining "//# sourceMappingURL=a.js.map\n").flatMap Line.chars = []) ∧
    (stripMapComments "var a;\r\n" = "var a;\n" ∧ remaining "var a;\r\n" = linesIn "var a;\r\n") ∧
    (stripMapComments "a\r\r\n" = "a\r\n" ∧
      stripMapComments (stripMapComments "a\r\r\n") = "a\n") := by
  decide

end ModuleCache.Transpiler
