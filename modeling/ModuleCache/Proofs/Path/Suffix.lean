import ModuleCache.Proofs.Path.Names

/-!
Extensions of file names. A name is cut at its last dot, and the cut can be undone, so a
name with an extension is its stem, a dot and the extension. Putting another extension
in changes the last component and nothing in front of it; only the name whose stem is a
single dot is left without a name.
-/

namespace ModuleCache

namespace Text

theorem join_append_singleton {sep : Char} {pieces : List (List Char)} (hne : pieces ≠ [])
    (last : List Char) : join sep (pieces ++ [last]) = join sep pieces ++ sep :: last := by
  rw [join_concat_eq_flatMap, ← join_append_sep hne, List.append_assoc, List.singleton_append]

/-- The last cut of a text is undone by writing the separator between its two sides. -/
theorem splitLast?_eq_some_iff {sep : Char} {cs front last : List Char} :
    splitLast? sep cs = some (front, last) ↔ cs = front ++ sep :: last ∧ sep ∉ last := by
  unfold splitLast?
  constructor
  · intro h
    cases hsplit : (split sep cs).reverse with
    | nil => simp [hsplit] at h
    | cons piece earlier =>
        cases earlier with
        | nil => simp [hsplit] at h
        | cons before earlier =>
            obtain ⟨rfl, rfl⟩ : join sep (before :: earlier).reverse = front ∧ piece = last := by
              simpa [hsplit] using h
            have hpieces : split sep cs = (before :: earlier).reverse ++ [piece] := by
              have hrev := congrArg List.reverse hsplit
              simpa using hrev
            constructor
            · rw [← join_append_singleton (by simp), ← hpieces, join_split]
            · exact not_mem_of_mem_split sep cs piece (by simp [hpieces])
  · rintro ⟨rfl, hlast⟩
    rw [split_append_sep, split_of_not_mem hlast]
    cases hsplit : (split sep front).reverse with
    | nil => exact absurd (by simpa using hsplit) (split_ne_nil sep front)
    | cons before earlier =>
        have hfront : (before :: earlier).reverse = split sep front := by
          rw [← hsplit, List.reverse_reverse]
        simp only [List.reverse_append, List.reverse_singleton, List.singleton_append, hsplit]
        rw [hfront, join_split]

end Text

theorem IsBare.dot_not_mem {extension : String} (h : IsBare extension) :
    '.' ∉ extension.toList := fun hmem => (h.2 _ hmem).1 rfl

namespace Path

/-- A name has an extension exactly when a dot stands in it behind something, and the
last such dot is where it is cut. -/
theorem splitExtension_eq_some_iff {name stem extension : List Char} :
    splitExtension name = (stem, some extension) ↔
      name = stem ++ '.' :: extension ∧ '.' ∉ extension ∧ stem ≠ [] := by
  unfold splitExtension
  cases hcut : Text.splitLast? '.' name with
  | none =>
      constructor
      · intro h
        simp at h
      · rintro ⟨hname, hext, -⟩
        rw [Text.splitLast?_eq_some_iff.mpr ⟨hname, hext⟩] at hcut
        cases hcut
  | some cut =>
      obtain ⟨front, last⟩ := cut
      obtain ⟨hname, hlast⟩ := Text.splitLast?_eq_some_iff.mp hcut
      constructor
      · intro h
        by_cases hfront : front = []
        · simp [hfront] at h
        · obtain ⟨rfl, rfl⟩ : front = stem ∧ last = extension := by simpa [hfront] using h
          exact ⟨hname, hlast, hfront⟩
      · rintro ⟨hname', hext, hstem⟩
        have hcut' := Text.splitLast?_eq_some_iff.mpr ⟨hname', hext⟩
        obtain ⟨rfl, rfl⟩ : front = stem ∧ last = extension := by
          rw [hcut'] at hcut
          simpa [eq_comm] using hcut
        simp [hstem]

/-- A stem that a bare extension is put behind is found again. -/
theorem splitExtension_suffixed {stem : List Char} {extension : String} (hstem : stem ≠ [])
    (hbare : IsBare extension) :
    splitExtension (stem ++ '.' :: extension.toList) = (stem, some extension.toList) :=
  splitExtension_eq_some_iff.mpr ⟨rfl, hbare.dot_not_mem, hstem⟩

/-- A path has an extension exactly when its file name is a stem, a dot and that
extension. -/
theorem extension?_eq_some_iff {p : Path} {extension : String} :
    p.extension? = some extension ↔
      ∃ name stem, p.fileName? = some name ∧
        splitExtension name.toList = (stem, some extension.toList) := by
  unfold extension?
  constructor
  · intro h
    obtain ⟨name, hname, h⟩ := Option.bind_eq_some_iff.mp h
    obtain ⟨cut, hcut, h⟩ := Option.bind_eq_some_iff.mp h
    obtain rfl : String.ofList cut = extension := by simpa using h
    exact ⟨name, (splitExtension name.toList).1, hname, by rw [String.toList_ofList, ← hcut]⟩
  · rintro ⟨name, stem, hname, hcut⟩
    simp [hname, hcut]

theorem isTracked_iff {e : Extensions} {p : Path} :
    e.isTracked p = true ↔ p.extension? = some e.source := by
  simp [Extensions.isTracked]

/-- The path ends in the piece of its last component: no slash and no dot follows. -/
def EndsInName (p : Path) : Prop :=
  ∃ front last, p.pieces = front ++ [last] ∧ isIdle last = false

theorem isName_suffixed {stem : List Char} {extension : String} (hstem : '/' ∉ stem)
    (hne : stem ≠ []) (hbare : IsBare extension) : IsName (stem ++ '.' :: extension.toList) := by
  obtain ⟨hsome, hchars⟩ := hbare
  refine ⟨?_, by simp, ?_, ?_⟩
  · intro hmem
    rcases List.mem_append.mp hmem with h | h
    · exact hstem h
    · rcases List.mem_cons.mp h with h | h
      · exact absurd h (by decide)
      · exact (hchars _ h).2.1 rfl
  · intro h
    have hlen := congrArg List.length h
    have hpos := List.length_pos_iff.mpr hne
    simp at hlen
    omega
  · intro h
    obtain ⟨c, cs, hcs⟩ := List.exists_cons_of_ne_nil hsome
    obtain ⟨d, ds, hds⟩ := List.exists_cons_of_ne_nil hne
    rw [hcs, hds] at h
    have hc : c ≠ '.' := (hchars c (by simp [hcs])).1
    have hlen := congrArg List.length h
    have hds' : ds = [] := by
      apply List.eq_nil_of_length_eq_zero
      simp at hlen
      omega
    simp [hds'] at h

/-- What becomes of the last component, a name with the given stem, when it gets the
extension `new`. Where nothing follows it, the stem `.` leaves a step upward. -/
def renamed (stem : List Char) (isLast : Bool) (new : String) : Component :=
  if stem = ['.'] ∧ isLast then .up else .name (String.ofList (stem ++ '.' :: new.toList))

/-- The pieces of a path with a file name: those in front of the name, the name, and some
that stand for nothing. -/
theorem pieces_of_fileName? {p : Path} {name : String} (h : p.fileName? = some name) :
    ∃ before tail, p.lastPiece? = some (before, name.toList) ∧
      p.pieces = before ++ name.toList :: tail ∧ inner tail = [] := by
  have hfile := fileName?_eq_some_iff.mp h
  cases hlast : p.lastPiece? with
  | none => simp [fileName?, hlast] at h
  | some cut =>
      obtain ⟨before, last⟩ := cut
      rw [components_of_lastPiece? hlast] at hfile
      have hlast' : (if last = ['.'] then Component.here else componentOf last) = .name name := by
        simpa using hfile
      have hdot : last ≠ ['.'] := by
        intro hd
        simp [hd] at hlast'
      have hup : last ≠ ['.', '.'] := by
        intro hu
        simp [hu, componentOf] at hlast'
      have hname : last = name.toList := by
        simp only [if_neg hdot, componentOf, if_neg hup, Component.name.injEq] at hlast'
        rw [← hlast', String.toList_ofList]
      rcases lastPiece?_eq_some hlast with ⟨tail, hpieces, -, htail⟩ | ⟨-, hd, -⟩
      · exact ⟨before, tail, by rw [hname], by rw [hpieces, hname], htail⟩
      · exact absurd hd hdot

theorem isIdle_of_isName {piece : List Char} (h : IsName piece) : isIdle piece = false := by
  simp [isIdle, h.2.1, h.2.2.1]

/-- A path ends in its file name exactly when no piece stands behind it. -/
theorem endsInName_iff {p : Path} {before tail : List (List Char)} {name : List Char}
    (hname : IsName name) (hpieces : p.pieces = before ++ name :: tail) (htail : inner tail = []) :
    p.EndsInName ↔ tail = [] := by
  constructor
  · rintro ⟨front, final, hfront, hfinal⟩
    rcases List.eq_nil_or_concat tail with h | ⟨more, piece, h⟩
    · exact h
    · -- a piece behind the name stands for nothing, so it is not the final one
      rw [List.concat_eq_append] at h
      have hsame : piece = final := by
        rw [hpieces, h] at hfront
        have hget := congrArg List.getLast? hfront
        simpa [List.getLast?_cons] using hget
      rw [h, inner_append] at htail
      have hnil : inner [piece] = [] := (List.append_eq_nil_iff.mp htail).2
      rw [hsame, inner_cons_of_not_idle hfinal] at hnil
      cases hnil
  · rintro rfl
    exact ⟨before, name, hpieces, isIdle_of_isName hname⟩

/-- Another extension is written into the last piece that names something, and what followed
that piece is dropped. -/
theorem pieces_withExtension {p : Path} {name new : String} {stem old : List Char}
    (hname : p.fileName? = some name) (hcut : splitExtension name.toList = (stem, some old))
    (hbare : IsBare new) :
    ∃ (before : List (List Char)) (isLast : Bool) (last : List Char),
      p.lastPiece? = some (before, name.toList) ∧ (isLast = true ↔ p.EndsInName) ∧
        (p.withExtension new).pieces = before ++ [last] ∧ isIdle last = false ∧
        componentOf last = renamed stem isLast new := by
  have hvalid := isName_of_fileName? hname
  obtain ⟨before, tail, hlast, hpieces, htail⟩ := pieces_of_fileName? hname
  obtain ⟨hstemName, -, hstem⟩ := splitExtension_eq_some_iff.mp hcut
  have hstemFree : '/' ∉ stem := fun h => hvalid.1 (by simp [hstemName, h])
  have hfree := mem_pieces_of_lastPiece? hlast
  have hsuffixed := isName_suffixed hstemFree hstem hbare
  let isLast : Bool := decide (p.pieces.length = before.length + 1)
  have hends : isLast = true ↔ p.EndsInName := by
    rw [endsInName_iff hvalid hpieces htail]
    simp [isLast, hpieces]
  have hpath : p.withExtension new =
      ofPieces (before ++ [renameExtension name.toList isLast new]) := by
    simp [withExtension, hlast, hvalid.2.2.1, hvalid.2.2.2, ofPieces, isLast]
  have hpiece : '/' ∉ renameExtension name.toList isLast new ∧
      isIdle (renameExtension name.toList isLast new) = false ∧
      componentOf (renameExtension name.toList isLast new) = renamed stem isLast new := by
    simp only [renameExtension, hcut, renamed]
    split
    · exact ⟨by decide, by decide, rfl⟩
    · exact ⟨hsuffixed.1, isIdle_of_isName hsuffixed, componentOf_of_isName hsuffixed⟩
  have hpieces' : ∀ piece ∈ before ++ [renameExtension name.toList isLast new],
      '/' ∉ piece := by
    intro piece hmem
    rcases List.mem_append.mp hmem with h | h
    · exact hfree piece h
    · rw [List.mem_singleton.mp h]
      exact hpiece.1
  exact ⟨before, isLast, _, hlast, hends, by rw [hpath, pieces_ofPieces (by simp) hpieces'],
    hpiece.2⟩

/-- Another extension changes the last component and nothing else. -/
theorem components_withExtension {p : Path} {name new : String} {stem old : List Char}
    (hname : p.fileName? = some name) (hcut : splitExtension name.toList = (stem, some old))
    (hbare : IsBare new) :
    ∃ isLast : Bool, (isLast = true ↔ p.EndsInName) ∧
      (p.withExtension new).components =
        p.components.dropLast ++ [renamed stem isLast new] ∧
      (p.withExtension new).EndsInName := by
  obtain ⟨before, isLast, last, hlast, hends, hpieces, hidle, hcomponent⟩ :=
    pieces_withExtension hname hcut hbare
  have hdrop : p.components.dropLast = leading before := by
    rw [components_of_lastPiece? hlast, List.dropLast_concat]
  refine ⟨isLast, hends, ?_, before, last, hpieces, hidle⟩
  rw [hdrop, components_eq_componentsOf, hpieces, componentsOf_append hidle,
    inner_cons_of_not_idle hidle, hcomponent]
  rfl

/-- What stays and what changes when a path with one extension gets another. -/
theorem components_swap {p : Path} {name old new : String} {stem : List Char}
    (hname : p.fileName? = some name)
    (hcut : splitExtension name.toList = (stem, some old.toList)) (hbare : IsBare new) :
    ∃ isLast : Bool, (isLast = true ↔ p.EndsInName) ∧
      (Extensions.swap old new p).components =
        p.components.dropLast ++ [renamed stem isLast new] ∧
      (Extensions.swap old new p).EndsInName := by
  have hext : p.extension? = some old := extension?_eq_some_iff.mpr ⟨name, stem, hname, hcut⟩
  rw [Extensions.swap, if_pos hext]
  exact components_withExtension hname hcut hbare

theorem swap_of_extension?_ne {p : Path} {old new : String} (h : p.extension? ≠ some old) :
    Extensions.swap old new p = p := if_neg h

/-- A path whose extension was swapped has the new one, unless its name got lost. -/
theorem extension?_swap {p : Path} {old new name : String} (hext : p.extension? = some old)
    (hbare : IsBare new) (hname : (Extensions.swap old new p).fileName? = some name) :
    (Extensions.swap old new p).extension? = some new := by
  obtain ⟨before, stem, hbefore, hcut⟩ := extension?_eq_some_iff.mp hext
  obtain ⟨isLast, -, hcomponents, -⟩ := components_swap hbefore hcut hbare
  have hlast := fileName?_eq_some_iff.mp hname
  rw [hcomponents, List.getLast?_concat, Option.some.injEq] at hlast
  have hrenamed : name = String.ofList (stem ++ '.' :: new.toList) := by
    unfold renamed at hlast
    split at hlast
    · cases hlast
    · exact (Component.name.inj hlast).symm
  obtain ⟨-, -, hstem⟩ := splitExtension_eq_some_iff.mp hcut
  refine extension?_eq_some_iff.mpr ⟨name, stem, hname, ?_⟩
  rw [hrenamed, String.toList_ofList]
  exact splitExtension_suffixed hstem hbare

theorem not_endsInName_join_empty (a : Path) : ¬ (a.join ⟨""⟩).EndsInName := by
  rintro ⟨front, last, hpieces, hidle⟩
  have hempty : (⟨""⟩ : Path).pieces = [[]] := by decide
  rw [pieces_join (by decide), hempty] at hpieces
  rw [← (List.append_singleton_inj.mp hpieces).2] at hidle
  cases hidle

/-- The stem can be told from what becomes of the component. -/
theorem stem_eq_of_renamed_eq {stem stem' : List Char} {isLast isLast' : Bool} {new : String}
    (h : renamed stem isLast new = renamed stem' isLast' new) : stem = stem' := by
  unfold renamed at h
  split at h <;> split at h
  · next h1 h2 => rw [h1.1, h2.1]
  · cases h
  · cases h
  · simpa [String.ofList_inj] using h

theorem renamed_inj {stem stem' : List Char} {new : String} :
    renamed stem true new = renamed stem' true new ↔ stem = stem' := by
  constructor
  · exact stem_eq_of_renamed_eq
  · rintro rfl
    rfl

/-- Under two extensions a name becomes the same only where it is lost. -/
theorem renamed_eq_renamed_iff {stem stem' : List Char} {new new' : String} (hnew : IsBare new)
    (hnew' : IsBare new') (hne : new ≠ new') :
    renamed stem true new = renamed stem' true new' ↔ stem = ['.'] ∧ stem' = ['.'] := by
  constructor
  · intro h
    unfold renamed at h
    split at h <;> split at h
    · next h1 h2 => exact ⟨h1.1, h2.1⟩
    · cases h
    · cases h
    · have hlist : stem ++ '.' :: new.toList = stem' ++ '.' :: new'.toList :=
        String.ofList_inj.mp (Component.name.inj h)
      have hleft : Text.splitLast? '.' (stem ++ '.' :: new.toList) = some (stem, new.toList) :=
        Text.splitLast?_eq_some_iff.mpr ⟨rfl, hnew.dot_not_mem⟩
      have hright : Text.splitLast? '.' (stem ++ '.' :: new.toList) = some (stem', new'.toList) :=
        Text.splitLast?_eq_some_iff.mpr ⟨hlist, hnew'.dot_not_mem⟩
      rw [hleft] at hright
      obtain ⟨-, htext⟩ : stem = stem' ∧ new.toList = new'.toList := by simpa using hright
      exact absurd (String.toList_inj.mp htext) hne
  · rintro ⟨rfl, rfl⟩
    simp [renamed]

theorem renamed_eq_iff {stem stem' : List Char} {new new' : String} (hnew : IsBare new)
    (hnew' : IsBare new') :
    renamed stem true new = renamed stem' true new' ↔
      stem = stem' ∧ (stem = ['.'] ∨ new = new') := by
  by_cases hne : new = new'
  · subst hne
    rw [renamed_inj]
    simp
  · rw [renamed_eq_renamed_iff hnew hnew' hne]
    constructor
    · rintro ⟨rfl, rfl⟩
      exact ⟨rfl, .inl rfl⟩
    · rintro ⟨rfl, hdot | h⟩
      · exact ⟨hdot, hdot⟩
      · exact absurd h hne

/-! ### A last component with another suffix -/

/-- A file name with the suffix `new` where it has the suffix `old`. -/
def resuffix (old new name : String) : String :=
  if (splitExtension name.toList).2 = some old.toList then
    String.ofList ((splitExtension name.toList).1 ++ '.' :: new.toList)
  else name

/-- A last component with the suffix `new` where it has the suffix `old`. A name that is two
dots and the suffix keeps nothing but the dots: it is left as a step upward. -/
def resuffixed (old new : String) : Component → Component
  | .name text => if text = ".." ++ old then .up else .name (resuffix old new text)
  | c => c

theorem splitExtension_dots_iff {name old : String} (hold : IsBare old) :
    splitExtension name.toList = (['.'], some old.toList) ↔ name = ".." ++ old := by
  rw [splitExtension_eq_some_iff, ← String.toList_inj, String.toList_append]
  constructor
  · rintro ⟨hname, -, -⟩
    exact hname
  · intro hname
    exact ⟨hname, hold.dot_not_mem, by decide⟩

theorem resuffixed_of_splitExtension {name old : String} {stem : List Char} (hold : IsBare old)
    (new : String) (hcut : splitExtension name.toList = (stem, some old.toList)) :
    resuffixed old new (.name name) = renamed stem true new := by
  have hdots : splitExtension name.toList = (['.'], some old.toList) ↔ name = ".." ++ old :=
    splitExtension_dots_iff hold
  rw [hcut, Prod.mk.injEq, eq_self, and_true] at hdots
  simp only [resuffixed, renamed, resuffix, hcut, and_true, if_true, hdots]

theorem resuffixed_renamed {stem : List Char} {isLast : Bool} {old : String} (hstem : stem ≠ [])
    (hold : IsBare old) (new : String) :
    resuffixed old new (renamed stem isLast old) = renamed stem true new := by
  by_cases hup : stem = ['.'] ∧ isLast = true
  · simp [renamed, resuffixed, hup]
  · have hcut : splitExtension (String.ofList (stem ++ '.' :: old.toList)).toList =
        (stem, some old.toList) := by
      rw [String.toList_ofList, splitExtension_suffixed hstem hold]
    rw [renamed, if_neg hup]
    exact resuffixed_of_splitExtension hold new hcut

theorem ne_dots_of_splitExtension_ne {name old : String} (hold : IsBare old)
    (hcut : (splitExtension name.toList).2 ≠ some old.toList) : name ≠ ".." ++ old := by
  intro hdots
  rw [← splitExtension_dots_iff hold] at hdots
  apply hcut
  rw [hdots]

theorem resuffixed_of_splitExtension_ne {name old : String} (hold : IsBare old) (new : String)
    (hcut : (splitExtension name.toList).2 ≠ some old.toList) :
    resuffixed old new (.name name) = .name name := by
  have hdots := ne_dots_of_splitExtension_ne hold hcut
  simp only [resuffixed, resuffix, if_neg hdots, if_neg hcut]

theorem resuffixed_of_extension?_ne {p : Path} {front : List Component} {last : Component}
    {old : String} (hold : IsBare old) (new : String) (h : p.components = front ++ [last])
    (hext : p.extension? ≠ some old) : resuffixed old new last = last := by
  cases last with
  | root => rfl
  | here => rfl
  | up => rfl
  | name name =>
      have hname : p.fileName? = some name := by
        rw [fileName?_eq_some_iff, h]
        simp
      refine resuffixed_of_splitExtension_ne hold new fun hcut => ?_
      exact hext (extension?_eq_some_iff.mpr
        ⟨name, (splitExtension name.toList).1, hname, Prod.ext rfl hcut⟩)

/-- The swap of a suffix at the end of a path does to the last component what it does to a
name, and nothing else. -/
theorem components_swap_of_endsInName {p : Path} {front : List Component} {last : Component}
    {old new : String} (hold : IsBare old) (hnew : IsBare new) (hends : p.EndsInName)
    (h : p.components = front ++ [last]) :
    (Extensions.swap old new p).components = front ++ [resuffixed old new last] ∧
      (Extensions.swap old new p).EndsInName := by
  by_cases hext : p.extension? = some old
  · obtain ⟨name, stem, hname, hcut⟩ := extension?_eq_some_iff.mp hext
    obtain ⟨isLast, hisLast, hswap, hends'⟩ := components_swap hname hcut hnew
    obtain rfl : last = .name name := by
      have hlast := fileName?_eq_some_iff.mp hname
      rw [h] at hlast
      simpa using hlast
    rw [hisLast.mpr hends, h, List.dropLast_concat] at hswap
    rw [resuffixed_of_splitExtension hold new hcut]
    exact ⟨hswap, hends'⟩
  · rw [swap_of_extension?_ne hext, resuffixed_of_extension?_ne hold new h hext]
    exact ⟨h, hends⟩

/-! ### Names below a path -/

/-- Below any path, inner components that end in a name give a path with that file name,
and nothing follows it. -/
theorem fileName?_join_ofComponents (a : Path) {front : List Component} {name : String}
    (hfront : ∀ c ∈ front, c.IsInner) (hname : IsName name.toList) :
    (a.join (ofComponents (front ++ [.name name]))).fileName? = some name ∧
      (a.join (ofComponents (front ++ [.name name]))).EndsInName := by
  have hcs : ∀ c ∈ front ++ [Component.name name], c.IsInner := by
    intro c hc
    rcases List.mem_append.mp hc with h | h
    · exact hfront c h
    · rw [List.mem_singleton.mp h]
      exact hname
  have hpieces := pieces_ofComponents (by simp) hcs
  have habs : (ofComponents (front ++ [.name name])).isAbsolute = false := by
    cases front with
    | nil => exact isAbsolute_of_pieces hpieces hname.2.1
    | cons first rest => exact isAbsolute_of_pieces hpieces (piece_ne_nil (hcs first (by simp)))
  constructor
  · rw [fileName?_eq_some_iff, components_join_ofComponents a (by simp) hcs]
    simp
  · refine ⟨dropSlash a.pieces ++ front.map Component.piece, name.toList, ?_,
      isIdle_of_isName hname⟩
    rw [pieces_join habs, hpieces]
    simp [Component.piece, Component.text]

end Path
end ModuleCache
