import ModuleCache.Proofs.Path.Suffix
import ModuleCache.Proofs.Result

/-!
Three words as the extensions of a cache, and the names they lead to. A word is accepted for
what it is and for being none of the others, and that is what keeps the names apart: what has
become an artifact is no source any more, what has become a map is no artifact, and two sources
with one artifact or one map are one source. The directory and the stem of a source stay, except
where nothing but a dot stands in front of the extension.
-/

namespace ModuleCache

namespace Path

theorem lastPiece?_of_pieces {p : Path} {before : List (List Char)} {last : List Char}
    (h : p.pieces = before ++ [last]) (hidle : isIdle last = false) :
    p.lastPiece? = some (before, last) := by
  have hreverse : p.pieces.reverse.dropWhile isIdle = last :: before.reverse := by
    simp [h, hidle]
  simp only [lastPiece?, hreverse, List.reverse_reverse]

/-- A path under another extension stays in its directory. -/
theorem parent?_swap (old : String) {new : String} (hbare : IsBare new) (p : Path) :
    (Extensions.swap old new p).parent? = p.parent? := by
  by_cases hext : p.extension? = some old
  · obtain ⟨name, stem, hname, hcut⟩ := extension?_eq_some_iff.mp hext
    obtain ⟨before, isLast, last, hlast, -, hpieces, hidle, -⟩ :=
      pieces_withExtension hname hcut hbare
    rw [Extensions.swap, if_pos hext, parent?, parent?, hlast,
      lastPiece?_of_pieces hpieces hidle]
    rfl
  · rw [swap_of_extension?_ne hext]

theorem extension?_swap_ne {old new : String} (hne : old ≠ new) (hbare : IsBare new) (p : Path) :
    (Extensions.swap old new p).extension? ≠ some old := by
  by_cases hext : p.extension? = some old
  · intro hold
    obtain ⟨name, -, hname, -⟩ := extension?_eq_some_iff.mp hold
    have hnew := extension?_swap hext hbare hname
    rw [hold] at hnew
    exact hne (Option.some.inj hnew)
  · rwa [swap_of_extension?_ne hext]

/-- What was swapped once is not swapped again. -/
theorem swap_swap {old new : String} (hne : old ≠ new) (hbare : IsBare new) (p : Path) :
    Extensions.swap old new (Extensions.swap old new p) = Extensions.swap old new p :=
  swap_of_extension?_ne (extension?_swap_ne hne hbare p)

/-- The cut of the file name gives the stem and the extension of a path. -/
theorem cut_of_fileName? {p : Path} {name : String} {stem extension : List Char}
    (hname : p.fileName? = some name) (hcut : splitExtension name.toList = (stem, some extension)) :
    p.stem? = some (String.ofList stem) ∧ p.extension? = some (String.ofList extension) := by
  simp [stem?, extension?, hname, hcut]

/-- `q` is `p` under another extension, beside it and with the same stem. -/
structure Renames (p q : Path) (extension : String) : Prop where
  parent?_eq : q.parent? = p.parent?
  stem?_eq : q.stem? = p.stem?
  extension?_eq : q.extension? = some extension

/-- `q` is `p` under another extension, but for the paths that have lost their name: there the
last component has become a step upward. -/
structure IsLedTo (p q : Path) (extension : String) (lost : Prop) : Prop where
  renames_iff : Renames p q extension ↔ ¬lost
  parent?_eq : q.parent? = p.parent?
  climbs : lost → q.components = p.components.dropLast ++ [.up]

/-- The last component tells whether the name is lost. -/
theorem isLedTo_of_renamed {p q : Path} {stem : List Char} {isLast : Bool} {new : String}
    {lost : Prop} (hstem : p.stem? = some (String.ofList stem)) (hne : stem ≠ [])
    (hbare : IsBare new) (hparent : q.parent? = p.parent?)
    (hq : q.components = p.components.dropLast ++ [renamed stem isLast new])
    (hlost : lost ↔ stem = ['.'] ∧ isLast = true) : IsLedTo p q new lost := by
  refine ⟨⟨?_, ?_⟩, hparent, ?_⟩
  · intro h hup
    obtain ⟨name, -, hname, -⟩ := extension?_eq_some_iff.mp h.extension?_eq
    have hlast := fileName?_eq_some_iff.mp hname
    rw [hq, List.getLast?_concat, renamed, if_pos (hlost.mp hup)] at hlast
    cases hlast
  · intro hup
    rw [hlost] at hup
    have hname : q.fileName? = some (String.ofList (stem ++ '.' :: new.toList)) := by
      rw [fileName?_eq_some_iff, hq, List.getLast?_concat, renamed, if_neg hup]
    have hcut : splitExtension (String.ofList (stem ++ '.' :: new.toList)).toList =
        (stem, some new.toList) := by
      rw [String.toList_ofList, splitExtension_suffixed hne hbare]
    obtain ⟨hstem', hext⟩ := cut_of_fileName? hname hcut
    exact ⟨hparent, hstem'.trans hstem.symm, by rw [hext, String.ofList_toList]⟩
  · intro hup
    rw [hq, renamed, if_pos (hlost.mp hup)]

end Path

namespace Extensions

open ModuleCache.Path

/-! ### Accepting three words -/

theorem checkBare_of_isBare (role : Role) {value : String} (h : IsBare value) :
    checkBare role value = .ok ⟨h⟩ := dif_pos h

theorem checkDistinct_of_ne (first second : Role) {a b : String} (h : a ≠ b) :
    checkDistinct first second a b = .ok ⟨h⟩ := dif_neg h

/-- The words of a triple are accepted and give the triple. -/
theorem ofWords_words (e : Extensions) : ofWords e.source e.output e.map = .ok e := by
  unfold ofWords
  rw [checkBare_of_isBare _ e.source_bare, checkBare_of_isBare _ e.output_bare,
    checkBare_of_isBare _ e.map_bare, checkDistinct_of_ne _ _ e.source_ne_output,
    checkDistinct_of_ne _ _ e.source_ne_map, checkDistinct_of_ne _ _ e.output_ne_map]
  rfl

theorem words_of_ofWords {source output map : String} {e : Extensions}
    (h : ofWords source output map = .ok e) :
    e.source = source ∧ e.output = output ∧ e.map = map := by
  unfold ofWords at h
  obtain ⟨⟨hsource⟩, -, h⟩ := bind_eq_ok.mp h
  obtain ⟨⟨houtput⟩, -, h⟩ := bind_eq_ok.mp h
  obtain ⟨⟨hmap⟩, -, h⟩ := bind_eq_ok.mp h
  obtain ⟨⟨hsourceOutput⟩, -, h⟩ := bind_eq_ok.mp h
  obtain ⟨⟨hsourceMap⟩, -, h⟩ := bind_eq_ok.mp h
  obtain ⟨⟨houtputMap⟩, -, h⟩ := bind_eq_ok.mp h
  obtain rfl := pure_eq_ok.mp h
  exact ⟨rfl, rfl, rfl⟩

theorem exists_ofWords_iff {source output map : String} :
    (∃ e, ofWords source output map = .ok e) ↔
      (IsBare source ∧ IsBare output ∧ IsBare map) ∧
        source ≠ output ∧ source ≠ map ∧ output ≠ map := by
  constructor
  · rintro ⟨e, he⟩
    obtain ⟨rfl, rfl, rfl⟩ := words_of_ofWords he
    exact ⟨⟨e.source_bare, e.output_bare, e.map_bare⟩, e.source_ne_output, e.source_ne_map,
      e.output_ne_map⟩
  · rintro ⟨⟨hsource, houtput, hmap⟩, hsourceOutput, hsourceMap, houtputMap⟩
    exact ⟨_, ofWords_words ⟨source, output, map, hsource, houtput, hmap, hsourceOutput, hsourceMap,
      houtputMap⟩⟩

/-! ### The names of a source's artifact and map -/

theorem isTracked_toOutput (e : Extensions) (p : Path) : e.isTracked (e.toOutput p) = false := by
  rw [← Bool.not_eq_true, isTracked_iff]
  exact extension?_swap_ne e.source_ne_output e.output_bare p

section

variable {e : Extensions} {p : Path}

theorem components_toOutput {name : String} {stem : List Char} (hname : p.fileName? = some name)
    (hcut : splitExtension name.toList = (stem, some e.source.toList)) :
    ∃ isLast : Bool, (isLast = true ↔ p.EndsInName) ∧
      (e.toOutput p).components = p.components.dropLast ++ [renamed stem isLast e.output] ∧
      (e.toOutput p).EndsInName :=
  components_swap hname hcut e.output_bare

/-- The artifact's name ends its path, whatever followed the source's, so what the map's name is
depends on the stem alone. -/
theorem components_toMap_toOutput {name : String} {stem : List Char}
    (hname : p.fileName? = some name)
    (hcut : splitExtension name.toList = (stem, some e.source.toList)) :
    (e.toMap (e.toOutput p)).components = p.components.dropLast ++ [renamed stem true e.map] := by
  obtain ⟨-, -, hstem⟩ := splitExtension_eq_some_iff.mp hcut
  obtain ⟨isLast, -, houtput, hends⟩ := components_toOutput hname hcut
  obtain ⟨hmap, -⟩ := components_swap_of_endsInName e.output_bare e.map_bare hends houtput
  rwa [resuffixed_renamed hstem e.output_bare] at hmap

/-- A source loses its name where that is two dots and the extension. -/
theorem stem_eq_dot_iff {name : String} {stem : List Char} (hname : p.fileName? = some name)
    (hcut : splitExtension name.toList = (stem, some e.source.toList)) :
    p.fileName? = some (".." ++ e.source) ↔ stem = ['.'] := by
  rw [hname, Option.some.injEq, ← splitExtension_dots_iff e.source_bare, hcut]
  simp

/-- The artifact of a source keeps the source's name, unless two dots and the extension are the
end of the path. -/
theorem isLedTo_toOutput (h : e.isTracked p = true) :
    IsLedTo p (e.toOutput p) e.output
      (p.fileName? = some (".." ++ e.source) ∧ p.EndsInName) := by
  obtain ⟨name, stem, hname, hcut⟩ := extension?_eq_some_iff.mp (isTracked_iff.mp h)
  obtain ⟨-, -, hstem⟩ := splitExtension_eq_some_iff.mp hcut
  obtain ⟨isLast, hends, houtput, -⟩ := components_toOutput hname hcut
  refine isLedTo_of_renamed (cut_of_fileName? hname hcut).1 hstem e.output_bare
    (parent?_swap e.source e.output_bare p) houtput ?_
  rw [stem_eq_dot_iff hname hcut, hends]

/-- So does the map of that artifact, unless two dots and the extension are the name. -/
theorem isLedTo_toMap_toOutput (h : e.isTracked p = true) :
    IsLedTo p (e.toMap (e.toOutput p)) e.map (p.fileName? = some (".." ++ e.source)) := by
  obtain ⟨name, stem, hname, hcut⟩ := extension?_eq_some_iff.mp (isTracked_iff.mp h)
  obtain ⟨-, -, hstem⟩ := splitExtension_eq_some_iff.mp hcut
  have hparent : (e.toMap (e.toOutput p)).parent? = p.parent? :=
    (parent?_swap e.output e.map_bare _).trans (parent?_swap e.source e.output_bare p)
  refine isLedTo_of_renamed (cut_of_fileName? hname hcut).1 hstem e.map_bare hparent
    (components_toMap_toOutput hname hcut) ?_
  rw [stem_eq_dot_iff hname hcut]
  simp

end

/-! ### Telling sources apart -/

/-- A source is known by the components in front of its name and what becomes of its name under
another extension. -/
theorem same_of_renamed {e : Extensions} {p q : Path} {name name' : String}
    {stem stem' : List Char} {isLast isLast' : Bool} {new : String}
    (hp : p.fileName? = some name) (hq : q.fileName? = some name')
    (hcut : splitExtension name.toList = (stem, some e.source.toList))
    (hcut' : splitExtension name'.toList = (stem', some e.source.toList))
    (h : p.components.dropLast ++ [renamed stem isLast new] =
      q.components.dropLast ++ [renamed stem' isLast' new]) : p.same q = true := by
  obtain ⟨hfront, hlast⟩ := List.append_singleton_inj.mp h
  obtain rfl := stem_eq_of_renamed_eq hlast
  have hnames : name = name' := by
    rw [← String.toList_inj, (splitExtension_eq_some_iff.mp hcut).1,
      (splitExtension_eq_some_iff.mp hcut').1]
  rw [same_iff, components_eq_of_fileName? hp, components_eq_of_fileName? hq, hfront, hnames]

theorem same_of_toOutput {e : Extensions} {p q : Path} (hp : e.isTracked p = true)
    (hq : e.isTracked q = true) (h : (e.toOutput p).same (e.toOutput q) = true) :
    p.same q = true := by
  obtain ⟨name, stem, hname, hcut⟩ := extension?_eq_some_iff.mp (isTracked_iff.mp hp)
  obtain ⟨name', stem', hname', hcut'⟩ := extension?_eq_some_iff.mp (isTracked_iff.mp hq)
  obtain ⟨isLast, -, houtput, -⟩ := components_toOutput hname hcut
  obtain ⟨isLast', -, houtput', -⟩ := components_toOutput hname' hcut'
  rw [same_iff, houtput, houtput'] at h
  exact same_of_renamed hname hname' hcut hcut' h

theorem same_of_toMap {e : Extensions} {p q : Path} (hp : e.isTracked p = true)
    (hq : e.isTracked q = true)
    (h : (e.toMap (e.toOutput p)).same (e.toMap (e.toOutput q)) = true) : p.same q = true := by
  obtain ⟨name, stem, hname, hcut⟩ := extension?_eq_some_iff.mp (isTracked_iff.mp hp)
  obtain ⟨name', stem', hname', hcut'⟩ := extension?_eq_some_iff.mp (isTracked_iff.mp hq)
  rw [same_iff, components_toMap_toOutput hname hcut, components_toMap_toOutput hname' hcut'] at h
  exact same_of_renamed hname hname' hcut hcut' h

/-! ### The three words and their paths -/

/-- What the extensions make of a path. -/
structure Swaps (e : Extensions) (p : Path) : Prop where
  output_untracked : e.isTracked (e.toOutput p) = false
  output_again : e.toOutput (e.toOutput p) = e.toOutput p
  map_no_output : (e.toMap p).extension? ≠ some e.output
  map_again : e.toMap (e.toMap p) = e.toMap p
  output_led : e.isTracked p = true →
    IsLedTo p (e.toOutput p) e.output
      (p.fileName? = some (".." ++ e.source) ∧ p.EndsInName)
  map_led : e.isTracked p = true →
    IsLedTo p (e.toMap (e.toOutput p)) e.map (p.fileName? = some (".." ++ e.source))

theorem swaps (e : Extensions) (p : Path) : e.Swaps p where
  output_untracked := e.isTracked_toOutput p
  output_again := swap_swap e.source_ne_output e.output_bare p
  map_no_output := extension?_swap_ne e.output_ne_map e.map_bare p
  map_again := swap_swap e.output_ne_map e.map_bare p
  output_led := isLedTo_toOutput
  map_led := isLedTo_toMap_toOutput

/-- Three words are accepted exactly when each is a bare word and no two are equal. Then
artifacts are no sources and maps no artifacts, sources keep directory and stem except where
nothing but a dot is in front of the extension, and no two sources share a name. -/
theorem accepted_words_swap (source output map : String) :
    ((∃ e, ofWords source output map = .ok e) ↔
      (IsBare source ∧ IsBare output ∧ IsBare map) ∧
        source ≠ output ∧ source ≠ map ∧ output ≠ map) ∧
    ∀ e, ofWords source output map = .ok e →
      (e.source = source ∧ e.output = output ∧ e.map = map) ∧ (∀ p, e.Swaps p) ∧
        ∀ p q, e.isTracked p = true → e.isTracked q = true →
          ((e.toOutput p).same (e.toOutput q) = true → p.same q = true) ∧
          ((e.toMap (e.toOutput p)).same (e.toMap (e.toOutput q)) = true → p.same q = true) := by
  refine ⟨exists_ofWords_iff, ?_⟩
  intro e he
  refine ⟨words_of_ofWords he, e.swaps, ?_⟩
  intro p q hp hq
  exact ⟨same_of_toOutput hp hq, same_of_toMap hp hq⟩

/-- Where only a dot stands in front of the extension the name is lost. Where a name and a dot
stand there it is kept, and the slash behind it goes. -/
theorem dots_coffee_keeps_no_stem :
    standard.isTracked ⟨"lib/..coffee"⟩ = true ∧
      (standard.toOutput ⟨"lib/..coffee"⟩).components = [.name "lib", .up] ∧
      ¬Renames ⟨"lib/..coffee"⟩ (standard.toOutput ⟨"lib/..coffee"⟩) "js" ∧
      Renames ⟨"lib/a..coffee/"⟩ (standard.toOutput ⟨"lib/a..coffee/"⟩) "js" ∧
      Renames ⟨"lib/a..coffee/"⟩ (standard.toMap (standard.toOutput ⟨"lib/a..coffee/"⟩)) "map" := by
  have haccepted := ofWords_words standard
  obtain ⟨-, hswaps, -⟩ := (accepted_words_swap "coffee" "js" "map").2 standard haccepted
  have hdots : standard.isTracked ⟨"lib/..coffee"⟩ = true := by decide
  have hnamed : standard.isTracked ⟨"lib/a..coffee/"⟩ = true := by decide
  have hlost : (⟨"lib/..coffee"⟩ : Path).fileName? = some (".." ++ standard.source) ∧
      (⟨"lib/..coffee"⟩ : Path).EndsInName :=
    ⟨by decide, [['l', 'i', 'b']], "..coffee".toList, by decide, by decide⟩
  have hkept : (⟨"lib/a..coffee/"⟩ : Path).fileName? ≠ some (".." ++ standard.source) := by decide
  have hled := (hswaps ⟨"lib/..coffee"⟩).output_led hdots
  refine ⟨hdots, hled.climbs hlost, fun h => hled.renames_iff.mp h hlost, ?_, ?_⟩
  · exact ((hswaps ⟨"lib/a..coffee/"⟩).output_led hnamed).renames_iff.mpr fun h => hkept h.1
  · exact ((hswaps ⟨"lib/a..coffee/"⟩).map_led hnamed).renames_iff.mpr hkept

end Extensions
end ModuleCache
