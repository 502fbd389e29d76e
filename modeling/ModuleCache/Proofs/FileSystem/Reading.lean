import Mathlib.Data.List.Induction
import ModuleCache.Proofs.FileSystem.Operations

/-!
Which file a path leads to, and what can make it lead to another one. A path that climbs only
at its start leads to a file wherever one stands at its end: the directories on its way are
those above the file. So a change that adds directories, and leaves that one file as it is,
does not show through such a path.
-/

namespace ModuleCache

open FileSystem ModuleCache.Path

/-- Nothing but names stands behind a name. -/
def Path.IsForward (p : Path) : Prop :=
  p.components.Pairwise fun c d => c.isName = true → d.isName = true

namespace FileSystem

/-- The file that a path leads to. -/
def fileFound? (fs : FileSystem) (p : Path) : Option (ByteArray × Nat × Time) :=
  match fs.find p with
  | .ok (.file content mode modified) => some (content, mode, modified)
  | _ => none

theorem fileFound?_eq_some {fs : FileSystem} {p : Path} {content : ByteArray} {mode : Nat}
    {modified : Time} : fs.fileFound? p = some (content, mode, modified) ↔
      fs.find p = .ok (.file content mode modified) := by
  unfold fileFound?
  split
  · next found foundMode foundTime hfind => simp [hfind]
  · next hother =>
      constructor
      · intro h
        cases h
      · intro h
        exact absurd h (hother content mode modified)

theorem isFile_iff {fs : FileSystem} {p : Path} :
    fs.isFile p = true ↔ ∃ file, fs.fileFound? p = some file := by
  constructor
  · intro h
    unfold isFile at h
    split at h
    · next content mode modified hfind =>
        exact ⟨(content, mode, modified), fileFound?_eq_some.mpr hfind⟩
    · cases h
  · rintro ⟨⟨content, mode, modified⟩, hfound⟩
    unfold isFile
    rw [fileFound?_eq_some.mp hfound]

/-- What is read depends only on the file that is found, if one is. -/
theorem readText_of_fileFound? {fs fs' : FileSystem} {p : Path}
    (h : fs'.fileFound? p = fs.fileFound? p) (hfile : fs.isFile p = true) :
    fs'.readText p = fs.readText p := by
  obtain ⟨⟨content, mode, modified⟩, hfound⟩ := isFile_iff.mp hfile
  rw [hfound] at h
  unfold readText readBytes
  rw [fileFound?_eq_some.mp hfound, fileFound?_eq_some.mp h]

theorem toOption_readText (fs : FileSystem) (p : Path) :
    (fs.readText p).toOption = (fs.fileFound? p).bind fun (content, mode, _) =>
      if mode &&& 0o400 ≠ 0 then String.fromUTF8? content else none := by
  unfold readText readBytes fileFound?
  cases fs.find p with
  | error cause => rfl
  | ok node =>
      cases node with
      | directory writable modified => rfl
      | file content mode modified =>
          dsimp only [bind, Except.bind, Option.bind]
          by_cases hmode : mode &&& 0o400 = 0
          · rw [if_pos hmode, if_neg (not_not_intro hmode)]
            rfl
          · rw [if_neg hmode, if_pos hmode]
            dsimp only [pure, Except.pure]
            cases String.fromUTF8? content <;> rfl

/-! ### The way to a file -/

/-- In a tree every address above a directory is one. -/
theorem IsTree.above {fs : FileSystem} (h : fs.IsTree) {a : Address} (names : List String)
    (hdirectory : fs.IsDirectoryAt (a ++ names)) : fs.IsDirectoryAt a := by
  induction names using List.reverseRecOn with
  | nil => rwa [List.append_nil] at hdirectory
  | append_singleton front name ih =>
      rw [← List.append_assoc] at hdirectory
      have habove := h.dropLast hdirectory
      rw [List.dropLast_concat] at habove
      exact ih habove

/-- Names lead further down. -/
theorem foldl_addressStep_names {cs : List Component} (h : ∀ c ∈ cs, c.isName = true)
    (a : Address) : ∃ names, cs.foldl addressStep a = a ++ names := by
  induction cs generalizing a with
  | nil => exact ⟨[], (List.append_nil a).symm⟩
  | cons c rest ih =>
      cases c with
      | name text =>
          obtain ⟨names, hnames⟩ := ih (fun d hd => h d (List.mem_cons_of_mem _ hd)) (a ++ [text])
          exact ⟨text :: names, by rw [List.foldl_cons, addressStep, hnames]; simp⟩
      | root => exact absurd (h _ List.mem_cons_self) (by decide)
      | here => exact absurd (h _ List.mem_cons_self) (by decide)
      | up => exact absurd (h _ List.mem_cons_self) (by decide)

/-- A walk that climbs only at its start and ends at a directory of the tree stays inside the
tree, if it succeeds where there are more directories. -/
theorem walk_of_directory {fs fs' : FileSystem} (htree : fs.IsTree) {a b : Address}
    {pieces : List (List Char)} (ha : fs.IsDirectoryAt a) (hb : fs.IsDirectoryAt b)
    (hforward : (inner pieces).Pairwise fun c d => c.isName = true → d.isName = true)
    (hwalk : fs'.walk a pieces = .ok b) : fs.walk a pieces = .ok b := by
  induction pieces generalizing a with
  | nil => exact hwalk
  | cons piece rest ih =>
      have hdirectory := (walk_cons_eq_ok hwalk).1
      rw [walk_cons_of_directory hdirectory] at hwalk
      rw [walk_cons_of_directory ha]
      by_cases hidle : isIdle piece = true
      · rw [if_pos hidle] at hwalk ⊢
        rw [inner_cons_idle hidle] at hforward
        exact ih ha hforward hwalk
      · rw [if_neg hidle] at hwalk ⊢
        rw [inner_cons_of_not_idle (by simpa using hidle), List.pairwise_cons] at hforward
        by_cases hup : piece = ['.', '.']
        · rw [if_pos hup] at hwalk ⊢
          exact ih (htree.dropLast ha) hforward.2 hwalk
        · rw [if_neg hup] at hwalk ⊢
          split at hwalk
          · cases hwalk
          · next hshort =>
              rw [if_neg hshort]
              -- behind the name only names follow, so the rest leads further down
              have hnames : ∀ c ∈ inner rest, c.isName = true := by
                intro c hc
                exact hforward.1 c hc (by simp [componentOf, hup, Component.isName])
              obtain ⟨names, hbelow⟩ := foldl_addressStep_names hnames (a ++ [String.ofList piece])
              rw [← walk_eq_ok hwalk] at hbelow
              rw [hbelow] at hb
              exact ih (htree.above names hb) hforward.2 hwalk

theorem inner_pieces_sublist (p : Path) : (inner p.pieces).Sublist p.components := by
  rw [components_eq_componentsOf]
  cases hp : p.pieces with
  | nil => exact absurd hp p.pieces_ne_nil
  | cons first rest =>
      rw [componentsOf]
      split
      · next hfirst =>
          rw [hfirst, inner_cons_idle rfl]
          split
          · next hrest =>
              rw [hrest]
              exact .slnil
          · exact List.sublist_cons_self _ _
      · next hfirst =>
          split
          · next hdot =>
              rw [hdot, inner_cons_idle rfl]
              exact List.sublist_cons_self _ _
          · next hdot =>
              have hsame := inner_cons_of_not_idle (isIdle_eq_false hfirst hdot) rest
              exact hsame ▸ List.Sublist.refl _

/-- A path that climbs only at its start finds the file at its end, if it finds one there
when there are more directories. -/
theorem find_of_find_file {fs fs' : FileSystem} (htree : fs.IsTree)
    (hstart : fs.IsDirectoryAt fs.current) (hcurrent : fs'.current = fs.current) {p : Path}
    {name : String} (hname : p.fileName? = some name) (hends : p.EndsInName)
    (hforward : p.IsForward) {node : Node} (hlocate : fs'.locate p = .ok (addressFrom fs.current p))
    (hnode : fs.node? (addressFrom fs.current p) = some node) : fs.find p = .ok node := by
  obtain ⟨front, last, hpieces, hidle⟩ := hends
  have hinner := hforward.sublist (inner_pieces_sublist p)
  rw [hpieces, inner_append, List.pairwise_append] at hinner
  obtain ⟨checked, hcheck, hwalk⟩ := bind_eq_ok.mp hlocate
  have hsame : fs'.start p = fs.start p := by
    unfold start
    rw [hcurrent]
  rw [hsame, hpieces] at hwalk
  obtain ⟨mid, hfront, hlast⟩ := walk_append_eq_ok hwalk
  have hbase : fs.IsDirectoryAt (fs.start p) := by
    unfold start
    split
    · exact htree.above fs.current (by simpa using hstart)
    · exact hstart
  have haddress : addressFrom fs.current p = mid ++ [name] := by
    have hlastName : inner [last] = [.name name] := by
      rw [fileName?_eq_some_iff, components_eq_componentsOf, hpieces, componentsOf_append hidle,
        inner_cons_of_not_idle hidle, Path.inner, List.filter_nil, List.map_nil,
        List.getLast?_concat] at hname
      rw [inner_cons_of_not_idle hidle, Path.inner, List.filter_nil, List.map_nil,
        Option.some.inj hname]
    rw [walk_eq_ok hlast, hlastName]
    rfl
  have hmid : fs.IsDirectoryAt mid := htree mid name node (haddress ▸ hnode)
  have hreached := walk_of_directory htree hbase hmid hinner.1 hfront
  refine find_of_locate (bind_eq_ok.mpr ⟨checked, hcheck, ?_⟩) hnode
  rw [hpieces, walk_append, hreached]
  rw [walk_cons_of_directory (walk_cons_eq_ok hlast).1] at hlast
  change fs.walk mid [last] = _
  rw [walk_cons_of_directory hmid]
  exact hlast

/-- What leaves the file that a path finds, the path finds still. -/
theorem Leaves.fileFound?_of_some {fs fs' : FileSystem} {touched : List Address}
    (h : Leaves fs fs' touched) {p : Path} (huntouched : addressFrom fs.current p ∉ touched)
    {file : ByteArray × Nat × Time} (hfound : fs.fileFound? p = some file) :
    fs'.fileFound? p = some file := by
  obtain ⟨content, mode, modified⟩ := file
  obtain ⟨hlocate, hnode⟩ := find_eq_ok (fileFound?_eq_some.mp hfound)
  rw [← fileAt?_eq_some, ← h.files _ huntouched, fileAt?_eq_some] at hnode
  exact fileFound?_eq_some.mpr
    (find_of_locate (locate_mono h.directories h.current hlocate) hnode)

/-- What was read goes on to be read where its file is left. -/
theorem Leaves.readText_of_ok {fs fs' : FileSystem} {touched : List Address}
    (h : Leaves fs fs' touched) {p : Path} (huntouched : addressFrom fs.current p ∉ touched)
    {text : String} (hread : fs.readText p = .ok text) : fs'.readText p = .ok text := by
  obtain ⟨mode, modified, hfind, hreadable⟩ := readText_eq_ok hread
  have hfound := h.fileFound?_of_some huntouched (fileFound?_eq_some.mpr hfind)
  exact readText_of_find (fileFound?_eq_some.mp hfound) hreadable

/-- Through a path that climbs only at its start nothing new shows either, where the file at
its end is left. -/
theorem Leaves.fileFound?_eq {fs fs' : FileSystem} {touched : List Address}
    (h : Leaves fs fs' touched) (htree : fs.IsTree) (hstart : fs.IsDirectoryAt fs.current)
    {p : Path} (hforward : ∀ name, p.fileName? = some name → p.EndsInName →
      p.IsForward ∧ addressFrom fs.current p ∉ touched) :
    fs'.fileFound? p = fs.fileFound? p := by
  apply Option.ext
  rintro ⟨content, mode, modified⟩
  constructor
  · intro hfound
    have hfind := fileFound?_eq_some.mp hfound
    obtain ⟨⟨name, hname⟩, hends⟩ := named_of_find_file (h.tree htree) hfind
    obtain ⟨hforward, huntouched⟩ := hforward name hname hends
    obtain ⟨hlocate, hnode⟩ := find_eq_ok hfind
    rw [h.current] at hlocate hnode
    rw [← fileAt?_eq_some, h.files _ huntouched, fileAt?_eq_some] at hnode
    exact fileFound?_eq_some.mpr
      (find_of_find_file htree hstart h.current hname hends hforward hlocate hnode)
  · intro hfound
    obtain ⟨⟨name, hname⟩, hends⟩ := named_of_find_file htree (fileFound?_eq_some.mp hfound)
    exact h.fileFound?_of_some (hforward name hname hends).2 hfound

end FileSystem
end ModuleCache
