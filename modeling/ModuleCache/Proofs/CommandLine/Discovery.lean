import Mathlib.Data.List.Nodup
import Mathlib.Data.List.Perm.Subperm
import Mathlib.Tactic.Choose
import ModuleCache.CommandLine.Discovery
import ModuleCache.Proofs.FileSystem.Reading
import ModuleCache.Proofs.Path.Order

/-!
Which sources are found below a directory. An entry is known by the names that lead to it from
there. Found is every tracked file with no hidden directory and no cache directory on the way to
it, each of them once, and in the order of paths. What the names are of the directory itself
does not matter, nor does what the name is of the file, but for its extension.
-/

namespace ModuleCache

namespace FileSystem

open ModuleCache.Path

/-! ### Trees and the paths to their entries -/

/-- A file system whose entries are a tree of names, each with one entry. -/
structure WellFormed (fs : FileSystem) : Prop where
  unique : (fs.nodes.map (·.1)).Nodup
  names : ∀ entry ∈ fs.nodes, ∀ name ∈ entry.1, IsName name.toList
  tree : fs.IsTree

theorem mem_nodes_of_node? {fs : FileSystem} {a : Address} {node : Node}
    (h : fs.node? a = some node) : (a, node) ∈ fs.nodes := by
  obtain ⟨front, back, hnodes, -⟩ := List.lookup_eq_some_iff.mp h
  simp [hnodes]

theorem exists_node?_of_mem {fs : FileSystem} {entry : Address × Node} (h : entry ∈ fs.nodes) :
    ∃ node, fs.node? entry.1 = some node := by
  cases hnode : fs.node? entry.1 with
  | some node => exact ⟨node, rfl⟩
  | none =>
      have hnone := List.lookup_eq_none_iff.mp hnode entry h
      simp at hnone

/-- The name of an entry in a directory, if it stands there. -/
def nameIn? (directory other : Address) : Option String :=
  if other.dropLast = directory then other.getLast? else none

theorem nameIn?_eq_some {directory other : Address} {name : String} :
    nameIn? directory other = some name ↔ other = directory ++ [name] := by
  unfold nameIn?
  constructor
  · intro h
    split at h
    · next habove =>
        obtain ⟨front, rfl⟩ := List.getLast?_eq_some_iff.mp h
        rw [List.dropLast_concat] at habove
        rw [habove]
    · cases h
  · rintro rfl
    rw [List.dropLast_concat, if_pos rfl, List.getLast?_concat]

theorem namesAt_eq (fs : FileSystem) (a : Address) :
    fs.namesAt a = (fs.nodes.map (·.1)).filterMap (nameIn? a) := by
  rw [List.filterMap_map]
  refine List.filterMap_congr fun entry _ => ?_
  unfold nameIn?
  dsimp only [Function.comp]
  split
  · next name hlast => rw [hlast]
  · next hlast => rw [hlast, ite_self]

/-- Listed are the names of the entries right below. -/
theorem mem_namesAt {fs : FileSystem} {a : Address} {name : String} :
    name ∈ fs.namesAt a ↔ ∃ node, fs.node? (a ++ [name]) = some node := by
  rw [namesAt_eq, List.mem_filterMap]
  constructor
  · rintro ⟨other, hmem, hname⟩
    obtain ⟨entry, hentry, rfl⟩ := List.mem_map.mp hmem
    exact nameIn?_eq_some.mp hname ▸ exists_node?_of_mem hentry
  · rintro ⟨node, hnode⟩
    exact ⟨_, List.mem_map_of_mem (mem_nodes_of_node? hnode), nameIn?_eq_some.mpr rfl⟩

theorem WellFormed.nodup_namesAt {fs : FileSystem} (h : fs.WellFormed) (a : Address) :
    (fs.namesAt a).Nodup := by
  rw [namesAt_eq]
  refine h.unique.filterMap fun one other name hone hother => ?_
  rw [nameIn?_eq_some.mp hone, nameIn?_eq_some.mp hother]

/-- What stands below a directory of a tree is made of names. -/
theorem WellFormed.isName {fs : FileSystem} (h : fs.WellFormed) {a : Address} {node : Node}
    (hnode : fs.node? a = some node) {name : String} (hname : name ∈ a) : IsName name.toList :=
  h.names _ (mem_nodes_of_node? hnode) name hname

/-- Above what stands below an address there is a directory at the address. -/
theorem IsTree.above_entry {fs : FileSystem} (h : fs.IsTree) {a : Address} {names : List String}
    (hne : names ≠ []) {node : Node} (hnode : fs.node? (a ++ names) = some node) :
    fs.IsDirectoryAt a := by
  obtain ⟨front, last, rfl⟩ := (List.eq_nil_or_concat names).resolve_left hne
  rw [List.concat_eq_append, ← List.append_assoc] at hnode
  exact h.above front (h _ _ _ hnode)

/-- The way to an entry starts with an entry. -/
theorem IsTree.mem_namesAt {fs : FileSystem} (h : fs.IsTree) {a : Address} {name : String}
    {rest : List String} {node : Node} (hnode : fs.node? (a ++ name :: rest) = some node) :
    name ∈ fs.namesAt a := by
  rw [FileSystem.mem_namesAt]
  by_cases hrest : rest = []
  · exact ⟨node, hrest ▸ hnode⟩
  · rw [← List.singleton_append, ← List.append_assoc] at hnode
    obtain ⟨writable, modified, hfirst⟩ := h.above_entry hrest hnode
    exact ⟨_, hfirst⟩

/-- No entry is deeper down than there are entries. -/
theorem IsTree.length_le {fs : FileSystem} (h : fs.IsTree) {a : Address} {names : List String}
    {node : Node} (hnode : fs.node? (a ++ names) = some node) :
    names.length ≤ fs.nodes.length := by
  have hbelow : (List.range names.length).map (a ++ names.take ·) ⊆ fs.nodes.map (·.1) := by
    intro address haddress
    obtain ⟨count, hcount, rfl⟩ := List.mem_map.mp haddress
    have hdrop : names.drop count ≠ [] := by
      simpa [List.drop_eq_nil_iff] using hcount
    rw [← List.take_append_drop count names, ← List.append_assoc] at hnode
    obtain ⟨writable, modified, habove⟩ := h.above_entry hdrop hnode
    exact List.mem_map_of_mem (mem_nodes_of_node? habove)
  have hdistinct : ((List.range names.length).map (a ++ names.take ·)).Nodup := by
    refine List.nodup_range.map_on fun one hone other hother heq => ?_
    have hlength := congrArg List.length (List.append_cancel_left heq)
    simp only [List.mem_range] at hone hother
    simp only [List.length_take] at hlength
    omega
  simpa using (hdistinct.subperm hbelow).length_le

/-- The path to an entry below a directory. -/
def pathBelow (directory : Path) (names : List String) : Path :=
  names.foldl (fun p name => p.join ⟨name⟩) directory

theorem components_pathBelow {names : List String} (h : ∀ name ∈ names, IsName name.toList)
    (directory : Path) :
    (pathBelow directory names).components = directory.components ++ names.map .name := by
  induction names generalizing directory with
  | nil => simp [pathBelow]
  | cons name rest ih =>
      have hrest := ih (fun other hother => h other (List.mem_cons_of_mem _ hother))
        (directory.join ⟨name⟩)
      rw [components_join_single directory (h name List.mem_cons_self)] at hrest
      simpa [pathBelow] using hrest

theorem addressFrom_join {base : Address} {directory : Path} {name : String}
    (h : IsName name.toList) :
    addressFrom base (directory.join ⟨name⟩) = addressFrom base directory ++ [name] := by
  rw [addressFrom_of_components (components_join_single directory h)]
  rfl

/-- A directory with all directories below it, each of which can be listed through its path. -/
structure Readable (fs : FileSystem) (directory : Path) : Prop where
  here : fs.IsDirectoryAt (addressFrom fs.current directory)
  below : ∀ names, fs.IsDirectoryAt (addressFrom fs.current directory ++ names) →
    ∃ found, fs.names (pathBelow directory names) = .ok found

theorem names_eq_ok {fs : FileSystem} {p : Path} {found : List String}
    (h : fs.names p = .ok found) :
    found = fs.namesAt (addressFrom fs.current p) ∧ fs.isDirectory p = true := by
  obtain ⟨node, hfind, h⟩ := bind_eq_ok.mp h
  cases node with
  | file => exact absurd h throw_ne_ok
  | directory writable modified =>
      obtain ⟨a, hlocate, h⟩ := bind_eq_ok.mp h
      refine ⟨by rw [← locate_eq_ok hlocate, pure_eq_ok.mp h], ?_⟩
      rw [isDirectory, hfind]

theorem isDirectoryAt_of_isDirectory {fs : FileSystem} {p : Path} (h : fs.isDirectory p = true) :
    fs.IsDirectoryAt (addressFrom fs.current p) := by
  unfold isDirectory at h
  split at h
  · next writable modified hfind => exact ⟨writable, modified, (find_eq_ok hfind).2⟩
  · cases h

theorem Readable.names_eq {fs : FileSystem} {directory : Path} (h : fs.Readable directory) :
    fs.names directory = .ok (fs.namesAt (addressFrom fs.current directory)) := by
  obtain ⟨found, hfound⟩ := h.below [] (by simpa using h.here)
  exact (names_eq_ok hfound).1 ▸ hfound

/-- Only the entries that are there have to be looked at to see what can be read. -/
theorem readable_of_entries {fs : FileSystem} {directory : Path}
    (hhere : fs.IsDirectoryAt (addressFrom fs.current directory))
    (h : ∀ entry ∈ fs.nodes, addressFrom fs.current directory <+: entry.1 →
      (fs.names (pathBelow directory
        (entry.1.drop (addressFrom fs.current directory).length))).isOk = true ∨
        ¬ fs.IsDirectoryAt entry.1) : fs.Readable directory where
  here := hhere
  below names hdirectory := by
    obtain ⟨writable, modified, hnode⟩ := hdirectory
    have hentry := h _ (mem_nodes_of_node? hnode) (List.prefix_append _ _)
    rw [List.drop_left] at hentry
    rcases hentry with hok | hnone
    · cases hnames : fs.names (pathBelow directory names) with
      | ok found => exact ⟨found, rfl⟩
      | error cause =>
          rw [hnames] at hok
          cases hok
    · exact absurd ⟨writable, modified, hnode⟩ hnone

section Step

variable {fs : FileSystem} {directory : Path} {name : String}

theorem Readable.join (h : fs.Readable directory) (hname : IsName name.toList)
    (hhere : fs.IsDirectoryAt (addressFrom fs.current directory ++ [name])) :
    fs.Readable (directory.join ⟨name⟩) where
  here := by rwa [addressFrom_join hname]
  below names hdirectory := by
    rw [addressFrom_join hname, List.append_assoc] at hdirectory
    exact h.below (name :: names) hdirectory

/-- Below a directory that can be read the paths tell where directories are. -/
theorem Readable.isDirectory_join_iff (h : fs.Readable directory) (hname : IsName name.toList) :
    fs.isDirectory (directory.join ⟨name⟩) = true ↔
      fs.IsDirectoryAt (addressFrom fs.current directory ++ [name]) := by
  constructor
  · intro hjoin
    rw [← addressFrom_join hname]
    exact isDirectoryAt_of_isDirectory hjoin
  · intro hhere
    obtain ⟨found, hfound⟩ := h.below [name] hhere
    exact (names_eq_ok hfound).2

end Step

end FileSystem

namespace CommandLine

open FileSystem ModuleCache.Path

/-! ### The sources that are to be found -/

/-- The name of a hidden entry. -/
def IsHidden (name : String) : Prop := name.toList.head? = some '.'

instance (name : String) : Decidable (IsHidden name) :=
  inferInstanceAs (Decidable (name.toList.head? = some '.'))

/-- The entry that the names lead to from a directory is a source of it. -/
structure IsSourceBelow (settings : Settings) (fs : FileSystem) (directory : Path)
    (names : List String) : Prop where
  file : (fs.fileAt? (addressFrom fs.current directory ++ names)).isSome = true
  tracked : settings.extensions.isTracked (pathBelow directory names) = true
  /-- No directory on the way is hidden or named like the cache directory. -/
  entered : ∀ name ∈ names.dropLast,
    ¬ IsHidden name ∧ (⟨name⟩ : Path).same ⟨settings.cacheDir⟩ = false

instance (settings : Settings) (fs : FileSystem) (directory : Path) (names : List String) :
    Decidable (IsSourceBelow settings fs directory names) :=
  decidable_of_iff ((fs.fileAt? (addressFrom fs.current directory ++ names)).isSome = true ∧
      settings.extensions.isTracked (pathBelow directory names) = true ∧
      ∀ name ∈ names.dropLast,
        ¬ IsHidden name ∧ (⟨name⟩ : Path).same ⟨settings.cacheDir⟩ = false)
    ⟨fun h => ⟨h.1, h.2.1, h.2.2⟩, fun h => ⟨h.file, h.tracked, h.entered⟩⟩

theorem same_name_iff {name text : String} (hname : IsName name.toList)
    (hslash : '/' ∉ text.toList) : (⟨name⟩ : Path).same ⟨text⟩ = true ↔ name = text := by
  constructor
  · intro hsame
    rw [same_iff, components_single hname, components_eq_componentsOf, pieces,
      Text.split_of_not_mem hslash, componentsOf, if_pos rfl] at hsame
    split at hsame
    · cases hsame
    · split at hsame
      · cases hsame
      · unfold componentOf at hsame
        split at hsame
        · cases hsame
        · simpa [Path.inner] using hsame
  · rintro rfl
    exact same_iff.mpr rfl

/-- A name is skipped if it is hidden or that of the cache directory. A cache directory that is
written with a slash would not be known by its name. -/
theorem isSkipped_eq_false_iff {cacheDir name : String} (hcache : '/' ∉ cacheDir.toList)
    (hname : IsName name.toList) :
    isSkipped cacheDir name = false ↔
      ¬ IsHidden name ∧ (⟨name⟩ : Path).same ⟨cacheDir⟩ = false := by
  rw [← Bool.not_eq_true ((⟨name⟩ : Path).same ⟨cacheDir⟩), same_name_iff hname hcache]
  simp [isSkipped, IsHidden, and_comm]

section Search

variable {settings : Settings} {fs : FileSystem} {directory : Path}

theorem IsSourceBelow.exists_node? {names : List String}
    (h : IsSourceBelow settings fs directory names) :
    ∃ node, fs.node? (addressFrom fs.current directory ++ names) = some node := by
  obtain ⟨⟨content, mode, modified⟩, hfile⟩ := Option.isSome_iff_exists.mp h.file
  exact ⟨_, fileAt?_eq_some.mp hfile⟩

theorem IsSourceBelow.not_isDirectoryAt {names : List String}
    (h : IsSourceBelow settings fs directory names) :
    ¬ fs.IsDirectoryAt (addressFrom fs.current directory ++ names) := by
  intro hdirectory
  have hfile := h.file
  rw [fileAt?_of_isDirectoryAt hdirectory] at hfile
  cases hfile

/-- A directory is no source of itself. -/
theorem IsSourceBelow.ne_nil {names : List String}
    (h : IsSourceBelow settings fs directory names)
    (hhere : fs.IsDirectoryAt (addressFrom fs.current directory)) : names ≠ [] := by
  rintro rfl
  exact h.not_isDirectoryAt (by rwa [List.append_nil])

/-- What a directory holds of the sources is found in its entries. -/
theorem isSourceBelow_cons_iff {name : String} {names : List String} (hne : names ≠ [])
    (hname : IsName name.toList) :
    IsSourceBelow settings fs directory (name :: names) ↔
      (¬ IsHidden name ∧ (⟨name⟩ : Path).same ⟨settings.cacheDir⟩ = false) ∧
        IsSourceBelow settings fs (directory.join ⟨name⟩) names := by
  have haddress : addressFrom fs.current (directory.join ⟨name⟩) ++ names =
      addressFrom fs.current directory ++ name :: names := by
    rw [addressFrom_join hname, List.append_assoc]
    rfl
  have hway : (name :: names).dropLast = name :: names.dropLast := List.dropLast_cons_of_ne_nil hne
  constructor
  · rintro ⟨hfile, htracked, hentered⟩
    rw [hway] at hentered
    exact ⟨hentered name List.mem_cons_self, haddress ▸ hfile, htracked,
      fun other hother => hentered other (List.mem_cons_of_mem _ hother)⟩
  · rintro ⟨hhere, hfile, htracked, hentered⟩
    refine ⟨haddress ▸ hfile, htracked, ?_⟩
    rw [hway]
    exact List.forall_mem_cons.mpr ⟨hhere, hentered⟩

/-! ### Searching a directory -/

/-- A search below a directory comes to the paths of the entries that are wanted, each of them
once. -/
def Finds (directory : Path) (wanted : List String → Prop)
    (result : Except IoError (List Path)) : Prop :=
  ∃ entries : List (List String), result = .ok (entries.map (pathBelow directory)) ∧
    entries.Nodup ∧ ∀ names, names ∈ entries ↔ wanted names

/-- The sources at an entry of a directory or, at most `depth` directories down, below it. -/
def sourcesAt (settings : Settings) (fs : FileSystem) (depth : Nat) (directory : Path)
    (name : String) : Except IoError (List Path) :=
  if fs.isDirectory (directory.join ⟨name⟩) then
    if isSkipped settings.cacheDir name then .ok []
    else sourcesBelow settings fs depth (directory.join ⟨name⟩)
  else if settings.extensions.isTracked (directory.join ⟨name⟩) then
    .ok [directory.join ⟨name⟩]
  else .ok []

theorem sourcesBelow_succ (settings : Settings) (fs : FileSystem) (depth : Nat)
    (directory : Path) :
    sourcesBelow settings fs (depth + 1) directory = (do
      let names ← fs.names directory
      let found ← names.mapM (sourcesAt settings fs depth directory)
      pure found.flatten) := rfl

theorem finds_nothing (directory : Path) {wanted : List String → Prop}
    (h : ∀ names, ¬ wanted names) : Finds directory wanted (.ok []) :=
  ⟨[], rfl, List.nodup_nil, fun names => ⟨nofun, fun hnames => absurd hnames (h names)⟩⟩

/-- The names lead through `name`, or end with it, to a source not too deep down. -/
def LeadsOn (settings : Settings) (fs : FileSystem) (directory : Path) (depth : Nat)
    (name : String) (names : List String) : Prop :=
  names.head? = some name ∧ names.length ≤ depth + 1 ∧
    IsSourceBelow settings fs directory names

/-- The sources below a directory in a directory are found, if the search in it finds them. -/
theorem sourcesAt_of_directory (hread : fs.Readable directory)
    (hcache : '/' ∉ settings.cacheDir.toList) {depth : Nat} {name : String}
    (hname : IsName name.toList)
    (hdirectory : fs.IsDirectoryAt (addressFrom fs.current directory ++ [name]))
    (hdeeper : Finds (directory.join ⟨name⟩)
      (fun names => names.length ≤ depth ∧
        IsSourceBelow settings fs (directory.join ⟨name⟩) names)
      (sourcesBelow settings fs depth (directory.join ⟨name⟩))) :
    Finds directory (LeadsOn settings fs directory depth name)
      (sourcesAt settings fs depth directory name) := by
  -- the directory itself is none, so a source leads through it
  have hthrough : ∀ {rest}, IsSourceBelow settings fs directory (name :: rest) → rest ≠ [] := by
    rintro _ hsource rfl
    exact hsource.not_isDirectoryAt hdirectory
  rw [sourcesAt, if_pos ((hread.isDirectory_join_iff hname).mpr hdirectory)]
  cases hskip : isSkipped settings.cacheDir name with
  | true =>
      refine finds_nothing directory ?_
      rintro names ⟨hhead, -, hsource⟩
      obtain ⟨rest, rfl⟩ := List.head?_eq_some_iff.mp hhead
      have hhere := ((isSourceBelow_cons_iff (hthrough hsource) hname).mp hsource).1
      rw [(isSkipped_eq_false_iff hcache hname).mpr hhere] at hskip
      cases hskip
  | false =>
      obtain ⟨entries, hfound, hnodup, hentries⟩ := hdeeper
      refine ⟨entries.map (name :: ·), ?_, hnodup.map fun _ _ h => (List.cons.inj h).2,
        fun names => ?_⟩
      · rw [if_neg (by simp), hfound, List.map_map]
        rfl
      · rw [List.mem_map]
        constructor
        · rintro ⟨rest, hrest, rfl⟩
          obtain ⟨hlength, hsource⟩ := (hentries rest).mp hrest
          have hne := hsource.ne_nil (hread.join hname hdirectory).here
          have hhere := (isSkipped_eq_false_iff hcache hname).mp hskip
          exact ⟨rfl, Nat.succ_le_succ hlength,
            (isSourceBelow_cons_iff hne hname).mpr ⟨hhere, hsource⟩⟩
        · rintro ⟨hhead, hlength, hsource⟩
          obtain ⟨rest, rfl⟩ := List.head?_eq_some_iff.mp hhead
          have hbelow := (isSourceBelow_cons_iff (hthrough hsource) hname).mp hsource
          exact ⟨rest, (hentries rest).mpr ⟨Nat.le_of_succ_le_succ hlength, hbelow.2⟩, rfl⟩

/-- A file in a directory is found if it is tracked. -/
theorem sourcesAt_of_file (hfs : fs.WellFormed) (hread : fs.Readable directory) (depth : Nat)
    {name : String} (hname : IsName name.toList) {content : ByteArray} {mode : Nat}
    {modified : Time} (hnode : fs.node? (addressFrom fs.current directory ++ [name]) =
      some (.file content mode modified)) :
    Finds directory (LeadsOn settings fs directory depth name)
      (sourcesAt settings fs depth directory name) := by
  have hnone : ¬ fs.IsDirectoryAt (addressFrom fs.current directory ++ [name]) := by
    rintro ⟨writable, changed, hdirectory⟩
    rw [hnode] at hdirectory
    cases hdirectory
  -- nothing is below what is no directory
  have hends : ∀ {names}, LeadsOn settings fs directory depth name names → names = [name] := by
    rintro names ⟨hhead, -, hsource⟩
    obtain ⟨rest, rfl⟩ := List.head?_eq_some_iff.mp hhead
    by_contra hother
    have hrest : rest ≠ [] := fun h => hother (by rw [h])
    obtain ⟨below, hbelow⟩ := hsource.exists_node?
    rw [← List.singleton_append, ← List.append_assoc] at hbelow
    exact hnone (hfs.tree.above_entry hrest hbelow)
  rw [sourcesAt, if_neg fun hpath => hnone ((hread.isDirectory_join_iff hname).mp hpath)]
  cases htracked : settings.extensions.isTracked (directory.join ⟨name⟩) with
  | true =>
      refine ⟨[[name]], by rw [if_pos rfl]; rfl, List.nodup_singleton _, fun names => ?_⟩
      rw [List.mem_singleton]
      refine ⟨?_, hends⟩
      rintro rfl
      exact ⟨rfl, Nat.succ_le_succ (Nat.zero_le depth),
        by rw [fileAt?_eq_some.mpr hnode]; rfl, htracked, nofun⟩
  | false =>
      refine finds_nothing directory fun names hnames => ?_
      obtain rfl := hends hnames
      exact Bool.false_ne_true (htracked.symm.trans hnames.2.2.tracked)

/-- The sources at or below an entry are found, if those below a directory are. -/
theorem sourcesAt_finds (hfs : fs.WellFormed) (hread : fs.Readable directory)
    (hcache : '/' ∉ settings.cacheDir.toList) {depth : Nat} {name : String}
    (hmem : name ∈ fs.namesAt (addressFrom fs.current directory))
    (hdeeper : fs.Readable (directory.join ⟨name⟩) → Finds (directory.join ⟨name⟩)
      (fun names => names.length ≤ depth ∧
        IsSourceBelow settings fs (directory.join ⟨name⟩) names)
      (sourcesBelow settings fs depth (directory.join ⟨name⟩))) :
    Finds directory (LeadsOn settings fs directory depth name)
      (sourcesAt settings fs depth directory name) := by
  obtain ⟨node, hnode⟩ := mem_namesAt.mp hmem
  have hname : IsName name.toList := hfs.isName hnode (by simp)
  cases node with
  | directory writable modified =>
      have hdirectory : fs.IsDirectoryAt (addressFrom fs.current directory ++ [name]) :=
        ⟨writable, modified, hnode⟩
      exact sourcesAt_of_directory hread hcache hname hdirectory
        (hdeeper (hread.join hname hdirectory))
  | file content mode modified => exact sourcesAt_of_file hfs hread depth hname hnode

/-- The sources at most `depth` directories down are found. -/
theorem sourcesBelow_finds (hfs : fs.WellFormed) (hcache : '/' ∉ settings.cacheDir.toList)
    (depth : Nat) (directory : Path) (hread : fs.Readable directory) :
    Finds directory
      (fun names => names.length ≤ depth ∧ IsSourceBelow settings fs directory names)
      (sourcesBelow settings fs depth directory) := by
  induction depth generalizing directory with
  | zero =>
      refine finds_nothing directory ?_
      rintro names ⟨hlength, hsource⟩
      exact absurd (List.length_eq_zero_iff.mp (Nat.le_zero.mp hlength))
        (hsource.ne_nil hread.here)
  | succ depth ih =>
      have hentries := fun name (hmem : name ∈ fs.namesAt (addressFrom fs.current directory)) =>
        sourcesAt_finds hfs hread hcache hmem (ih (directory.join ⟨name⟩))
      choose! entries hfound hnodup hmem using hentries
      refine ⟨(fs.namesAt (addressFrom fs.current directory)).flatMap entries, ?_, ?_, ?_⟩
      · rw [sourcesBelow_succ, hread.names_eq]
        refine bind_eq_ok.mpr ⟨_, rfl, bind_eq_ok.mpr ⟨_, mapM_eq_ok hfound, ?_⟩⟩
        rw [List.map_flatMap]
        rfl
      · -- what is found at different entries starts with different names
        rw [List.nodup_flatMap]
        refine ⟨hnodup, (hfs.nodup_namesAt _).imp_of_mem fun {one other} hone hother hne => ?_⟩
        intro names hnames hnames'
        have hhead := ((hmem one hone names).mp hnames).1
        have hhead' := ((hmem other hother names).mp hnames').1
        exact hne (Option.some.inj (hhead.symm.trans hhead'))
      · intro names
        rw [List.mem_flatMap]
        constructor
        · rintro ⟨name, hname, hnames⟩
          exact ((hmem name hname names).mp hnames).2
        · rintro ⟨hlength, hsource⟩
          obtain ⟨name, rest, rfl⟩ := List.exists_cons_of_ne_nil (hsource.ne_nil hread.here)
          obtain ⟨node, hnode⟩ := hsource.exists_node?
          have hname := hfs.tree.mem_namesAt hnode
          exact ⟨name, hname, (hmem name hname _).mpr ⟨rfl, hlength, hsource⟩⟩

end Search

/-- What is discovered below a directory: its sources, each once and in the order of paths. -/
structure Discovered (settings : Settings) (fs : FileSystem) (directory : Path)
    (entries : List (List String)) : Prop where
  once : entries.Nodup
  exact : ∀ names, names ∈ entries ↔ IsSourceBelow settings fs directory names
  ascending : (entries.map (pathBelow directory)).Pairwise IsBefore

/-- The search goes as deep as the tree, so it finds all sources. -/
theorem sourcesBelow_finds_all {settings : Settings} {fs : FileSystem} {directory : Path}
    (hfs : fs.WellFormed) (hcache : '/' ∉ settings.cacheDir.toList)
    (hread : fs.Readable directory) :
    Finds directory (IsSourceBelow settings fs directory)
      (sourcesBelow settings fs (fs.nodes.length + 1) directory) := by
  obtain ⟨entries, hfound, hnodup, hentries⟩ :=
    sourcesBelow_finds hfs hcache (fs.nodes.length + 1) directory hread
  refine ⟨entries, hfound, hnodup, fun names => (hentries names).trans ⟨And.right, fun h => ?_⟩⟩
  obtain ⟨node, hnode⟩ := h.exists_node?
  exact ⟨Nat.le_succ_of_le (hfs.tree.length_le hnode), h⟩

/-- Different entries have different paths. -/
theorem components_pathBelow_inj {fs : FileSystem} (hfs : fs.WellFormed) {settings : Settings}
    {directory : Path} {names names' : List String}
    (h : IsSourceBelow settings fs directory names)
    (h' : IsSourceBelow settings fs directory names')
    (hsame : (pathBelow directory names).components = (pathBelow directory names').components) :
    names = names' := by
  obtain ⟨node, hnode⟩ := h.exists_node?
  obtain ⟨node', hnode'⟩ := h'.exists_node?
  rw [components_pathBelow fun name hname => hfs.isName hnode (List.mem_append_right _ hname),
    components_pathBelow fun name hname => hfs.isName hnode' (List.mem_append_right _ hname)]
    at hsame
  exact List.map_injective_iff.mpr (fun _ _ => Component.name.inj) (List.append_cancel_left hsame)

/-- The order of entries by their paths. -/
def comesFirst (directory : Path) (names names' : List String) : Bool :=
  (pathBelow directory names).le (pathBelow directory names')

/-- Discovering the sources below a directory whose tree can be read succeeds. It comes to the
tracked files, hidden ones among them, that no hidden directory and no cache directory keeps
apart from it, each once and in the order of paths. -/
theorem discover_lists_sources {settings : Settings} {fs : FileSystem} {directory : Path}
    (hfs : fs.WellFormed) (hcache : '/' ∉ settings.cacheDir.toList)
    (hread : fs.Readable directory) :
    ∃ entries, discover settings fs directory = .ok (entries.map (pathBelow directory)) ∧
      Discovered settings fs directory entries := by
  obtain ⟨found, hfound, hnodup, hexact⟩ := sourcesBelow_finds_all hfs hcache hread
  have hperm := List.mergeSort_perm found (comesFirst directory)
  have hdistinct := hperm.nodup_iff.mpr hnodup
  have hmem : ∀ names, names ∈ found.mergeSort (comesFirst directory) ↔
      IsSourceBelow settings fs directory names :=
    fun names => hperm.mem_iff.trans (hexact names)
  have hsorted := @List.pairwise_mergeSort _ (comesFirst directory)
    (fun _ _ _ => le_transitive) (fun _ _ => le_or_le _ _) found
  refine ⟨found.mergeSort (comesFirst directory), ?_, hdistinct, hmem, ?_⟩
  · have hpaths : (found.mergeSort (comesFirst directory)).map (pathBelow directory) =
        (found.map (pathBelow directory)).mergeSort Path.le :=
      List.map_mergeSort fun _ _ _ _ => rfl
    rw [discover, hfound, hpaths]
    rfl
  · rw [List.pairwise_map]
    refine (hsorted.and hdistinct).imp_of_mem fun {names names'} hnames hnames' h => ?_
    refine isBefore_of_le h.1 fun hsame => h.2 ?_
    exact components_pathBelow_inj hfs ((hmem _).mp hnames) ((hmem _).mp hnames') hsame

/-- A hidden directory that holds sources under odd names, and directories not to be entered. -/
def oddTree : FileSystem :=
  ⟨[([], .directory true 0), ([".srv"], .directory true 0),
    ([".srv", "b.coffee"], .directory true 0), ([".srv", "b.coffee", "x.coffee"], .file .empty 0 0),
    ([".srv", ".a.coffee"], .file .empty 0 0), ([".srv", "a.txt"], .file .empty 0 0),
    ([".srv", ".git"], .directory true 0), ([".srv", ".git", "h.coffee"], .file .empty 0 0),
    ([".srv", "cache"], .directory true 0), ([".srv", "cache", "y.coffee"], .file .empty 0 0)],
    [], 0, 1⟩

def oddSettings : Settings :=
  { Settings.standard ⟨"/"⟩ with cacheDir := "cache", cacheDir_name := by decide }

theorem wellFormed_oddTree : oddTree.WellFormed where
  unique := by decide
  names := by
    have hnames : ∀ entry ∈ oddTree.nodes, ∀ name ∈ entry.1, '/' ∉ name.toList ∧
        name.toList ≠ [] ∧ name.toList ≠ ['.'] ∧ name.toList ≠ ['.', '.'] := by decide
    exact hnames
  tree := isTree_of_entries (by decide)

/-- The directory that is searched may be hidden, and so may a file in it, but not a directory
in between; a directory that is named like a source is entered. -/
theorem odd_sources_discovered :
    oddTree.Readable ⟨"/.srv"⟩ ∧ ∃ entries : List (List String),
      discover oddSettings oddTree ⟨"/.srv"⟩ = .ok (entries.map (pathBelow ⟨"/.srv"⟩)) ∧
      [".a.coffee"] ∈ entries ∧ ["b.coffee", "x.coffee"] ∈ entries ∧ ["b.coffee"] ∉ entries ∧
      [".git", "h.coffee"] ∉ entries ∧ ["cache", "y.coffee"] ∉ entries := by
  have hread : oddTree.Readable ⟨"/.srv"⟩ := readable_of_entries (by decide) (by decide)
  have hcache : '/' ∉ oddSettings.cacheDir.toList := by decide
  obtain ⟨entries, hfound, h⟩ := discover_lists_sources wellFormed_oddTree hcache hread
  refine ⟨hread, entries, hfound, ?_⟩
  simp only [h.exact]
  decide

end CommandLine
end ModuleCache
