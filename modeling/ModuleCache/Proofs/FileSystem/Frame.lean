import ModuleCache.Proofs.Entries
import ModuleCache.Proofs.FileSystem.Address

/-!
What the operations on files leave as it was. `Leaves` collects it: the current directory
and the time of day stay, every directory stays a directory, the entries stay a tree, and
only the files at some named addresses may come, go or change. Each operation has one such
statement, together with what it does at its own addresses.
-/

namespace ModuleCache.FileSystem

open ModuleCache.Path

/-! ### Entries after a change -/

theorem node?_set (fs : FileSystem) (a : Address) (node : Node) (b : Address) :
    (fs.set a node).node? b = if b = a then some node else fs.node? b :=
  lookup_replace fs.nodes a b node

theorem node?_erase (fs : FileSystem) (a b : Address) :
    (fs.erase a).node? b = if b = a then none else fs.node? b :=
  lookup_filter_ne fs.nodes a b

/-- The content, the permission bits and the time of the file at an address. -/
def fileAt? (fs : FileSystem) (a : Address) : Option (ByteArray × Nat × Time) :=
  match fs.node? a with
  | some (.file content mode modified) => some (content, mode, modified)
  | _ => none

theorem fileAt?_eq_some {fs : FileSystem} {a : Address} {content : ByteArray} {mode : Nat}
    {modified : Time} : fs.fileAt? a = some (content, mode, modified) ↔
      fs.node? a = some (.file content mode modified) := by
  unfold fileAt?
  split
  · next content' mode' modified' hnode =>
      rw [hnode]
      simp
  · next hnode =>
      constructor
      · intro h
        cases h
      · intro h
        exact absurd h (hnode content mode modified)

theorem fileAt?_congr {fs fs' : FileSystem} {a : Address} (h : fs'.node? a = fs.node? a) :
    fs'.fileAt? a = fs.fileAt? a := by
  rw [fileAt?, h]
  rfl

theorem fileAt?_of_isDirectoryAt {fs : FileSystem} {a : Address} (h : fs.IsDirectoryAt a) :
    fs.fileAt? a = none := by
  obtain ⟨writable, modified, hnode⟩ := h
  simp [fileAt?, hnode]

/-- Above every entry there is a directory. -/
def IsTree (fs : FileSystem) : Prop :=
  ∀ a name node, fs.node? (a ++ [name]) = some node → fs.IsDirectoryAt a

/-- A file system is a tree if it is one as far as its list of entries goes. -/
theorem isTree_of_entries {fs : FileSystem}
    (h : ∀ entry ∈ fs.nodes, entry.1 = [] ∨ fs.IsDirectoryAt entry.1.dropLast) : fs.IsTree := by
  intro a name node hnode
  obtain ⟨front, back, hnodes, -⟩ := List.lookup_eq_some_iff.mp hnode
  have hmem : (a ++ [name], node) ∈ fs.nodes := by simp [hnodes]
  rcases h _ hmem with hnil | habove
  · simp at hnil
  · rw [List.dropLast_concat] at habove
    exact habove

/-- In a tree what is above a directory is a directory. -/
theorem IsTree.dropLast {fs : FileSystem} (h : fs.IsTree) {a : Address}
    (ha : fs.IsDirectoryAt a) : fs.IsDirectoryAt a.dropLast := by
  rcases List.eq_nil_or_concat a with rfl | ⟨front, name, rfl⟩
  · exact ha
  · obtain ⟨writable, modified, hnode⟩ := ha
    rw [List.concat_eq_append] at hnode ⊢
    rw [List.dropLast_concat]
    exact h _ _ _ hnode

/-- Nothing is different but the files at the addresses `touched`. -/
structure Leaves (fs fs' : FileSystem) (touched : List Address) : Prop where
  current : fs'.current = fs.current
  now : fs'.now = fs.now
  process : fs'.process = fs.process
  directories : ∀ a, fs.IsDirectoryAt a → fs'.IsDirectoryAt a
  tree : fs.IsTree → fs'.IsTree
  files : ∀ a, a ∉ touched → fs'.fileAt? a = fs.fileAt? a

namespace Leaves

variable {fs fs' fs'' : FileSystem} {touched touched' : List Address}

theorem refl (fs : FileSystem) : Leaves fs fs [] :=
  ⟨rfl, rfl, rfl, fun _ h => h, id, fun _ _ => rfl⟩

theorem mono (h : Leaves fs fs' touched) (hsub : ∀ a ∈ touched, a ∈ touched') :
    Leaves fs fs' touched' where
  current := h.current
  now := h.now
  process := h.process
  directories := h.directories
  tree := h.tree
  files := fun a ha => h.files a fun hmem => ha (hsub a hmem)

theorem trans (h : Leaves fs fs' touched) (h' : Leaves fs' fs'' touched') :
    Leaves fs fs'' (touched ++ touched') where
  current := h'.current.trans h.current
  now := h'.now.trans h.now
  process := h'.process.trans h.process
  directories := fun a ha => h'.directories a (h.directories a ha)
  tree := fun ht => h'.tree (h.tree ht)
  files := fun a ha => by
    obtain ⟨hleft, hright⟩ : a ∉ touched ∧ a ∉ touched' := by simpa using ha
    rw [h'.files a hright, h.files a hleft]

end Leaves

/-- An entry that is put into a directory, and not in place of a directory by a file. -/
theorem leaves_set {fs : FileSystem} {directory : Address} {name : String} (node : Node)
    (hdirectory : fs.IsDirectoryAt directory)
    (hnode : ¬ fs.IsDirectoryAt (directory ++ [name])) :
    Leaves fs (fs.set (directory ++ [name]) node) [directory ++ [name]] := by
  have hstay : ∀ a, fs.IsDirectoryAt a → (fs.set (directory ++ [name]) node).IsDirectoryAt a := by
    intro a ha
    have hne : a ≠ directory ++ [name] := fun h => hnode (h ▸ ha)
    obtain ⟨writable, modified, hfound⟩ := ha
    exact ⟨writable, modified, by rw [node?_set, if_neg hne, hfound]⟩
  refine ⟨rfl, rfl, rfl, hstay, ?_, ?_⟩
  · intro htree a name' found hfound
    apply hstay
    rw [node?_set] at hfound
    split at hfound
    · next heq =>
        rw [(List.append_singleton_inj.mp heq).1]
        exact hdirectory
    · exact htree a name' found hfound
  · intro a ha
    have hne : a ≠ directory ++ [name] := by simpa using ha
    exact fileAt?_congr (by rw [node?_set, if_neg hne])

theorem leaves_erase {fs : FileSystem} {a : Address} (hfile : ¬ fs.IsDirectoryAt a) :
    Leaves fs (fs.erase a) [a] := by
  have hstay : ∀ b, fs.IsDirectoryAt b → (fs.erase a).IsDirectoryAt b := by
    intro b hb
    have hne : b ≠ a := fun h => hfile (h ▸ hb)
    obtain ⟨writable, modified, hfound⟩ := hb
    exact ⟨writable, modified, by rw [node?_erase, if_neg hne, hfound]⟩
  refine ⟨rfl, rfl, rfl, hstay, ?_, ?_⟩
  · intro htree b name found hfound
    apply hstay
    rw [node?_erase] at hfound
    split at hfound
    · cases hfound
    · exact htree b name found hfound
  · intro b hb
    have hne : b ≠ a := by simpa using hb
    exact fileAt?_congr (by rw [node?_erase, if_neg hne])

/-- Marking a directory as changed leaves every file. -/
theorem leaves_stamp (fs : FileSystem) (a : Address) : Leaves fs (fs.stamp a) [] := by
  unfold stamp
  split
  · next writable modified hnode =>
      have hdirectory : ∀ b, fs.IsDirectoryAt b →
          (fs.set a (.directory writable fs.now)).IsDirectoryAt b := by
        intro b hb
        by_cases hba : b = a
        · exact ⟨writable, fs.now, by rw [node?_set, if_pos hba]⟩
        · obtain ⟨writable', modified', hfound⟩ := hb
          exact ⟨writable', modified', by rw [node?_set, if_neg hba, hfound]⟩
      refine ⟨rfl, rfl, rfl, hdirectory, ?_, ?_⟩
      · intro htree b name found hfound
        apply hdirectory
        rw [node?_set] at hfound
        split at hfound
        · next heq =>
            rw [← heq] at hnode
            exact htree b name _ hnode
        · exact htree b name found hfound
      · intro b _
        by_cases hba : b = a
        · rw [hba, fileAt?_of_isDirectoryAt ⟨writable, modified, hnode⟩]
          exact fileAt?_of_isDirectoryAt ⟨writable, fs.now, by rw [node?_set, if_pos rfl]⟩
        · exact fileAt?_congr (by rw [node?_set, if_neg hba])
  · exact .refl fs

end ModuleCache.FileSystem
