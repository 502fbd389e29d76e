import ModuleCache.FileSystem.Change
import ModuleCache.Proofs.Path.Normal
import ModuleCache.Proofs.Path.Suffix
import ModuleCache.Proofs.Result

/-!
Where paths lead. A path that leads anywhere leads to the address its components spell
out from the directory it starts in, whatever else the file system holds; so spellings
with one normal form lead to one address.
-/

namespace ModuleCache.FileSystem

open ModuleCache.Path

/-- One component followed from an address. -/
def addressStep (address : Address) : Component → Address
  | .root => []
  | .here => address
  | .up => address.dropLast
  | .name text => address ++ [text]

/-- The address that a path spells out from a directory. -/
def addressFrom (base : Address) (p : Path) : Address := p.components.foldl addressStep base

theorem foldl_normalStep (base : Address) (cs kept : List Component) :
    (cs.foldl normalStep kept).reverse.foldl addressStep base =
      cs.foldl addressStep (kept.reverse.foldl addressStep base) := by
  induction cs generalizing kept with
  | nil => rfl
  | cons c cs ih =>
      have hstep : (normalStep kept c).reverse.foldl addressStep base =
          addressStep (kept.reverse.foldl addressStep base) c := by
        cases c with
        | root => simp [normalStep]
        | here => simp [normalStep, addressStep]
        | name text => simp [normalStep]
        | up =>
            cases kept with
            | nil => simp [normalStep]
            | cons top rest => cases top <;> simp [normalStep, addressStep]
      rw [List.foldl_cons, List.foldl_cons, ih, hstep]

/-- The normal form of a path leads where the path leads. -/
theorem addressFrom_normalize (base : Address) (p : Path) :
    addressFrom base p.normalize = addressFrom base p := by
  unfold addressFrom
  rw [components_normalize]
  exact foldl_normalStep base p.components []

theorem addressFrom_of_normalize_eq {base : Address} {p q : Path}
    (h : p.normalize = q.normalize) : addressFrom base p = addressFrom base q := by
  rw [← addressFrom_normalize base p, h, addressFrom_normalize]

theorem addressFrom_of_components {base : Address} {p : Path} {front : List Component}
    {name : String} (h : p.components = front ++ [.name name]) :
    addressFrom base p = front.foldl addressStep base ++ [name] := by
  simp [addressFrom, h, addressStep]

/-- The extension of the last name of an address. -/
def addressExtension? (address : Address) : Option String :=
  address.getLast?.bind fun name => (splitExtension name.toList).2.map String.ofList

/-- The address a path leads to keeps the path's extension. -/
theorem addressExtension?_addressFrom {base : Address} {p : Path} {extension : String}
    (h : p.extension? = some extension) :
    addressExtension? (addressFrom base p) = some extension := by
  unfold extension? at h
  obtain ⟨name, hname, h⟩ := Option.bind_eq_some_iff.mp h
  obtain ⟨cut, hcut, h⟩ := Option.bind_eq_some_iff.mp h
  rw [addressFrom_of_components (components_eq_of_fileName? hname)]
  simpa [addressExtension?, hcut] using h

/-! ### Following pieces -/

/-- A directory stands at the address. -/
def IsDirectoryAt (fs : FileSystem) (address : Address) : Prop :=
  ∃ writable modified, fs.node? address = some (.directory writable modified)

instance (fs : FileSystem) (address : Address) : Decidable (fs.IsDirectoryAt address) :=
  match h : fs.node? address with
  | some (.directory writable modified) => isTrue ⟨writable, modified, h⟩
  | some (.file ..) => isFalse fun ⟨_, _, h'⟩ => nomatch h.symm.trans h'
  | none => isFalse fun ⟨_, _, h'⟩ => nomatch h.symm.trans h'

/-- One step of a walk that succeeds: it starts in a directory and takes the step that its
piece stands for. -/
theorem walk_cons_eq_ok {fs : FileSystem} {a b : Address} {piece : List Char}
    {rest : List (List Char)} (h : fs.walk a (piece :: rest) = .ok b) :
    fs.IsDirectoryAt a ∧ fs.walk ((inner [piece]).foldl addressStep a) rest = .ok b := by
  rw [walk] at h
  split at h
  · cases h
  · cases h
  · next writable modified hnode =>
      refine ⟨⟨writable, modified, hnode⟩, ?_⟩
      split at h
      · next hidle =>
          rw [inner_cons_idle hidle]
          exact h
      · next hidle =>
          rw [inner_cons_of_not_idle (by simpa using hidle)]
          split at h
          · next hup =>
              rw [hup]
              exact h
          · next hup =>
              dsimp only at h
              split at h
              · cases h
              · simpa [componentOf, hup, Path.inner, addressStep] using h

/-- A walk that succeeds ends where its pieces spell out. -/
theorem walk_eq_ok {fs : FileSystem} {a b : Address} {pieces : List (List Char)}
    (h : fs.walk a pieces = .ok b) : b = (inner pieces).foldl addressStep a := by
  induction pieces generalizing a with
  | nil =>
      obtain rfl : a = b := by simpa [walk] using h
      rfl
  | cons piece rest ih =>
      rw [ih (walk_cons_eq_ok h).2, ← List.foldl_append, ← inner_append]
      rfl

theorem walk_append {fs : FileSystem} {a : Address} {front back : List (List Char)} :
    fs.walk a (front ++ back) = (fs.walk a front).bind fun b => fs.walk b back := by
  induction front generalizing a with
  | nil => rfl
  | cons piece front ih =>
      rw [List.cons_append, walk, walk]
      split
      · rfl
      · rfl
      · split
        · exact ih
        · split
          · exact ih
          · dsimp only
            split
            · rfl
            · exact ih

theorem walk_append_eq_ok {fs : FileSystem} {a b : Address} {front back : List (List Char)}
    (h : fs.walk a (front ++ back) = .ok b) :
    ∃ mid, fs.walk a front = .ok mid ∧ fs.walk mid back = .ok b := by
  rw [walk_append] at h
  cases hfront : fs.walk a front with
  | error e =>
      rw [hfront] at h
      cases h
  | ok mid =>
      rw [hfront] at h
      exact ⟨mid, rfl, h⟩

theorem walk_cons_of_directory {fs : FileSystem} {a : Address} {piece : List Char}
    {rest : List (List Char)} (hdirectory : fs.IsDirectoryAt a) :
    fs.walk a (piece :: rest) =
      if isIdle piece then fs.walk a rest
      else if piece = ['.', '.'] then fs.walk a.dropLast rest
      else if maxName < (String.ofList piece).utf8ByteSize then .error .nameTooLong
      else fs.walk (a ++ [String.ofList piece]) rest := by
  obtain ⟨writable, modified, hnode⟩ := hdirectory
  rw [walk, hnode]

/-- Where every directory stays a directory, every walk that succeeds still does. -/
theorem walk_mono {fs fs' : FileSystem} (h : ∀ a, fs.IsDirectoryAt a → fs'.IsDirectoryAt a)
    {a b : Address} {pieces : List (List Char)} (hwalk : fs.walk a pieces = .ok b) :
    fs'.walk a pieces = .ok b := by
  induction pieces generalizing a with
  | nil => exact hwalk
  | cons piece rest ih =>
      have hdirectory := (walk_cons_eq_ok hwalk).1
      rw [walk_cons_of_directory hdirectory] at hwalk
      rw [walk_cons_of_directory (h a hdirectory)]
      split
      · next hidle =>
          rw [if_pos hidle] at hwalk
          exact ih hwalk
      · next hidle =>
          rw [if_neg hidle] at hwalk
          split
          · next hup =>
              rw [if_pos hup] at hwalk
              exact ih hwalk
          · next hup =>
              rw [if_neg hup] at hwalk
              split
              · next hlong =>
                  rw [if_pos hlong] at hwalk
                  cases hwalk
              · next hlong =>
                  rw [if_neg hlong] at hwalk
                  exact ih hwalk

theorem locate_mono {fs fs' : FileSystem} (h : ∀ a, fs.IsDirectoryAt a → fs'.IsDirectoryAt a)
    (hcurrent : fs'.current = fs.current) {p : Path} {a : Address}
    (hlocate : fs.locate p = .ok a) : fs'.locate p = .ok a := by
  obtain ⟨checked, hcheck, hwalk⟩ := bind_eq_ok.mp hlocate
  have hstart : fs'.start p = fs.start p := by
    unfold start
    rw [hcurrent]
  refine bind_eq_ok.mpr ⟨checked, hcheck, ?_⟩
  rw [hstart]
  exact walk_mono h hwalk

theorem start_of_head? {fs : FileSystem} {p : Path} (h : p.components.head? ≠ some .root) :
    fs.start p = fs.current := by
  unfold start
  rw [if_neg fun habs => h (isAbsolute_iff.mp habs)]

theorem foldl_inner_pieces (fs : FileSystem) (p : Path) :
    (inner p.pieces).foldl addressStep (fs.start p) = addressFrom fs.current p := by
  have hcomponents := components_eq_componentsOf p
  unfold addressFrom
  cases hp : p.pieces with
  | nil => exact absurd hp p.pieces_ne_nil
  | cons first rest =>
      simp only [hp, componentsOf] at hcomponents
      split at hcomponents
      · next hfirst =>
          rw [hfirst, inner_cons_idle rfl]
          split at hcomponents
          · next hrest =>
              rw [start_of_head? (by simp [hcomponents]), hcomponents, hrest]
              rfl
          · have habs : p.isAbsolute = true := isAbsolute_iff.mpr (by simp [hcomponents])
            rw [start, if_pos habs, hcomponents]
            rfl
      · next hfirst =>
          split at hcomponents
          · next hdot =>
              rw [start_of_head? (by simp [hcomponents]), hcomponents, hdot, inner_cons_idle rfl]
              rfl
          · next hdot =>
              have hname : componentOf first ≠ .root := by
                unfold componentOf
                split <;> simp
              rw [start_of_head? (by simpa [hcomponents] using hname), hcomponents,
                inner_cons_of_not_idle (by simp [isIdle, hfirst, hdot])]

/-- A path that leads anywhere leads where it spells out. -/
theorem locate_eq_ok {fs : FileSystem} {p : Path} {a : Address} (h : fs.locate p = .ok a) :
    a = addressFrom fs.current p := by
  obtain ⟨-, -, hwalk⟩ := bind_eq_ok.mp h
  rw [walk_eq_ok hwalk, foldl_inner_pieces]

theorem find_eq_ok {fs : FileSystem} {p : Path} {node : Node} (h : fs.find p = .ok node) :
    fs.locate p = .ok (addressFrom fs.current p) ∧
      fs.node? (addressFrom fs.current p) = some node := by
  obtain ⟨a, hlocate, hnode⟩ := bind_eq_ok.mp h
  have ha := locate_eq_ok hlocate
  rw [ha] at hlocate hnode
  refine ⟨hlocate, ?_⟩
  split at hnode
  · next found hfound => rw [hfound, pure_eq_ok.mp hnode]
  · exact absurd hnode throw_ne_ok

theorem find_of_locate {fs : FileSystem} {p : Path} {a : Address} {node : Node}
    (hlocate : fs.locate p = .ok a) (hnode : fs.node? a = some node) : fs.find p = .ok node := by
  refine bind_eq_ok.mpr ⟨a, hlocate, ?_⟩
  rw [hnode]
  rfl

theorem modified?_eq_some {fs : FileSystem} {p : Path} {time : Time}
    (h : fs.modified? p = some time) :
    ∃ node, fs.find p = .ok node ∧ node.modified = time := by
  unfold modified? at h
  split at h
  · next node hnode => exact ⟨node, hnode, Option.some.inj h⟩
  · cases h

theorem readBytes_eq_ok {fs : FileSystem} {p : Path} {content : ByteArray}
    (h : fs.readBytes p = .ok content) :
    ∃ mode modified, fs.find p = .ok (.file content mode modified) ∧ mode &&& 0o400 ≠ 0 := by
  obtain ⟨node, hfind, h⟩ := bind_eq_ok.mp h
  cases node with
  | directory => exact absurd h throw_ne_ok
  | file bytes mode modified =>
      dsimp only at h
      split at h
      · exact absurd h throw_ne_ok
      · next hmode =>
          rw [pure_eq_ok.mp h] at hfind
          exact ⟨mode, modified, hfind, hmode⟩

theorem toUTF8_of_fromUTF8? {content : ByteArray} {text : String}
    (h : String.fromUTF8? content = some text) : content = text.toUTF8 := by
  unfold String.fromUTF8? at h
  split at h
  · rw [← Option.some.inj h]
    rfl
  · cases h

theorem toUTF8_inj {a b : String} (h : a.toUTF8 = b.toUTF8) : a = b :=
  String.toByteArray_inj.mp h

/-- A text that can be read is that of the file the path leads to. -/
theorem readText_eq_ok {fs : FileSystem} {p : Path} {text : String}
    (h : fs.readText p = .ok text) :
    ∃ mode modified, fs.find p = .ok (.file text.toUTF8 mode modified) ∧ mode &&& 0o400 ≠ 0 := by
  obtain ⟨content, hbytes, h⟩ := bind_eq_ok.mp h
  split at h
  · next found hfound =>
      rw [← pure_eq_ok.mp h, ← toUTF8_of_fromUTF8? hfound]
      exact readBytes_eq_ok hbytes
  · exact absurd h throw_ne_ok

theorem fromUTF8?_toUTF8 (text : String) : String.fromUTF8? text.toUTF8 = some text := by
  unfold String.fromUTF8?
  split
  · rfl
  · next hvalid => exact absurd text.isValidUTF8 hvalid

/-- A file of text that may be read is read as its text. -/
theorem readText_of_find {fs : FileSystem} {p : Path} {text : String} {mode : Nat}
    {modified : Time} (hfind : fs.find p = .ok (.file text.toUTF8 mode modified))
    (hmode : mode &&& 0o400 ≠ 0) : fs.readText p = .ok text := by
  have hbytes : fs.readBytes p = .ok text.toUTF8 := by
    refine bind_eq_ok.mpr ⟨_, hfind, ?_⟩
    dsimp only
    rw [if_neg hmode]
    rfl
  refine bind_eq_ok.mpr ⟨_, hbytes, ?_⟩
  rw [fromUTF8?_toUTF8]
  rfl

theorem cutLast_not_slashed {pieces before : List (List Char)} {last : List Char}
    (h : cutLast pieces = (before, last, false)) (hlast : last ≠ []) :
    pieces = before ++ [last] := by
  unfold cutLast at h
  split at h
  · have hnil : before = [] ∧ last = [] := by simpa using h
    exact absurd hnil.2 hlast
  · next final earlier hrev =>
      split at h
      · obtain ⟨rfl, rfl⟩ : earlier.reverse = before ∧ final = last := by simpa using h
        rw [← List.reverse_reverse pieces, hrev, List.reverse_cons]
      · split at h <;> simp at h

theorem isIdle_eq_false {piece : List Char} (hempty : piece ≠ []) (hdot : piece ≠ ['.']) :
    isIdle piece = false := by
  simp [isIdle, hempty, hdot]

theorem isDirectoryAt_of_walk_slash {fs : FileSystem} {a b : Address} {front : List (List Char)}
    (h : fs.walk a (front ++ [[]]) = .ok b) :
    fs.IsDirectoryAt b ∧ b = (inner front).foldl addressStep a := by
  obtain ⟨mid, hfront, hmid⟩ := walk_append_eq_ok h
  obtain ⟨hdirectory, hstay⟩ := walk_cons_eq_ok hmid
  obtain rfl : mid = b := by simpa [walk, isIdle, Path.inner] using hstay
  exact ⟨hdirectory, walk_eq_ok hfront⟩

/-- The directory in front of the end of a path. -/
def Ending.directory : Ending → Address
  | .entry directory _ => directory
  | .slashed directory _ => directory
  | .dots directory => directory

/-- What the end of a path is made of: the directory its front leads to, and its last
piece. -/
theorem ending_eq_ok {fs : FileSystem} {p : Path} {e : Ending} (h : fs.ending p = .ok e) :
    ∃ before last slashed, cutLast p.pieces = (before, last, slashed) ∧
      checkText p = .ok () ∧ fs.walk (fs.start p) (before ++ [[]]) = .ok e.directory ∧
      (e = .dots e.directory ∨ (last ≠ [] ∧ last ≠ ['.'] ∧ last ≠ ['.', '.'] ∧
        (String.ofList last).utf8ByteSize ≤ maxName ∧
        e = if slashed then .slashed e.directory (String.ofList last)
          else .entry e.directory (String.ofList last))) := by
  obtain ⟨_, hcheck, h⟩ := bind_eq_ok.mp h
  rcases hcut : cutLast p.pieces with ⟨before, last, slashed⟩
  simp only [hcut] at h
  obtain ⟨directory, hwalk, h⟩ := bind_eq_ok.mp h
  refine ⟨before, last, slashed, rfl, hcheck, ?_⟩
  split at h
  · rw [← pure_eq_ok.mp h]
    exact ⟨hwalk, .inl rfl⟩
  · next hlast =>
      obtain ⟨hempty, hdot, hup⟩ : last ≠ [] ∧ last ≠ ['.'] ∧ last ≠ ['.', '.'] := by
        simpa using hlast
      split at h
      · exact absurd h throw_ne_ok
      · next hlong =>
          have hshort := Nat.le_of_not_lt hlong
          split at h
          · next hslashed =>
              rw [← pure_eq_ok.mp h]
              exact ⟨hwalk, .inr ⟨hempty, hdot, hup, hshort, by rw [if_pos hslashed]; rfl⟩⟩
          · next hslashed =>
              rw [← pure_eq_ok.mp h]
              exact ⟨hwalk, .inr ⟨hempty, hdot, hup, hshort, by rw [if_neg hslashed]; rfl⟩⟩

/-- Wherever a path ends, the directory in front of the end exists. -/
theorem isDirectoryAt_of_ending {fs : FileSystem} {p : Path} {e : Ending}
    (h : fs.ending p = .ok e) : fs.IsDirectoryAt e.directory := by
  obtain ⟨before, -, -, -, -, hwalk, -⟩ := ending_eq_ok h
  exact (isDirectoryAt_of_walk_slash hwalk).1

/-- A path that ends at an entry leads to it, and the entry's name is its file name. -/
theorem ending_eq_entry {fs : FileSystem} {p : Path} {directory : Address} {name : String}
    (h : fs.ending p = .ok (.entry directory name)) :
    addressFrom fs.current p = directory ++ [name] ∧ p.fileName? = some name ∧ p.EndsInName := by
  obtain ⟨before, last, slashed, hcut, -, hwalk, hend⟩ := ending_eq_ok h
  obtain ⟨-, hbefore⟩ := isDirectoryAt_of_walk_slash hwalk
  rcases hend with hdots | ⟨hempty, hdot, hup, -, hentry⟩
  · cases hdots
  · cases slashed with
    | true => cases hentry
    | false =>
        obtain rfl : name = String.ofList last := (Ending.entry.inj hentry).2
        have hidle := isIdle_eq_false hempty hdot
        have hpieces : p.pieces = before ++ [last] := cutLast_not_slashed hcut hempty
        have hlast : inner [last] = [.name (String.ofList last)] := by
          rw [inner_cons_of_not_idle hidle, componentOf, if_neg hup]
          rfl
        refine ⟨?_, ?_, before, last, hpieces, hidle⟩
        · rw [← foldl_inner_pieces, hpieces, inner_append, List.foldl_append, ← hbefore, hlast]
          rfl
        · rw [fileName?_eq_some_iff, components_eq_componentsOf, hpieces,
            componentsOf_append hidle, hlast]
          simp

/-- The entry that a path ends at is found, whether or not anything stands there. -/
theorem locate_of_ending {fs : FileSystem} {p : Path} {directory : Address} {name : String}
    (h : fs.ending p = .ok (.entry directory name)) :
    fs.locate p = .ok (directory ++ [name]) := by
  obtain ⟨before, last, slashed, hcut, hcheck, hwalk, hend⟩ := ending_eq_ok h
  obtain ⟨mid, hbefore, hmid⟩ := walk_append_eq_ok hwalk
  obtain ⟨hdirectory, hstay⟩ := walk_cons_eq_ok hmid
  obtain rfl : mid = directory := by simpa [walk, isIdle, Path.inner, Ending.directory] using hstay
  rcases hend with hdots | ⟨hempty, hdot, hup, hshort, hentry⟩
  · cases hdots
  · cases slashed with
    | true => cases hentry
    | false =>
        obtain rfl : name = String.ofList last := (Ending.entry.inj hentry).2
        have hpieces : p.pieces = before ++ [last] := cutLast_not_slashed hcut hempty
        refine bind_eq_ok.mpr ⟨(), hcheck, ?_⟩
        rw [hpieces, walk_append, hbefore]
        change fs.walk mid [last] = _
        rw [walk_cons_of_directory hdirectory, isIdle_eq_false hempty hdot, if_neg hup,
          if_neg (Nat.not_lt.mpr hshort)]
        rfl

/-- Where every directory stays a directory, every path ends where it did. -/
theorem ending_mono {fs fs' : FileSystem} (h : ∀ a, fs.IsDirectoryAt a → fs'.IsDirectoryAt a)
    (hcurrent : fs'.current = fs.current) {p : Path} {e : Ending} (hending : fs.ending p = .ok e) :
    fs'.ending p = .ok e := by
  obtain ⟨_, hcheck, hrest⟩ := bind_eq_ok.mp hending
  refine bind_eq_ok.mpr ⟨_, hcheck, ?_⟩
  rcases hcut : cutLast p.pieces with ⟨before, last, slashed⟩
  simp only [hcut] at hrest ⊢
  obtain ⟨directory, hwalk, hend⟩ := bind_eq_ok.mp hrest
  have hstart : fs'.start p = fs.start p := by
    unfold start
    rw [hcurrent]
  refine bind_eq_ok.mpr ⟨directory, ?_, hend⟩
  rw [hstart]
  exact walk_mono h hwalk

end ModuleCache.FileSystem
