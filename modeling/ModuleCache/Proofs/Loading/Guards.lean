import ModuleCache.Proofs.Loading.Nesting

/-!
Guards of files in progress. To enter a file is to get a guard for it, and the file is taken
out again when its guard is dropped. A guard knows its file by the path alone, and what is
taken out is the last entry that this path names. No two files in progress are the same, so
that entry is the guard's own; guards can be dropped in any order, not only the last one first.
Main statement: whatever was entered and dropped, the files in progress are those of the guards
still held.
-/

namespace ModuleCache.InProgress

/-- One use of a set. Guards are numbered in the order in which they are handed out. -/
inductive Use where
  | enter (file : Path)
  | drop (guard : Nat)
  deriving DecidableEq, Repr

/-- A set, and what became of the guards handed out for it. -/
structure Guarded where
  set : InProgress
  /-- The file of every guard ever handed out, by its number. -/
  files : List Path
  dropped : List Nat
  deriving DecidableEq, Repr

namespace Guarded

/-- No file was entered yet. -/
def fresh : Guarded := ⟨.empty, [], []⟩

/-- The guards still held with their files, in the order in which they were handed out. -/
def held (g : Guarded) : List (Path × Nat) := g.files.zipIdx.filter (·.2 ∉ g.dropped)

/-- A guard can be dropped while it is held, and then it is gone. -/
def use (g : Guarded) : Use → Guarded
  | .enter file =>
    match g.set.enter file with
    | .error _ => g
    | .ok set => { g with set, files := g.files ++ [file] }
  | .drop guard =>
    match g.held.find? (·.2 = guard) with
    | none => g
    | some (file, _) => { g with set := g.set.leave file, dropped := guard :: g.dropped }

def uses (g : Guarded) (history : List Use) : Guarded := history.foldl use g

end Guarded

/-! ### One guard -/

/-- What a path takes out of different files is the file it names, wherever that stands. -/
theorem leave_of_distinct {front back : List Path} {file : Path}
    (h : (front ++ file :: back).Pairwise fun p q => p.same q = false) :
    (⟨front ++ file :: back⟩ : InProgress).leave file = ⟨front ++ back⟩ := by
  have hsame : file.same file = true := Path.same_iff.mpr rfl
  obtain ⟨-, htail, -⟩ := List.pairwise_append.mp h
  have hback : ∀ p ∈ back.reverse, ¬ p.same file = true := by
    intro p hp heq
    have hne := (List.pairwise_cons.mp htail).1 p (List.mem_reverse.mp hp)
    have hsymm : file.same p = true := Path.same_iff.mpr (Path.same_iff.mp heq).symm
    rw [hne] at hsymm
    cases hsymm
  -- the search goes from the end, so it passes the files of all later guards
  have herase : (back.reverse ++ file :: front.reverse).eraseP (·.same file) =
      back.reverse ++ front.reverse := by
    rw [List.eraseP_append_right _ hback]
    simp [hsame]
  unfold leave
  rw [List.reverse_append, List.reverse_cons, List.append_assoc, List.singleton_append, herase,
    List.reverse_append, List.reverse_reverse, List.reverse_reverse]

namespace Guarded

theorem nodup_guards (g : Guarded) : (g.held.map Prod.snd).Nodup := by
  have hnumbers : (g.files.zipIdx.map Prod.snd).Nodup := by
    rw [List.zipIdx_map_snd]
    exact List.nodup_range'
  exact hnumbers.sublist (List.filter_sublist.map Prod.snd)

theorem ne_of_held {g : Guarded} {front back : List (Path × Nat)} {file : Path} {guard : Nat}
    (h : g.held = front ++ (file, guard) :: back) :
    (∀ other ∈ front, other.2 ≠ guard) ∧ ∀ other ∈ back, other.2 ≠ guard := by
  have hnodup := g.nodup_guards
  rw [h, List.map_append, List.map_cons, List.nodup_append, List.nodup_cons] at hnodup
  obtain ⟨-, ⟨hback, -⟩, hfront⟩ := hnodup
  constructor
  · intro other hother
    exact hfront _ (List.mem_map_of_mem hother) _ List.mem_cons_self
  · intro other hother heq
    exact hback (List.mem_map.mpr ⟨other, hother, heq⟩)

/-- A guard that is held is found, and dropping it has its file taken out. -/
theorem use_drop {g : Guarded} {front back : List (Path × Nat)} {file : Path} {guard : Nat}
    (h : g.held = front ++ (file, guard) :: back) :
    g.use (.drop guard) = { g with set := g.set.leave file, dropped := guard :: g.dropped } := by
  have hfind : g.held.find? (·.2 = guard) = some (file, guard) := by
    rw [List.find?_eq_some_iff_append]
    exact ⟨by simp, front, back, h, by simpa using (ne_of_held h).1⟩
  simp only [use, hfind]

/-- Dropping a guard leaves every other guard held. -/
theorem held_drop {g : Guarded} {front back : List (Path × Nat)} {file : Path} {guard : Nat}
    (h : g.held = front ++ (file, guard) :: back) :
    (g.use (.drop guard)).held = front ++ back := by
  obtain ⟨hfront, hback⟩ := ne_of_held h
  have hheld : (g.use (.drop guard)).held = g.held.filter (·.2 ≠ guard) := by
    rw [use_drop h]
    unfold held
    rw [List.filter_filter]
    apply List.filter_congr
    intro other _
    simp
  rw [hheld, h, List.filter_append, List.filter_cons_of_neg (by simp),
    List.filter_eq_self.mpr (by simpa using hfront),
    List.filter_eq_self.mpr (by simpa using hback)]

/-! ### Every use -/

/-- The files in progress are those of the guards still held, and no two are the same. -/
structure Tracks (g : Guarded) : Prop where
  active : g.set.active = g.held.map Prod.fst
  distinct : g.set.active.Pairwise fun p q => p.same q = false
  /-- Only guards that were handed out have been dropped. -/
  known : ∀ guard ∈ g.dropped, guard < g.files.length

theorem tracks_fresh : fresh.Tracks := ⟨rfl, .nil, by simp [fresh]⟩

/-- The guard handed out for a file has a number of its own. -/
theorem held_enter {g : Guarded} (h : g.Tracks) (set : InProgress) (file : Path) :
    ({ g with set, files := g.files ++ [file] } : Guarded).held =
      g.held ++ [(file, g.files.length)] := by
  have hnew : g.files.length ∉ g.dropped := fun hmem => Nat.lt_irrefl _ (h.known _ hmem)
  simp [held, List.zipIdx_append, hnew]

theorem Tracks.enter {g : Guarded} (h : g.Tracks) (file : Path) : (g.use (.enter file)).Tracks := by
  rw [use]
  cases henter : g.set.enter file with
  | error chain => exact h
  | ok entered =>
      have hactive := active_of_enter henter
      have hfree := (enter_eq_ok henter).1
      constructor
      · rw [held_enter h, List.map_append, ← h.active]
        exact hactive
      · rw [hactive, List.pairwise_append]
        refine ⟨h.distinct, List.pairwise_singleton _ _, ?_⟩
        intro p hp q hq
        rw [List.mem_singleton.mp hq]
        exact same_eq_false_of_contains (contains_iff.mpr ⟨p, hp, rfl⟩) hfree
      · intro guard hguard
        rw [List.length_append]
        exact Nat.lt_add_right 1 (h.known guard hguard)

/-- Dropping a guard takes out the entry that was made for it. -/
theorem Tracks.active_drop {g : Guarded} (h : g.Tracks) {front back : List (Path × Nat)}
    {file : Path} {guard : Nat} (hheld : g.held = front ++ (file, guard) :: back) :
    (g.use (.drop guard)).set.active = (front ++ back).map Prod.fst := by
  have hactive : g.set.active = front.map Prod.fst ++ file :: back.map Prod.fst := by
    rw [h.active, hheld, List.map_append, List.map_cons]
  have hset : g.set = ⟨front.map Prod.fst ++ file :: back.map Prod.fst⟩ := by
    rw [← hactive]
  have hdistinct := h.distinct
  rw [hactive] at hdistinct
  rw [use_drop hheld, hset, leave_of_distinct hdistinct, List.map_append]

theorem Tracks.drop {g : Guarded} (h : g.Tracks) (guard : Nat) : (g.use (.drop guard)).Tracks := by
  cases hfind : g.held.find? (·.2 = guard) with
  | none =>
      simp only [use, hfind]
      exact h
  | some found =>
      obtain ⟨hguard, front, back, hheld, -⟩ := List.find?_eq_some_iff_append.mp hfind
      obtain ⟨file, number⟩ := found
      obtain rfl : number = guard := by simpa using hguard
      have hactive := h.active_drop hheld
      refine ⟨by rw [hactive, held_drop hheld], ?_, ?_⟩
      · have hsub : (front ++ back).Sublist g.held := by
          rw [hheld]
          exact (List.Sublist.refl front).append (List.sublist_cons_self _ back)
        rw [hactive]
        exact (h.active ▸ h.distinct).sublist (hsub.map Prod.fst)
      · have hmem : (file, number) ∈ g.held := by simp [hheld]
        have hnumber : number < g.files.length := by
          simpa using List.snd_lt_add_of_mem_zipIdx (List.mem_filter.mp hmem).1
        rw [use_drop hheld]
        exact List.forall_mem_cons.mpr ⟨hnumber, h.known⟩

theorem Tracks.use {g : Guarded} (h : g.Tracks) (use : Use) : (g.use use).Tracks := by
  cases use with
  | enter file => exact h.enter file
  | drop guard => exact h.drop guard

theorem Tracks.uses {g : Guarded} (h : g.Tracks) (history : List Use) :
    (g.uses history).Tracks := by
  induction history generalizing g with
  | nil => exact h
  | cons use history ih => exact ih (h.use use)

theorem Tracks.contains_iff {g : Guarded} (h : g.Tracks) {p : Path} :
    g.set.contains p = true ↔ ∃ guard ∈ g.held, guard.1.same p = true := by
  rw [contains, List.any_eq_true, h.active]
  simp

/-- Whatever was entered and dropped, in whatever order: the files in progress are those of the
guards still held, in the order in which they were entered, and no two of them are the same. A
path is refused exactly if it names one of them, and then nothing changes; dropping a guard takes
out the entry that was made for it and no other. -/
theorem tracks_held_guards (history : List Use) :
    let g := fresh.uses history
    g.set.active = g.held.map Prod.fst ∧
      (g.set.active.Pairwise fun p q => p.same q = false) ∧
      g.set.depth = g.held.length ∧
      (∀ p, g.set.contains p = true ↔ ∃ guard ∈ g.held, guard.1.same p = true) ∧
      (∀ p, match g.set.enter p with
        | .error chain => (∃ guard ∈ g.held, guard.1.same p = true) ∧ chain = g.set.active ∧
            g.use (.enter p) = g
        | .ok entered => (∀ guard ∈ g.held, guard.1.same p = false) ∧
            entered.active = g.set.active ++ [p] ∧
            (g.use (.enter p)).held = g.held ++ [(p, g.files.length)]) ∧
      ∀ front file guard back, g.held = front ++ (file, guard) :: back →
        (g.use (.drop guard)).held = front ++ back ∧
          (g.use (.drop guard)).set.active = (front ++ back).map Prod.fst := by
  intro g
  have h : g.Tracks := tracks_fresh.uses history
  refine ⟨h.active, h.distinct, ?_, fun p => h.contains_iff, ?_, ?_⟩
  · rw [depth, h.active, List.length_map]
  · intro p
    cases henter : g.set.enter p with
    | error chain =>
        obtain ⟨hcontains, hchain⟩ := enter_eq_error.mp henter
        refine ⟨h.contains_iff.mp hcontains, hchain, ?_⟩
        simp only [use, henter]
    | ok entered =>
        have hfree := (enter_eq_ok henter).1
        refine ⟨?_, active_of_enter henter, ?_⟩
        · intro guard hguard
          apply Bool.eq_false_iff.mpr
          intro hsame
          rw [h.contains_iff.mpr ⟨guard, hguard, hsame⟩] at hfree
          cases hfree
        · simp only [use, henter]
          exact held_enter h entered p
  · intro front file guard back hheld
    exact ⟨held_drop hheld, h.active_drop hheld⟩

/-- Three files are entered and the outermost is left first. One of the others is refused under
another spelling, the one that was left is entered again, and then the middle one is left. -/
theorem guards_dropped_out_of_order :
    let g := fresh.uses [.enter ⟨"/a"⟩, .enter ⟨"/b"⟩, .enter ⟨"/c"⟩, .drop 0,
      .enter ⟨"//b/"⟩, .enter ⟨"/./a"⟩]
    g.held = [(⟨"/b"⟩, 1)] ++ (⟨"/c"⟩, 2) :: [(⟨"/./a"⟩, 3)] ∧
      (g.use (.drop 2)).held = [(⟨"/b"⟩, 1), (⟨"/./a"⟩, 3)] ∧
      (g.use (.drop 2)).set.active = [⟨"/b"⟩, ⟨"/./a"⟩] := by
  intro g
  have hheld : g.held = [(⟨"/b"⟩, 1)] ++ (⟨"/c"⟩, 2) :: [(⟨"/./a"⟩, 3)] := by decide +kernel
  obtain ⟨-, -, -, -, -, hdrop⟩ := tracks_held_guards [.enter ⟨"/a"⟩, .enter ⟨"/b"⟩,
    .enter ⟨"/c"⟩, .drop 0, .enter ⟨"//b/"⟩, .enter ⟨"/./a"⟩]
  exact ⟨hheld, hdrop _ _ _ _ hheld⟩

end Guarded
end ModuleCache.InProgress
