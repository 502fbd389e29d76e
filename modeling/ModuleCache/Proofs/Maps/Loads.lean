import ModuleCache.Proofs.Loading.Files
import ModuleCache.Proofs.Loading.Installed
import ModuleCache.Proofs.Loading.Progress
import ModuleCache.Proofs.Loading.Reach
import ModuleCache.Proofs.Maps.Files
import ModuleCache.Proofs.Trace.Chain

/-!
Whose map lies beside an artifact. A load that compiles a source writes the artifact and
then the map that came with it. Where no map came, or one that cannot be used or written,
the map of an earlier compilation stays in its place, and frames of the new code are led
back by it. So the map belongs to the artifact exactly if it was written with it, or the
map that lay there before happens to be the right one.
-/

namespace ModuleCache

open FileSystem

/-- A source's text, what the transpiler answered for it, and whether a map was written. -/
structure Compilation where
  source : String
  answer : Transpiler.Output
  mapWritten : Bool

namespace Compilation

/-- The map of a compilation under the names of the artifact and its source, if there is
one that can be used. -/
def map? (c : Compilation) (l : Layout) (p : Path) : Option String :=
  (c.answer.annotated (l.request p c.source)).1.map

/-- What comes of writing the artifact, when the transpiler was asked for it in a session. -/
def stored (c : Compilation) (t : Transpiler) (l : Layout) (fs : FileSystem) (p : Path) :
    Store.Written :=
  Store.write (t.run fs (l.request p c.source)).fs (l.place p).cache (l.place p).map
    c.answer.code (c.map? l p)

end Compilation

/-- A load that starts in the session `s` is let in, finds no artifact to serve, compiles
the source as `c` says, and writes the artifact. -/
structure Session.Persists (s : Session) (t : Transpiler) (l : Layout) (p : Path)
    (c : Compilation) : Prop where
  entered : ∃ index hook entered, s.route p = .hook index hook entered
  missed : Store.isFresh s.files p (l.place p).cache = true →
    ∃ e, Store.read s.files (l.place p).cache = .error e
  read : s.files.readText p = .ok c.source
  answered : (t.run s.files (l.request p c.source)).outcome = .ok c.answer
  written : (c.stored t l s.files p).outcome = .ok c.mapWritten

namespace Session

/-- The course of a compilation whose artifact is written. -/
theorem Persists.course {s : Session} {t : Transpiler} {l : Layout} {p : Path} {c : Compilation}
    (h : s.Persists t l p c) :
    l.course t s.files p = .built (l.request p c.source)
      (c.answer.annotated (l.request p c.source)).1 (c.stored t l s.files p) :=
  Layout.course_of_answered (Store.serve?_eq_none h.missed) h.read h.answered

/-- A file that is compiled opens to the code, the files are what was stored, and the file
is in progress. -/
theorem Persists.opening {s : Session} {t : Transpiler} {l : Layout} {p : Path} {c : Compilation}
    (h : s.Persists t l p c) (hone : OneHook l s) :
    (s.opening t p).2 = .ok c.answer.code ∧
      (s.opening t p).1.files = (c.stored t l s.files p).fs ∧ (s.opening t p).1.Loads p := by
  obtain ⟨index, hook, entered, hroute⟩ := h.entered
  obtain ⟨hhook, henter⟩ := route_eq_hook hroute
  obtain ⟨only, honly, hlayout, -⟩ := hone
  rw [honly, List.getElem?_singleton] at hhook
  split at hhook
  · next hindex =>
      obtain rfl : only = hook := Option.some.inj hhook
      obtain ⟨notes, hopen⟩ := opening_of_hook t hroute
      have hresult : (l.course t s.files p).result p = .ok c.answer.code := by
        rw [h.course, Course.result, Transpiler.Output.code_annotated]
      have hfiles : (l.course t s.files p).files s.files = (c.stored t l s.files p).fs := by
        rw [h.course, Course.files]
      rw [hopen, hlayout]
      dsimp only [Demand.file]
      rw [Hook.supply_of_ok only hresult]
      refine ⟨rfl, hfiles, ?_⟩
      intro active hactive
      simp only [loading, hindex, honly, List.modify_zero_cons, List.map_cons, List.map_nil,
        List.mem_singleton] at hactive
      rw [hactive]
      exact (InProgress.enter_eq_ok henter).2.1
  · cases hhook

end Session

/-- A transpiler that keeps off the maps of the files in play, and code that only has files
in play loaded. -/
structure Steady (host : Host) (l : Layout) (files : Path → Prop) : Prop where
  current : ∀ fs request, (host.transpiler.run fs request).fs.current = fs.current
  process : ∀ fs request, (host.transpiler.run fs request).fs.process = fs.process
  tree : ∀ fs request, fs.IsTree → (host.transpiler.run fs request).fs.IsTree
  maps : ∀ fs request p, files p → l.map? (host.transpiler.run fs request).fs p = l.map? fs p
  scripts : ∀ code file, (host.evaluator code file).LoadsOnly (InPlay l files)

/-- Between loads the files may change in any way, as long as they stay a tree and the
current directory and the process stay. -/
structure Edited (s s' : Session) : Prop where
  setup : s'.setup = s.setup
  current : s'.files.current = s.files.current
  process : s'.files.process = s.files.process
  tree : s'.files.IsTree

/-- A session of a run. -/
structure Ready (l : Layout) (base : Address) (process : Nat) (s : Session) : Prop where
  installed : Installed l s
  current : s.files.current = base
  process : s.files.process = process
  tree : s.files.IsTree

/-- A session inside a load of `p`, with the given content in the place of its map. -/
structure Guarded (l : Layout) (base : Address) (process : Nat) (p : Path)
    (content : Option ByteArray) (s : Session) : Prop extends Ready l base process s where
  loads : s.Loads p
  map : l.map? s.files p = content

section
variable {host : Host} {l : Layout} {files : Path → Prop} {base : Address} {process : Nat}

theorem Ready.of_edited {s s' : Session} (h : Ready l base process s) (hedited : Edited s s') :
    Ready l base process s' :=
  ⟨h.installed.of_setup hedited.setup, hedited.current.trans h.current,
    hedited.process.trans h.process, hedited.tree⟩

/-- The files of a session of a run stay those of such a session while a file is opened. -/
theorem Ready.opening (hsteady : Steady host l files) {s : Session} (h : Ready l base process s)
    (demand : Demand) : Ready l base process (s.opening host.transpiler demand).1 := by
  obtain ⟨hcurrent, hprocess, htree⟩ :
      (s.opening host.transpiler demand).1.files.current = base ∧
      (s.opening host.transpiler demand).1.files.process = process ∧
      (s.opening host.transpiler demand).1.files.IsTree := by
    apply Session.opening_leaves
      (F := fun fs => fs.current = base ∧ fs.process = process ∧ fs.IsTree)
    · intro fs request hfs
      exact ⟨(hsteady.current fs request).trans hfs.1, (hsteady.process fs request).trans hfs.2.1,
        hsteady.tree fs request hfs.2.2⟩
    · intro index hook entered _ fs content map hfs
      have hleaves := Store.write_leaves fs (hook.layout.place demand.file).cache
        (hook.layout.place demand.file).map content map
      exact ⟨hleaves.current.trans hfs.1, hleaves.process.trans hfs.2.1, hleaves.tree hfs.2.2⟩
    · exact ⟨h.current, h.process, h.tree⟩
  exact ⟨h.installed.of_setup (Session.setup_opening s host.transpiler demand), hcurrent, hprocess,
    htree⟩

theorem Ready.after {s : Session} (h : Ready l base process s) {P : Path → Prop} {deed : Deed}
    (hdeed : deed.LoadsOnly P) : Ready l base process (s.after deed) := by
  have hfiles := Session.files_of_loadsOnly (s := s) hdeed
  exact ⟨h.installed.of_loadsOnly hdeed, hfiles ▸ h.current, hfiles ▸ h.process, hfiles ▸ h.tree⟩

theorem maintained_ready (hsteady : Steady host l files) :
    Session.Maintained host (Deed.LoadsOnly (InPlay l files)) (Ready l base process) where
  opening := fun {s demand} _ hs => hs.opening hsteady demand
  handed := fun {s demand handler} _ hs hnext => by
    rw [hs.installed.hook.next?_eq_none] at hnext
    cases hnext
  closing := fun {s s' demand} _ _ hs' =>
    ⟨hs'.installed.of_setup (Session.setup_closing _ demand.file s'), by
      rw [Session.files_closing]
      exact hs'.current, by
      rw [Session.files_closing]
      exact hs'.process, by
      rw [Session.files_closing]
      exact hs'.tree⟩
  after := fun hdeed hs => hs.after hdeed
  scripts := hsteady.scripts

/-- While a file is being loaded, opening another one leaves its map. -/
theorem Guarded.opening (hdistinct : l.Distinct files base process) (hsteady : Steady host l files)
    {p : Path} (hp : files p) {demand : Demand}
    (hdemand : (Deed.ask demand).LoadsOnly (InPlay l files)) {content : Option ByteArray}
    {s : Session} (h : Guarded l base process p content s) :
    Guarded l base process p content (s.opening host.transpiler demand).1 := by
  cases demand with
  | loadBy handler q => exact hdemand.elim
  | execute code q => exact h
  | load q =>
      have hq : InPlay l files q := hdemand
      have hready := h.toReady.opening hsteady (.load q)
      refine ⟨hready, Session.loads_opening host.transpiler h.loads, ?_⟩
      have hmap : (s.opening host.transpiler q).1.files.current = base ∧
          (s.opening host.transpiler q).1.files.process = process ∧
          l.map? (s.opening host.transpiler q).1.files p = content := by
        apply Session.opening_leaves
          (F := fun fs => fs.current = base ∧ fs.process = process ∧ l.map? fs p = content)
        · intro fs request hfs
          exact ⟨(hsteady.current fs request).trans hfs.1,
            (hsteady.process fs request).trans hfs.2.1,
            (hsteady.maps fs request p hp).trans hfs.2.2⟩
        · intro index hook entered hroute fs code map hfs
          have hne := h.loads.same_eq_false hroute
          rcases h.installed.route q with ⟨error, hother⟩ | ⟨-, handler, hother⟩ |
            ⟨htracked, hook', entered', hother, hlayout, -⟩
          · rw [hroute] at hother
            cases hother
          · rw [hroute] at hother
            cases hother
          · rw [hroute] at hother
            obtain ⟨-, rfl, -⟩ := Session.Route.hook.inj hother
            rw [hlayout]
            dsimp only [Demand.file]
            have hleaves := Store.write_leaves fs (l.place q).cache (l.place q).map code map
            have hkept := map?_write_other hdistinct hfs.1 hfs.2.1 hp (hq htracked) hne code map
            exact ⟨hleaves.current.trans hfs.1, hleaves.process.trans hfs.2.1,
              hkept.trans hfs.2.2⟩
        · exact ⟨h.current, h.process, h.map⟩
      exact hmap.2.2

theorem maintained_guarded (hdistinct : l.Distinct files base process)
    (hsteady : Steady host l files) {p : Path} (hp : files p) (content : Option ByteArray) :
    Session.Maintained host (Deed.LoadsOnly (InPlay l files))
      (Guarded l base process p content) where
  opening := fun hdemand hs => hs.opening hdistinct hsteady hp hdemand
  handed := fun hdemand hs => (maintained_ready hsteady).handed hdemand hs.toReady
  closing := fun {s s' demand} hdemand hs hs' =>
    ⟨(maintained_ready hsteady).closing hdemand hs.toReady hs'.toReady,
      Session.loads_closing hs.loads hs'.loads, by
      rw [Session.files_closing]
      exact hs'.map⟩
  after := fun {s deed} hdeed hs =>
    ⟨hs.toReady.after hdeed, hs.loads.after deed, by
      rw [Session.files_of_loadsOnly hdeed]
      exact hs.map⟩
  scripts := hsteady.scripts

end

end ModuleCache
