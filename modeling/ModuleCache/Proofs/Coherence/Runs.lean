import ModuleCache.Proofs.Coherence.Opening
import ModuleCache.Proofs.Loading.Reach
import ModuleCache.Runtime

/-!
Whole runs of a loader. Between loads sources come, change and go, artifacts may be
deleted and other things may stand in their way; loads are nested to any depth. Whatever
file is loaded, and wherever the code comes from, it is the code that belongs to the file's
text at that moment. What this rests on: an edit gives a source a later time than its
artifact has, and nobody but the hook writes artifacts.
-/

namespace ModuleCache

open FileSystem

variable {host : Host} {l : Layout} {files : Path → Prop} {answer : Answering} {start : Session}

/-- What may happen to the files between loads. Artifacts are left alone or go; a source
that is not as before is later than its artifact. -/
structure OutsideChange (l : Layout) (files : Path → Prop) (before after : FileSystem) : Prop where
  current : after.current = before.current
  process : after.process = before.process
  tree : after.IsTree
  artifacts : ∀ p, files p → l.artifact? after p = none ∨ l.artifact? after p = l.artifact? before p
  sources : ∀ p, files p → ∀ content time, after.source? p = some (content, time) →
    before.source? p = some (content, time) ∨
      ∀ code written, l.artifact? after p = some (code, written) → written < time

/-- Between loads only such changes happen, and the hook stays installed. -/
def Between (l : Layout) (files : Path → Prop) (s s' : Session) : Prop :=
  OutsideChange l files s.files s'.files ∧ Installed l s'

theorem OutsideChange.inOrder {base : Address} {process : Nat} {before after : FileSystem}
    (h : OutsideChange l files before after)
    (hbefore : InOrder l files base process answer before) :
    InOrder l files base process answer after where
  current := h.current.trans hbefore.current
  process := h.process.trans hbefore.process
  tree := h.tree
  coherent := fun p hp source changed code written hsource hartifact hfresh => by
    rcases h.sources p hp source changed hsource with hsame | hlater
    · rcases h.artifacts p hp with hnone | hkept
      · rw [hnone] at hartifact
        cases hartifact
      · rw [hkept] at hartifact
        exact hbefore.coherent p hp source changed code written hsame hartifact hfresh
    · exact absurd hfresh (Nat.not_le.mpr (hlater code written hartifact))

theorem maintained_sound {base : Address} {process : Nat} (hapart : l.Apart files base process)
    (h : Orderly host l files answer) :
    Session.Maintained host (Deed.LoadsOnly (InPlay l files))
      (Sound l files base process answer) where
  opening := fun {s demand} hdemand hs => by
    cases demand with
    | load p => exact (opening_sound hapart h hs hdemand).1
    | loadBy handler p => exact hdemand.elim
    | execute code p => exact hs
  handed := fun {s demand handler} _ hs hnext => by
    rw [hs.installed.hook.next?_eq_none] at hnext
    cases hnext
  closing := fun {s s' demand} _ _ hs' =>
    ⟨hs'.installed.of_setup (Session.setup_closing _ demand.file s'), by
      rw [Session.files_closing]
      exact hs'.inOrder⟩
  after := fun {s deed} hdeed hs => by
    refine ⟨hs.installed.of_loadsOnly hdeed, ?_⟩
    rw [Session.files_of_loadsOnly hdeed]
    exact hs.inOrder
  scripts := h.scripts

/-- Every successful load of a tracked file in a run, at the top or nested, from the
artifact or compiled, gives the code that the transpiler answers for the file's text as it
is when the load starts. -/
theorem load_serves_current_text (h : Orderly host l files answer)
    (hapart : l.Apart files start.files.current start.files.process)
    (hinstalled : Installed l start) (htree : start.files.IsTree)
    (hclean : ∀ p, files p → l.artifact? start.files p = none)
    {depth : Nat} {s s' : Session} {p : Path} {m : LoadedModule}
    (hstarts : Starts host (Deed.LoadsOnly (InPlay l files)) (Between l files) start depth s p)
    (htracked : l.extensions.isTracked p = true) (hfile : s.files.isDirectory p = false)
    (hload : Session.require host depth s p = some (s', .ok m)) :
    m.file = p ∧ answer.Serves s.files p m.code := by
  have hcoherent : Coherent l files answer start.files := by
    intro p hp source changed code written _ hartifact _
    rw [hclean p hp] at hartifact
    cases hartifact
  have hstart : Sound l files start.files.current start.files.process answer start :=
    ⟨hinstalled, rfl, rfl, htree, hcoherent⟩
  obtain ⟨hp, hs⟩ := hstarts.holds (maintained_sound hapart h)
    (fun hs hbetween => ⟨hbetween.2, hbetween.1.inOrder hs.inOrder⟩) hstart
  obtain ⟨hm, hcode⟩ := require_eq_ok hload
  have hopens := hcode (hs.installed.hook.next?_eq_none p)
  exact ⟨hm, (opening_sound hapart h hs hp).2 m.code hopens (hp htracked) hfile⟩

/-- A hook over the whole file system, which holds one source. -/
def oneSource : Session :=
  .loaderOf (Settings.standard ⟨"/"⟩).layout [(["a.coffee"], .file "x".toUTF8 0o644 1)]

/-- The source of the one-source session loads as its marked text. -/
theorem load_serves_one_source :
    ∃ s' m, Session.require markingHost 1 oneSource (.load ⟨"/a.coffee"⟩) = some (s', .ok m) ∧
      m.file = ⟨"/a.coffee"⟩ ∧
      Answering.Serves (fun text => .ok ⟨"// " ++ text, none⟩) oneSource.files ⟨"/a.coffee"⟩
        m.code := by
  obtain ⟨s', m, hload⟩ : ∃ s' m, Session.require markingHost 1 oneSource (.load ⟨"/a.coffee"⟩) =
      some (s', .ok m) := exists_require_eq_ok (by decide)
  have horderly : Orderly markingHost (Settings.standard ⟨"/"⟩).layout (· = ⟨"/a.coffee"⟩)
      (fun text => .ok ⟨"// " ++ text, none⟩) :=
    ⟨fun _ _ => rfl, fun _ _ => ⟨rfl, rfl, id, fun _ _ => rfl, fun _ _ => rfl⟩,
      fun _ _ => trivial⟩
  have hapart : Layout.Apart (Settings.standard ⟨"/"⟩).layout (· = ⟨"/a.coffee"⟩)
      oneSource.files.current oneSource.files.process := by
    apply Layout.Apart.of_extensions
    · rintro p rfl
      decide
    · rintro p q rfl rfl hne
      exact absurd rfl hne
    · decide
    · decide
  have hinstalled : Installed (Settings.standard ⟨"/"⟩).layout oneSource :=
    installed_of_addHook _ _ _
  have htree : oneSource.files.IsTree := isTree_of_entries (by decide)
  have hclean : ∀ p, p = ⟨"/a.coffee"⟩ →
      (Settings.standard ⟨"/"⟩).layout.artifact? oneSource.files p = none := by
    rintro p rfl
    decide
  have hserves := load_serves_current_text horderly hapart hinstalled htree hclean
    (.top 1 .start fun _ => rfl) (by decide) (by decide) hload
  exact ⟨s', m, hload, hserves⟩

/-! ### Artifacts that are not apart -/

/-- Everything that whole runs rest on holds, but for where artifacts are found and written: it
is only known that the paths of different artifacts are different. And a load of a file in play
gives code that does not belong to the file. -/
structure ServesAmiss (host : Host) (l : Layout) (files : Path → Prop) (answer : Answering)
    (start : Session) : Prop where
  orderly : Orderly host l files answer
  tracked : ∀ p, files p → l.extensions.isTracked p = true
  unlike : ∀ p q, files p → files q → p.normalize ≠ q.normalize →
    (l.place p).cache.same (l.place q).cache = false
  installed : Installed l start
  tree : start.files.IsTree
  clean : ∀ p, files p → l.artifact? start.files p = none
  amiss : ∃ depth s s' p m,
    Starts host (Deed.LoadsOnly (InPlay l files)) (Between l files) start depth s (.load p) ∧
    files p ∧ s.files.isDirectory p = false ∧
    Session.require host depth s (.load p) = some (s', .ok m) ∧ ¬answer.Serves s.files p m.code

/-- What is left of a session by a load that comes to an end. -/
def Session.afterLoad (host : Host) (s : Session) (p : Path) : Session :=
  ((Session.require host 1 s p).map (·.1)).getD s

theorem Session.require_afterLoad {host : Host} {s : Session} {p : Path} {code : String}
    (h : ((Session.require host 1 s p).bind (·.2.toOption)).map (·.code) = some code) :
    Session.require host 1 s p = some (s.afterLoad host p, .ok ⟨p, code⟩) := by
  obtain ⟨⟨file, code'⟩, hloaded, hcode⟩ := Option.map_eq_some_iff.mp h
  obtain ⟨⟨s', loaded⟩, hload, hm⟩ := Option.bind_eq_some_iff.mp hloaded
  obtain rfl : loaded = .ok ⟨file, code'⟩ := toOption_eq_some.mp hm
  obtain rfl : file = p := (require_eq_ok hload).1
  obtain rfl : code' = code := hcode
  rw [Session.afterLoad, hload]
  rfl

/-- The answers of the transpiler that marks texts. -/
def marked : Answering := fun text => .ok ⟨"// " ++ text, none⟩

theorem orderly_markingHost (l : Layout) (files : Path → Prop) :
    Orderly markingHost l files marked :=
  ⟨fun _ _ => rfl, fun _ _ => ⟨rfl, rfl, id, fun _ _ => rfl, fun _ _ => rfl⟩, fun _ _ => trivial⟩

/-- Artifacts with the extension of temporary names. -/
def scratchExtensions : Extensions :=
  { Extensions.standard with
    output := "tmp"
    output_bare := by decide
    source_ne_output := by decide
    output_ne_map := by decide }

def scratchLayout : Layout := .ofRoot ⟨"/"⟩ "c" "lib" scratchExtensions

/-- Two sources. The artifact of the second has the temporary name of the artifact of the first. -/
def scratched : Session :=
  .loaderOf scratchLayout [(["a.coffee"], .file "x".toUTF8 0o644 1),
    (["a.tmp.1.coffee"], .file "y".toUTF8 0o644 1), (["c"], .directory true 0)]

example : (scratchLayout.place ⟨"/a.tmp.1.coffee"⟩).cache =
    Store.temporary 1 (scratchLayout.place ⟨"/a.coffee"⟩).cache := by decide

/-- Nothing can be created in a directory any more, or removed from it. -/
def Session.block (s : Session) (directory : Path) : Session :=
  { s with files := (s.files.setWritable directory false).toOption.getD s.files }

theorem Session.setup_block (s : Session) (directory : Path) :
    (s.block directory).setup = s.setup := rfl

/-- The session after the load of the second source, when its artifact's directory is blocked. -/
def scratchedBlocked : Session := (scratched.afterLoad markingHost ⟨"/a.tmp.1.coffee"⟩).block ⟨"/c"⟩

theorem between_scratchedBlocked :
    Between scratchLayout (· ∈ [⟨"/a.coffee"⟩, ⟨"/a.tmp.1.coffee"⟩])
      (scratched.afterLoad markingHost ⟨"/a.tmp.1.coffee"⟩) scratchedBlocked := by
  have hload : Session.require markingHost 1 scratched (.load ⟨"/a.tmp.1.coffee"⟩) =
      some (scratched.afterLoad markingHost ⟨"/a.tmp.1.coffee"⟩,
        .ok ⟨⟨"/a.tmp.1.coffee"⟩, "// y"⟩) :=
    Session.require_afterLoad (by decide +kernel)
  have hartifacts : ∀ p ∈ [⟨"/a.coffee"⟩, ⟨"/a.tmp.1.coffee"⟩],
      scratchLayout.artifact? scratchedBlocked.files p = scratchLayout.artifact?
        (scratched.afterLoad markingHost ⟨"/a.tmp.1.coffee"⟩).files p := by decide +kernel
  have hsources : ∀ p ∈ [⟨"/a.coffee"⟩, ⟨"/a.tmp.1.coffee"⟩], scratchedBlocked.files.source? p =
      (scratched.afterLoad markingHost ⟨"/a.tmp.1.coffee"⟩).files.source? p := by decide +kernel
  have hscripts : ∀ code file, (markingHost.evaluator code file).Does Deed.KeepsSlots :=
    fun _ _ => trivial
  have hinstalled := (installed_of_addHook _ _ _).of_setup (Session.setup_require hscripts hload)
  refine ⟨⟨by decide +kernel, by decide +kernel, isTree_of_entries (by decide +kernel), ?_, ?_⟩,
    hinstalled.of_setup (Session.setup_block _ _)⟩
  · exact fun p hp => .inr (hartifacts p hp)
  · exact fun p hp content time hsource => .inl ((hsources p hp) ▸ hsource)

theorem not_serves {fs : FileSystem} {p : Path} {changed : Time}
    (hsource : fs.source? p = some ("y".toUTF8, changed)) : ¬marked.Serves fs p "// x" := by
  rintro ⟨text, changed', output, hsource', hanswer, hcode⟩
  rw [hsource] at hsource'
  obtain rfl : "y" = text := toUTF8_inj (Prod.mk.inj (Option.some.inj hsource')).1
  rw [← Except.ok.inj hanswer] at hcode
  exact absurd hcode (by decide)

/-- Different paths of artifacts are not enough. Those of an absolute and of a relative source may
lead to one place, and the source that is loaded second is served the code of the first. And an
artifact may have the temporary name of another one: where that can neither be moved into place
nor removed, the code of the one source stays in the artifact of the other. -/
theorem unlike_artifacts_serve_amiss :
    ServesAmiss markingHost packagedLayout (· ∈ [⟨"/a.coffee"⟩, ⟨"lib/p/a.coffee"⟩]) marked
      packaged ∧
    ServesAmiss markingHost scratchLayout (· ∈ [⟨"/a.coffee"⟩, ⟨"/a.tmp.1.coffee"⟩]) marked
      scratched := by
  constructor
  · have hunlike : ∀ p ∈ [⟨"/a.coffee"⟩, ⟨"lib/p/a.coffee"⟩],
        ∀ q ∈ [⟨"/a.coffee"⟩, ⟨"lib/p/a.coffee"⟩], p.normalize ≠ q.normalize →
          (packagedLayout.place p).cache.same (packagedLayout.place q).cache = false := by
      decide +kernel
    have hfirst : Session.require markingHost 1 packaged (.load ⟨"/a.coffee"⟩) =
        some (packaged.afterLoad markingHost ⟨"/a.coffee"⟩, .ok ⟨⟨"/a.coffee"⟩, "// x"⟩) :=
      Session.require_afterLoad (by decide +kernel)
    have hsecond : Session.require markingHost 1 (packaged.afterLoad markingHost ⟨"/a.coffee"⟩)
        (.load ⟨"lib/p/a.coffee"⟩) = some (_, .ok ⟨⟨"lib/p/a.coffee"⟩, "// x"⟩) :=
      Session.require_afterLoad (by decide +kernel)
    have hsource : (packaged.afterLoad markingHost ⟨"/a.coffee"⟩).files.source? ⟨"lib/p/a.coffee"⟩ =
        some ("y".toUTF8, 1) := by decide +kernel
    exact ⟨orderly_markingHost _ _, by decide, fun p q hp hq => hunlike p hp q hq,
      installed_of_addHook _ _ _, isTree_of_entries (by decide +kernel), by decide +kernel,
      1, _, _, _, _, .top 1 (.load .start (fun _ => by decide) hfirst) (fun _ => by decide),
      by decide, by decide +kernel, hsecond, not_serves hsource⟩
  · have hunlike : ∀ p ∈ [⟨"/a.coffee"⟩, ⟨"/a.tmp.1.coffee"⟩],
        ∀ q ∈ [⟨"/a.coffee"⟩, ⟨"/a.tmp.1.coffee"⟩], p.normalize ≠ q.normalize →
          (scratchLayout.place p).cache.same (scratchLayout.place q).cache = false := by
      decide +kernel
    have hfirst : Session.require markingHost 1 scratched (.load ⟨"/a.tmp.1.coffee"⟩) =
        some (scratched.afterLoad markingHost ⟨"/a.tmp.1.coffee"⟩,
          .ok ⟨⟨"/a.tmp.1.coffee"⟩, "// y"⟩) := Session.require_afterLoad (by decide +kernel)
    have hsecond : Session.require markingHost 1 scratchedBlocked (.load ⟨"/a.coffee"⟩) =
        some (_, .ok ⟨⟨"/a.coffee"⟩, "// x"⟩) := Session.require_afterLoad (by decide +kernel)
    have hthird : Session.require markingHost 1
        (scratchedBlocked.afterLoad markingHost ⟨"/a.coffee"⟩) (.load ⟨"/a.tmp.1.coffee"⟩) =
          some (_, .ok ⟨⟨"/a.tmp.1.coffee"⟩, "// x"⟩) :=
      Session.require_afterLoad (by decide +kernel)
    have hsource : (scratchedBlocked.afterLoad markingHost ⟨"/a.coffee"⟩).files.source?
        ⟨"/a.tmp.1.coffee"⟩ = some ("y".toUTF8, 1) := by decide +kernel
    have hreach : Reachable markingHost (Deed.LoadsOnly (InPlay scratchLayout
        (· ∈ [⟨"/a.coffee"⟩, ⟨"/a.tmp.1.coffee"⟩]))) (Between scratchLayout
          (· ∈ [⟨"/a.coffee"⟩, ⟨"/a.tmp.1.coffee"⟩])) scratched scratchedBlocked :=
      (Reachable.start.load (fun _ => by decide) hfirst).between between_scratchedBlocked
    exact ⟨orderly_markingHost _ _, by decide, fun p q hp hq => hunlike p hp q hq,
      installed_of_addHook _ _ _, isTree_of_entries (by decide +kernel), by decide +kernel,
      1, _, _, _, _, .top 1 (hreach.load (fun _ => by decide) hsecond) (fun _ => by decide),
      by decide, by decide +kernel, hthird, not_serves hsource⟩

end ModuleCache
