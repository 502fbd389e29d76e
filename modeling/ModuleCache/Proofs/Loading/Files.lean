import ModuleCache.Proofs.Loading.Course

/-!
What opening a file does to the files. They change only where the transpiler runs and where
the store writes the artifact of the very file that is opened, so whatever these two leave
is left by the opening.
-/

namespace ModuleCache

section
variable {F : FileSystem → Prop} {t : Transpiler}
  (hrun : ∀ {fs : FileSystem} (request : Transpiler.Request), F fs → F (t.run fs request).fs)
include hrun

theorem Transpiler.compile_leaves {fs : FileSystem} (request : Transpiler.Request) (hfs : F fs) :
    F (t.compile fs request).fs := by
  rw [fs_compile]
  exact hrun request hfs

theorem PlainHandler.supply_leaves (handler : PlainHandler) {fs : FileSystem} (p : Path)
    (hfs : F fs) : F (handler.supply t fs p).files := by
  unfold supply
  cases handler with
  | fixed id code => exact hfs
  | uncached extensions =>
      dsimp only
      cases fs.readText p with
      | error cause => exact hfs
      | ok source => exact Transpiler.compile_leaves hrun _ hfs

theorem Hook.supply_leaves (hook : Hook) {fs : FileSystem} (p : Path) {course : Course}
    (hcourse : F (course.files fs)) : F (hook.supply t fs p course).files := by
  unfold supply
  split
  · exact PlainHandler.supply_leaves hrun _ p hcourse
  · exact hcourse

theorem Layout.course_leaves {G : FileSystem → Prop} (hkeep : ∀ {fs : FileSystem}, F fs → G fs)
    {l : Layout} {p : Path}
    (hwrite : ∀ {fs : FileSystem} (content : String) (map : Option String), F fs →
      G (Store.write fs (l.place p).cache (l.place p).map content map).fs) {fs : FileSystem}
    (hfs : F fs) : G ((l.course t fs p).files fs) := by
  unfold course
  cases Store.serve? fs p (l.place p).cache with
  | some code => exact hkeep hfs
  | none =>
      dsimp only
      cases fs.readText p with
      | error cause => exact hkeep hfs
      | ok source =>
          have hcompiled := Transpiler.compile_leaves hrun (l.request p source) hfs
          dsimp only
          cases (t.compile fs (l.request p source)).outcome with
          | error e => exact hkeep hcompiled
          | ok output => exact hwrite output.code output.map hcompiled

end

/-- What runs of the transpiler leave, and writes of the file's own artifact where a hook
opens it, is left by opening the file. -/
theorem Session.opening_leaves {F : FileSystem → Prop} {t : Transpiler}
    (hrun : ∀ {fs : FileSystem} (request : Transpiler.Request), F fs → F (t.run fs request).fs)
    {s : Session} {demand : Demand}
    (hwrite : ∀ {index : Nat} {hook : Hook} {entered : InProgress},
      s.route demand = .hook index hook entered → ∀ {fs : FileSystem} (content : String)
        (map : Option String), F fs → F (Store.write fs (hook.layout.place demand.file).cache
          (hook.layout.place demand.file).map content map).fs)
    (hs : F s.files) : F (s.opening t demand).1.files := by
  cases hroute : s.route demand with
  | refused error =>
      rw [opening_of_refused t hroute]
      exact hs
  | plain handler =>
      obtain ⟨notes, hopen⟩ := opening_of_plain t hroute
      rw [hopen]
      exact handler.supply_leaves hrun demand.file hs
  | hook index hook entered =>
      obtain ⟨notes, hopen⟩ := opening_of_hook t hroute
      have hcourse : F ((hook.layout.course t s.files demand.file).files s.files) :=
        Layout.course_leaves (G := F) hrun (fun hfs => hfs) (hwrite hroute) hs
      rw [hopen]
      exact hook.supply_leaves hrun demand.file hcourse

end ModuleCache
