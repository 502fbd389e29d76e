import ModuleCache.Proofs.Coherence.Files
import ModuleCache.Proofs.Loading.Files
import ModuleCache.Proofs.Loading.Installed

/-!
One load and coherent files. Under one hook, whose fallback is missing or compiles on
every load, opening a tracked file gives the code that belongs to the source as it stands,
whether that comes from the artifact, from a compilation or from the fallback; and the
files stay coherent.
-/

namespace ModuleCache

open FileSystem

/-- Between two states of the files no source and no artifact is touched. -/
structure Undisturbed (l : Layout) (files : Path → Prop) (before after : FileSystem) : Prop where
  current : after.current = before.current
  process : after.process = before.process
  tree : before.IsTree → after.IsTree
  sources : ∀ p, files p → after.source? p = before.source? p
  artifacts : ∀ p, files p → l.artifact? after p = l.artifact? before p

/-- A transpiler that answers by the text alone and does not disturb the files, and code
that only has files in play loaded. -/
structure Orderly (host : Host) (l : Layout) (files : Path → Prop) (answer : Answering) :
    Prop where
  answers : ∀ fs request, (host.transpiler.run fs request).outcome = answer request.source
  undisturbed : ∀ fs request, Undisturbed l files fs (host.transpiler.run fs request).fs
  scripts : ∀ code file, (host.evaluator code file).LoadsOnly (InPlay l files)

/-- The files of a session are in order. -/
structure InOrder (l : Layout) (files : Path → Prop) (base : Address) (process : Nat)
    (answer : Answering) (fs : FileSystem) : Prop where
  current : fs.current = base
  process : fs.process = process
  tree : fs.IsTree
  coherent : Coherent l files answer fs

/-- The code is what is answered for the text that the source's path leads to. -/
def Answering.Serves (answer : Answering) (fs : FileSystem) (p : Path) (code : String) : Prop :=
  ∃ text changed output, fs.source? p = some (text.toUTF8, changed) ∧
    answer text = .ok output ∧ code = output.code

/-! ### Reading -/

theorem contentAt?_of_node? {fs : FileSystem} {a : Address} {content : ByteArray} {mode : Nat}
    {modified : Time} (h : fs.node? a = some (.file content mode modified)) :
    fs.contentAt? a = some (content, modified) := by
  rw [contentAt?, fileAt?_eq_some.mpr h]
  rfl

theorem source?_of_find {fs : FileSystem} {p : Path} {content : ByteArray} {mode : Nat}
    {modified : Time} (h : fs.find p = .ok (.file content mode modified)) :
    fs.source? p = some (content, modified) := contentAt?_of_node? (find_eq_ok h).2

section
variable {host : Host} {l : Layout} {files : Path → Prop} {base : Address} {process : Nat}
  {answer : Answering}

theorem Undisturbed.inOrder {before after : FileSystem} (h : Undisturbed l files before after)
    (hbefore : InOrder l files base process answer before) :
    InOrder l files base process answer after where
  current := h.current.trans hbefore.current
  process := h.process.trans hbefore.process
  tree := h.tree hbefore.tree
  coherent := fun p hp source changed code written hsource hartifact => by
    rw [h.sources p hp] at hsource
    rw [h.artifacts p hp] at hartifact
    exact hbefore.coherent p hp source changed code written hsource hartifact

/-- An artifact that is fresh and readable holds what belongs to its source. -/
theorem InOrder.serves_of_fresh {fs : FileSystem} (h : InOrder l files base process answer fs)
    {p : Path} (hp : files p) (htracked : l.extensions.isTracked p = true)
    (hfile : fs.isDirectory p = false) {code : String}
    (hfresh : Store.isFresh fs p (l.place p).cache = true)
    (hread : fs.readText (l.place p).cache = .ok code) : answer.Serves fs p code := by
  obtain ⟨mode, written, hfind, -⟩ := readText_eq_ok hread
  obtain ⟨⟨name, hname⟩, hends⟩ := named_of_find_file h.tree hfind
  have hext := Layout.extension?_cache htracked hname hends
  have hartifact : l.artifact? fs p = some (code.toUTF8, written) := by
    rw [Layout.artifact?, Layout.artifactAt?, if_pos hext]
    exact contentAt?_of_node? (find_eq_ok hfind).2
  unfold Store.isFresh at hfresh
  split at hfresh
  · next changed time hchanged htime =>
      obtain ⟨node, hnode, hmodified⟩ := modified?_eq_some hchanged
      obtain ⟨artifact, hartifactNode, htime'⟩ := modified?_eq_some htime
      obtain rfl : Node.file code.toUTF8 mode written = artifact :=
        Except.ok.inj (hfind.symm.trans hartifactNode)
      cases node with
      | directory writable modified => simp [isDirectory, hnode] at hfile
      | file content mode' modified =>
          have hsource := source?_of_find hnode
          have hle : modified ≤ written := by
            rw [← hmodified, ← htime'] at hfresh
            exact of_decide_eq_true hfresh
          obtain ⟨text, output, hanswer, htext, hcode⟩ :=
            h.coherent p hp content modified code.toUTF8 written hsource hartifact hle
          exact ⟨text, modified, output, htext ▸ hsource, hanswer, toUTF8_inj hcode⟩
  · cases hfresh

/-- Code that is compiled is what the transpiler answers. -/
theorem compile_eq_ok (h : Orderly host l files answer) {fs : FileSystem}
    {request : Transpiler.Request} {output : Transpiler.Output}
    (hcompile : (host.transpiler.compile fs request).outcome = .ok output) :
    ∃ raw, answer request.source = .ok raw ∧ output.code = raw.code := by
  have hanswers := h.answers fs request
  unfold Transpiler.compile at hcompile
  dsimp only at hcompile
  split at hcompile
  · cases hcompile
  · next raw hraw =>
      rw [hraw] at hanswers
      refine ⟨raw, hanswers.symm, ?_⟩
      rw [← Except.ok.inj hcompile]
      unfold Transpiler.Output.annotated
      split <;> rfl

theorem serves_of_compile (h : Orderly host l files answer) {fs : FileSystem} {p : Path}
    {request : Transpiler.Request} (hread : fs.readText p = .ok request.source)
    {output : Transpiler.Output}
    (hcompile : (host.transpiler.compile fs request).outcome = .ok output) :
    answer.Serves fs p output.code := by
  obtain ⟨mode, modified, hfind, -⟩ := readText_eq_ok hread
  obtain ⟨raw, hraw, hcode⟩ := compile_eq_ok h hcompile
  exact ⟨request.source, modified, raw, source?_of_find hfind, hraw, hcode⟩

theorem Answering.Serves.of_source {fs fs' : FileSystem} {p : Path} {code : String}
    (h : answer.Serves fs p code) (hsource : fs'.source? p = fs.source? p) :
    answer.Serves fs' p code := by
  obtain ⟨text, changed, output, hfound, hanswer, hcode⟩ := h
  exact ⟨text, changed, output, hsource.trans hfound, hanswer, hcode⟩

/-- The files after a file was opened are in order, and no source is touched. -/
structure LeavesInOrder (l : Layout) (files : Path → Prop) (base : Address) (process : Nat)
    (answer : Answering) (fs after : FileSystem) : Prop where
  inOrder : InOrder l files base process answer after
  sources : ∀ q, files q → after.source? q = fs.source? q

theorem compile_inOrder (h : Orderly host l files answer) {fs : FileSystem}
    (hfs : InOrder l files base process answer fs) (request : Transpiler.Request) :
    LeavesInOrder l files base process answer fs (host.transpiler.compile fs request).fs := by
  have hundisturbed := h.undisturbed fs request
  rw [← Transpiler.fs_compile] at hundisturbed
  exact ⟨hundisturbed.inOrder hfs, hundisturbed.sources⟩

/-- A plain handler that compiles gives the code that belongs to the source. -/
theorem supply_inOrder (h : Orderly host l files answer) {fs : FileSystem}
    (hfs : InOrder l files base process answer fs) (extensions : Extensions) (p : Path) :
    let supply := (PlainHandler.uncached extensions).supply host.transpiler fs p
    LeavesInOrder l files base process answer fs supply.files ∧
      ∀ code, supply.result = .ok code → answer.Serves fs p code := by
  unfold PlainHandler.supply
  dsimp only
  cases hread : fs.readText p with
  | error cause => exact ⟨⟨hfs, fun _ _ => rfl⟩, fun code hcode => nomatch hcode⟩
  | ok source =>
      dsimp only
      refine ⟨compile_inOrder h hfs _, fun code hcode => ?_⟩
      generalize hrequest : Transpiler.Request.ofSource source p (extensions.toOutput p).baseName =
        request at hcode
      have hsource : fs.readText p = .ok request.source := by rw [hread, ← hrequest]; rfl
      cases houtcome : (host.transpiler.compile fs request).outcome with
      | error e =>
          rw [houtcome] at hcode
          cases hcode
      | ok output =>
          rw [houtcome] at hcode
          rw [← Except.ok.inj hcode]
          exact serves_of_compile h hsource houtcome

/-- The artifact is written where the rules put it, and everything stays in order. -/
theorem InOrder.write (hapart : l.Apart files base process) {fs : FileSystem}
    (h : InOrder l files base process answer fs) {p : Path} (hp : files p) {content : String}
    (hserves : answer.Serves fs p content) (mapContent : Option String) :
    InOrder l files base process answer
        (Store.write fs (l.place p).cache (l.place p).map content mapContent).fs ∧
      ∀ q, files q →
        (Store.write fs (l.place p).cache (l.place p).map content mapContent).fs.source? q =
          fs.source? q := by
  obtain ⟨text, changed, output, hsource, hanswer, hcode⟩ := hserves
  have hleaves := Store.write_leaves fs (l.place p).cache (l.place p).map content mapContent
  refine ⟨⟨hleaves.current.trans h.current, hleaves.process.trans h.process, hleaves.tree h.tree,
    ?_⟩, ?_⟩
  · exact coherent_write hapart h.current h.process h.coherent hp hsource
      ⟨text, output, hanswer, rfl, by rw [hcode]⟩ mapContent
  · intro q hq
    exact (write_frame hapart h.current h.process hp hq content mapContent).1

/-- A hook takes a course that keeps the files in order, and gives the code that belongs to
the source. -/
theorem course_inOrder (hapart : l.Apart files base process) (h : Orderly host l files answer)
    {fs : FileSystem} (hfs : InOrder l files base process answer fs) {p : Path} (hp : files p) :
    let course := l.course host.transpiler fs p
    LeavesInOrder l files base process answer fs (course.files fs) ∧
      ∀ code, course.result p = .ok code → fs.isDirectory p = false →
        answer.Serves fs p code := by
  have hkept : LeavesInOrder l files base process answer fs fs := ⟨hfs, fun _ _ => rfl⟩
  unfold Layout.course
  cases hserve : Store.serve? fs p (l.place p).cache with
  | some served =>
      obtain ⟨hfresh, hread⟩ := Store.serve?_eq_some hserve
      refine ⟨hkept, fun code hcode hfile => ?_⟩
      rw [← Except.ok.inj hcode]
      exact hfs.serves_of_fresh hp (hapart.tracked p hp) hfile hfresh hread
  | none =>
      dsimp only
      cases hread : fs.readText p with
      | error cause => exact ⟨hkept, fun code hcode => nomatch hcode⟩
      | ok source =>
          dsimp only
          obtain ⟨hcompiled, hsources⟩ := compile_inOrder h hfs (l.request p source)
          cases houtcome : (host.transpiler.compile fs (l.request p source)).outcome with
          | error e => exact ⟨⟨hcompiled, hsources⟩, fun code hcode => nomatch hcode⟩
          | ok output =>
              have hserves : answer.Serves fs p output.code := serves_of_compile h hread houtcome
              obtain ⟨hwritten, hsources'⟩ :=
                hcompiled.write hapart hp (hserves.of_source (hsources p hp)) output.map
              refine ⟨⟨hwritten, fun q hq => (hsources' q hq).trans (hsources q hq)⟩, ?_⟩
              intro code hcode _
              rw [← Except.ok.inj hcode]
              exact hserves

/-- The same for a hook with its fallback, which reads and compiles the source anew. -/
theorem hook_inOrder (hapart : l.Apart files base process) (h : Orderly host l files answer)
    {fs : FileSystem} (hfs : InOrder l files base process answer fs) {hook : Hook}
    (hhook : hook.layout = l)
    (hfallback : hook.fallback = none ∨
      ∃ extensions, hook.fallback = some (.plain (.uncached extensions)))
    {p : Path} (hp : files p) :
    let supply := hook.supply host.transpiler fs p (hook.layout.course host.transpiler fs p)
    LeavesInOrder l files base process answer fs supply.files ∧
      ∀ code, supply.result = .ok code → fs.isDirectory p = false →
        answer.Serves fs p code := by
  obtain ⟨hcourse, hserves⟩ := course_inOrder hapart h hfs hp
  rw [hhook]
  generalize l.course host.transpiler fs p = course at hcourse hserves
  cases hresult : course.result p with
  | ok found =>
      rw [Hook.supply_of_ok hook hresult]
      exact ⟨hcourse, fun code hcode => hserves code (hresult.trans hcode)⟩
  | error error =>
      rcases hfallback with hnone | ⟨extensions, hsome⟩
      · unfold Hook.supply
        rw [hresult, hnone]
        exact ⟨hcourse, fun code hcode => nomatch hcode⟩
      · rw [Hook.supply_of_error hresult hsome]
        obtain ⟨hsupply, hanew⟩ := supply_inOrder h hcourse.inOrder extensions p
        refine ⟨⟨hsupply.inOrder, fun q hq => ?_⟩, fun code hcode _ => ?_⟩
        · exact (hsupply.sources q hq).trans (hcourse.sources q hq)
        · exact (hanew code hcode).of_source (hcourse.sources p hp).symm

/-- A session of a run: the hook is installed and the files are in order. -/
structure Sound (l : Layout) (files : Path → Prop) (base : Address) (process : Nat)
    (answer : Answering) (s : Session) : Prop where
  installed : Installed l s
  inOrder : InOrder l files base process answer s.files

/-- Opening a file in play keeps a session sound, and the code that a tracked file opens to
belongs to the file. -/
theorem opening_sound (hapart : l.Apart files base process) (h : Orderly host l files answer)
    {s : Session} (hs : Sound l files base process answer s) {p : Path} (hp : InPlay l files p) :
    Sound l files base process answer (s.opening host.transpiler p).1 ∧
      ∀ code, (s.opening host.transpiler p).2 = .ok code → files p →
        s.files.isDirectory p = false → answer.Serves s.files p code := by
  have hinstalled : Installed l (s.opening host.transpiler p).1 :=
    hs.installed.of_setup (Session.setup_opening s host.transpiler p)
  suffices hopens : InOrder l files base process answer (s.opening host.transpiler p).1.files ∧
      ∀ code, (s.opening host.transpiler p).2 = .ok code → files p →
        s.files.isDirectory p = false → answer.Serves s.files p code from
    ⟨⟨hinstalled, hopens.1⟩, hopens.2⟩
  rcases hs.installed.route p with ⟨error, hroute⟩ | ⟨htracked, handler, hroute⟩ |
    ⟨htracked, hook, entered, hroute, hlayout, hfallback⟩
  · rw [Session.opening_of_refused host.transpiler hroute]
    exact ⟨hs.inOrder, fun code hcode => nomatch hcode⟩
  · have huntracked : ¬ files p := fun hfile => by
      rw [hapart.tracked p hfile] at htracked
      cases htracked
    obtain ⟨notes, hopen⟩ := Session.opening_of_plain host.transpiler hroute
    rw [hopen]
    refine ⟨?_, fun _ _ hfile => absurd hfile huntracked⟩
    cases handler with
    | fixed id code => exact hs.inOrder
    | uncached extensions => exact (supply_inOrder h hs.inOrder extensions p).1.inOrder
  · obtain ⟨notes, hopen⟩ := Session.opening_of_hook host.transpiler hroute
    obtain ⟨hinOrder, hserves⟩ :=
      hook_inOrder hapart h hs.inOrder hlayout hfallback (hp htracked)
    rw [hopen]
    exact ⟨hinOrder.inOrder, fun code hcode _ => hserves code hcode⟩

end

end ModuleCache
