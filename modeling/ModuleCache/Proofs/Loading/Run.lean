import ModuleCache.Proofs.Loading.Course

/-!
Loads inside loads. The code of a file may ask for further loads, and these may ask for
more. A property of sessions that opening and closing a file keep, and what code does itself,
is kept by whole loads, however deep they are nested, and holds where each of the inner loads
starts.
-/

namespace ModuleCache

/-- Whatever becomes of its demands, a script does only what is allowed. -/
def Script.Does (A : Deed → Prop) : Script → Prop
  | .finish => True
  | .fail _ => True
  | .act deed next => A deed ∧ ∀ reply, (next reply).Does A

theorem Script.does_any (script : Script) : script.Does fun _ => True := by
  induction script with
  | finish => trivial
  | fail error => trivial
  | act deed next ih => exact ⟨trivial, ih⟩

theorem Script.Does.imp {A B : Deed → Prop} (h : ∀ deed, A deed → B deed) {script : Script}
    (hscript : script.Does A) : script.Does B := by
  induction script with
  | finish => trivial
  | fail error => trivial
  | act deed next ih => exact ⟨h deed hscript.1, fun reply => ih reply (hscript.2 reply)⟩

/-- What code may do that has files loaded or code run, and does nothing else to the loader
or to files. -/
def Deed.LoadsOnly (P : Path → Prop) : Deed → Prop
  | .record _ | .consult | .ask (.execute ..) => True
  | .ask (.load file) => P file
  | _ => False

/-- All files that a script may have loaded, which otherwise keeps to itself. -/
abbrev Script.LoadsOnly (P : Path → Prop) (script : Script) : Prop :=
  script.Does (Deed.LoadsOnly P)

namespace Session

/-- A script that starts in the session `s` asks for something in the session `s'`. -/
inductive Asks (require : Require) : Script → Session → Session → Demand → Prop
  | here (demand : Demand) (next : Loaded → Script) (s : Session) :
      Asks require (.act (.ask demand) next) s s demand
  | later {deed : Deed} {next : deed.Reply → Script} {s mid s' : Session} {reply : deed.Reply}
      {demand : Demand} (hfirst : s.act require deed = some (mid, reply))
      (h : Asks require (next reply) mid s' demand) : Asks require (.act deed next) s s' demand

/-- While a session meets a demand, something else is asked for in the session `s'`, and may
have `depth` more inside it: by the code that the file opened to, or because the file did not
open and is handed to another hook. -/
inductive Inside (host : Host) (depth : Nat) (s : Session) (demand : Demand) :
    Session → Demand → Prop
  | asked {opened s' : Session} {code : String} {inner : Demand}
      (hopen : s.opening host.transpiler demand = (opened, .ok code))
      (hasks : Asks (require host depth) (host.evaluator code demand.file) opened s' inner) :
      Inside host depth s demand s' inner
  | handed {opened : Session} {error : LoadError} {handler : Handler}
      (hopen : s.opening host.transpiler demand = (opened, .error error))
      (hnext : (s.route demand).next? = some handler) :
      Inside host depth s demand opened (.loadBy handler demand.file)

/-- A property of sessions that is kept where code does what is allowed: each part of a load
keeps it, and what code does itself. -/
structure Maintained (host : Host) (A : Deed → Prop) (Inv : Session → Prop) : Prop where
  opening : ∀ {s : Session} {demand : Demand}, A (.ask demand) → Inv s →
    Inv (s.opening host.transpiler demand).1
  handed : ∀ {s : Session} {demand : Demand} {handler : Handler}, A (.ask demand) → Inv s →
    (s.route demand).next? = some handler → A (.ask (.loadBy handler demand.file))
  closing : ∀ {s s' : Session} {demand : Demand}, A (.ask demand) → Inv s → Inv s' →
    Inv ((s.route demand).closing demand.file s')
  after : ∀ {s : Session} {deed : Deed}, A deed → Inv s → Inv (s.after deed)
  scripts : ∀ (code : String) (file : Path), (host.evaluator code file).Does A

variable {host : Host} {A : Deed → Prop} {Inv : Session → Prop}

/-- Demands that are allowed keep the property where they are met. -/
def Keeps (A : Deed → Prop) (Inv : Session → Prop) (require : Require) : Prop :=
  ∀ {s s' : Session} {demand : Demand} {loaded : Loaded}, A (.ask demand) → Inv s →
    require s demand = some (s', loaded) → Inv s'

namespace Keeps

variable {require : Require} (hrequire : Keeps A Inv require)
  (hafter : ∀ {s : Session} {deed : Deed}, A deed → Inv s → Inv (s.after deed))
include hrequire hafter

theorem act {deed : Deed} (hdeed : A deed) {s s' : Session} {reply : deed.Reply} (hs : Inv s)
    (hact : s.act require deed = some (s', reply)) : Inv s' := by
  obtain ⟨demand, loaded, rfl, hask⟩ | ⟨-, rfl⟩ := act_cases hact
  · exact hrequire hdeed hs hask
  · exact hafter hdeed hs

/-- What demands keep, and what code does itself, is kept by scripts. -/
theorem run {script : Script} (hscript : script.Does A) {s s' : Session}
    {ended : Except LoadError Unit} (hs : Inv s)
    (hrun : Session.run require script s = some (s', ended)) : Inv s' := by
  induction script generalizing s with
  | finish =>
      obtain ⟨rfl, -⟩ := Prod.mk.inj (Option.some.inj hrun)
      exact hs
  | fail error =>
      obtain ⟨rfl, -⟩ := Prod.mk.inj (Option.some.inj hrun)
      exact hs
  | act deed next ih =>
      obtain ⟨⟨mid, reply⟩, hact, hrest⟩ := Option.bind_eq_some_iff.mp hrun
      exact ih reply (hscript.2 reply) (hrequire.act hafter hscript.1 hs hact) hrest

theorem execute {s s' : Session} {code : String} {file : Path} {loaded : Loaded}
    (hscript : (host.evaluator code file).Does A) (hs : Inv s)
    (hrun : Session.execute host require s code file = some (s', loaded)) : Inv s' := by
  obtain ⟨⟨mid, ended⟩, hmid, hend⟩ := Option.bind_eq_some_iff.mp hrun
  obtain ⟨rfl, -⟩ := Prod.mk.inj (Option.some.inj hend)
  exact hrequire.run hafter hscript hs hmid

/-- The property holds wherever such a script asks for something. -/
theorem asks {script : Script} {s s' : Session} {demand : Demand}
    (hasks : Asks require script s s' demand) (hscript : script.Does A) (hs : Inv s) :
    A (.ask demand) ∧ Inv s' := by
  induction hasks with
  | here demand next s => exact ⟨hscript.1, hs⟩
  | later hfirst _ ih =>
      exact ih (hscript.2 _) (hrequire.act hafter hscript.1 hs hfirst)

end Keeps

namespace Maintained

variable (h : Maintained host A Inv)
include h

theorem execute {require : Require} (hrequire : Keeps A Inv require) {s s' : Session}
    {code : String} {file : Path} {loaded : Loaded} (hs : Inv s)
    (hrun : Session.execute host require s code file = some (s', loaded)) : Inv s' :=
  hrequire.execute h.after (h.scripts code file) hs hrun

/-- Demands keep the property, to whatever depth they are nested. -/
theorem require (depth : Nat) : Keeps A Inv (Session.require host depth) := by
  induction depth with
  | zero =>
      intro s s' demand loaded _ _ hload
      cases hload
  | succ depth ih =>
      intro s s' demand loaded hdemand hs hload
      have hopened := h.opening hdemand hs
      obtain ⟨ran, rfl, ⟨error, hopen, -⟩ | ⟨opened, code, inner, hinner, hopen, hran⟩ |
        ⟨opened, error, handler, inner, hinner, hopen, hnext, hran⟩⟩ := require_eq_some hload
      · rw [hopen] at hopened
        exact h.closing hdemand hs hopened
      · obtain rfl := Nat.succ.inj hinner
        rw [hopen] at hopened
        exact h.closing hdemand hs (h.execute ih hopened hran)
      · obtain rfl := Nat.succ.inj hinner
        rw [hopen] at hopened
        exact h.closing hdemand hs (ih (h.handed hdemand hs hnext) hopened hran)

/-- And it holds where something is asked for inside. -/
theorem inside {depth : Nat} {s s' : Session} {demand inner : Demand} (hdemand : A (.ask demand))
    (hs : Inv s) (hinside : Inside host depth s demand s' inner) :
    A (.ask inner) ∧ Inv s' := by
  have hopened := h.opening hdemand hs
  cases hinside with
  | asked hopen hasks =>
      rw [hopen] at hopened
      exact Keeps.asks (h.require depth) h.after hasks (h.scripts _ _) hopened
  | handed hopen hnext =>
      rw [hopen] at hopened
      exact ⟨h.handed hdemand hs hnext, hopened⟩

end Maintained

end Session

/-! ### Code that keeps out of the loader -/

/-- What code may do that does not enter the loader again. -/
def Deed.KeepsOut : Deed → Prop
  | .record _ | .consult | .alter _ => True
  | _ => False

/-- What code may do that touches nothing and depends on nothing that was done before. -/
def Deed.RecordsOnly : Deed → Prop
  | .record _ => True
  | _ => False

theorem Deed.RecordsOnly.keepsOut (deed : Deed) (h : deed.RecordsOnly) : deed.KeepsOut := by
  cases deed with
  | record text => trivial
  | _ => exact h.elim

/-- How a script ends that keeps out of the loader, by what was recorded before it. -/
def Script.ending : Script → List String → Except LoadError Unit
  | .finish, _ => .ok ()
  | .fail error, _ => .error error
  | .act (.record text) next, records => (next ()).ending (records ++ [text])
  | .act .consult next, records => (next records).ending records
  | .act (.alter _) next, records => (next ()).ending records
  | .act _ _, _ => .ok ()

theorem Script.ending_of_recordsOnly {script : Script} (h : script.Does Deed.RecordsOnly)
    (records records' : List String) : script.ending records = script.ending records' := by
  induction script generalizing records records' with
  | finish => rfl
  | fail error => rfl
  | act deed next ih =>
      cases deed with
      | record text => exact ih () (h.2 ()) _ _
      | _ => exact h.1.elim

/-- What comes of a load, by what its file opened to, when code keeps out of the loader. -/
def Host.outcome (host : Host) (records : List String) (file : Path) :
    Except LoadError String → Loaded
  | .error error => .error error
  | .ok code => ((host.evaluator code file).ending records).map fun () => ⟨file, code⟩

namespace Session

/-- A script that keeps out of the loader leaves all but the records and the files, and one
that only records leaves the files as well. -/
theorem run_of_keepsOut (require : Require) {script : Script} (h : script.Does Deed.KeepsOut)
    (s : Session) :
    ∃ records files, Session.run require script s =
        some ({ s with records, files }, script.ending s.records) ∧
      (script.Does Deed.RecordsOnly → files = s.files) := by
  induction script generalizing s with
  | finish => exact ⟨s.records, s.files, rfl, fun _ => rfl⟩
  | fail error => exact ⟨s.records, s.files, rfl, fun _ => rfl⟩
  | act deed next ih =>
      cases deed with
      | record text =>
          obtain ⟨records, files, hrun, hfiles⟩ :=
            ih () (h.2 ()) { s with records := s.records ++ [text] }
          exact ⟨records, files, hrun, fun honly => hfiles (honly.2 ())⟩
      | consult =>
          obtain ⟨records, files, hrun, -⟩ := ih s.records (h.2 s.records) s
          exact ⟨records, files, hrun, fun honly => honly.1.elim⟩
      | alter change =>
          obtain ⟨records, files, hrun, -⟩ := ih () (h.2 ()) { s with files := change s.files }
          exact ⟨records, files, hrun, fun honly => honly.1.elim⟩
      | assign claims extension handler => exact h.1.elim
      | ask demand => exact h.1.elim

theorem records_opening (s : Session) (t : Transpiler) (demand : Demand) :
    (s.opening t demand).1.records = s.records := by
  cases hroute : s.route demand with
  | refused error => rw [opening_of_refused t hroute]
  | plain handler =>
      obtain ⟨notes, hopen⟩ := opening_of_plain t hroute
      rw [hopen]
  | hook index hook entered =>
      obtain ⟨notes, hopen⟩ := opening_of_hook t hroute
      rw [hopen]

/-- Where code keeps out of the loader, a load that is not handed on is what its file opens
to. -/
theorem require_of_keepsOut {host : Host}
    (h : ∀ code file, (host.evaluator code file).Does Deed.KeepsOut) (depth : Nat)
    {s : Session} {demand : Demand} (hnext : (s.route demand).next? = none) :
    ∃ records files, require host (depth + 1) s demand =
        some ((s.route demand).closing demand.file
            { (s.opening host.transpiler demand).1 with records, files },
          host.outcome s.records demand.file (s.opening host.transpiler demand).2) ∧
      ((∀ code file, (host.evaluator code file).Does Deed.RecordsOnly) →
        files = (s.opening host.transpiler demand).1.files) := by
  have hrecords := records_opening s host.transpiler demand
  unfold require
  rw [dispatch_eq, hnext, ← hrecords]
  rcases s.opening host.transpiler demand with ⟨opened, result⟩
  cases result with
  | error error => exact ⟨opened.records, opened.files, rfl, fun _ => rfl⟩
  | ok code =>
      obtain ⟨records, files, hrun, hfiles⟩ :=
        run_of_keepsOut (require host depth) (h code demand.file) opened
      refine ⟨records, files, ?_, fun honly => hfiles (honly code demand.file)⟩
      unfold runOpened execute
      dsimp only
      rw [hrun]
      rfl

/-- Where code only records, it leaves the files too, and what was recorded does not matter. -/
theorem require_of_recordsOnly {host : Host}
    (h : ∀ code file, (host.evaluator code file).Does Deed.RecordsOnly) (depth : Nat)
    {s : Session} {demand : Demand} (hnext : (s.route demand).next? = none) :
    ∃ records, require host (depth + 1) s demand =
      some ((s.route demand).closing demand.file
          { (s.opening host.transpiler demand).1 with records },
        host.outcome [] demand.file (s.opening host.transpiler demand).2) := by
  obtain ⟨records, files, hload, hfiles⟩ :=
    require_of_keepsOut (fun code file => (h code file).imp Deed.RecordsOnly.keepsOut) depth hnext
  have hsame : host.outcome s.records demand.file (s.opening host.transpiler demand).2 =
      host.outcome [] demand.file (s.opening host.transpiler demand).2 := by
    unfold Host.outcome
    cases (s.opening host.transpiler demand).2 with
    | error error => rfl
    | ok code =>
        dsimp only
        rw [Script.ending_of_recordsOnly (h code demand.file) s.records []]
  rw [hfiles h, hsame] at hload
  exact ⟨records, hload⟩

end Session
end ModuleCache
