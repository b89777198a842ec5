/-
  MappingFlow.Proofs.Web.Migration — what the conversion of listed files does beside drawing.

  While files are converted, the progress is drawn between the steps, but nothing of it is
  looked at and no entry of the session is made. `Performs w p x` says so: a run of the
  page `p` answers and writes what the program `x` does on the files alone. `convertFile`
  is that program for one file, and `migrateEach_performs` is the case of all of them.
-/

import MappingFlow.Proofs.Running
import MappingFlow.Proofs.Web.Page
import MappingFlow.Web.Migration

namespace MappingFlow.Web

/-- Programs on files alone. -/
abbrev Filing := ExceptT Fault (StateM Storage)

variable {α β : Type} {w : Surroundings}

/-! ## Pages that work on files -/

structure Performs (w : Surroundings) (p : Page α) (x : Filing α) : Prop where
  runOn : ∀ s, ∃ es lines, p.runOn w s = ((outcome x s.storage).1.mapError .fault,
    { s with storage := (outcome x s.storage).2, elements := es, printed := lines })

namespace Performs

theorem pure (a : α) : Performs w (pure a) (pure a) := ⟨fun s => ⟨s.elements, s.printed, rfl⟩⟩

theorem lift (e : Except Fault α) : Performs w (liftM e) (liftM e) := by
  refine ⟨fun s => ⟨s.elements, s.printed, ?_⟩⟩
  rw [Page.runOn_lift]
  rfl

theorem bind (hp : Performs w p x) (hq : ∀ a, Performs w (q a) (y a)) : Performs w (p >>= q) (x >>= y) := by
  refine ⟨fun s => ?_⟩
  obtain ⟨es, lines, hrun⟩ := hp.runOn s
  rw [Page.runOn_bind, hrun, outcome_bind]
  rcases outcome x s.storage with ⟨f | a, storage⟩
  · exact ⟨es, lines, rfl⟩
  · exact (hq a).runOn { s with storage := storage, elements := es, printed := lines }

/-- What only draws leaves no trace among the files. -/
theorem after {q : α → Page β} {y : Filing β} (hp : Performs w p (Pure.pure a))
    (hq : Performs w (q a) y) : Performs w (p >>= q) y := by
  refine ⟨fun s => ?_⟩
  obtain ⟨es, lines, hrun⟩ := hp.runOn s
  rw [Page.runOn_bind, hrun]
  exact hq.runOn { s with elements := es, printed := lines }

theorem draw (kind) (arguments) (options) :
    Performs w (draw kind arguments options) (Pure.pure ()) := ⟨fun s => ⟨_, s.printed, rfl⟩⟩

theorem read : Performs w (read : Page Surroundings) (Pure.pure w) := ⟨fun s => ⟨s.elements, s.printed, rfl⟩⟩

theorem get_bind (h : ∀ t, Performs w (q t) (y t.storage)) :
    Performs w (get >>= q) (get >>= y) := ⟨fun s => (h s).runOn s⟩

theorem put (files) (lines) :
    Performs w (modify fun s => { s with storage := files, printed := s.printed ++ lines }) (set files) :=
  ⟨fun s => ⟨s.elements, _, rfl⟩⟩

theorem announce (p) (step : Nat) (doing) (name : Value) :
    Performs w (announce p step doing name) (Pure.pure ()) := .after (.draw ..) (.draw ..)

end Performs

/-! ## One file -/

/-- The mapping in a file. -/
def mappingAt (path : Value) (files : Storage) : Except Fault Mapping :=
  match pathOf path with
  | .error f => .error f
  | .ok p =>
    match files.read p.toText with
    | .ok content => Mapping.ofBytes content
    | .error .nullInPath => .error .nullInPath
    | .error _ => .error (.unreadableMapping p.toText)

theorem mappingAt_ok (h : mappingAt path files = .ok m) :
    ∃ p content, pathOf path = .ok p ∧ files.read p.toText = .ok content ∧ Mapping.ofBytes content = .ok m := by
  unfold mappingAt at h
  split at h
  · cases h
  · rename_i p hp
    split at h
    · rename_i content hcontent
      exact ⟨p, content, hp, hcontent, h⟩
    · cases h
    · cases h

theorem mappingAt_of_read (hp : pathOf path = .ok p) (hread : files.read p.toText = .ok content) :
    mappingAt path files = Mapping.ofBytes content := by
  unfold mappingAt
  rw [hp]
  dsimp only
  rw [hread]

theorem readMapping_runOn (path : Value) (s) :
    (readMapping path).runOn w s = ((mappingAt path s.storage).mapError .fault, s) := by
  unfold readMapping mappingAt
  cases pathOf path with
  | error f => rfl
  | ok p =>
    rw [Page.runOn_bind_ok (a := p) (t := s) rfl, Page.runOn_bind_ok (a := s) (t := s) rfl]
    dsimp only
    cases s.storage.read p.toText with
    | ok content =>
      exact Page.runOn_lift _
    | error f => cases f <;> rfl

def loadMapping (path : Value) : Filing Mapping := do
  let files ← get
  mappingAt path files

theorem readMapping_performs (path : Value) : Performs w (readMapping path) (loadMapping path) :=
  ⟨fun s => ⟨s.elements, s.printed, readMapping_runOn path s⟩⟩

def generator (w : Surroundings) : Generation.Generator := ⟨.scripted w.datasets, outputFolder, w.moment⟩

/-- The three files of a mapping; those written before a failure stay. -/
def writeAll (w : Surroundings) (name : String) (m : Mapping) (plan : Value) :
    Filing Generation.Generator.Files := do
  let start ← (generator w).start (← get)
  let (made, done) := outcome ((generator w).all name plan m.transformations.length) start
  set done.storage
  made

def textAt (path : String) : Filing String := do
  let t ← (← get).readText path
  return t

def documentAt (path : String) : Filing Value := do
  let t ← textAt path
  return match Json.read t.toList with
    | .ok v => v
    | .error _ => .object []

def reviewed (m : Mapping) : Except Fault Review.Findings := do
  let (made, found) := outcome (Review.mapping m) .none
  let _ ← made
  return found

/-- What is noted of a mapping. -/
def findings (skip : Bool) (m : Mapping) : Except Fault Review.Findings :=
  if skip then .ok .none else reviewed m

/-- Writes the files of a mapping and reads them back. -/
def writeResult (w : Surroundings) (name : String) (fileName : Value) (m : Mapping) (plan : Value)
    (found : Review.Findings) : Filing Migrated := do
  let files ← writeAll w name m plan
  let pipeline ← documentAt files.pipeline
  let dataflow ← documentAt files.dataflow
  let report ← textAt files.report
  return ⟨name, fileName, pipeline, dataflow, report, found.errors, found.warnings, files⟩

def convertFile (w : Surroundings) (skip : Bool) (file : Value) : Filing Migrated := do
  let fileName ← file.field "name"
  let path ← file.field "path"
  let p ← pathOf path
  let m ← loadMapping path
  let (made, _) := outcome (Conversion.convertMapping w.rules m) .start
  let plan ← made
  let found ← findings skip m
  writeResult w p.stem fileName m plan found

theorem outcome_loadMapping (path : Value) (files) :
    outcome (loadMapping path) files = (mappingAt path files, files) := rfl

/-- The program leaves the files as they are. -/
def Steady (x : Filing α) : Prop := ∀ files, (outcome x files).2 = files

theorem storage_bind (x) (hk : ∀ a, Steady (k a)) (files) :
    (outcome (x >>= k) files).2 = (outcome x files).2 := by
  rw [outcome_bind]
  rcases outcome x files with ⟨f | a, files'⟩
  · rfl
  · exact hk a files'

namespace Steady

theorem pure (a : α) : Steady (pure a) := fun _ => rfl

theorem lift (e : Except Fault α) : Steady (liftM e : Filing α) := fun _ => rfl

theorem bind (hx : Steady x) (hk : ∀ a, Steady (k a)) :
    Steady (x >>= k) := fun files => (storage_bind x hk files).trans (hx files)

theorem textAt (path) : Steady (textAt path) := fun _ => rfl

theorem documentAt (path) : Steady (documentAt path) := bind (textAt path) fun _ => pure _

end Steady

theorem writtenText_performs (path) : Performs w (writtenText path) (textAt path) := by
  refine ⟨fun s => ⟨s.elements, s.printed, ?_⟩⟩
  unfold writtenText
  rw [Page.runOn_bind_ok (a := s) (t := s) rfl, Page.runOn_lift]
  rfl

theorem writtenDocument_performs (path) : Performs w (writtenDocument path) (documentAt path) :=
  .bind (writtenText_performs path) fun _ => .pure _

theorem review_performs (m) : Performs w (review m) (liftM (reviewed m)) := by
  refine ⟨fun s => ⟨s.elements, s.printed, ?_⟩⟩
  have hrun : (Review.mapping m).run .none = outcome (Review.mapping m) .none := rfl
  unfold review reviewed
  rw [hrun]
  rcases outcome (Review.mapping m) .none with ⟨f | c, found⟩ <;> rfl

theorem writeFiles_performs (name) (m) (plan : Value) :
    Performs w (writeFiles name m plan) (writeAll w name m plan) := by
  refine .after .read (.get_bind fun t => .bind (.lift _) fun start => ?_)
  exact .bind (.put ..) fun _ => .lift _

theorem migrateFile_performs (skip : Bool) (p) (file : Value) :
    Performs w (migrateFile skip p file) (convertFile w skip file) := by
  refine .bind (.lift _) fun fileName => .bind (.lift _) fun path => .bind (.lift _) fun q => ?_
  refine .after (.draw ..) (.after (.announce ..) (.bind (readMapping_performs path) fun m => ?_))
  refine .after (.announce ..) (.after .read (.bind (.lift _) fun plan => ?_))
  -- A file whose review is left out is written like one that passed it.
  have hrest (found : Review.Findings) : Performs w _ (writeResult w q.stem fileName m plan found) :=
    .bind (writeFiles_performs q.stem m plan) fun files => .bind (writtenDocument_performs files.pipeline) fun _ =>
      .bind (writtenDocument_performs files.dataflow) fun _ => .bind (writtenText_performs files.report) fun _ => .pure _
  cases skip with
  | true => exact .bind (.lift (.ok Review.Findings.none)) fun found => .after (.announce ..) (hrest found)
  | false => exact .after (.announce ..) (.bind (review_performs m) fun found => .after (.announce ..) (hrest found))

theorem migrateEach_performs (skip : Bool) (p) (files) :
    Performs w (migrateEach skip p files) (files.mapM (convertFile w skip)) := by
  induction files generalizing p with
  | nil => exact .pure _
  | cons file rest ih =>
    rw [List.mapM_cons]
    exact .bind (migrateFile_performs skip p file) fun m => .bind (ih _) fun ms => .pure _

/-! ## What enters the session -/

/-- The page draws, changes the session from `a` to `b` and goes on. -/
structure Enters (w : Surroundings) (a : Session) (p : Page Unit) (b : Session) : Prop where
  runOn : ∀ files es lines, ∃ es', p.runOn w ⟨a, files, es, lines⟩ = (.ok (), ⟨b, files, es', lines⟩)

namespace Enters

variable {a b c : Session}

theorem pure : Enters w a (pure ()) a := ⟨fun _ es _ => ⟨es, rfl⟩⟩

theorem draw (kind) (arguments) (options) :
    Enters w a (draw kind arguments options) a := ⟨fun _ _ _ => ⟨_, rfl⟩⟩

theorem setSlot (k : Slot) (v : Value) : Enters w a (setSlot k v) (a.set k v) := ⟨fun _ es _ => ⟨es, rfl⟩⟩

theorem bind (hp : Enters w a p b) (hq : Enters w b (q ()) c) : Enters w a (p >>= q) c := by
  refine ⟨fun files es lines => ?_⟩
  obtain ⟨es', hrun⟩ := hp.runOn files es lines
  rw [Page.runOn_bind_ok hrun]
  exact hq.runOn files es' lines

theorem read_bind (hq : Enters w a (q w) b) : Enters w a (read >>= q) b :=
  ⟨fun files es lines => hq.runOn files es lines⟩

theorem ite {cond : Prop} [Decidable cond] (hp : Enters w a p b) (hq : Enters w a q b) :
    Enters w a (if cond then p else q) b := by
  split
  · exact hp
  · exact hq

theorem endProgress : Enters w a endProgress a := bind (draw ..) (draw ..)

/-- What only gives a value can stand before anything. -/
theorem after {q : α → Page Unit}
    (hx : ∀ files es lines, x.runOn w ⟨a, files, es, lines⟩ = (.ok v, ⟨a, files, es, lines⟩))
    (hq : Enters w a (q v) b) : Enters w a (x >>= q) b := by
  refine ⟨fun files es lines => ?_⟩
  rw [Page.runOn_bind_ok (hx files es lines)]
  exact hq.runOn files es lines

theorem lift_bind {e : Except Fault α} (he : e = .ok v) (hq : Enters w a (q v) b) : Enters w a (liftM e >>= q) b :=
  after (fun _ _ _ => by rw [Page.runOn_lift, he]; rfl) hq

theorem within (region) (hp : Enters w a p b) : Enters w a (within region p) b := by
  refine .bind (.draw ..) ⟨fun files es lines => ?_⟩
  obtain ⟨es', hrun⟩ := hp.runOn files es lines
  have hattempt : (attempt p).runOn w ⟨a, files, es, lines⟩ = (.ok (.ok ()), ⟨b, files, es', lines⟩) := by
    rw [Page.runOn_attempt, hrun]
  rw [Page.runOn_bind_ok hattempt]
  exact ⟨_, rfl⟩

theorem ensures {L : Session → Storage → Prop} (h : Enters w a p b) :
    Page.Ensures w (fun s _ => s = a) p (fun _ s _ => s = b) L := by
  refine .of_ended fun s hs => ?_
  obtain ⟨_, files, es, lines⟩ := s
  subst hs
  obtain ⟨es', hrun⟩ := h.runOn files es lines
  rw [hrun]
  rfl

end Enters

namespace Session

def keepFirst (ms : List Migrated) (s : Session) : Session :=
  match ms with
  | [] => s
  | first :: _ =>
    ((((s.set .selected (.int 0)).set .pipeline first.pipeline).set .dataflow first.dataflow).set .report
      (.text first.report)).set .datasets (.list [])

/-- The session with the results of a conversion. -/
def keepResults (elapsed : Binary64) (ms : List Migrated) (s : Session) : Session :=
  let counted := ((s.set .migrations (.list (ms.map (·.toValue)))).set .errorCount (.int (errorTotal ms))).set
    .warningCount (.int (warningTotal ms))
  ((counted.keepFirst ms).set .duration (.real elapsed)).set .migrated (.bool true)

/-- The session with the failure of a conversion. -/
def fail (trace : String) (f : Fault) (s : Session) : Session :=
  (s.set .failure (.text f.message)).set .failureTrace (.text trace)

end Session

theorem keepFirst_enters (a) (ms) : Enters w a (keepFirst ms) (a.keepFirst ms) := by
  cases ms with
  | nil => exact .pure
  | cons first rest =>
    exact .bind (.setSlot ..) (.bind (.setSlot ..) (.bind (.setSlot ..) (.bind (.setSlot ..) (.setSlot ..))))

theorem keepResults_enters (a) (ms) :
    Enters w a (keepResults ms) (a.keepResults w.elapsed ms) := by
  refine .bind (.setSlot ..) (.bind (.setSlot ..) (.bind (.setSlot ..) ?_))
  exact .bind (keepFirst_enters _ ms) (.read_bind (.bind (.setSlot ..) (.setSlot ..)))

theorem failed_enters (a) (f : Fault) : Enters w a (failed f) (a.fail w.trace f) := by
  refine .bind .endProgress (.read_bind (.bind (.setSlot ..) (.bind (.setSlot ..) ?_)))
  exact .bind (.draw ..) (.bind (.draw ..) ⟨fun _ _ _ => ⟨_, rfl⟩⟩)

/-! ## All files -/

/-- What a conversion of several files leaves of the session. -/
def Session.conclude (w : Surroundings) (made : Except Fault (List Migrated)) (s : Session) : Session :=
  match made with
  | .ok ms => s.keepResults w.elapsed ms
  | .error f => s.fail w.trace f

theorem migrateListed_runOn (skip : Bool) (files) (total : Nat) (s) :
    ∃ es lines, (migrateListed skip (.list files) total).runOn w s =
      match outcome (files.mapM (convertFile w skip)) s.storage with
      | (.ok ms, storage) => (.ok (), ⟨s.session.keepResults w.elapsed ms, storage, es, lines⟩)
      | (.error f, storage) => (.error (.fault f), ⟨s.session, storage, es, lines⟩) := by
  unfold migrateListed
  rw [Page.runOn_bind_ok (a := files) (t := s) rfl]
  obtain ⟨es, lines, hrun⟩ := (migrateEach_performs (w := w) skip ⟨0, total⟩ files).runOn s
  generalize outcome (files.mapM (convertFile w skip)) s.storage = o at hrun ⊢
  obtain ⟨f | ms, storage⟩ := o
  · exact ⟨es, lines, Page.runOn_bind_error hrun⟩
  · rw [Page.runOn_bind_ok hrun]
    suffices h : Enters w s.session _ (s.session.keepResults w.elapsed ms) by
      obtain ⟨es', h'⟩ := h.runOn storage es lines
      exact ⟨es', lines, h'⟩
    refine .bind (.draw ..) (.bind (.draw ..) (.bind (keepResults_enters _ ms) (.bind .endProgress ?_)))
    refine .bind (.draw ..) ?_
    dsimp only
    split <;> split
    · exact .bind (.draw ..) (.bind (.draw ..) (.draw ..))
    · exact .bind (.draw ..) (.draw ..)
    · exact .bind (.draw ..) (.draw ..)
    · exact .draw ..

theorem migrateFiles_none (skip : Bool) (h : s.session.getD .files (.list []) = .list []) :
    ∃ es, (migrateFiles skip).runOn w s = (.ok (), { s with elements := es }) := by
  unfold migrateFiles
  rw [Page.runOn_draw_bind, Page.runOn_draw_bind, Page.runOn_session_bind]
  dsimp only
  rw [h, if_pos (by decide)]
  exact ⟨_, rfl⟩

theorem migrateFiles_runOn (skip : Bool)
    (h : s.session.get? .files = some (.list (file :: rest))) : ∃ es lines, (migrateFiles skip).runOn w s =
      let made := outcome ((file :: rest).mapM (convertFile w skip)) s.storage
      (.ok (), ⟨s.session.conclude w made.1, made.2, es, lines⟩) := by
  have hfiles : s.session.getD .files (.list []) = .list (file :: rest) := by
    unfold Session.getD
    rw [h]
    rfl
  unfold migrateFiles
  rw [Page.runOn_draw_bind, Page.runOn_draw_bind, Page.runOn_session_bind]
  dsimp only
  rw [hfiles, if_neg (by simp [Value.isPresent]), Page.runOn_bind_ok rfl, Page.runOn_bind, Page.runOn_attempt]
  obtain ⟨es, lines, hrun⟩ := migrateListed_runOn (w := w) skip (file :: rest) (file :: rest).length
    { s with elements := s.elements ++ [⟨"progress", [Value.int 0], []⟩] ++ [⟨"empty", [], []⟩] }
  rw [hrun]
  rcases outcome ((file :: rest).mapM (convertFile w skip)) s.storage with ⟨f | ms, storage⟩
  · obtain ⟨es', hfailed⟩ := (failed_enters (w := w) s.session f).runOn storage es lines
    exact ⟨es', lines, hfailed⟩
  · exact ⟨es, lines, rfl⟩

end MappingFlow.Web
