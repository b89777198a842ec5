/-
  MappingFlow.Proofs.ReviewGate — where the errors of a review stop a conversion.

  On the command line they do: a mapping with errors is not converted, and no file changes
  (`migrate_gated`). In the application they do not: the review only notes what it found, and
  the files are those of a run that leaves it out (`storage_migrateFiles`).
-/

import MappingFlow.Command.Migration
import MappingFlow.Proofs.Mapping.Extracted
import MappingFlow.Proofs.Web.Migration

namespace MappingFlow

variable {path file : Value} {m : Mapping}

/-! ## On the command line -/

namespace Command

variable {α β : Type}

/-- The program leaves the files as they are, however it ends, and its answer has `Q`. -/
def Reads (files : Storage) (x : Running α) (Q : α → Prop) : Prop :=
  ∀ c, c.storage = files → (outcome x c).2.storage = files ∧ ∀ a, (outcome x c).1 = .ok a → Q a

namespace Reads

variable {Q : α → Prop} {R : β → Prop}

theorem pure (h : Q a) : Reads files (pure a) Q := fun _ hc => ⟨hc, fun _ ha => by cases ha; exact h⟩

theorem lift {e : Except Fault α} (h : ∀ a, e = .ok a → Q a) : Reads files (monadLift e) Q := fun _ hc => ⟨hc, h⟩

theorem get : Reads files (get : Running Console) (·.storage = files) := fun _ hc => ⟨hc, fun _ ha => by cases ha; exact hc⟩

theorem print (lines) : Reads files (modify fun c => { c with printed := c.printed ++ lines }) fun _ => True :=
  fun _ hc => ⟨hc, fun _ _ => trivial⟩

theorem bind (hx : Reads files x Q) (hk : ∀ a, Q a → Reads files (k a) R) : Reads files (x >>= k) R := by
  intro c hc
  obtain ⟨hfirst, hanswer⟩ := hx c hc
  rw [outcome_bind]
  generalize outcome x c = o at hfirst hanswer ⊢
  obtain ⟨f | a, d⟩ := o
  · exact ⟨hfirst, fun _ h => by cases h⟩
  · exact hk a (hanswer a rfl) d hfirst

theorem after (hx : Reads files x fun _ => True)
    (hk : ∀ a, Reads files (k a) R) : Reads files (x >>= k) R := bind hx fun a _ => hk a

end Reads

theorem reads_sayFirst (limit : Nat) (ending) (entries) :
    Reads files (sayFirst limit ending entries) fun _ => True := by
  refine .after (.print _) fun _ => ?_
  split
  · exact .print _
  · exact .pure trivial

theorem reads_readMapping {path : String}
    (hread : files.read (Path.read path).toText = .ok content) (hm : Mapping.ofBytes content = .ok m) :
    Reads files (readMapping path) (· = m) := by
  refine .after (.print _) fun _ => .bind .get fun c hc => .bind (Q := (· = Path.read path)) (.lift ?_) fun p hp => ?_
  · intro p hp
    unfold Storage.requireFile at hp
    dsimp only at hp
    split at hp
    · cases hp
    · split at hp
      · cases hp
      · split at hp
        · exact (Except.ok.inj hp).symm
        · cases hp
  · subst hp
    refine .after (.print _) fun _ => .after (.print _) fun _ => .bind .get fun c hc => ?_
    refine .bind (Q := (· = content)) (.lift fun a ha => ?_) fun a ha => ?_
    · rw [hc, hread] at ha
      exact (Except.ok.inj ha).symm
    · subst ha
      refine .bind (Q := (· = m)) (.lift fun b hb => ?_) fun b hb => .after (.print _) fun _ => .pure hb
      rw [hm] at hb
      exact (Except.ok.inj hb).symm

theorem reads_reviewMapping (hrun : Runs (Review.mapping m) .none () found)
    (herrors : found.errors ≠ []) : Reads files (reviewMapping m) (· = false) := by
  have hfound : (Review.mapping m).run .none = (.ok (), found) := hrun
  unfold reviewMapping
  rw [hfound]
  refine .after (.print _) fun _ => .after (.lift fun _ _ => trivial) fun _ => ?_
  rw [if_pos (by simpa using herrors)]
  exact .after (.print _) fun _ => .after (reads_sayFirst _ _ _) fun _ => .pure rfl

theorem migrate_run (rules : Rules) (datasets) (moment) (r)
    (c) : (migrate rules datasets moment r).run c = match outcome (migration rules datasets moment r) c with
      | (.ok success, d) => (success, d)
      | (.error f, d) => (false, { d with printed := d.printed ++ [announce f] }) := by
  have hmigration : (migration rules datasets moment r).run.run c = outcome (migration rules datasets moment r) c := rfl
  unfold migrate
  rw [StateT.run_bind, hmigration]
  rcases outcome (migration rules datasets moment r) c with ⟨f | b, d⟩ <;> rfl

theorem migrate_gated (hskip : r.skipValidation = false)
    (hread : c.storage.read (Path.read r.input).toText = .ok content) (hm : Mapping.ofBytes content = .ok m)
    (hrun : Runs (Review.mapping m) .none () found) (herrors : found.errors ≠ []) :
    ∃ d, (migrate rules datasets moment r).run c = (false, d) ∧ d.storage = c.storage := by
  have hmigration : Reads c.storage (migration rules datasets moment r) (· = false) := by
    unfold migration
    rw [hskip]
    refine .bind (reads_readMapping hread hm) fun m' hm' => ?_
    subst hm'
    refine .bind (reads_reviewMapping hrun herrors) fun accepted haccepted => ?_
    subst haccepted
    exact .pure rfl
  obtain ⟨hstorage, hanswer⟩ := hmigration c rfl
  rw [migrate_run]
  generalize outcome (migration rules datasets moment r) c = o at hstorage hanswer ⊢
  obtain ⟨f | accepted, d⟩ := o
  · exact ⟨_, rfl, hstorage⟩
  · obtain rfl := hanswer accepted rfl
    exact ⟨d, rfl, hstorage⟩

end Command

/-! ## In the application -/

namespace Web

variable {w : Surroundings}

theorem reviewed_of_mappingAt (h : mappingAt path files = .ok m) : ∃ found, reviewed m = .ok found := by
  obtain ⟨_, _, -, -, hm⟩ := mappingAt_ok h
  obtain ⟨_, found, hrun⟩ := Review.review_ends hm .none
  refine ⟨found, ?_⟩
  unfold Runs at hrun
  unfold reviewed
  rw [hrun]
  rfl

/-- A result with other findings. -/
def Migrated.note (found : Review.Findings) (m : Migrated) : Migrated :=
  { m with errors := found.errors, warnings := found.warnings }

/-- The two programs do the same to the files and answer the same but for findings. -/
def Alike (x y : Filing Migrated) : Prop :=
  ∀ files, ∃ found, outcome x files = ((outcome y files).1.map (Migrated.note found), (outcome y files).2)

theorem Alike.bind {α : Type} {x : Filing α} {k k' : α → Filing Migrated}
    (h : ∀ s a t, Runs x s a t → Alike (k a) (k' a)) : Alike (x >>= k) (x >>= k') := by
  intro files
  rw [outcome_bind, outcome_bind]
  cases hx : outcome x files with
  | mk o files' =>
    cases o with
    | error f => exact ⟨.none, rfl⟩
    | ok a => exact h files a files' hx files'

theorem writeResult_alike (name) (fileName : Value) (m) (plan : Value) (found) :
    Alike (writeResult w name fileName m plan found) (writeResult w name fileName m plan .none) :=
  .bind fun _ _ _ _ => .bind fun _ _ _ _ => .bind fun _ _ _ _ => .bind fun _ _ _ _ => fun _ => ⟨found, rfl⟩

theorem ok_bind {α β : Type} (a : α) (k : α → Filing β) : (liftM (.ok a : Except Fault α) : Filing α) >>= k = k a := rfl

/-- A review adds its findings to a result and does nothing else. -/
theorem convertFile_alike (file : Value) : Alike (convertFile w false file) (convertFile w true file) := by
  refine .bind fun _ fileName _ _ => .bind fun _ path _ _ => .bind fun _ p _ _ => .bind fun files m _ hm => ?_
  refine .bind fun _ plan _ _ => ?_
  obtain ⟨_, _, -, hmapping⟩ := Runs.bind_iff.mp hm
  obtain ⟨found, hfound⟩ := reviewed_of_mappingAt (Runs.lift_iff.mp hmapping).1
  unfold findings
  rw [if_neg Bool.false_ne_true, if_pos rfl, hfound, ok_bind, ok_bind]
  exact writeResult_alike p.stem fileName m plan found

theorem storage_mapM_convertFile (listed : List Value) (files : Storage) :
    (outcome (listed.mapM (convertFile w false)) files).2 = (outcome (listed.mapM (convertFile w true)) files).2 := by
  induction listed generalizing files with
  | nil => rw [List.mapM_nil, List.mapM_nil]
  | cons file rest ih =>
    obtain ⟨found, hfile⟩ := convertFile_alike (w := w) file files
    rw [List.mapM_cons, List.mapM_cons, outcome_bind, outcome_bind, hfile]
    rcases outcome (convertFile w true file) files with ⟨f | m, files'⟩
    · rfl
    · dsimp only [Except.map]
      rw [storage_bind _ fun _ => .pure _, storage_bind _ fun _ => .pure _]
      exact ih files'

theorem storage_migrateFiles (h : s.session.get? .files = some (.list (file :: rest))) :
    ((migrateFiles false).runOn w s).2.storage = ((migrateFiles true).runOn w s).2.storage := by
  obtain ⟨es, lines, hchecked⟩ := migrateFiles_runOn (w := w) false h
  obtain ⟨es', lines', hskipped⟩ := migrateFiles_runOn (w := w) true h
  rw [hchecked, hskipped]
  dsimp only
  exact storage_mapM_convertFile (file :: rest) s.storage

theorem storage_writeResult (name) (fileName : Value) (m) (plan : Value) (found)
    (files) : (outcome (writeResult w name fileName m plan found) files).2 =
      (outcome (writeAll w name m plan) files).2 :=
  storage_bind _ (fun _ => (Steady.documentAt _).bind fun _ => (Steady.documentAt _).bind fun _ =>
    (Steady.textAt _).bind fun _ => .pure _) files

/-- A file that can be read and converted is written, whatever its review finds. -/
theorem storage_convertFile
    (hname : file.field "name" = .ok name) (hpath : file.field "path" = .ok path) (hp : pathOf path = .ok p)
    (hm : mappingAt path files = .ok m) (hplan : (outcome (Conversion.convertMapping w.rules m) .start).1 = .ok plan) :
    (outcome (convertFile w skip file) files).2 = (outcome (writeAll w p.stem m plan) files).2 := by
  obtain ⟨found, hfound⟩ : ∃ found, findings skip m = .ok found := by
    cases skip with
    | true => exact ⟨.none, rfl⟩
    | false => exact reviewed_of_mappingAt hm
  unfold convertFile
  rw [hname, ok_bind, hpath, ok_bind, hp, ok_bind, outcome_bind, outcome_loadMapping, hm]
  dsimp only
  rw [hplan, ok_bind, hfound, ok_bind]
  exact storage_writeResult p.stem name m plan found files

/-- A file that can be read is left alone exactly if it cannot be converted or written. -/
theorem storage_convertFile_unchanged_iff
    (hname : file.field "name" = .ok name) (hpath : file.field "path" = .ok path) (hp : pathOf path = .ok p)
    (hm : mappingAt path files = .ok m) : (outcome (convertFile w skip file) files).2 = files ↔
      ∀ plan, (outcome (Conversion.convertMapping w.rules m) .start).1 = .ok plan →
        (outcome (writeAll w p.stem m plan) files).2 = files := by
  cases hplan : (outcome (Conversion.convertMapping w.rules m) .start).1 with
  | error f =>
    refine ⟨fun _ _ h => (by cases h), fun _ => ?_⟩
    unfold convertFile
    rw [hname, ok_bind, hpath, ok_bind, hp, ok_bind, outcome_bind, outcome_loadMapping, hm]
    dsimp only
    rw [hplan]
    rfl
  | ok plan =>
    rw [storage_convertFile hname hpath hp hm hplan]
    exact ⟨fun h _ hplan' => Except.ok.inj hplan' ▸ h, fun h => h plan rfl⟩

theorem storage_migrateFiles_single (skip : Bool) (h : s.session.get? .files = some (.list [file])) :
    ((migrateFiles skip).runOn w s).2.storage = (outcome (convertFile w skip file) s.storage).2 := by
  obtain ⟨es, lines, hrun⟩ := migrateFiles_runOn (w := w) skip h
  rw [hrun]
  dsimp only
  rw [List.mapM_cons, List.mapM_nil]
  exact storage_bind _ (fun _ => (Steady.pure _).bind fun _ => .pure _) _

end Web

/-! ## Both -/

/-- Errors of a review stop a conversion that a command asks for, before any file changes. In
the application the files are the same with the review and without it: nothing is written for
the mapping exactly if it cannot be converted or its results cannot be written. -/
theorem review_gates_commands_only {content : Encoding.Bytes} {m : Mapping} {found : Review.Findings}
    (hm : Mapping.ofBytes content = .ok m) (hrun : Runs (Review.mapping m) .none () found) (herrors : found.errors ≠ []) :
    (∀ rules datasets moment (r : Command.Request) (c : Command.Console),
      r.skipValidation = false → c.storage.read (Path.read r.input).toText = .ok content →
      ∃ d, (Command.migrate rules datasets moment r).run c = (false, d) ∧ d.storage = c.storage) ∧
    (∀ w (s : Web.Screen) file rest, s.session.get? .files = some (.list (file :: rest)) →
      ((Web.migrateFiles false).runOn w s).2.storage = ((Web.migrateFiles true).runOn w s).2.storage) ∧
    ∀ w (s : Web.Screen) file name path p, s.session.get? .files = some (.list [file]) →
      file.field "name" = .ok name → file.field "path" = .ok path → Web.pathOf path = .ok p →
      s.storage.read p.toText = .ok content →
      (((Web.migrateFiles false).runOn w s).2.storage = s.storage ↔
        ∀ plan, (outcome (Conversion.convertMapping w.rules m) .start).1 = .ok plan →
          (outcome (Web.writeAll w p.stem m plan) s.storage).2 = s.storage) := by
  refine ⟨fun _ _ _ r c hskip hread => Command.migrate_gated hskip hread hm hrun herrors,
    fun _ _ _ _ => Web.storage_migrateFiles, ?_⟩
  intro w s file name path p hfiles hname hpath hp hread
  rw [Web.storage_migrateFiles_single false hfiles]
  exact Web.storage_convertFile_unchanged_iff hname hpath hp ((Web.mappingAt_of_read hp hread).trans hm)

/-- A document with neither a source nor a target. -/
def bareDocument : Encoding.Bytes := Encoding.encodeUtf8 "<a/>".toList

theorem bareDocument_rejected :
    ∃ m found, Mapping.ofBytes bareDocument = .ok m ∧ Runs (Review.mapping m) .none () found ∧ found.errors ≠ [] := by
  have hrejected : (Mapping.ofBytes bareDocument).toOption.map
      (fun m => (outcome (Review.mapping m) .none).2.errors.isEmpty) = some false := by decide +kernel
  obtain ⟨m, hm, herrors⟩ := Option.map_eq_some_iff.mp hrejected
  obtain ⟨_, found, hrun⟩ := Review.review_ends (ok_of_toOption hm) .none
  refine ⟨m, found, ok_of_toOption hm, hrun, ?_⟩
  unfold Runs at hrun
  rw [hrun] at herrors
  simpa using herrors

/-- The document as a file that the application lists. -/
def bareListed : Web.Screen :=
  ⟨Web.Session.empty.set .files (.list [Web.fileEntry "a.xml" "temp/a.xml" 4]),
    ⟨[(["temp", "a.xml"], bareDocument)], [["temp"]]⟩, [], []⟩

def bareVisit : Web.Surroundings :=
  ⟨.standard, .standard, ⟨2024, 1, 1, 0, 0, 0⟩, .zero false, "", ⟨[], [], []⟩⟩

def bareResults : List String :=
  ["pipeline_a_20240101_000000.json", "dataflow_a_20240101_000000.json", "migration_report_a_20240101_000000.json"]

theorem review_gates_commands_only_bare :
    (∃ d, (Command.migrate .standard .standard ⟨2024, 1, 1, 0, 0, 0⟩ ⟨"temp/a.xml", "out", false, false⟩).run
      ⟨bareListed.storage, []⟩ = (false, d) ∧ d.storage = bareListed.storage) ∧
    ((Web.migrateFiles false).runOn bareVisit bareListed).2.storage =
      ((Web.migrateFiles true).runOn bareVisit bareListed).2.storage ∧
    ∃ m, Mapping.ofBytes bareDocument = .ok m ∧
      (((Web.migrateFiles false).runOn bareVisit bareListed).2.storage = bareListed.storage ↔
        ∀ plan, (outcome (Conversion.convertMapping bareVisit.rules m) .start).1 = .ok plan →
          (outcome (Web.writeAll bareVisit (Path.read "temp/a.xml").stem m plan) bareListed.storage).2 =
            bareListed.storage) := by
  obtain ⟨m, found, hm, hrun, herrors⟩ := bareDocument_rejected
  have hread : bareListed.storage.read (Path.read "temp/a.xml").toText = .ok bareDocument :=
    ok_of_toOption (by decide +kernel)
  obtain ⟨hcommand, hlisted, hsingle⟩ := review_gates_commands_only hm hrun herrors
  exact ⟨hcommand _ _ _ _ _ rfl hread, hlisted _ _ _ _ rfl, m, hm, hsingle _ _ _ _ _ _ rfl rfl rfl rfl hread⟩

/-- The review of the document finds errors and is not skipped, and all three files are written. -/
theorem bareDocument_written :
    (∃ m found, Mapping.ofBytes bareDocument = .ok m ∧ Runs (Review.mapping m) .none () found ∧ found.errors ≠ []) ∧
    ∀ name ∈ bareResults, bareListed.storage.fileAt? ["output", name] = none ∧
      (((Web.migrateFiles false).runOn bareVisit bareListed).2.storage.fileAt? ["output", name]).isSome = true := by
  refine ⟨bareDocument_rejected, ?_⟩
  have hwritten : (do
      let m ← (Web.mappingAt (.text "temp/a.xml") bareListed.storage).toOption
      let plan ← (outcome (Conversion.convertMapping bareVisit.rules m) .start).1.toOption
      let files := (outcome (Web.writeAll bareVisit "a" m plan) bareListed.storage).2
      return bareResults.all fun name => (files.fileAt? ["output", name]).isSome) = some true := by decide +kernel
  obtain ⟨m, hm, hwritten⟩ := Option.bind_eq_some_iff.mp hwritten
  obtain ⟨plan, hplan, hwritten⟩ := Option.bind_eq_some_iff.mp hwritten
  have hstorage : (outcome (Web.convertFile bareVisit false (Web.fileEntry "a.xml" "temp/a.xml" 4)) bareListed.storage).2 = _ :=
    Web.storage_convertFile rfl rfl rfl (ok_of_toOption hm) (ok_of_toOption hplan)
  have hstem : (Path.read "temp/a.xml").stem = "a" := by decide +kernel
  have hnew : ∀ name ∈ bareResults, bareListed.storage.fileAt? ["output", name] = none := by decide +kernel
  intro name hname
  rw [Web.storage_migrateFiles_single false rfl, hstorage, hstem]
  exact ⟨hnew name hname, List.all_eq_true.mp (Option.some.inj hwritten) name hname⟩

end MappingFlow
