/-
  MappingFlow.Proofs.Web.Calm — the parts of the application that convert nothing.

  What the results page shows of a converted session are its figures and the number of
  transformations of the mapping that it keeps, under the failure of an earlier conversion
  (`Session.HasFigures`, `Session.IsReady`). Uploading, choosing, the settings and the preview
  make no session converted, and they take none of this from one that is: who chooses another
  file or removes the chosen one has to convert again (`Calm`). Each part of a page has an
  instance that says so.
-/

import MappingFlow.Proofs.Web.Application

namespace MappingFlow.Web

open Session

variable {w : Surroundings} {a s : Session}

set_option synthInstance.maxSize 20000

/-! ## Sessions that can be shown -/

namespace Session

/-- A mapping is kept, and no failure. -/
def IsReady (s : Session) : Prop := (∃ m, s.parsed = some (some m)) ∧ s.isSet .failure = false

theorem isReady_iff : s.IsReady ↔ (s.parsed.getD none).isSome ∧ s.isSet .failure = false := by
  unfold IsReady
  rcases s.parsed with _ | _ | m <;> simp

instance : Decidable s.IsReady := decidable_of_iff _ isReady_iff.symm

/-- The figures of a conversion are of the kinds they are made with. -/
structure HasFigures (s : Session) : Prop where
  errors : ∃ n, s.getD .errorCount (.int 0) = .int n
  warnings : ∃ n, s.getD .warningCount (.int 0) = .int n
  duration : ∃ t, twoPlaces (s.getD .duration (.int 0)) = .ok t
  datasets : ∃ vs, s.getD .datasets (.list []) = .list vs

def figureSlots : List Slot := [.errorCount, .warningCount, .duration, .datasets]

theorem HasFigures.congr {t : Session} (h : s.HasFigures)
    (heq : ∀ k ∈ figureSlots, ∀ absent, t.getD k absent = s.getD k absent) : t.HasFigures := by
  refine ⟨?_, ?_, ?_, ?_⟩
  · rw [heq .errorCount (by decide)]
    exact h.errors
  · rw [heq .warningCount (by decide)]
    exact h.warnings
  · rw [heq .duration (by decide)]
    exact h.duration
  · rw [heq .datasets (by decide)]
    exact h.datasets

theorem HasFigures.set_other (h : s.HasFigures) (v : Value) (hk : k ∉ figureSlots) : (s.set k v).HasFigures := by
  refine h.congr fun j hj absent => ?_
  have hkj : k ≠ j := fun he => hk (he ▸ hj)
  rw [getD_set, if_neg hkj]

theorem hasFigures_empty : HasFigures .empty := ⟨⟨0, rfl⟩, ⟨0, rfl⟩, ⟨_, rfl⟩, ⟨[], rfl⟩⟩

theorem HasFigures.begin (h : s.HasFigures) : s.begin.HasFigures := by
  refine ⟨?_, ?_, ?_, ?_⟩
  · rw [getD_begin]
    exact h.errors
  · rw [getD_begin]
    exact h.warnings
  · rw [getD_begin]
    obtain ⟨t, ht⟩ := h.duration
    unfold getD at ht ⊢
    cases hget : s.get? .duration with
    | none => exact ⟨_, rfl⟩
    | some v =>
      rw [hget] at ht
      exact ⟨t, ht⟩
  · rw [getD_begin]
    exact h.datasets

theorem HasFigures.keepResults (h : s.HasFigures) (elapsed ms) : (s.keepResults elapsed ms).HasFigures := by
  have herrors : (s.keepResults elapsed ms).getD .errorCount (.int 0) = .int (errorTotal ms) := by
    cases ms <;> simp [Session.keepResults, Session.keepFirst]
  have hwarnings : (s.keepResults elapsed ms).getD .warningCount (.int 0) = .int (warningTotal ms) := by
    cases ms <;> simp [Session.keepResults, Session.keepFirst]
  have hduration : (s.keepResults elapsed ms).getD .duration (.int 0) = .real elapsed := by
    simp [Session.keepResults]
  refine ⟨⟨_, herrors⟩, ⟨_, hwarnings⟩, ⟨_, by rw [hduration]; rfl⟩, ?_⟩
  cases ms with
  | nil => simpa [Session.keepResults, Session.keepFirst] using h.datasets
  | cons first rest => exact ⟨[], by simp [Session.keepResults, Session.keepFirst]⟩

theorem HasFigures.conclude (h : s.HasFigures) (w made) : (s.conclude w made).HasFigures := by
  cases made with
  | error f => exact (h.set_other _ (by decide)).set_other _ (by decide)
  | ok ms => exact h.keepResults w.elapsed ms

end Session

/-! ## What converts nothing -/

/-- From `a` on nothing was converted, and nothing was taken from a converted session. -/
structure Calm (a s : Session) : Prop where
  figures : a.HasFigures → s.HasFigures
  migrated : s.isSet .migrated = true → a.isSet .migrated = true
  ready : s.isSet .migrated = true → a.IsReady → s.IsReady

namespace Calm

theorem refl (a) : Calm a a := ⟨id, id, fun _ => id⟩

theorem begin (a) : Calm a a.begin where
  figures h := h.begin
  migrated h := by rwa [isSet_begin _ _ rfl] at h
  ready _ h := by
    obtain ⟨⟨m, hm⟩, hfailure⟩ := h
    refine ⟨⟨m, (parsed_begin_iff a m).mpr hm⟩, ?_⟩
    rwa [isSet_begin _ _ rfl]

theorem set_other (h : Calm a s) (v : Value) (hk : k ∉ Session.figureSlots ++ [.migrated, .failure]) :
    Calm a (s.set k v) := by
  obtain ⟨hfigures, hothers⟩ := not_or.mp (mt List.mem_append.mpr hk)
  have hmigrated : k ≠ .migrated := fun he => hothers (by simp [he])
  have hfailure : k ≠ .failure := fun he => hothers (by simp [he])
  have hset : (s.set k v).isSet .migrated = s.isSet .migrated := by rw [isSet_set, if_neg hmigrated]
  refine ⟨fun ha => (h.figures ha).set_other v hfigures, fun ht => h.migrated (hset ▸ ht), fun ht ha => ?_⟩
  obtain ⟨hparsed, hclear⟩ := h.ready (hset ▸ ht) ha
  exact ⟨hparsed, by rw [isSet_set, if_neg hfailure]; exact hclear⟩

theorem setParsed (h : Calm a s) (m) : Calm a (s.setParsed (some m)) where
  figures ha := (h.figures ha).congr fun _ _ _ => rfl
  migrated := h.migrated
  ready ht ha := ⟨⟨m, rfl⟩, (h.ready ht ha).2⟩

/-- A session that is not converted has nothing to lose. -/
theorem of_unset (hs : s.isSet .migrated = false) (hfigures : a.HasFigures → s.HasFigures) : Calm a s where
  figures := hfigures
  migrated h := by rw [hs] at h; cases h
  ready h := by rw [hs] at h; cases h

theorem choose (h : Calm a s) (path : Value) (name) : Calm a (s.choose path name) := by
  refine of_unset (by simp [Session.choose, Value.isPresent]) fun ha => (h.figures ha).congr fun k hk absent => ?_
  revert k
  simp [Session.choose, Session.figureSlots]

theorem unchoose (h : Calm a s) : Calm a s.unchoose := by
  refine of_unset (by simp [Session.unchoose, Value.isPresent]) fun ha => (h.figures ha).congr fun k hk absent => ?_
  revert k
  simp [Session.unchoose, Session.figureSlots]

end Calm

/-- The part of a page converts nothing. -/
abbrev Quiet (w : Surroundings) (a : Session) {α : Type} (p : Page α) : Prop := Moves w (Keeps fun s _ => Calm a s) p

theorem allows_of_calm (hk : k ∉ Session.figureSlots ++ [.migrated, .failure]) :
    Allows (Keeps fun s _ => Calm a s) k where
  allows _ v := fun h => h.set_other v hk

instance : Allows (Keeps fun s _ => Calm a s) .files := allows_of_calm (by decide)
instance : Allows (Keeps fun s _ => Calm a s) .path := allows_of_calm (by decide)
instance : Allows (Keeps fun s _ => Calm a s) .name := allows_of_calm (by decide)
instance : Allows (Keeps fun s _ => Calm a s) .loaded := allows_of_calm (by decide)
instance : Allows (Keeps fun s _ => Calm a s) .configured := allows_of_calm (by decide)
instance : Allows (Keeps fun s _ => Calm a s) .config := allows_of_calm (by decide)
instance : Allows (Keeps fun s _ => Calm a s) .activeTab := allows_of_calm (by decide)
instance : Allows (Keeps fun s _ => Calm a s) .selected := allows_of_calm (by decide)
instance : Allows (Keeps fun s _ => Calm a s) .plan := allows_of_calm (by decide)

theorem change_quiet (h : ∀ s, Calm a s → Calm a (g s)) : Quiet w a (change g) :=
  ⟨fun s hs => h s.session hs⟩

/-! ## Uploading -/

/-- Files may be changed in any way. -/
theorem storing_quiet {α : Type} {e : Screen → Except Fault Storage} {k : Screen → Storage → PUnit → Page α}
    (hk : ∀ s r u, Quiet w a (k s r u)) : Quiet w a (do
      let s ← get
      let r ← e s
      let u ← set { s with storage := r }
      k s r u) := by
  exact Page.Ensures.moves (.storing_bind (fun _ _ h => h) (fun _ _ h _ => h) fun s r u => .of_moves (hk s r u))

instance (entry : Value) : Quiet w a (listFile entry) := by
  refine .after fun v => ?_
  cases v <;> infer_instance

instance (u : Upload) (path : Path) : Quiet w a (store u path) := by
  have hremove (p : String) : Quiet w a (modify fun s : Screen => { s with storage := s.storage.remove p } : Page PUnit) :=
    ⟨fun _ h => h⟩
  refine storing_quiet fun s r u => ?_
  infer_instance

instance (u : Upload) : Quiet w a (receive u) := by
  have hstore (s : Screen) (r : Storage) (v : PUnit) (path : Path) : Quiet w a (do
      match ← attempt (store u path) with
      | .ok r => return r
      | .error f => return .refused ("Error processing '" ++ u.name ++ "': " ++ f.message)) := by
    refine .after fun o => ?_
    cases o <;> infer_instance
  refine .after fun files => .after fun items => .after fun listed => ?_
  split
  · infer_instance
  · exact storing_quiet fun s r v => hstore s r v _

instance (us : List Upload) : Quiet w a (receiveFiles us) := by
  refine .after fun receipts => ?_
  infer_instance

instance : Quiet w a uploadColumn := by
  unfold uploadColumn
  infer_instance

instance (folder : Path) (names : List String) : Quiet w a (readFolderFiles folder names) := by
  induction names with
  | nil => exact pure_moves _
  | cons n names ih =>
    refine .after fun s => ?_
    split
    · infer_instance
    · refine .bind ih fun found => ?_
      infer_instance

instance (path : String) : Quiet w a (loadFolder path) := by
  unfold loadFolder
  infer_instance

instance (entries : List Value) : Quiet w a (listNew entries) := by
  induction entries with
  | nil => exact pure_moves _
  | cons entry entries ih =>
    unfold listNew
    infer_instance

instance (path : Value) : Quiet w a (loadFromFolder path) := by
  unfold loadFromFolder
  split
  · infer_instance
  · cases path <;> infer_instance

instance : Quiet w a folderColumn := by
  unfold folderColumn
  infer_instance

instance (file : Value) : Quiet w a (chooseFile file) := by
  refine .after fun path => .after fun name => .after fun p => ?_
  exact change_quiet fun s h => h.choose path p.stem

instance (file : Value) (index : Nat) : Quiet w a (removeFile file index) := by
  refine .after fun path => .bind (change_quiet fun s h => ?_) fun _ => .after fun v => ?_
  · split
    · exact h.unchoose
    · exact h
  · cases v <;> infer_instance

instance (file : Value) (index : Nat) : Quiet w a (tableRow file index) := by
  unfold tableRow
  infer_instance

instance (file : Value) (index : Nat) : Quiet w a (card file index) := by
  unfold card
  infer_instance

instance (view : Value → Nat → Page Unit) [hview : ∀ file i, Quiet w a (view file i)] (i : Nat)
    (items : List Value) : Quiet w a (eachFile view i items) := by
  induction items generalizing i with
  | nil => exact pure_moves _
  | cons file rest ih => exact .bind (hview file i) fun _ => ih (i + 1)

instance : Quiet w a continueOn := by
  refine .after fun s => ?_
  dsimp only
  split
  · refine .after fun files => .after fun items => ?_
    cases items <;> infer_instance
  · infer_instance

instance (files : Value) : Quiet w a (fileList files) := by
  unfold fileList
  infer_instance

instance : Quiet w a uploadPage := by
  unfold uploadPage
  infer_instance

/-! ## The preview -/

instance (path : Value) : Quiet w a (readMapping path) :=
  ⟨fun s h => by rw [readMapping_runOn]; exact h⟩

instance : Quiet w a readChosen := by
  have hkeep (m : Mapping) : Quiet w a (change (·.setParsed (some m))) := change_quiet fun s h => h.setParsed m
  unfold readChosen
  infer_instance

instance : Quiet w a convertChosen := by
  refine .after fun m => .after fun w' => ?_
  split
  infer_instance

instance : Quiet w a planChosen := by
  refine .after fun s => ?_
  split <;> infer_instance

instance : Quiet w a previewPage := by
  refine .after fun _ => .after fun s => ?_
  dsimp only
  split
  · infer_instance
  · refine .after fun s => ?_
    infer_instance

end MappingFlow.Web
