/-
  MappingFlow.Proofs.Web.Displayable — when the results of a conversion can be shown.

  A conversion counts as done whether or not its mapping was looked at before and whatever
  failed before: it neither keeps a mapping nor takes a failure away (`isReady_keepResults`).
  Nothing else makes a session converted (`application_steps`). So all sessions of a visit can
  be shown exactly if each conversion begins in a session that is ready for it. Who converts
  without a look at the preview has no such session.
-/

import MappingFlow.Proofs.Web.Calm

namespace MappingFlow.Web

variable {a s : Session} {files : Storage} {ws : List Surroundings}

set_option synthInstance.maxSize 20000

/-! ## The figures -/

theorem figures_enters (h : s.HasFigures) (hm : s.parsed = some (some m)) : Enters w s figures s := by
  obtain ⟨errors, herrors⟩ := h.errors
  obtain ⟨warnings, hwarnings⟩ := h.warnings
  obtain ⟨time, htime⟩ := h.duration
  obtain ⟨vs, hdatasets⟩ := h.datasets
  have hcount (files : Storage) (es : List Element) (lines : List String) :
      transformationCount.runOn w ⟨s, files, es, lines⟩ = (.ok m.transformations.length, ⟨s, files, es, lines⟩) := by
    unfold transformationCount Session.requireParsed
    rw [Page.runOn_session_bind]
    dsimp only
    rw [hm]
    rfl
  refine .bind (.draw ..) (.bind (.draw ..) (.after (v := s) (fun _ _ _ => rfl) ?_))
  dsimp only
  rw [herrors, hwarnings, hdatasets]
  refine .bind (.within _ (.after hcount (.draw ..))) (.bind (.within _ (.draw ..)) (.bind (.within _ (.draw ..)) ?_))
  refine .bind (.within _ (.lift_bind htime (.draw ..))) (.bind (.within _ (.lift_bind rfl (.draw ..))) ?_)
  have hrest : Enters w s (do
      let warned ← liftM (isPositive (.int warnings))
      if warned then warning ("⚠️ " ++ (Value.int warnings).display ++ " warnings require attention")) s :=
    .lift_bind rfl (.ite (.draw ..) .pure)
  split
  · exact .bind (.draw ..) hrest
  · refine .lift_bind rfl ?_
    split
    · exact .bind (.draw ..) hrest
    · exact hrest

/-! ## Converting -/

/-- What a run does to a session: only a conversion makes it converted, and that leaves it as
ready as it was. -/
structure Steps (a s : Session) : Prop where
  figures : a.HasFigures → s.HasFigures
  ready : s.isSet .migrated = true → a.IsReady → s.IsReady
  converted : s.isSet .migrated = true → a.isSet .migrated = false → s.IsReady → a.IsReady

theorem Calm.steps (h : Calm a s) : Steps a s where
  figures := h.figures
  ready := h.ready
  converted hs ha := by rw [h.migrated hs] at ha; cases ha

section

variable (s : Session) (elapsed : Binary64) (ms : List Migrated)

theorem parsed_keepResults : (s.keepResults elapsed ms).parsed = s.parsed := by
  cases ms <;> rfl

theorem isSet_keepResults : (s.keepResults elapsed ms).isSet .migrated = true := by
  simp [Session.keepResults, Value.isPresent]

/-- Neither the mapping that is kept nor an earlier failure is looked at by a conversion. -/
theorem isReady_keepResults : (s.keepResults elapsed ms).IsReady ↔ s.IsReady := by
  unfold Session.IsReady
  rw [parsed_keepResults]
  cases ms <;> simp [Session.keepResults, Session.keepFirst]

end

theorem isReady_begin (a : Session) : a.begin.IsReady ↔ a.IsReady := by
  unfold Session.IsReady
  rw [Session.isSet_begin _ _ rfl]
  simp only [Session.parsed_begin_iff]

theorem conclude_steps (w : Surroundings) (a : Session) (made : Except Fault (List Migrated))
    (ha : a.isSet .migrated = false) : Steps a (a.begin.conclude w made) := by
  have hbegun : a.begin.isSet .migrated = false := by rw [Session.isSet_begin _ _ rfl, ha]
  cases made with
  | error f =>
    refine (Calm.of_unset ?_ fun h => h.begin.conclude w _).steps
    simpa [Session.conclude, Session.fail] using hbegun
  | ok ms =>
    have hready : (a.begin.conclude w (.ok ms)).IsReady ↔ a.IsReady :=
      (isReady_keepResults _ _ _).trans (isReady_begin a)
    exact ⟨fun h => h.begin.conclude w _, fun _ => hready.mpr, fun _ _ => hready.mp⟩

theorem migrateListed_ensures (skip : Bool) (v : Value) (total : Nat) :
    Page.Ensures w (fun s _ => s = a) (migrateListed skip v total)
      (fun _ s _ => ∃ ms, s = a.keepResults w.elapsed ms) fun s _ => s = a := by
  cases hitems : v.items with
  | error f =>
    unfold migrateListed
    rw [hitems]
    exact .throw_bind fun _ _ h => h
  | ok items =>
    have hlist : migrateListed skip v total = migrateListed skip (.list items) total := by
      unfold migrateListed
      rw [hitems]
      rfl
    rw [hlist]
    constructor
    all_goals
      intro s _ t hs hrun
      obtain ⟨es, lines, h⟩ := migrateListed_runOn (w := w) skip items total s
      rw [h] at hrun
      generalize outcome (items.mapM (convertFile w skip)) s.storage = o at hrun
      obtain ⟨f | ms, storage⟩ := o
      all_goals cases hrun
    · exact ⟨ms, by rw [hs]⟩
    · exact hs

theorem migrateFiles_ensures (skip : Bool) : Page.Ensures w (fun s _ => s = a) (migrateFiles skip)
    (fun _ s _ => s = a ∨ ∃ made, s = a.conclude w made) fun s _ => s = a := by
  refine .after (fun _ _ h => h) fun _ => .after (fun _ _ h => h) fun _ => ?_
  refine .after (fun _ _ h => h) fun s => .ite (fun _ => ?_) fun _ => ?_
  · exact .weaken (.of_unmoved fun _ _ h => h) (fun _ _ h => h) (fun _ _ _ h => .inl h) fun _ _ h => h
  · refine .after (fun _ _ h => h) fun total => .bind (migrateListed_ensures skip _ total).attempt fun o => ?_
    cases o with
    | ok _ =>
      refine .pure fun s r h => ?_
      obtain ⟨ms, rfl⟩ := h
      exact .inr ⟨.ok ms, rfl⟩
    | error f =>
      exact (failed_enters a f).ensures.weaken (fun _ _ h => h) (fun _ _ _ h => .inr ⟨.error f, h⟩) fun _ _ h => h

/-- The session is the one that the run began with. -/
abbrev Begun (a : Session) (s : Session) (_ : Storage) : Prop := s = a.begin

theorem Quiet.ensures (h : Quiet w a p) : Page.Ensures w (Begun a) p (fun _ s _ => Steps a s) fun s _ => Steps a s :=
  (Page.Ensures.of_moves h).weaken (fun _ _ hs => hs ▸ Calm.begin a) (fun _ _ _ hs => hs.steps) fun _ _ hs => hs.steps

theorem Begun.steps (s r) (h : Begun a s r) : Steps a s := h ▸ (Calm.begin a).steps

/-- A page that offers a conversion shows no results in the same run. -/
theorem offerMigration_ensures (ha : a.isSet .migrated = false) :
    Page.Ensures w (Begun a) offerMigration (fun _ _ _ => False) fun s _ => Steps a s := by
  refine .after Begun.steps fun _ => .after Begun.steps fun _ => ?_
  refine .after Begun.steps fun skip => .after Begun.steps fun _ => ?_
  refine .bind (.within _ (.after Begun.steps fun clicked => ?_) Begun.steps fun _ => Begun.steps) fun _ =>
    .stopRun Begun.steps
  refine .ite (fun _ => .bind (Q := fun _ s _ => Steps a s) ?_ fun _ => ?_) fun _ => .pure fun _ _ h => h
  · refine (migrateFiles_ensures skip.isPresent).weaken (fun _ _ h => h) (fun _ s r h => ?_) Begun.steps
    rcases h with h | ⟨made, rfl⟩
    · exact Begun.steps s r h
    · exact conclude_steps w a made ha
  · exact .runAgain fun _ _ h => h

theorem lastFailure_ensures : Page.Ensures w (Begun a) lastFailure (fun _ => Begun a) fun s _ => Steps a s := by
  refine .after Begun.steps fun s => .ite (fun _ => ?_) fun _ => .pure fun _ _ h => h
  refine .after Begun.steps fun _ => .after Begun.steps fun _ => ?_
  refine .after Begun.steps fun _ => .after Begun.steps fun clicked => .ite (fun _ => ?_) fun _ => ?_
  · refine .bind (Q := fun _ s _ => s = a.begin.set .failure .null) (.setSlot fun s r h => by rw [h]) fun _ => ?_
    refine .bind (Q := fun _ s _ => s = (a.begin.set .failure .null).set .failureTrace .null)
      (.setSlot fun s r h => by rw [h]) fun _ => ?_
    refine .bind (Q := fun _ s _ => Steps a s) (.setSlot fun s r h => ?_) fun _ => ?_
    · subst h
      refine (Calm.of_unset (by simp [Value.isPresent]) fun h => ?_).steps
      exact ((h.begin.set_other _ (by decide)).set_other _ (by decide)).set_other _ (by decide)
    · exact .bind (Q := fun _ => Begun a) (.runAgain fun _ _ h => h) fun _ => .of_unmoved Begun.steps
  · exact .of_unmoved Begun.steps

theorem resultsPage_ensures : Page.Ensures w (Begun a) resultsPage (fun _ s _ => Steps a s) fun s _ => Steps a s := by
  have hshown : Quiet w a shownResults := inferInstance
  rw [resultsPage_eq]
  refine .after Begun.steps fun _ => .bind lastFailure_ensures fun _ => .session_bind fun s => ?_
  refine .of_pre (φ := s = a.begin) (fun _ _ h => h.2 ▸ h.1) fun hs => ?_
  refine .pre (Begun a) (fun _ _ h => h.1) ?_
  refine .ite (fun _ => .after Begun.steps fun _ => .stopRun_bind Begun.steps) fun _ => ?_
  refine .ite (fun hmigrated => .bind (offerMigration_ensures ?_) fun _ => ?_) fun _ => hshown.ensures
  · rw [hs, Session.isSet_begin _ _ rfl] at hmigrated
    simpa using hmigrated
  · exact ⟨fun _ _ _ h => h.elim, fun _ _ _ h => h.elim⟩

/-! ## Runs that convert -/

/-- The part of the page leaves the run, with the session `b` and the files `r`. -/
structure Leaves (w : Surroundings) (a : Session) (files : Storage) {α : Type} (p : Page α) (l : Leave) (b : Session)
    (r : Storage) : Prop where
  runOn : ∀ es lines, ∃ es' lines', p.runOn w ⟨a, files, es, lines⟩ = (.error l, ⟨b, r, es', lines'⟩)

namespace Leaves

variable {α β : Type}

theorem bind (hp : Leaves w a files p l b r) : Leaves w a files (p >>= q) l b r := by
  refine ⟨fun es lines => ?_⟩
  obtain ⟨es', lines', hrun⟩ := hp.runOn es lines
  exact ⟨es', lines', Page.runOn_bind_error hrun⟩

theorem enters_bind (hp : Enters w a p c) (hq : Leaves w c files (q ()) l b r) : Leaves w a files (p >>= q) l b r := by
  refine ⟨fun es lines => ?_⟩
  obtain ⟨es', hrun⟩ := hp.runOn files es lines
  rw [Page.runOn_bind_ok hrun]
  exact hq.runOn es' lines

theorem after {q : β → Page α}
    (hx : ∀ es lines, ∃ es', x.runOn w ⟨a, files, es, lines⟩ = (.ok v, ⟨a, files, es', lines⟩))
    (hq : Leaves w a files (q v) l b r) : Leaves w a files (x >>= q) l b r := by
  refine ⟨fun es lines => ?_⟩
  obtain ⟨es', hrun⟩ := hx es lines
  rw [Page.runOn_bind_ok hrun]
  exact hq.runOn es' lines

theorem within (region) (hp : Leaves w a files p l b r) : Leaves w a files (within region p) l b r := by
  refine .enters_bind (.draw ..) ⟨fun es lines => ?_⟩
  obtain ⟨es', lines', hrun⟩ := hp.runOn es lines
  rw [Page.runOn_bind, Page.runOn_attempt, hrun]
  -- A fault is thrown again at the end of the region.
  cases l with
  | fault f => exact ⟨_, _, rfl⟩
  | stop | rerun => exact ⟨es', lines', rfl⟩

end Leaves

/-- Without a mapping its transformations cannot be counted. -/
theorem figures_leaves (h : s.parsed = some none) :
    Leaves w s files figures (.fault (.noOperation .null "transformations")) s files := by
  refine .enters_bind (.draw ..) (.enters_bind (.draw ..) (.after (v := s) (fun _ _ => ⟨_, rfl⟩) ?_))
  refine .bind (.within _ (.bind ⟨fun es lines => ⟨es, lines, ?_⟩⟩))
  unfold transformationCount Session.requireParsed
  rw [Page.runOn_session_bind]
  dsimp only
  rw [h]
  rfl

/-- The button is pressed on the results page of a session that is not converted yet. -/
structure Asks (w : Surroundings) (a : Session) : Prop where
  loaded : a.isSet .loaded = true
  configured : a.isSet .configured = true
  migrated : a.isSet .migrated = false
  failure : a.isSet .failure = false
  clicked : w.visitor.clicks.contains "🚀 Run Migration" = true

theorem migrateFiles_leaves {skip : Bool} (hfiles : a.get? .files = some (.list (file :: rest)))
    (h : Runs ((file :: rest).mapM (convertFile w skip)) files ms r) :
    Leaves w a files (do
      migrateFiles skip
      runAgain : Page Unit) .rerun (a.keepResults w.elapsed ms) r := by
  refine ⟨fun es lines => ?_⟩
  obtain ⟨es', lines', hrun⟩ := migrateFiles_runOn (w := w) (s := ⟨a, files, es, lines⟩) skip hfiles
  rw [h] at hrun
  rw [Page.runOn_bind_ok hrun]
  exact ⟨_, _, rfl⟩

/-- Whether the review is left out. -/
def Surroundings.skips (w : Surroundings) : Bool := (w.visitor.choices.getD skipLabel (.bool false)).isPresent

theorem resultsPage_leaves {ms : List Migrated} {r : Storage} (hasks : Asks w a)
    (hfiles : a.get? .files = some (.list (file :: rest)))
    (h : Runs ((file :: rest).mapM (convertFile w w.skips)) files ms r) :
    Leaves w a files resultsPage .rerun (a.keepResults w.elapsed ms) r := by
  have hlast : Enters w a lastFailure a := by
    refine .after (v := a) (fun _ _ _ => rfl) ?_
    have hfailure : (a.getD .failure .null).isPresent = false := hasks.failure
    dsimp only
    rw [hfailure]
    exact .pure
  rw [resultsPage_eq]
  refine .enters_bind (.draw ..) (.enters_bind hlast (.after (v := a) (fun _ _ => ⟨_, rfl⟩) ?_))
  dsimp only
  rw [hasks.loaded, hasks.configured, hasks.migrated, if_neg (by decide), if_pos (by decide)]
  refine .bind (.enters_bind (.draw ..) (.enters_bind (.draw ..) (.after (fun _ _ => ⟨_, rfl⟩) ?_)))
  refine .enters_bind (.draw ..) (.bind (.within _ (.after (fun _ _ => ⟨_, rfl⟩) ?_)))
  rw [if_pos hasks.clicked]
  exact migrateFiles_leaves hfiles h

theorem application_leaves {s t : Screen} {r : Storage}
    (hentrance : entrance.runOn w s = (.ok active, t)) (h : Leaves w t.session t.storage (pageFor active) l b r) :
    (application.runOn w s).2.session = b := by
  have hrest : Leaves w t.session t.storage (do
      rule
      pageFor active
      rule
      html footer) l b r := .enters_bind (.draw ..) (.bind h)
  obtain ⟨es, lines, hrun⟩ := hrest.runOn t.elements t.printed
  rw [application_eq, Page.runOn_bind_ok hentrance, hrun]

/-- Whether a run converts the only file that is listed. -/
def convertsAt (w : Surroundings) (s : Screen) : Bool :=
  match entrance.runOn w s with
  | (.ok active, t) =>
    [0, 1, 2, 3].map (fun n => active.same (.int n)) == [false, false, false, true] &&
    [Slot.loaded, .configured, .migrated, .failure].map t.session.isSet == [true, true, false, false] &&
    w.visitor.clicks.contains "🚀 Run Migration" &&
    match t.session.get? .files with
    | some (.list [file]) => (written? w w.skips file t.storage).isSome
    | _ => false
  | _ => false

theorem pageFor_eq_resultsPage (h : [0, 1, 2, 3].map (fun n => active.same (.int n)) = [false, false, false, true]) :
    pageFor active = resultsPage := by
  obtain ⟨h0, h1, h2, h3⟩ : active.same (.int 0) = false ∧ active.same (.int 1) = false ∧
      active.same (.int 2) = false ∧ active.same (.int 3) = true := by simpa using h
  unfold pageFor
  rw [h0, h1, h2, h3]
  rfl

theorem entrance_session {s t : Screen} (h : entrance.runOn w s = (.ok active, t)) : t.session = s.session.begin :=
  (entrance_ensures.ok s active t ⟨rfl, .refl s.storage⟩ h).1

theorem session_of_convertsAt {s : Screen} (h : convertsAt w s) :
    ∃ ms, (application.runOn w s).2.session = s.session.begin.keepResults w.elapsed ms := by
  unfold convertsAt at h
  cases hentrance : entrance.runOn w s with
  | mk o t =>
    rw [hentrance] at h
    cases o with
    | error l => cases h
    | ok active =>
      dsimp only at h
      simp only [Bool.and_eq_true, beq_iff_eq] at h
      obtain ⟨⟨⟨hactive, hset⟩, hclicked⟩, hwritten⟩ := h
      obtain ⟨hloaded, hconfigured, hmigrated, hfailure⟩ : t.session.isSet .loaded = true ∧
          t.session.isSet .configured = true ∧ t.session.isSet .migrated = false ∧
          t.session.isSet .failure = false := by simpa using hset
      split at hwritten
      · rename_i file hfiles
        obtain ⟨m, r, hrun⟩ := convertFile_runs hwritten
        have hall : Runs ([file].mapM (convertFile w w.skips)) t.storage [m] r := by
          rw [List.mapM_cons, List.mapM_nil]
          exact Runs.bind_iff.mpr ⟨m, r, hrun, rfl⟩
        have hleaves := resultsPage_leaves ⟨hloaded, hconfigured, hmigrated, hfailure, hclicked⟩ hfiles hall
        rw [← pageFor_eq_resultsPage hactive] at hleaves
        refine ⟨[m], (application_leaves hentrance hleaves).trans ?_⟩
        rw [entrance_session hentrance]
      · cases hwritten

/-! ## Whole visits -/

/-- One run of the application. -/
theorem application_steps (w s) : Steps s.session (application.runOn w s).2.session := by
  have hupload : Quiet w s.session uploadPage := inferInstance
  have hconfiguration : Quiet w s.session configurationPage := inferInstance
  have hpreview : Quiet w s.session previewPage := inferInstance
  refine Page.Ensures.run (L := fun t _ => Steps s.session t) (application_ensures (fun t r h => ?_) fun active => ?_)
    ⟨rfl, rfl⟩
  · cases h.1 with
    | before => exact (Calm.refl _).steps
    | begun => exact (Calm.begin _).steps
    | reset => exact (Calm.of_unset rfl fun _ => Session.hasFigures_empty).steps
    | turned v => exact ((Calm.begin _).set_other v (by decide)).steps
  · refine .pre (Begun s.session) (fun _ _ h => h.1) ?_
    exact pageFor_ensures Begun.steps hupload.ensures hconfiguration.ensures hpreview.ensures resultsPage_ensures active

/-- The session of a visitor after the first `n` runs. -/
def sessionAfter (files : Storage) (ws : List Surroundings) (n : Nat) : Session := (visit (.first files) (ws.take n)).session

theorem sessionAfter_steps (files ws) (n : Nat) : Steps (sessionAfter files ws n) (sessionAfter files ws (n + 1)) := by
  unfold sessionAfter visit
  rw [List.take_add_one, List.foldl_append]
  generalize (ws.take n).foldl _ _ = s
  cases ws[n]? with
  | none => exact (Calm.refl s.session).steps
  | some w => exact application_steps w { s with elements := [], printed := [] }

theorem sessionAfter_hasFigures (files ws) (n : Nat) : (sessionAfter files ws n).HasFigures := by
  induction n with
  | zero => exact Session.hasFigures_empty
  | succ n ih => exact (sessionAfter_steps files ws n).figures ih

/-- A converted session keeps a mapping, so that its figures can be shown, and no failure. -/
def Displayable (s : Session) : Prop :=
  s.isSet .migrated = true → s.IsReady ∧ ∀ w files es lines, (figures.runOn w ⟨s, files, es, lines⟩).1 = .ok ()

theorem displayable_of_isReady (hfigures : s.HasFigures) (h : s.isSet .migrated → s.IsReady) : Displayable s := by
  intro hmigrated
  have hready := h hmigrated
  obtain ⟨m, hm⟩ := hready.1
  refine ⟨hready, fun w files es lines => ?_⟩
  obtain ⟨es', hrun⟩ := (figures_enters (w := w) hfigures hm).runOn files es lines
  rw [hrun]

/-- All sessions of a visit can be shown exactly if each run that converts begins in a session
that keeps a mapping and no failure. -/
theorem visit_displayable_iff (files : Storage) (ws : List Surroundings) :
    (∀ n, Displayable (sessionAfter files ws n)) ↔
      ∀ n, (sessionAfter files ws n).isSet .migrated = false → (sessionAfter files ws (n + 1)).isSet .migrated = true →
        (sessionAfter files ws n).IsReady := by
  constructor
  · intro h n hbefore hafter
    exact (sessionAfter_steps files ws n).converted hafter hbefore (h (n + 1) hafter).1
  · intro h n
    refine displayable_of_isReady (sessionAfter_hasFigures files ws n) ?_
    -- A session that is converted was so before, or the run before it converted.
    induction n with
    | zero => intro hmigrated; cases hmigrated
    | succ n ih =>
      intro hmigrated
      refine (sessionAfter_steps files ws n).ready hmigrated ?_
      cases hbefore : (sessionAfter files ws n).isSet .migrated with
      | true => exact ih hbefore
      | false => exact h n hbefore hmigrated

/-- After the last run nothing changes. -/
theorem sessionAfter_of_length_le (h : ws.length ≤ n) :
    sessionAfter files ws n = (visit (.first files) ws).session := by
  unfold sessionAfter
  rw [List.take_of_length_le h]

/-- Only the last run converts, and the session is ready for it. -/
theorem ready_of_last (hk : ws.length = k + 1)
    (hunset : ∀ n ≤ k, (sessionAfter files ws n).isSet .migrated = false) (hready : (sessionAfter files ws k).IsReady)
    (n : Nat) (hbefore : (sessionAfter files ws n).isSet .migrated = false)
    (hafter : (sessionAfter files ws (n + 1)).isSet .migrated) : (sessionAfter files ws n).IsReady := by
  rcases Nat.lt_trichotomy n k with hn | rfl | hn
  · rw [hunset (n + 1) hn] at hafter
    cases hafter
  · exact hready
  · rw [sessionAfter_of_length_le (by omega)] at hbefore hafter
    rw [hbefore] at hafter
    cases hafter

theorem visit_converts (h : convertsAt w { visit (.first files) ws with elements := [], printed := [] }) :
    ∃ ms, (visit (.first files) (ws ++ [w])).session = (visit (.first files) ws).session.begin.keepResults w.elapsed ms := by
  rw [visit_concat]
  exact session_of_convertsAt h

/-- A visitor hands over a file, goes on to the settings, saves them, looks at the preview and turns
to the results. -/
def viewedVisit : List Surroundings :=
  [⟨[], [], [⟨"a.xml", Encoding.encodeUtf8 "<a/>".toList⟩]⟩, ⟨["▶️ Continue to Configuration"], [], []⟩,
   ⟨["💾 Save Configuration"], [], []⟩, ⟨[], [], []⟩, ⟨[], [("main_nav_pills", .int 3)], []⟩].map Visitor.run

/-- The visitor starts the conversion. -/
def conversionRun : Surroundings := Visitor.run ⟨["🚀 Run Migration"], [], []⟩

theorem viewedVisit_displayable : let s := (visit (.first .empty) (viewedVisit ++ [conversionRun])).session
    s.isSet .migrated = true ∧ s.IsReady ∧ ∀ w files es lines, (figures.runOn w ⟨s, files, es, lines⟩).1 = .ok () := by
  have hconverts : convertsAt conversionRun { visit (.first .empty) viewedVisit with elements := [], printed := [] } =
      true := by decide +kernel
  have hunset : ∀ n ≤ 5, (sessionAfter .empty (viewedVisit ++ [conversionRun]) n).isSet .migrated = false := by
    decide +kernel
  have hready : (sessionAfter .empty (viewedVisit ++ [conversionRun]) 5).IsReady := by decide +kernel
  obtain ⟨ms, hsession⟩ := visit_converts hconverts
  have hmigrated := isSet_keepResults (visit (.first .empty) viewedVisit).session.begin conversionRun.elapsed ms
  rw [← hsession] at hmigrated
  have hshown := (visit_displayable_iff .empty (viewedVisit ++ [conversionRun])).mpr
    (ready_of_last rfl hunset hready) 6
  rw [sessionAfter_of_length_le (Nat.le_refl 6)] at hshown
  exact ⟨hmigrated, hshown hmigrated⟩

/-- The visitor does not look at the preview. -/
def unseenVisit : List Surroundings :=
  [⟨[], [], [⟨"a.xml", Encoding.encodeUtf8 "<a/>".toList⟩]⟩, ⟨["▶️ Continue to Configuration"], [], []⟩,
   ⟨["💾 Save Configuration"], [], []⟩, ⟨[], [("main_nav_pills", .int 3)], []⟩].map Visitor.run

theorem not_displayable (hmigrated : s.isSet .migrated) (hparsed : s.parsed = some none) :
    s.isSet .migrated ∧ ¬Displayable s ∧ ∀ w files es lines,
      (figures.runOn w ⟨s, files, es, lines⟩).1 = .error (.fault (.noOperation .null "transformations")) := by
  refine ⟨hmigrated, fun h => ?_, fun w files es lines => ?_⟩
  · obtain ⟨m, hm⟩ := (h hmigrated).1.1
    rw [hparsed] at hm
    cases hm
  · have hleaves : Leaves w s files figures _ s files := figures_leaves hparsed
    obtain ⟨es', lines', hrun⟩ := hleaves.runOn es lines
    rw [hrun]

/-- The conversion succeeds, but its figures cannot be shown. -/
theorem unseenVisit_not_displayable : let s := (visit (.first .empty) (unseenVisit ++ [conversionRun])).session
    s.isSet .migrated = true ∧ ¬Displayable s ∧ ∀ w files es lines,
      (figures.runOn w ⟨s, files, es, lines⟩).1 = .error (.fault (.noOperation .null "transformations")) := by
  have hconverts : convertsAt conversionRun { visit (.first .empty) unseenVisit with elements := [], printed := [] } =
      true := by decide +kernel
  have hparsed : (visit (.first .empty) unseenVisit).session.parsed.map Option.isNone = some true := by decide +kernel
  obtain ⟨m, hm, hnone⟩ := Option.map_eq_some_iff.mp hparsed
  rw [Option.isNone_iff_eq_none.mp hnone] at hm
  obtain ⟨ms, hsession⟩ := visit_converts hconverts
  rw [hsession]
  refine not_displayable (isSet_keepResults _ _ _) ((parsed_keepResults _ _ _).trans ?_)
  rw [Session.parsed_begin, hm]
  rfl

end MappingFlow.Web
