/-
  MappingFlow.Proofs.Web.Coherence — the session never shows what belongs to another file.

  The mapping that a session keeps and what it was converted to are made on one page, the
  file they belong to is chosen on another, and files come and go on it. Whatever a visitor
  does, in whatever order, the session stays coherent with the files
  (`visit_isCoherent`).
-/

import MappingFlow.Proofs.Web.Application

namespace MappingFlow.Web

variable {w : Surroundings} {rules : Rules} {P L : Session → Storage → Prop}

set_option synthInstance.maxSize 20000

theorem Keeps.allows (hk : k ∉ [Slot.files, .path, .loaded, .plan]) : Allows (Keeps (IsCoherent rules)) k where
  allows _ v := fun ⟨es, h⟩ => ⟨es, h.set_other v hk⟩

instance : Allows (Keeps (IsCoherent rules)) .configured := Keeps.allows (by decide)
instance : Allows (Keeps (IsCoherent rules)) .migrated := Keeps.allows (by decide)
instance : Allows (Keeps (IsCoherent rules)) .config := Keeps.allows (by decide)
instance : Allows (Keeps (IsCoherent rules)) .activeTab := Keeps.allows (by decide)
instance : Allows (Keeps (IsCoherent rules)) .selected := Keeps.allows (by decide)
instance : Allows (Keeps (IsCoherent rules)) .failure := Keeps.allows (by decide)
instance : Allows (Keeps (IsCoherent rules)) .failureTrace := Keeps.allows (by decide)

/-! ## The preview -/

theorem orStop_ensures {Q : Unit → Session → Storage → Prop}
    (h : Page.Ensures w P body Q L) : Page.Ensures w P (orStop label body) Q L := by
  refine .bind h.attempt fun o => ?_
  cases o with
  | ok _ => exact .pure fun _ _ h => h
  | error f =>
    refine .after (fun _ _ h => h) fun _ => .after (fun _ _ h => h) fun _ => ?_
    exact .stopRun fun _ _ h => h

theorem readMapping_ensures (hL : ∀ s r, P s r → L s r) :
    Page.Ensures w P (readMapping path) (fun m s r => P s r ∧ mappingAt path r = .ok m) L := by
  refine .of_ended fun s hs => ?_
  rw [readMapping_runOn]
  cases hm : mappingAt path s.storage with
  | error f => exact hL _ _ hs
  | ok m => exact ⟨hs, hm⟩

/-- The session is coherent and a file is chosen. -/
def HasChosen (rules : Rules) (s : Session) (r : Storage) : Prop := IsCoherent rules s r ∧ s.isSet .loaded = true

theorem HasChosen.isCoherent (s r) (h : HasChosen rules s r) : IsCoherent rules s r := h.1

theorem readChosen_ensures :
    Page.Ensures w (HasChosen rules) readChosen (fun _ => HasChosen rules) (IsCoherent rules) := by
  refine .session_bind fun s => .ite (fun hnone => ?_) fun _ => .pure fun _ _ h => h.1
  -- The file is read only where no mapping is kept.
  suffices h : Page.Ensures w (fun s r => HasChosen rules s r ∧ s.parsed.getD none = none) (inSpinner _ _)
      (fun _ => HasChosen rules) (IsCoherent rules) by
    refine .pre _ (fun s' r hs => ?_) h
    obtain ⟨hs, rfl⟩ := hs
    exact ⟨hs, by simpa using hnone⟩
  refine .inSpinner _ (orStop_ensures ?_) (fun _ _ h => h.1.1) fun _ => HasChosen.isCoherent
  refine .bind (.require (Q := fun path s r => (HasChosen rules s r ∧ s.parsed.getD none = none) ∧
    s.getD .path .null = path) (fun path s r h hpath => ⟨h, ?_⟩) fun _ _ h => h.1.1) fun path => ?_
  · unfold Session.getD
    rw [hpath]
    rfl
  refine .bind (readMapping_ensures fun _ _ h => h.1.1.1) fun m => .bind (Q := fun _ => HasChosen rules) ?_ fun _ => ?_
  · refine .change fun s r h => ?_
    obtain ⟨⟨⟨⟨⟨es, h⟩, hloaded⟩, hparsed⟩, rfl⟩, hm⟩ := h
    exact ⟨⟨es, h.setParsed hloaded hparsed hm⟩, hloaded⟩
  · exact .of_unmoved HasChosen.isCoherent

theorem mapping_ensures {operation : String} (hL : ∀ s r, P s r → L s r) :
    Page.Ensures w P (mapping operation) (fun m s r => P s r ∧ s.parsed = some (some m)) L := by
  refine .bind (Q := fun m s r => P s r ∧ s.parsed = some m) (.session_bind fun s => .lift (fun m hm s' r h => ?_) ?_) ?_
  · obtain ⟨h, rfl⟩ := h
    refine ⟨h, ?_⟩
    unfold Session.requireParsed at hm
    split at hm
    · rename_i m' hm'
      rw [hm', Except.ok.inj hm]
    · cases hm
  · exact fun s r h => hL s r h.1
  · intro m
    cases m with
    | none => exact .throw fun s r h => hL s r h.1
    | some m => exact .pure fun _ _ h => h

theorem planChosen_ensures (hrules : w.rules = rules) :
    Page.Ensures w (HasChosen rules) planChosen (fun _ => HasChosen rules) (IsCoherent rules) := by
  refine .session_bind fun s => .pre (HasChosen rules) (fun _ _ h => h.1) ?_
  split
  · refine .inSpinner _ (orStop_ensures ?_) HasChosen.isCoherent fun _ => HasChosen.isCoherent
    refine .bind (Q := fun plan s r => HasChosen rules s r ∧ ∃ m, s.parsed = some (some m) ∧
      (outcome (Conversion.convertMapping rules m) .start).1 = .ok plan) ?_ fun plan => ?_
    · refine .bind (mapping_ensures HasChosen.isCoherent) fun m => .read_bind ?_
      rw [hrules]
      exact Page.Ensures.lift (e := (outcome (Conversion.convertMapping rules m) .start).1)
        (fun plan hplan s r h => ⟨h.1, m, h.2, hplan⟩) fun _ _ h => h.1.1
    · refine .bind (Q := fun _ => HasChosen rules) (.setSlot fun s r h => ?_) fun _ => .of_unmoved HasChosen.isCoherent
      obtain ⟨⟨⟨es, h⟩, hloaded⟩, m, hparsed, hplan⟩ := h
      exact ⟨⟨es, h.setPlan hparsed hplan⟩, by simpa using hloaded⟩
  · exact .pure fun _ _ h => h

theorem previewPage_moves (hrules : w.rules = rules) : Moves w (Keeps (IsCoherent rules)) previewPage := by
  refine Page.Ensures.moves (.after (fun _ _ h => h) fun _ => .session_bind fun s => .ite (fun _ => ?_) fun hloaded => ?_)
  · exact .after (fun _ _ h => h.1) fun _ => .stopRun_bind fun _ _ h => h.1
  refine .pre (HasChosen rules) ?_ ?_
  · rintro _ _ ⟨h, rfl⟩
    exact ⟨h, by simpa using hloaded⟩
  · refine .after HasChosen.isCoherent fun s => .ite (fun _ => ?_) fun _ => ?_
    · exact .after HasChosen.isCoherent fun _ => .stopRun_bind HasChosen.isCoherent
    refine .bind readChosen_ensures fun _ => .bind (planChosen_ensures hrules) fun _ => ?_
    exact .pre (IsCoherent rules) HasChosen.isCoherent (.of_moves inferInstance)

/-! ## All pages -/

instance : Moves w (Keeps (IsCoherent rules)) lastFailure := by
  unfold lastFailure
  infer_instance

instance : Moves w (Keeps (IsCoherent rules)) offerMigration := by
  unfold offerMigration
  infer_instance

instance : Moves w (Keeps (IsCoherent rules)) resultsPage := by
  rw [resultsPage_eq]
  dsimp only
  infer_instance

theorem Coherent.begin (h : Coherent rules es s files) : Coherent rules es s.begin files := by
  refine h.congr ?_ ?_ ?_ ?_ (Session.parsed_begin_iff s)
  · exact Session.getD_begin s .files (.list [])
  · exact Session.getD_begin s .path .null
  · exact Session.isSet_begin s .loaded rfl
  · exact Session.getD_begin s .plan .null

/-- One run keeps the session coherent. -/
theorem application_isCoherent (hrules : w.rules = rules) (hnames : ∀ u ∈ w.visitor.uploads, Path.IsPlainName u.name) :
    Moves w (Keeps (IsCoherent rules)) application := by
  refine ⟨fun s hs => ?_⟩
  obtain ⟨es, hs⟩ := hs
  have hmoved (r : Storage) (h : s.storage.ChangedOnly Outlying r) : Coherent rules es s.session r :=
    hs.moved h fun e _ q hq => hq.not_outlying
  have hbegun (t : Session) (r : Storage) (h : Since s.storage (· = s.session.begin) t r) : IsCoherent rules t r :=
    ⟨es, h.1 ▸ (hmoved r h.2).begin⟩
  have hpages (active : Value) : Moves w (Keeps (IsCoherent rules)) (pageFor active) := by
    have hupload : Moves w (Keeps (IsCoherent rules)) uploadPage := uploadPage_moves hnames
    have hpreview : Moves w (Keeps (IsCoherent rules)) previewPage := previewPage_moves hrules
    unfold pageFor
    infer_instance
  refine Page.Ensures.run (application_ensures (fun t r h => ?_) fun active => ?_) ⟨rfl, rfl⟩
  · obtain ⟨hleft, hr⟩ := h
    cases hleft with
    | before => exact (hmoved r hr).isCoherent
    | begun => exact (hmoved r hr).begin.isCoherent
    | reset => exact (coherent_empty (hmoved r hr).plain).isCoherent
    | turned v => exact ((hmoved r hr).begin.set_other v (by decide)).isCoherent
  · exact .pre _ hbegun (.of_moves (hpages active))

/-! ## Whole visits -/

theorem visit_isCoherent (hfiles : files.IsPlain)
    (hws : ∀ w ∈ ws, w.rules = rules ∧ ∀ u ∈ w.visitor.uploads, Path.IsPlainName u.name) :
    IsCoherent rules (visit (.first files) ws).session (visit (.first files) ws).storage :=
  visit_keeps (fun w hw => application_isCoherent (hws w hw).1 (hws w hw).2) (coherent_empty hfiles).isCoherent

theorem names_entries (es : List Entry) :
    (es.map Entry.toValue).mapM (·.field "name") = .ok (es.map fun e => Value.text e.name) := by
  induction es with
  | nil => rfl
  | cons e es ih =>
    rw [List.map_cons, List.mapM_cons, ih]
    rfl

/-- After any visit no two listed files share a name, the file that is chosen is listed, the
mapping that is kept is the one in that file and what is kept as converted is that mapping
converted. -/
theorem visit_shows_chosen_file (rules : Rules) (files : Storage) (ws : List Surroundings) (hfiles : files.IsPlain)
    (hws : ∀ w ∈ ws, w.rules = rules ∧ ∀ u ∈ w.visitor.uploads, Path.IsPlainName u.name) :
    let t := visit (.first files) ws
    let s := t.session
    ∃ listed, s.getD .files (.list []) = .list listed ∧
      (∃ names : List String, listed.mapM (·.field "name") = .ok (names.map Value.text) ∧ names.Nodup) ∧
      (s.isSet .loaded = true → ∃ file ∈ listed, file.field "path" = .ok (s.getD .path .null)) ∧
      (∀ m, s.parsed = some (some m) → s.isSet .loaded = true ∧
        ∀ w, (readMapping (s.getD .path .null)).runOn w t = (.ok m, t)) ∧
      (s.getD .plan .null ≠ .null → ∃ m, s.parsed = some (some m) ∧
        (outcome (Conversion.convertMapping rules m) .start).1 = .ok (s.getD .plan .null)) := by
  obtain ⟨es, h⟩ := visit_isCoherent hfiles hws
  refine ⟨es.map Entry.toValue, h.listed, ⟨es.map (·.name), ?_, h.distinct⟩, fun hloaded => ?_, fun m hm => ?_, h.plan⟩
  · rw [names_entries, List.map_map]
    rfl
  · obtain ⟨e, he, hpath⟩ := h.path (h.loaded hloaded)
    exact ⟨e.toValue, List.mem_map_of_mem he, congrArg Except.ok hpath.symm⟩
  · obtain ⟨hloaded, hmapping⟩ := h.parsed m hm
    refine ⟨hloaded, fun w => ?_⟩
    rw [readMapping_runOn, hmapping]
    rfl

/-- A visitor hands over a file, goes on to the settings, saves them, and looks at the preview. -/
def previewVisit : List Surroundings :=
  [⟨[], [], [⟨"a.xml", Encoding.encodeUtf8 "<a/>".toList⟩]⟩, ⟨["▶️ Continue to Configuration"], [], []⟩,
   ⟨["💾 Save Configuration"], [], []⟩, ⟨[], [], []⟩].map Visitor.run

theorem visit_shows_chosen_file_preview : let s := (visit (.first .empty) previewVisit).session
    s.getD .plan .null ≠ .null ∧ ∃ m, s.parsed = some (some m) ∧
      (outcome (Conversion.convertMapping .standard m) .start).1 = .ok (s.getD .plan .null) := by
  have hplan : (visit (.first .empty) previewVisit).session.isSet .plan = true := by decide +kernel
  have hne : (visit (.first .empty) previewVisit).session.getD .plan .null ≠ .null := by
    intro hnull
    unfold Session.isSet at hplan
    rw [hnull] at hplan
    cases hplan
  have hws : ∀ w ∈ previewVisit, ∀ u ∈ w.visitor.uploads, Path.IsPlainName u.name := by decide +kernel
  have hrules : ∀ w ∈ previewVisit, w.rules = .standard := by
    intro w hw
    obtain ⟨v, -, rfl⟩ := List.mem_map.mp hw
    rfl
  obtain ⟨_, -, -, -, -, h⟩ := visit_shows_chosen_file .standard .empty previewVisit (fun p hp => by cases hp)
    fun w hw => ⟨hrules w hw, hws w hw⟩
  exact ⟨hne, h hne⟩

end MappingFlow.Web
