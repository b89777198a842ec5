/-
  MappingFlow.Proofs.Web.Application — a run of the whole application.

  Before a page is shown the log and the folder for uploads are made and the session gets
  the entries it lacks; the run ends there if the visitor resets the application or goes to
  another page (`entrance_ensures`). So what holds after every run is shown page by page
  (`application_ensures`). `visit` is a sequence of runs, one for each thing that the visitor
  does.
-/

import MappingFlow.Proofs.Web.Output

namespace MappingFlow.Web

open List

variable {w : Surroundings}

/-! ## The session at the beginning -/

namespace Session

variable (s : Session) (k : Slot)

theorem get?_foldl_start (entries : List (Slot × Value)) :
    (entries.foldl (fun s e => s.start e.1 e.2) s).get? k = (s.get? k).or (entries.lookup k) := by
  induction entries generalizing s with
  | nil => rw [foldl_nil, lookup_nil, Option.or_none]
  | cons e entries ih =>
    rw [foldl_cons, ih, get?_start, lookup_cons]
    by_cases h : e.1 = k
    · rw [if_pos h, beq_iff_eq.mpr h.symm]
      cases s.get? k <;> rfl
    · rw [if_neg h, beq_eq_false_iff_ne.mpr (Ne.symm h), Option.or_none]

theorem begin_eq : s.begin = (startEntries.foldl (fun s e => s.start e.1 e.2) s).setParsed
    ((startEntries.foldl (fun s e => s.start e.1 e.2) s).parsed.getD none) := rfl

theorem getD_begin (absent : Value) : s.begin.getD k absent = s.getD k ((startEntries.lookup k).getD absent) := by
  unfold Session.getD
  rw [begin_eq, get?_setParsed, get?_foldl_start]
  cases s.get? k <;> rfl

/-- An entry that is empty at the beginning is as good as none. -/
theorem isSet_begin (h : ((startEntries.lookup k).getD .null).isPresent = false) : s.begin.isSet k = s.isSet k := by
  unfold Session.isSet
  rw [getD_begin]
  unfold Session.getD
  cases s.get? k with
  | none => exact h
  | some v => rfl

theorem parsed_foldl_start (entries : List (Slot × Value)) :
    (entries.foldl (fun s e => s.start e.1 e.2) s).parsed = s.parsed := by
  induction entries generalizing s with
  | nil => rfl
  | cons e entries ih =>
    rw [foldl_cons, ih]
    unfold Session.start
    split <;> rfl

theorem parsed_begin : s.begin.parsed = some (s.parsed.getD none) := by
  rw [begin_eq, parsed_setParsed, parsed_foldl_start]

theorem parsed_begin_iff (m) : s.begin.parsed = some (some m) ↔ s.parsed = some (some m) := by
  rw [parsed_begin]
  cases s.parsed <;> simp

end Session

/-! ## Before the page -/

/-- What comes before the page that is shown. -/
def entrance : Page Value := do
  openDebugLog
  pageSettings
  html styleSheet
  makeUploadFolder
  change (·.begin)
  html banner
  html subtitle
  inSidebar sidebar
  navigation

theorem application_eq : application = (do
    let active ← entrance
    rule
    pageFor active
    rule
    html footer) := by
  simp only [application, entrance, bind_assoc]

/-- Where a run is left that shows no page. -/
inductive Session.LeftAt (a : Session) : Session → Prop where
  | before : LeftAt a a
  | begun : LeftAt a a.begin
  | reset : LeftAt a .empty
  | turned (v : Value) : LeftAt a (a.begin.set .activeTab v)

variable {a : Session} {files : Storage}

/-- Away from the files of the application nothing changes. -/
def Since (files : Storage) (P : Session → Prop) (s : Session) (r : Storage) : Prop :=
  P s ∧ files.ChangedOnly Outlying r

theorem openDebugLog_ensures : Page.Ensures w (Since files (· = a)) openDebugLog
    (fun _ => Since files (· = a)) (Since files a.LeftAt) := by
  refine .storing (fun _ _ h => ⟨h.1 ▸ .before, h.2⟩) fun s r h hwrite => ⟨h.1, h.2.trans ?_⟩
  refine Storage.changedOnly_write hwrite fun q hq => ?_
  rw [Path.read_name (by decide)] at hq
  rw [Storage.place_of_locate (by decide) hq]
  exact outlying_single (by decide)

theorem makeUploadFolder_ensures : Page.Ensures w (Since files (· = a)) makeUploadFolder
    (fun _ => Since files (· = a)) (Since files a.LeftAt) :=
  .storing (fun _ _ h => ⟨h.1 ▸ .before, h.2⟩) fun _ _ h hmade => ⟨h.1, h.2.trans (changedOnly_temp hmade)⟩

theorem sidebar_ensures : Page.Ensures w (Since files (· = a.begin)) sidebar
    (fun _ => Since files (· = a.begin)) (Since files a.LeftAt) := by
  have hleft : ∀ s r, Since files (· = a.begin) s r → Since files a.LeftAt s r := fun s r h => ⟨h.1 ▸ .begun, h.2⟩
  refine .after hleft fun _ => .after hleft fun _ => .after hleft fun _ => ?_
  refine .after hleft fun s => .after hleft fun _ => .after hleft fun _ => ?_
  refine .after hleft fun _ => .after hleft fun _ => .after hleft fun _ => ?_
  refine .after hleft fun _ => .after hleft fun _ => .after hleft fun _ => ?_
  refine .after hleft fun _ => .after hleft fun clicked => .ite (fun _ => ?_) fun _ => ?_
  · refine .bind (Q := fun _ => Since files (· = .empty)) (.change fun s r h => ⟨rfl, h.2⟩) fun _ => ?_
    exact .runAgain fun s r h => ⟨h.1 ▸ .reset, h.2⟩
  · exact .pure fun _ _ h => h

theorem navigation_ensures : Page.Ensures w (Since files (· = a.begin)) navigation
    (fun _ => Since files (· = a.begin)) (Since files a.LeftAt) := by
  have hleft : ∀ s r, Since files (· = a.begin) s r → Since files a.LeftAt s r := fun s r h => ⟨h.1 ▸ .begun, h.2⟩
  refine .after hleft fun active => .after hleft fun _ => .after hleft fun chosen => ?_
  refine .ite (fun _ => ?_) fun _ => .pure fun _ _ h => h
  refine .bind (Q := fun _ => Since files (· = a.begin.set .activeTab chosen)) (.setSlot fun s r h => ?_) fun _ => ?_
  · exact ⟨h.1 ▸ rfl, h.2⟩
  · exact .bind (.runAgain fun s r h => ⟨h.1 ▸ .turned chosen, h.2⟩) fun _ => .pure fun _ _ h => h

theorem entrance_ensures : Page.Ensures w (Since files (· = a)) entrance (fun _ => Since files (· = a.begin))
    (Since files a.LeftAt) := by
  have hbefore : ∀ s r, Since files (· = a) s r → Since files a.LeftAt s r := fun s r h => ⟨h.1 ▸ .before, h.2⟩
  have hbegun : ∀ s r, Since files (· = a.begin) s r → Since files a.LeftAt s r := fun s r h => ⟨h.1 ▸ .begun, h.2⟩
  refine .bind openDebugLog_ensures fun _ => .after hbefore fun _ => .after hbefore fun _ => ?_
  refine .bind makeUploadFolder_ensures fun _ => .bind (Q := fun _ => Since files (· = a.begin)) ?_ fun _ => ?_
  · exact .change fun s r h => ⟨h.1 ▸ rfl, h.2⟩
  · refine .after hbegun fun _ => .after hbegun fun _ => ?_
    exact .bind (.within _ sidebar_ensures hbegun fun _ => hbegun) fun _ => navigation_ensures

/-! ## The page -/

/-- A run ends in `L` if every page does that is shown to a session that has begun. -/
theorem application_ensures {L : Session → Storage → Prop} (hleft : ∀ s r, Since files a.LeftAt s r → L s r)
    (hpage : ∀ active, Page.Ensures w (Since files (· = a.begin)) (pageFor active) (fun _ => L) L) :
    Page.Ensures w (fun s r => s = a ∧ r = files) application (fun _ => L) L := by
  have hbegun : ∀ s r, Since files (· = a.begin) s r → L s r := fun s r h => hleft s r ⟨h.1 ▸ .begun, h.2⟩
  rw [application_eq]
  refine .bind (Q := fun _ => Since files (· = a.begin)) ?_ fun active => ?_
  · refine entrance_ensures.weaken (fun s r h => ?_) (fun _ _ _ h => h) hleft
    obtain ⟨rfl, rfl⟩ := h
    exact ⟨rfl, .refl _⟩
  · refine .after hbegun fun _ => .bind (hpage active) fun _ => ?_
    exact .after (fun _ _ h => h) fun _ => .of_unmoved fun _ _ h => h

theorem pageFor_ensures {P L : Session → Storage → Prop} (hP : ∀ s r, P s r → L s r)
    (hupload : Page.Ensures w P uploadPage (fun _ => L) L)
    (hconfiguration : Page.Ensures w P configurationPage (fun _ => L) L)
    (hpreview : Page.Ensures w P previewPage (fun _ => L) L) (hresults : Page.Ensures w P resultsPage (fun _ => L) L)
    (active : Value) : Page.Ensures w P (pageFor active) (fun _ => L) L :=
  .ite (fun _ => hupload) fun _ => .ite (fun _ => hconfiguration) fun _ => .ite (fun _ => hpreview) fun _ =>
    .ite (fun _ => hresults) fun _ => .pure hP

/-! ## One run after another -/

/-- One run for each thing that the visitor does; each begins with an empty screen. -/
def visit (s : Screen) (ws : List Surroundings) : Screen :=
  ws.foldl (fun s w => (application.runOn w { s with elements := [], printed := [] }).2) s

theorem visit_concat (s ws w) : visit s (ws ++ [w]) =
    (application.runOn w { visit s ws with elements := [], printed := [] }).2 := by
  unfold visit
  rw [foldl_append, foldl_cons, foldl_nil]

/-- A visitor who comes for the first time. -/
def Screen.first (files : Storage) : Screen := ⟨.empty, files, [], []⟩

/-- A run with the standard rules, begun at a fixed moment. -/
def Visitor.run (v : Visitor) : Surroundings := ⟨.standard, .standard, ⟨2024, 1, 1, 0, 0, 0⟩, .zero false, "", v⟩

theorem visit_keeps {J : Session → Storage → Prop}
    (h : ∀ w ∈ ws, Moves w (Keeps J) application) (hs : J s.session s.storage) :
    J (visit s ws).session (visit s ws).storage := by
  induction ws generalizing s with
  | nil => exact hs
  | cons w ws ih =>
    refine ih (fun w' hw' => h w' (.tail _ hw')) ?_
    exact (h w mem_cons_self).moves { s with elements := [], printed := [] } hs

end MappingFlow.Web
