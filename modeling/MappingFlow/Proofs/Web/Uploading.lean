/-
  MappingFlow.Proofs.Web.Uploading — loading, choosing and removing files keeps a session coherent.

  A file that is handed over is stored under its name, so it can only replace a file that
  is not listed. A file is chosen or removed by the visitor in a row of the list; the run
  ends there, so that the row is still that of the listed file it was made for.
-/

import MappingFlow.Proofs.Web.Display
import MappingFlow.Proofs.Web.Listing

namespace MappingFlow.Web

open List

variable {w : Surroundings} {rules : Rules} {es : List Entry} {e : Entry} {files : Storage} {n : String} {i : Nat}

set_option synthInstance.maxSize 20000

/-- The session is coherent with the files. -/
def IsCoherent (rules : Rules) (s : Session) (files : Storage) : Prop := ∃ es, Coherent rules es s files

theorem Coherent.isCoherent (h : Coherent rules es s files) : IsCoherent rules s files := ⟨es, h⟩

variable {α : Type}

/-- Wherever the part ends, the session is coherent. -/
abbrev Upholds (w : Surroundings) (rules : Rules) (p : Page α) : Prop :=
  Page.Ensures w (IsCoherent rules) p (fun _ => IsCoherent rules) (IsCoherent rules)

/-- The listed files also stay the same, unless the part is left early. -/
abbrev KeepsList (w : Surroundings) (rules : Rules) (es : List Entry) (p : Page α) : Prop :=
  Page.Ensures w (Coherent rules es) p (fun _ => Coherent rules es) (IsCoherent rules)

theorem requireFiles_ensures {P : Session → Storage → Prop} (hP : ∀ s r, P s r → Coherent rules es s r) :
    Page.Ensures w P (require .files) (fun v s r => P s r ∧ v = .list (es.map Entry.toValue)) (IsCoherent rules) := by
  refine .require (fun v s r h hv => ⟨h, ?_⟩) fun s r h => (hP s r h).isCoherent
  have hlisted := (hP s r h).listed
  unfold Session.getD at hlisted
  rwa [hv] at hlisted

theorem listFile_ensures (hnew : ∀ e' ∈ es, e'.name ≠ e.name) :
    Page.Ensures w (Coherent rules es) (listFile e.toValue) (fun _ => Coherent rules (es ++ [e])) (IsCoherent rules) := by
  refine .bind (requireFiles_ensures fun _ _ h => h) fun v => .of_pre (fun _ _ h => h.2) fun hv => ?_
  subst hv
  exact .setSlot fun _ _ h => h.1.list hnew

/-- A name is listed, or it is none of those that are. -/
theorem isListed_bind {k : Bool → Page α} {Q : α → Session → Storage → Prop}
    (hknown : Page.Ensures w (IsCoherent rules) (k true) Q (IsCoherent rules))
    (hnew : ∀ es : List Entry, (∀ e ∈ es, e.name ≠ n) → Page.Ensures w (Coherent rules es) (k false) Q (IsCoherent rules)) :
    Page.Ensures w (IsCoherent rules) (do
      let files ← require .files
      let items ← files.items
      let listed ← isListed (.text n) items
      k listed) Q (IsCoherent rules) := by
  refine .exists_pre fun es => .bind (requireFiles_ensures fun _ _ h => h) fun v => .of_pre (fun _ _ h => h.2) fun hv => ?_
  subst hv
  refine .bind_ok rfl (.bind_ok (isListed_entries n es) ?_)
  cases hlisted : es.any (·.name == n) with
  | true => exact .pre _ (fun _ _ h => h.1.isCoherent) hknown
  | false =>
    refine .pre _ (fun _ _ h => h.1) (hnew es fun e he hname => ?_)
    exact absurd (beq_iff_eq.mpr hname) (any_eq_false.mp hlisted e he)

/-! ## Files handed over -/

/-- The file that a file handed over becomes. -/
def Upload.entry (u : Upload) (h : Path.IsPlainName u.name) : Entry where
  name := u.name
  path := ⟨false, ["temp", u.name]⟩
  size := sizeOf u.content.length
  plain := h
  clean := by
    intro n hn
    rcases mem_cons.mp hn with rfl | hn
    · decide
    · obtain rfl := mem_singleton.mp hn
      exact h.1
  last := rfl
  origin := .inl rfl

theorem Entry.Spot.ne_temp (h : e.Spot q) (hn : e.name ≠ n) : q ≠ ["temp", n] := by
  rintro rfl
  exact hn (Option.some.inj h.1).symm

theorem store_ensures (hu : Path.IsPlainName u.name) (hnew : ∀ e ∈ es, e.name ≠ u.name) :
    Page.Ensures w (Coherent rules es) (store u (u.entry hu).path) (fun _ => IsCoherent rules) (IsCoherent rules) := by
  -- The path leads to the place for the new file and to no other.
  have hplace (files : Storage) (r : Place)
      (h : Storage.Located.IsAt (files.locate (.read (u.entry hu).path.toText)) r) : r = ["temp", u.name] := by
    rw [Path.read_toText (u.entry hu).clean] at h
    exact Storage.place_of_locate (by simpa using Ne.symm hu.2) h
  have hspared : ∀ e ∈ es, ∀ q, e.Spot q → ¬q = ["temp", u.name] := fun e he q hq => hq.ne_temp (hnew e he)
  refine .storing_bind (Q := Coherent rules es) (fun _ _ h => h.isCoherent) (fun s files h hwrite => ?_) fun s files _ => ?_
  · exact h.moved (Storage.changedOnly_write hwrite (hplace s.storage)) hspared
  · refine .ite (fun _ => ?_) fun _ => ?_
    · exact .bind (listFile_ensures (e := u.entry hu) hnew) fun _ => .pure fun _ _ h => h.isCoherent
    · refine .bind (.modify_storage (g := (·.remove _)) fun s r h => ?_) fun _ => .pure fun _ _ h => h
      exact (h.moved (Storage.changedOnly_remove r (hplace r)) hspared).isCoherent

theorem isPlainName_temp : Path.IsPlainName "temp" := by decide

theorem outlying_single (h : isMarkupName n = false) : Outlying [n] := ⟨n, h, .inl rfl⟩

theorem changedOnly_temp (h : files.makeOneFolder "temp" = .ok files') : files.ChangedOnly Outlying files' :=
  Storage.changedOnly_makeOneFolder isPlainName_temp (outlying_single (by decide)) h

theorem receive_ensures (hu : Path.IsPlainName u.name) : Upholds w rules (receive u) := by
  have hpath : (Path.read "temp").child u.name = (u.entry hu).path := by
    rw [Path.child_eq hu.1, Path.read_name isPlainName_temp.1]
    rfl
  unfold receive
  rw [hpath]
  refine isListed_bind (.pure fun _ _ h => h) fun es hnew => ?_
  refine .storing_bind (Q := Coherent rules es) (fun _ _ h => h.isCoherent) (fun s files h hmade => ?_) fun s files _ => ?_
  · exact h.moved (changedOnly_temp hmade) fun e _ q hq => hq.not_outlying
  · refine .bind (store_ensures hu hnew).attempt fun o => ?_
    cases o with
    | ok | error => exact .pure fun _ _ h => h

theorem uploadColumn_moves (h : ∀ u ∈ w.visitor.uploads, Path.IsPlainName u.name) :
    Moves w (Keeps (IsCoherent rules)) uploadColumn := by
  have hreceive : Moves w (Keeps (IsCoherent rules)) (receiveFiles w.visitor.uploads) := by
    refine .bind (.mapM fun u hu => (receive_ensures (h u hu)).moves) fun receipts => ?_
    infer_instance
  refine .after fun _ => .after fun _ => .after fun _ => .visitor_bind ?_
  dsimp only
  infer_instance

/-! ## Files of a folder -/

theorem isPlainName_of_markup (hn : isMarkupName n) (hslash : '/' ∉ n.toList) : Path.IsPlainName n := by
  refine ⟨⟨hslash, ?_, ?_⟩, ?_⟩
  all_goals
    rintro rfl
    exact absurd hn (by decide)

/-- The names that are looked for in a folder. -/
theorem isPlainName_of_mem_namesIn (hfiles : files.IsPlain)
    (h : n ∈ (files.namesIn folder).filter isMarkupName) : Path.IsPlainName n ∧ isMarkupName n = true := by
  obtain ⟨hn, hmarkup⟩ := mem_filter.mp h
  refine ⟨isPlainName_of_markup hmarkup ?_, hmarkup⟩
  unfold Storage.namesIn at hn
  split at hn
  · obtain ⟨p, hp, hlast⟩ := mem_filterMap.mp hn
    rcases hfiles p (mem_filter.mp hp).1 with rfl | hplain
    · obtain rfl : n = "/" := (Option.some.inj hlast).symm
      exact absurd hmarkup (by decide)
    · exact hplain n hlast
  · cases hn

/-- The file of a folder as a listed one. -/
def folderEntry (folder : Path) (hfolder : folder.IsClean) (n : String) (size : Value) (hn : Path.IsPlainName n)
    (hmarkup : isMarkupName n = true) : Entry where
  name := n
  path := folder.child n
  size := size
  plain := hn
  clean := Path.isClean_child hn.1 hfolder
  last := by simp [Path.child_eq hn.1]
  origin := .inr hmarkup

/-- All of the values are listed files. -/
def AreEntries (vs : List Value) : Prop := ∀ v ∈ vs, ∃ e : Entry, v = e.toValue

theorem readFolderFiles_ensures (hfolder : folder.IsClean) {names : List String}
    (hnames : ∀ n ∈ names, Path.IsPlainName n ∧ isMarkupName n) :
    Page.Ensures w (IsCoherent rules) (readFolderFiles folder names)
      (fun found s r => IsCoherent rules s r ∧ AreEntries found.1) (IsCoherent rules) := by
  induction names with
  | nil => exact .pure fun _ _ h => ⟨h, fun v hv => by cases hv⟩
  | cons n names ih =>
    have hrest := ih fun m hm => hnames m (.tail _ hm)
    obtain ⟨hn, hmarkup⟩ := hnames n mem_cons_self
    unfold readFolderFiles
    refine .get_bind fun s => .pre (IsCoherent rules) (fun _ _ h => h.1) ?_
    cases s.storage.read (folder.child n).toText with
    | error f => exact .after (fun _ _ h => h) fun _ => hrest
    | ok content =>
      refine .bind hrest fun found => ?_
      obtain ⟨vs, invalid⟩ := found
      refine .ite (fun _ => .pure fun _ _ h => ⟨h.1, fun v hv => ?_⟩) fun _ => .pure fun _ _ h => h
      rcases mem_cons.mp hv with rfl | hv
      · exact ⟨folderEntry folder hfolder n (sizeOf content.length) hn hmarkup, rfl⟩
      · exact h.2 v hv

theorem loadFolder_ensures (path : String) : Page.Ensures w (IsCoherent rules) (loadFolder path)
    (fun vs s r => IsCoherent rules s r ∧ AreEntries vs) (IsCoherent rules) := by
  have hnone : Page.Ensures w (IsCoherent rules) (pure [] : Page (List Value))
      (fun vs s r => IsCoherent rules s r ∧ AreEntries vs) (IsCoherent rules) :=
    .pure fun _ _ h => ⟨h, fun v hv => by cases hv⟩
  refine .get_bind fun s => .of_pre (φ := s.storage.IsPlain) ?_ fun hplain => ?_
  · rintro _ _ ⟨⟨es, h⟩, -, rfl⟩
    exact h.plain
  refine .pre (IsCoherent rules) (fun _ _ h => h.1) ?_
  refine .ite (fun _ => .after (fun _ _ h => h) fun _ => hnone) fun _ => ?_
  refine .ite (fun _ => .after (fun _ _ h => h) fun _ => hnone) fun _ => ?_
  refine .bind (readFolderFiles_ensures (Path.isClean_read path) fun n hn => ?_) fun found => ?_
  · exact isPlainName_of_mem_namesIn hplain (mem_mergeSort.mp hn)
  · obtain ⟨vs, invalid⟩ := found
    refine .ite (fun _ => .after (fun _ _ h => h.1) fun _ => ?_) fun _ => ?_
    all_goals
      refine .ite (fun _ => .after (fun _ _ h => h.1) fun _ => ?_) fun _ => ?_
      · exact .pure fun _ _ h => h
      · exact .pure fun _ _ h => h

/-- New files are listed one after another. -/
theorem listNew_ensures {vs : List Value} (h : AreEntries vs) : Upholds w rules (listNew vs) := by
  induction vs with
  | nil => exact .pure fun _ _ h => h
  | cons v vs ih =>
    have hrest := ih fun u hu => h u (.tail _ hu)
    obtain ⟨e, rfl⟩ := h v mem_cons_self
    have hname : e.toValue.field "name" = .ok (.text e.name) := rfl
    unfold listNew
    refine .bind_ok (a := .text e.name) rfl (isListed_bind ?_ fun es hnew => ?_)
    · exact .bind hrest fun n => .pure fun _ _ h => h
    · refine .bind (.weaken (listFile_ensures hnew) (fun _ _ h => h) (fun _ _ _ h => h.isCoherent) fun _ _ h => h) fun _ => ?_
      exact .bind hrest fun n => .pure fun _ _ h => h

theorem loadFromFolder_ensures (path : Value) : Upholds w rules (loadFromFolder path) := by
  refine .ite (fun _ => .of_unmoved fun _ _ h => h) fun _ => ?_
  cases path with
  | text folder =>
    refine .bind (Q := fun _ => IsCoherent rules) (.pure fun _ _ h => h) fun folder => ?_
    refine .bind (loadFolder_ensures folder) fun vs => .of_pre (fun _ _ h => h.2) fun hvs => ?_
    refine .pre (IsCoherent rules) (fun _ _ h => h.1) ?_
    refine .ite (fun _ => .bind (listNew_ensures hvs) fun added => ?_) fun _ => .pure fun _ _ h => h
    exact .of_unmoved fun _ _ h => h
  | _ => exact .throw_bind fun _ _ h => h

theorem folderColumn_moves : Moves w (Keeps (IsCoherent rules)) folderColumn := by
  have hload (path : Value) : Moves w (Keeps (IsCoherent rules)) (loadFromFolder path) :=
    (loadFromFolder_ensures path).moves
  unfold folderColumn
  infer_instance

/-! ## Choosing and removing -/

theorem chooseFile_ensures (he : e ∈ es) : KeepsList w rules es (chooseFile e.toValue) := by
  refine .bind_ok (a := .text e.path.toText) rfl (.bind_ok (a := .text e.name) rfl (.bind_ok rfl ?_))
  exact .change fun _ _ h => h.choose he _

theorem removeFile_ensures (hi : es[i]? = some e) : KeepsList w rules es (removeFile e.toValue i) := by
  refine .bind_ok (a := .text e.path.toText) rfl (.bind (Q := fun _ s r => Coherent rules es s r ∧
    (s.isSet .path = true → s.getD .path .null ≠ .text e.path.toText)) (.change fun s r h => ?_) fun _ => ?_)
  · split
    · exact ⟨h.unchoose, fun hset => by simp [Session.unchoose, Value.isPresent] at hset⟩
    · rename_i hactive
      refine ⟨h, fun _ hpath => hactive ?_⟩
      unfold isActive
      rw [hpath]
      exact beq_self_eq_true e.path.toText
  · refine .bind (requireFiles_ensures fun _ _ h => h.1) fun v => .of_pre (fun _ _ h => h.2) fun hv => ?_
    subst hv
    refine .bind (Q := fun _ => IsCoherent rules) (.setSlot fun _ _ h => ?_) fun _ => .runAgain fun _ _ h => h
    exact (h.1.1.eraseIdx hi h.1.2).isCoherent

theorem isCoherent_of : ∀ s r, Coherent rules es s r → IsCoherent rules s r := fun _ _ h => h.isCoherent

/-- Something happens when a button is clicked. -/
theorem clicked_ensures {p : Page Bool} [Moves w Unmoved p] (hx : KeepsList w rules es x) :
    KeepsList w rules es (inColumn i do if ← p then x) := by
  refine .within _ (.after isCoherent_of fun clicked => ?_) isCoherent_of fun _ => isCoherent_of
  exact .ite (fun _ => hx) fun _ => .pure fun _ _ h => h

theorem tableRow_ensures (hi : es[i]? = some e) : KeepsList w rules es (tableRow e.toValue i) := by
  refine .after isCoherent_of fun _ => .after isCoherent_of fun _ => .after isCoherent_of fun _ => ?_
  refine .bind (clicked_ensures ?_) fun _ => clicked_ensures (removeFile_ensures hi)
  refine .bind (chooseFile_ensures (mem_of_getElem? hi)) fun _ => .bind_ok rfl (.after isCoherent_of fun _ => ?_)
  exact .runAgain isCoherent_of

theorem card_ensures (hi : es[i]? = some e) : KeepsList w rules es (card e.toValue i) := by
  refine .within _ ?_ isCoherent_of fun _ => isCoherent_of
  refine .bind_ok rfl (.after isCoherent_of fun s => .bind_ok rfl (.bind_ok rfl ?_))
  refine .after isCoherent_of fun _ => .after isCoherent_of fun _ => ?_
  refine .bind (clicked_ensures ?_) fun _ => clicked_ensures (removeFile_ensures hi)
  exact .bind (chooseFile_ensures (mem_of_getElem? hi)) fun _ => .runAgain isCoherent_of

theorem eachFile_ensures (hview : ∀ i e, es[i]? = some e → KeepsList w rules es (view e.toValue i))
    (hrest : es.drop i = rest) : KeepsList w rules es (eachFile view i (rest.map Entry.toValue)) := by
  induction rest generalizing i with
  | nil => exact .pure fun _ _ h => h
  | cons e rest ih =>
    have hi : es[i]? = some e := by
      rw [← head?_drop, hrest]
      rfl
    have hdrop : es.drop (i + 1) = rest := by
      rw [← tail_drop, hrest]
      rfl
    exact .bind (hview i e hi) fun _ => ih hdrop

/-! ## The page -/

theorem continueOn_ensures : KeepsList w rules es continueOn := by
  have hrest : Page.Ensures w (fun s r => Coherent rules es s r ∧ s.isSet .path = true) (do
      setSlot .loaded (.bool true)
      setSlot .activeTab (.int 1)
      success "✅ Ready to configure!"
      runAgain : Page Unit) (fun _ => Coherent rules es) (IsCoherent rules) := by
    refine .bind (Q := fun _ => Coherent rules es) (.setSlot fun _ _ h => h.1.setLoaded h.2) fun _ => ?_
    refine .bind (Q := fun _ => IsCoherent rules) (.setSlot fun _ _ h => ?_) fun _ => ?_
    · exact (h.set_other _ (by decide)).isCoherent
    · exact .after (fun _ _ h => h) fun _ => .runAgain fun _ _ h => h
  refine .session_bind fun s => .ite (fun hunset => ?_) fun hset => ?_
  · refine .bind (requireFiles_ensures fun _ _ h => h.1) fun v => .of_pre (fun _ _ h => h.2) fun hv => ?_
    subst hv
    refine .bind_ok rfl ?_
    cases es with
    | nil => exact .throw_bind fun _ _ h => h.1.1.isCoherent
    | cons e es =>
      refine .bind_ok (a := .text e.path.toText) rfl (.bind (Q := fun _ s r => Coherent rules (e :: es) s r ∧
        s.isSet .path = true) (.setSlot fun s' r h => ?_) fun _ => ?_)
      · obtain ⟨⟨h, rfl⟩, -⟩ := h
        refine ⟨h.setPath mem_cons_self (by simpa using hunset), ?_⟩
        simpa [Value.isPresent] using Path.toText_ne_empty e.clean
      · refine .bind_ok (a := .text e.name) rfl (.bind_ok rfl (.bind (.setSlot fun s' r h => ?_) fun _ => hrest))
        exact ⟨h.1.set_other _ (by decide), by simpa using h.2⟩
  · refine .pre _ (fun s' r h => ?_) hrest
    obtain ⟨h, rfl⟩ := h
    exact ⟨h, by simpa using hset⟩

theorem fileList_ensures : KeepsList w rules es (fileList (.list (es.map Entry.toValue))) := by
  have hend : KeepsList w rules es (do
      rule
      columnsOf [1, 2, 1]
      inColumn 1 do
        if ← button "▶️ Continue to Configuration" [isPrimary, fillsWidth] then continueOn) :=
    .after isCoherent_of fun _ => .after isCoherent_of fun _ => clicked_ensures continueOn_ensures
  refine .bind_ok rfl (.after isCoherent_of fun _ => .after isCoherent_of fun mode => .bind_ok rfl ?_)
  refine .ite (fun _ => .bind (eachFile_ensures (fun i e => tableRow_ensures) rfl) fun _ => hend) fun _ => ?_
  exact .after isCoherent_of fun _ => .bind (eachFile_ensures (fun i e => card_ensures) rfl) fun _ => hend

theorem Coherent.files_eq (h : Coherent rules es s r)
    (hpresent : (s.getD .files .null).isPresent) : s.getD .files .null = .list (es.map Entry.toValue) := by
  have hlisted := h.listed
  unfold Session.getD at hlisted hpresent ⊢
  cases hfiles : s.get? .files with
  | none => rw [hfiles] at hpresent; cases hpresent
  | some v => rwa [hfiles] at hlisted

theorem uploadPage_moves (h : ∀ u ∈ w.visitor.uploads, Path.IsPlainName u.name) :
    Moves w (Keeps (IsCoherent rules)) uploadPage := by
  have hupload : Moves w (Keeps (IsCoherent rules)) uploadColumn := uploadColumn_moves h
  have hfolder : Moves w (Keeps (IsCoherent rules)) folderColumn := folderColumn_moves
  refine .after fun _ => .after fun _ => .after fun _ => .after fun _ =>
    .after fun _ => .after fun _ => Page.Ensures.moves (.session_bind fun s => ?_)
  refine .pre (fun s' r => ∃ es, Coherent rules es s' r ∧ s' = s) (fun s' r ⟨⟨es, h⟩, hs⟩ => ⟨es, h, hs⟩) ?_
  refine .exists_pre fun es => ?_
  refine .ite (fun hpresent => ?_) fun _ => ?_
  · refine .of_pre (φ := s.getD .files .null = .list (es.map Entry.toValue)) ?_ fun hfiles => ?_
    · rintro _ _ ⟨h, rfl⟩
      exact h.files_eq hpresent
    · rw [hfiles]
      exact fileList_ensures.weaken (fun _ _ h => h.1) (fun _ _ _ h => h.isCoherent) fun _ _ h => h
  · exact .pre (IsCoherent rules) (fun _ _ h => h.1.isCoherent) (.of_unmoved fun _ _ h => h)

end MappingFlow.Web
