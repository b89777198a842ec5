/-
  MappingFlow.Proofs.Conversion.Shapes — which mappings are converted, and what is lost.

  Properties may have any shape, and one that is used in a way its shape does not allow stops
  the conversion. `isShaped` says for each type of transformation which shapes are allowed,
  and a mapping is converted exactly if every transformation that the rules know is of
  such a shape (`convertMapping_runs_iff`). Nothing else can stop it: expressions that do not
  convert are only renamed, and a casing is always a word.
-/

import MappingFlow.Proofs.Conversion.Casing
import MappingFlow.Proofs.Conversion.Steps
import MappingFlow.Proofs.Mapping.Review

namespace MappingFlow

open List

variable {σ α β : Type}
variable {p : Prop} {name key : String} {table : Fields} {r : Rules}

/-! ## Programs that answer or do not -/

/-- From states with `P` the program answers exactly if `b`, and leaves a state with `P`. -/
def Settles (P : σ → Prop) (x : ExceptT Fault (StateM σ) α) (b : Prop) : Prop :=
  ∀ s, P s → ((∃ a t, Runs x s a t) ↔ b) ∧ ∀ a t, Runs x s a t → P t

namespace Settles

variable {P : σ → Prop} {b c : Prop}

theorem congr (h : Settles P x b) (hbc : b ↔ c) : Settles P x c := fun s hs => ⟨(h s hs).1.trans hbc, (h s hs).2⟩

theorem pure (a : α) : Settles P (pure a : ExceptT Fault (StateM σ) α) True := by
  intro s hs
  refine ⟨iff_true_intro ⟨a, s, Runs.pure_iff.mpr ⟨rfl, rfl⟩⟩, fun _ t h => ?_⟩
  obtain ⟨-, rfl⟩ := Runs.pure_iff.mp h
  exact hs

theorem modify (h : ∀ s, P s → P (f s)) : Settles P (modify f : ExceptT Fault (StateM σ) Unit) True := by
  intro s hs
  refine ⟨iff_true_intro ⟨(), f s, Runs.modify_iff.mpr rfl⟩, fun _ t ht => ?_⟩
  rw [← Runs.modify_iff.mp ht]
  exact h s hs

theorem bind (hx : Settles P x b) (hk : ∀ a, Settles P (k a) c) : Settles P (x >>= k) (b ∧ c) := by
  intro s hs
  obtain ⟨hiff, hkeep⟩ := hx s hs
  refine ⟨⟨?_, fun ⟨hb, hc⟩ => ?_⟩, fun d u hrun => ?_⟩
  · rintro ⟨d, u, hrun⟩
    obtain ⟨a, t, hfirst, hrest⟩ := Runs.bind_iff.mp hrun
    exact ⟨hiff.mp ⟨a, t, hfirst⟩, (hk a t (hkeep a t hfirst)).1.mp ⟨d, u, hrest⟩⟩
  · obtain ⟨a, t, hfirst⟩ := hiff.mpr hb
    obtain ⟨d, u, hrest⟩ := (hk a t (hkeep a t hfirst)).1.mpr hc
    exact ⟨d, u, Runs.bind_iff.mpr ⟨a, t, hfirst, hrest⟩⟩
  · obtain ⟨a, t, hfirst, hrest⟩ := Runs.bind_iff.mp hrun
    exact (hk a t (hkeep a t hfirst)).2 d u hrest

/-- What always answers is no condition. -/
theorem after (hx : Settles P x True) (hk : ∀ a, Settles P (k a) c) : Settles P (x >>= k) c :=
  (hx.bind hk).congr (Iff.of_eq (true_and c))

theorem first (hx : Settles P x b) (hk : ∀ a, Settles P (k a) True) : Settles P (x >>= k) b :=
  (hx.bind hk).congr (Iff.of_eq (and_true b))

theorem bind_lift {e : Except Fault α} {c : α → Prop} (hk : ∀ a, e = .ok a → Settles P (k a) (c a)) :
    Settles P (monadLift e >>= k) (∃ a, e = .ok a ∧ c a) := by
  intro s hs
  refine ⟨⟨?_, fun ⟨a, he, hc⟩ => ?_⟩, fun d u hrun => ?_⟩
  · rintro ⟨d, u, hrun⟩
    obtain ⟨a, t, hfirst, hrest⟩ := Runs.bind_iff.mp hrun
    obtain ⟨he, rfl⟩ := Runs.lift_iff.mp hfirst
    exact ⟨a, he, (hk a he s hs).1.mp ⟨d, u, hrest⟩⟩
  · obtain ⟨d, u, hrest⟩ := (hk a he s hs).1.mpr hc
    exact ⟨d, u, Runs.bind_iff.mpr ⟨a, s, Runs.lift_iff.mpr ⟨he, rfl⟩, hrest⟩⟩
  · obtain ⟨a, t, hfirst, hrest⟩ := Runs.bind_iff.mp hrun
    obtain ⟨he, rfl⟩ := Runs.lift_iff.mp hfirst
    exact (hk a he s hs).2 d u hrest

theorem lift (e : Except Fault α) : Settles P (monadLift e : ExceptT Fault (StateM σ) α) (∃ a, e = .ok a) := by
  intro s hs
  refine ⟨⟨fun ⟨a, _, h⟩ => ⟨a, (Runs.lift_iff.mp h).1⟩, fun ⟨a, he⟩ => ⟨a, s, Runs.lift_iff.mpr ⟨he, rfl⟩⟩⟩, ?_⟩
  intro a t h
  obtain ⟨-, rfl⟩ := Runs.lift_iff.mp h
  exact hs

theorem bind_get {k : σ → ExceptT Fault (StateM σ) β} (hk : ∀ s, P s → Settles P (k s) c) :
    Settles P (get >>= k) c := by
  intro s hs
  have hrun : ∀ d u, Runs (get >>= k) s d u ↔ Runs (k s) s d u := by
    intro d u
    rw [Runs.bind_iff]
    exact ⟨fun ⟨a, t, hget, h⟩ => by obtain ⟨rfl, rfl⟩ := Runs.get_iff.mp hget; exact h,
      fun h => ⟨s, s, Runs.get_iff.mpr ⟨rfl, rfl⟩, h⟩⟩
  simp only [hrun]
  exact hk s hs s hs

theorem ite [Decidable p] (hx : p → Settles P x b) (hy : ¬p → Settles P y b) : Settles P (if p then x else y) b := by
  split
  · exact hx ‹_›
  · exact hy ‹_›

theorem when [Decidable p] (hx : p → Settles P x b) (hy : Settles P y True) :
    Settles P (if p then x else y) (p → b) := by
  split
  · exact (hx ‹_›).congr ⟨fun hb _ => hb, fun hb => hb ‹_›⟩
  · exact hy.congr (iff_of_true trivial fun hp => absurd hp ‹_›)

end Settles

/-! ## Shapes -/

namespace Conversion

/-- A text, or nothing. -/
def isClause : Value → Bool
  | .text _ => true
  | v => !v.isPresent

def hasField (v : Value) (key : String) : Bool := (v.field key).isOk

/-- All members are of the shape. -/
def allItems (shape : Value → Bool) (v : Value) : Bool :=
  match v.items with
  | .ok vs => vs.all shape
  | .error _ => false

def hasClause (v : Value) : Bool :=
  match v.field "expression" with
  | .ok e => isClause e
  | .error _ => false

def isAggregate (v : Value) : Bool := hasClause v && hasField v "name"

def isSortKey (v : Value) : Bool := hasField v "name" && hasField v "direction"

/-- Only an output group needs an expression, and only one with an expression a name. -/
def isRoute (v : Value) : Bool :=
  match v.field "type" with
  | .ok type => !type.isText "output" || match v.field "expression" with
    | .ok e => !e.isPresent || hasField v "name" && isClause e
    | .error _ => false
  | .error _ => false

def isReturned (v : Value) : Bool :=
  match v with
  | .object _ => hasField v "name"
  | _ => true

def isKey (v : Value) : Bool := v.requireHashable.isOk

/-- The size of the detail is asked for only beside a small master. -/
def isSized (master detail : Value) : Bool :=
  match master.size with
  | .ok n => n ≥ 10 || detail.size.isOk
  | .error _ => false

/-- The properties that the step of a transformation is made of have the shapes it needs. -/
def isShaped (t : Transformation) : Bool :=
  match t.type with
  | "Filter" => isClause (property t "filter_condition" (.text "true"))
  | "Aggregator" => allItems isAggregate (property t "aggregate_expressions" (.list []))
  | "Joiner" => isKey (property t "join_type" (.text "Normal Join"))
      && isClause (property t "join_condition" (.text ""))
      && isSized (property t "master_fields" (.list [])) (property t "detail_fields" (.list []))
  | "Sorter" => allItems isSortKey (property t "sort_keys" (.list []))
  | "Router" => allItems isRoute (property t "groups" (.list []))
  | "Lookup" => isClause (property t "lookup_condition" (.text ""))
      && allItems isReturned (property t "return_fields" (.list []))
  | "Lookup Procedure" => isClause (property t "lookup_condition" (.text ""))
      && allItems isReturned (property t "return_fields" (.list []))
  | _ => true

/-- The conversion of `m` has begun, and its casings are its own. -/
def Ready (m : Mapping) (s : State) : Prop := Begun m s ∧ Learned s.casing

variable {m : Mapping} {t : Transformation} {v : Value}

/-! ## Expressions -/

/-- A name becomes a text that refers to no group. -/
def isPlainRow (f : String × Value) : Bool :=
  match f.2 with
  | .text s => !s.toList.contains '\\'
  | _ => false

theorem isPlainRow_iff : isPlainRow f ↔ ∃ name s : String, f = (name, .text s) ∧ '\\' ∉ s.toList := by
  obtain ⟨name, v⟩ := f
  cases v with
  | text s =>
    simp only [isPlainRow, contains_eq_mem, Bool.not_eq_true', decide_eq_false_iff_not]
    exact ⟨fun h => ⟨name, s, rfl, h⟩, fun ⟨_, _, he, h⟩ => by cases he; exact h⟩
  | _ => simp [isPlainRow]

/-- One row applied to a text. -/
def renameBy (t : List Char) (f : String × Value) : List Char :=
  match f.2 with
  | .text v => (Pattern.caseless f.1.toList).substitute (Template.plain v.toList) t
  | _ => t

theorem renameFunction_plain (h : '\\' ∉ template.toList) :
    (∀ s : String, Rules.renameFunction name (.text template) (.text s) =
        .ok (.text (String.ofList (renameBy s.toList (name, .text template))))) ∧
      ∀ v, (∀ s, v ≠ .text s) → ∀ w, Rules.renameFunction name (.text template) v ≠ .ok w := by
  constructor
  · intro s
    simp only [Rules.renameFunction, Template.read_plain h]
    rfl
  · intro v hv w hw
    simp only [Rules.renameFunction, Template.read_plain h] at hw
    cases v with
    | text s => exact hv s rfl
    | _ => cases hw

theorem renameFunctions_text (h : table.all isPlainRow) (s) :
    Rules.renameFunctions (.text s) table = .ok (.text (String.ofList (table.foldl renameBy s.toList))) := by
  induction table generalizing s with
  | nil => simp [Rules.renameFunctions]
  | cons f table ih =>
    rw [all_cons, Bool.and_eq_true] at h
    obtain ⟨name, template, rfl, hplain⟩ := isPlainRow_iff.mp h.1
    rw [Rules.renameFunctions, (renameFunction_plain hplain).1 s, foldl_cons]
    change Rules.renameFunctions (.text (String.ofList (renameBy s.toList (name, .text template)))) table = _
    rw [ih h.2, String.toList_ofList]

/-- What becomes of a text that does not convert. -/
def renamed (table : Fields) (t : List Char) : List Char :=
  Text.replace ['|', '|'] "concat".toList (table.foldl renameBy t)

theorem rename_text (htable : r.functions.fieldsFor "items" = .ok table) (h : table.all isPlainRow) (s) :
    r.rename (.text s) = .ok (String.ofList (renamed table s.toList)) := by
  refine bind_eq_ok.mpr ⟨_, htable, bind_eq_ok.mpr ⟨_, renameFunctions_text h s, bind_eq_ok.mpr ⟨_, rfl, ?_⟩⟩⟩
  simp only [String.toList_ofList]
  rfl

theorem standardFunctions_plain :
    ∃ f table, Rules.standard.functions.fieldsFor "items" = .ok (f :: table) ∧ (f :: table).all isPlainRow = true :=
  ⟨_, _, rfl, by decide⟩

theorem rename_ok_iff : (∃ s, Rules.standard.rename v = .ok s) ↔ ∃ s, v = .text s := by
  obtain ⟨f, table, htable, hplain⟩ := standardFunctions_plain
  constructor
  · rintro ⟨s, h⟩
    obtain ⟨name, template, rfl, hfirst⟩ := isPlainRow_iff.mp (all_eq_true.mp hplain f (.head _))
    obtain ⟨table', htable', hw⟩ := bind_eq_ok.mp h
    cases htable.symm.trans htable'
    obtain ⟨w, hw, -⟩ := bind_eq_ok.mp hw
    obtain ⟨w', hw', -⟩ := bind_eq_ok.mp hw
    exact Classical.byContradiction fun hv => (renameFunction_plain hfirst).2 v (not_exists.mp hv) w' hw'
  · rintro ⟨s, rfl⟩
    exact ⟨_, rename_text htable hplain s⟩

/-- A text that does not convert is renamed. -/
theorem exists_convert (htable : r.functions.fieldsFor "items" = .ok table) (h : table.all isPlainRow) (s) :
    ∃ o, r.convert (.text s) = .ok o := by
  unfold Rules.convert
  split
  · exact ⟨_, rfl⟩
  · dsimp only
    split
    · exact ⟨_, rfl⟩
    · exact ⟨_, rename_text htable h s⟩

theorem convert_ok_iff : (∃ s, Rules.standard.convert v = .ok s) ↔ isClause v = true := by
  by_cases hp : v.isPresent = true
  · cases v with
    | text s =>
      obtain ⟨_, _, htable, hplain⟩ := standardFunctions_plain
      exact iff_of_true (exists_convert htable hplain s) rfl
    | _ => simp [Rules.convert, isClause, hp, rename_ok_iff]
  · rw [Bool.not_eq_true] at hp
    refine iff_of_true ⟨"", by simp [Rules.convert, hp]⟩ ?_
    cases v <;> simp_all [isClause]

theorem normalize_ok_iff (h : Learned casing) : (∃ w, normalize casing v = .ok w ∧ isClause w) ↔ isClause v = true := by
  by_cases hp : v.isPresent = true
  · cases v with
    | text s => exact iff_of_true ⟨.text (recased casing s), normalize_text h s, rfl⟩ rfl
    | _ => simp [normalize, isClause, hp]
  · rw [Bool.not_eq_true] at hp
    simp [normalize, hp]

theorem convertExpression_settles : Settles (Ready m) (convertExpression .standard v) (isClause v) :=
  (Settles.lift _).congr convert_ok_iff

theorem convertCondition_settles : Settles (Ready m) (convertCondition .standard v) (isClause v) := by
  unfold convertCondition normalizeCasing
  rw [bind_assoc]
  refine .bind_get fun s hs => .congr (.bind_lift fun w _ => ?_) (normalize_ok_iff hs.2)
  exact .first convertExpression_settles fun _ => .pure _

/-- From a text comes a text. -/
theorem convertText_settles (e) : Settles (Ready m) (convertCondition .standard (.text e)) True :=
  convertCondition_settles.congr (iff_true_intro rfl)

/-! ## One kind of step after another -/

theorem warn_settles (w) : Settles (Ready m) (warn w) True := .modify fun _ h => h

theorem reportError_settles (e) : Settles (Ready m) (reportError e) True := .modify fun _ h => h

theorem derivedColumns_settles (cs) : Settles (Ready m) (derivedColumns .standard cs) True := by
  induction cs with
  | nil => exact .pure _
  | cons c cs ih =>
    refine .after ?_ fun _ => .after ih fun _ => .pure _
    unfold derivedColumn
    split
    · exact .pure _
    · refine .ite (fun _ => .pure _) fun _ => .after (convertText_settles _) fun _ => ?_
      exact .after (.modify fun s hs => ⟨hs.1, hs.2.learn _⟩) fun _ => .pure _

theorem aggregateColumns_settles (cs) : Settles (Ready m) (aggregateColumns .standard cs) True := by
  induction cs with
  | nil => exact .pure _
  | cons c cs ih =>
    unfold aggregateColumns
    split
    · exact .ite (fun _ => .after (convertText_settles _) fun _ => .after ih fun _ => .pure _) fun _ => ih
    · exact ih

theorem field_isOk : (∃ w, v.field key = .ok w ∧ True) ↔ hasField v key = true := by
  unfold hasField
  cases v.field key <;> simp [Except.isOk, Except.toBool]

theorem field_clause : (∃ w, v.field "expression" = .ok w ∧ isClause w) ↔ hasClause v = true := by
  unfold hasClause
  cases v.field "expression" <;> simp

theorem aggregatesOf_settles (vs) :
    Settles (Ready m) (aggregatesOf .standard vs) (vs.all isAggregate) := by
  induction vs with
  | nil => exact (Settles.pure _).congr (by simp)
  | cons v vs ih =>
    have hone : Settles (Ready m) (aggregateOf .standard v) (isAggregate v = true) := by
      refine .congr (.bind_lift fun e _ => .bind convertCondition_settles fun _ => .congr (.bind_lift fun _ _ => .pure _) field_isOk) ?_
      rw [isAggregate, Bool.and_eq_true, ← field_clause]
      exact ⟨fun ⟨w, hw, hc, hn⟩ => ⟨⟨w, hw, hc⟩, hn⟩, fun ⟨⟨w, hw, hc⟩, hn⟩ => ⟨w, hw, hc, hn⟩⟩
    rw [all_cons, Bool.and_eq_true]
    exact .bind hone fun _ => .first ih fun _ => .pure _

theorem items_all : (∃ vs, v.items = .ok vs ∧ vs.all shape) ↔ allItems shape v = true := by
  unfold allItems
  cases v.items <;> simp

theorem warnIf_settles (b : Bool) (fs gs) (w) :
    Settles (Ready m) (if b then do warn w; return .object (fs ++ gs) else return .object fs : Converting Value) True :=
  .ite (fun _ => .after (warn_settles w) fun _ => .pure _) fun _ => .pure _

theorem aggregateStep_settles : Settles (Ready m) (aggregateStep .standard t type)
    (allItems isAggregate (property t "aggregate_expressions" (.list []))) := by
  refine .congr (.bind_lift fun stated _ => .first (aggregatesOf_settles stated) fun ws => ?_) items_all
  refine .ite (fun _ => ?_) fun _ => warnIf_settles _ _ _ _
  exact .after (aggregateColumns_settles _) fun _ => warnIf_settles _ _ _ _

theorem conditions_ok_iff : (∃ w, conditions v = .ok w) ↔ isClause v = true := by
  by_cases hp : v.isPresent = true
  · cases v with
    | text s =>
      refine iff_of_true ⟨.list ((comparisons s).map (·.toValue)), ?_⟩ rfl
      simp only [conditions, hp, Bool.not_true, Bool.false_eq_true, if_false]
      rfl
    | _ =>
      simp only [conditions, isClause, hp, Bool.not_true, Bool.false_eq_true, if_false, iff_false, not_exists]
      exact fun w h => by cases h
  · rw [Bool.not_eq_true] at hp
    refine iff_of_true ⟨.list [], by simp [conditions, hp]⟩ ?_
    cases v <;> simp_all [isClause]

theorem choose_ok_iff : (∃ w, choose rows otherwise v = .ok w) ↔ isKey v = true := by
  unfold isKey choose
  cases v <;> simp [Value.requireHashable, bind, Except.bind, Except.isOk, Except.toBool, pure, Except.pure]

theorem suggestsBroadcast_ok_iff : (∃ b, suggestsBroadcast master detail = .ok b) ↔ isSized master detail = true := by
  unfold suggestsBroadcast isSized
  cases master.size with
  | error e => simp [bind, Except.bind]
  | ok n =>
    by_cases hn : n < 10
    · cases detail.size <;> simp [bind, Except.bind, hn, Except.isOk, Except.toBool, pure, Except.pure]
    · simp [bind, Except.bind, hn, pure, Except.pure, Nat.le_of_not_lt hn]

theorem resolveFeed_settles (name) : Settles (Ready m) (resolveFeed name) True := by
  refine .bind_get fun s hs => ?_
  rw [hs.1.2]
  exact .pure _

theorem joinInputs_settles (name) : Settles (Ready m) (joinInputs name) True := by
  refine .bind_get fun s _ => ?_
  dsimp only
  rcases distinct (s.feedsInto name) with _ | ⟨left, _ | ⟨right, rest⟩⟩
  · exact .after (reportError_settles _) fun _ => .pure _
  · exact .after (resolveFeed_settles _) fun _ => .after (reportError_settles _) fun _ => .pure _
  · refine .after (resolveFeed_settles _) fun _ => .after (resolveFeed_settles _) fun _ => .ite (fun _ => ?_) fun _ => .pure _
    exact .after (reportError_settles _) fun _ => .pure _

theorem joinStep_settles : Settles (Ready m) (joinStep t type) (isKey (property t "join_type" (.text "Normal Join")) ∧
      isClause (property t "join_condition" (.text "")) ∧
      isSized (property t "master_fields" (.list [])) (property t "detail_fields" (.list []))) := by
  have last : ∀ (fs gs : Fields) (w : String), Settles (Ready m)
      (do if ← suggestsBroadcast (property t "master_fields" (.list [])) (property t "detail_fields" (.list [])) then
            warn w
            return .object (fs ++ gs)
          else return .object fs : Converting Value)
      (isSized (property t "master_fields" (.list [])) (property t "detail_fields" (.list [])) = true) := fun _ _ _ =>
    .first ((Settles.lift _).congr suggestsBroadcast_ok_iff) fun _ => warnIf_settles _ _ _ _
  refine .bind ((Settles.lift _).congr choose_ok_iff) fun _ => .bind ((Settles.lift _).congr conditions_ok_iff) fun _ => ?_
  refine .after (joinInputs_settles _) fun _ => .ite (fun _ => ?_) fun _ => last _ _ _
  exact .after (warn_settles _) fun _ => last _ _ _

/-- Members are converted one by one. -/
theorem mapM_ok_iff {f : Value → Except Fault Value} (hf : ∀ v, (∃ w, f v = .ok w) ↔ shape v) (vs : List Value) :
    (∃ ws, vs.mapM f = .ok ws) ↔ vs.all shape = true := by
  induction vs with
  | nil => exact iff_of_true ⟨[], rfl⟩ rfl
  | cons v vs ih =>
    rw [all_cons, Bool.and_eq_true, ← hf, ← ih]
    simp only [mapM_cons]
    constructor
    · rintro ⟨ws, h⟩
      obtain ⟨w, hw, h⟩ := bind_eq_ok.mp h
      obtain ⟨ws', hws, -⟩ := bind_eq_ok.mp h
      exact ⟨⟨w, hw⟩, ws', hws⟩
    · rintro ⟨⟨w, hw⟩, ws, hws⟩
      exact ⟨w :: ws, bind_eq_ok.mpr ⟨w, hw, bind_eq_ok.mpr ⟨ws, hws, rfl⟩⟩⟩

theorem sortColumn_ok_iff : (∃ w, sortColumn v = .ok w) ↔ isSortKey v = true := by
  unfold sortColumn isSortKey hasField
  cases v.field "name" <;> cases v.field "direction" <;>
    simp [bind, Except.bind, Except.isOk, Except.toBool, pure, Except.pure]

theorem sortStep_settles : Settles (Ready m) (sortStep t type)
    (allItems isSortKey (property t "sort_keys" (.list []))) := by
  refine .congr (.bind_lift fun keys _ => .first ((Settles.lift _).congr (mapM_ok_iff (fun _ => sortColumn_ok_iff) keys)) fun _ => ?_) items_all
  exact .ite (fun _ => .after (warn_settles _) fun _ => .pure _) fun _ => .pure _

theorem returnedName_ok_iff : (∃ w, returnedName v = .ok w) ↔ isReturned v = true := by
  cases v with
  | object fs =>
    change (∃ w, (Value.object fs).field "name" = .ok w) ↔ hasField (.object fs) "name" = true
    simpa using field_isOk
  | _ => exact iff_of_true ⟨_, rfl⟩ rfl

theorem fieldD_of_field {other : String} (h : v.field key = .ok w) : ∃ x, v.fieldD other absent = .ok x := by
  cases v with
  | object fs => exact ⟨_, rfl⟩
  | _ => cases h

theorem splitGroup_settles : Settles (Ready m) (splitGroup .standard v) (isRoute v) := by
  have named : ∀ e, v.field "expression" = .ok e → Settles (Ready m)
      (do
        let name ← v.field "name"
        let s ← convertExpression .standard e
        let fields ← v.fieldD "fields" (.list [])
        return some (.object [("name", name), ("expression", .text s), ("fields", fields)]) : Converting (Option Value))
      (hasField v "name" = true ∧ isClause e = true) := by
    intro e he
    refine .bind ((Settles.lift _).congr ?_) fun _ => .first convertExpression_settles fun _ => ?_
    · simpa using field_isOk
    · exact .after ((Settles.lift _).congr (iff_true_intro (fieldD_of_field he))) fun _ => .pure _
  refine .congr (.bind_lift fun _ _ => .when (fun _ => .bind_lift fun e he => .when (fun _ => named e he) (.pure _)) (.pure _)) ?_
  unfold isRoute
  cases v.field "type" with
  | error _ => simp
  | ok type =>
    cases v.field "expression" with
    | error _ => simp
    | ok e => simp [Decidable.imp_iff_not_or]

theorem splitGroups_settles (gs) : Settles (Ready m) (splitGroups .standard gs) (gs.all isRoute) := by
  induction gs with
  | nil => exact (Settles.pure _).congr (by simp)
  | cons g gs ih =>
    rw [all_cons, Bool.and_eq_true]
    exact .bind splitGroup_settles fun _ => .first ih fun _ => .pure _

theorem splitStep_settles : Settles (Ready m) (splitStep .standard t type)
    (allItems isRoute (property t "groups" (.list []))) := by
  refine .congr (.bind_lift fun groups _ => .first (splitGroups_settles groups) fun _ => ?_) items_all
  exact .ite (fun _ => .after (warn_settles _) fun _ => .pure _) fun _ => .pure _

theorem mainInput_settles (name) : Settles (Ready m) (mainInput name) True := by
  refine .bind_get fun s _ => ?_
  split
  · exact .pure _
  · exact .after (resolveFeed_settles _) fun _ => .pure _

theorem lookupStep_settles : Settles (Ready m) (lookupStep t type)
    (isClause (property t "lookup_condition" (.text "")) ∧
      allItems isReturned (property t "return_fields" (.list []))) := by
  refine .bind ((Settles.lift _).congr conditions_ok_iff) fun _ => .after (mainInput_settles _) fun _ => ?_
  refine .congr (.bind_lift fun rows _ => .first ((Settles.lift _).congr (mapM_ok_iff (fun _ => returnedName_ok_iff) rows)) fun _ => ?_) items_all
  have override : Settles (Ready m) (overrideMembers t) True :=
    .ite (fun _ => .after (warn_settles _) fun _ => .pure _) fun _ => .pure _
  have file : Settles (Ready m) (fileMembers t) True :=
    .ite (fun _ => .after (warn_settles _) fun _ => .pure _) fun _ => .pure _
  have policy : Settles (Ready m) (policyNote t) True := .ite (fun _ => .pure _) fun _ => warn_settles _
  exact .after override fun _ => .after file fun _ => .after policy fun _ => .pure _

/-! ## Mappings -/

theorem convertStep_settles (h : t.type ≠ "Update Strategy") :
    Settles (Ready m) (convertStep .standard t type) (isShaped t) := by
  unfold convertStep
  split
  · exact (Settles.after (derivedColumns_settles _) fun _ => .pure _).congr (by simp [isShaped, ‹t.type = "Expression"›])
  · exact (Settles.first convertCondition_settles fun _ => .pure _).congr (by simp [isShaped, ‹t.type = "Filter"›])
  · exact aggregateStep_settles.congr (by simp [isShaped, ‹t.type = "Aggregator"›])
  · exact joinStep_settles.congr (by simp [isShaped, ‹t.type = "Joiner"›, and_assoc])
  · exact sortStep_settles.congr (by simp [isShaped, ‹t.type = "Sorter"›])
  · exact splitStep_settles.congr (by simp [isShaped, ‹t.type = "Router"›])
  · exact lookupStep_settles.congr (by simp [isShaped, ‹t.type = "Lookup"›])
  · exact lookupStep_settles.congr (by simp [isShaped, ‹t.type = "Lookup Procedure"›])
  · contradiction
  · refine (Settles.pure _).congr (iff_of_true trivial ?_)
    unfold isShaped
    split <;> simp_all

theorem kind?_of_stepType (h : r.stepType name = .ok type) : (r.kind? name).isSome = type.isPresent := by
  rw [Rules.kind?, h]
  cases hp : type.isPresent <;> simp [hp]

theorem stepType_standard (name) : ∃ type, Rules.standard.stepType name = .ok type := ⟨_, rfl⟩

/-- One that the rules do not know is only warned about. -/
theorem convertTransformation_settles : Settles (Ready m) (convertTransformation .standard t)
    ((Rules.standard.kind? t.type).isSome → isShaped t) := by
  obtain ⟨type, htype⟩ := stepType_standard t.type
  have hunknown : (Rules.standard.kind? "Update Strategy").isSome = false := by decide
  refine .congr (.bind_lift fun type htype => .when (fun hp => .first (convertStep_settles ?_) fun _ => .pure _) ?_) ?_
  · intro hupdate
    rw [← kind?_of_stepType htype, hupdate, hunknown] at hp
    cases hp
  · exact .after (warn_settles _) fun _ => .pure _
  · simp [htype, kind?_of_stepType htype]

theorem convertTransformations_settles (ts) :
    Settles (Ready m) (convertTransformations .standard ts)
      (∀ t ∈ ts, (Rules.standard.kind? t.type).isSome → isShaped t) := by
  induction ts with
  | nil => exact (Settles.pure _).congr (by simp)
  | cons t ts ih =>
    rw [forall_mem_cons]
    exact .bind convertTransformation_settles fun _ => .first ih fun _ => .pure _

theorem datatype_standard (name) : ∃ v, Rules.standard.datatype name = .ok v := ⟨_, rfl⟩

theorem convertEndpoints_settles (kind) (es) :
    Settles (Ready m) (convertEndpoints (convertEndpoint .standard kind) es) True := by
  have hcolumn : ∀ c : Column, ∃ v, schemaColumn .standard c = .ok v := fun c =>
    have ⟨v, hv⟩ := datatype_standard c.datatype
    ⟨_, bind_eq_ok.mpr ⟨v, hv, rfl⟩⟩
  have hschema : ∀ cs : List Column, ∃ vs, cs.mapM (schemaColumn .standard) = .ok vs := by
    intro cs
    induction cs with
    | nil => exact ⟨[], rfl⟩
    | cons c cs ih =>
      obtain ⟨v, hv⟩ := hcolumn c
      obtain ⟨vs, hvs⟩ := ih
      exact ⟨v :: vs, by rw [mapM_cons]; exact bind_eq_ok.mpr ⟨v, hv, bind_eq_ok.mpr ⟨vs, hvs, rfl⟩⟩⟩
  induction es with
  | nil => exact .pure _
  | cons e es ih =>
    refine .after ?_ fun _ => .after ih fun _ => .pure _
    exact .after ((Settles.lift _).congr (iff_true_intro (hschema e.columns))) fun _ => .pure _

theorem ready_begun (m) (s : State) : Ready m (begun m s) :=
  ⟨begun_begun m s, learned_noteColumns _ fun _ hp => absurd hp (not_mem_nil)⟩

/-- A mapping is converted exactly if every transformation that becomes a step is well shaped. -/
theorem convertMapping_runs_iff (s : State) : (∃ plan u, Runs (convertMapping .standard m) s plan u) ↔
    ∀ t ∈ m.known .standard, isShaped t = true := by
  have hparts : Settles (Ready m) (convertParts .standard m)
      (∀ t ∈ m.transformations, (Rules.standard.kind? t.type).isSome = true → isShaped t = true) := by
    refine .after (convertEndpoints_settles _ _) fun _ => .first (convertTransformations_settles _) fun _ => ?_
    exact .after (convertEndpoints_settles _ _) fun _ => .pure _
  have hruns : (∃ plan u, Runs (convertMapping .standard m) s plan u) ↔
      ∃ p u, Runs (convertParts .standard m) (begun m s) p u := by
    unfold Runs
    rw [outcome_convertMapping]
    rcases outcome (convertParts .standard m) (begun m s) with ⟨e | p, u⟩ <;> simp [Except.map]
  rw [hruns, (hparts _ (ready_begun m s)).1]
  simp [Mapping.known]

/-! ## Accepted mappings -/

/-- The names of the steps that a structure lists. -/
def planNames (plan : Value) : List Value := (plan.memberList "transformations").map (·.member "name")

theorem planNames_eq (h : Runs (convertMapping r m) s plan u) :
    planNames plan = (m.known r).map fun t => .text t.name := by
  obtain ⟨_, ps, _, hplan⟩ := convertMapping_plan h
  obtain ⟨fs, rfl, -, hsteps, -⟩ := hplan.parts
  have hlist : (Value.object fs).memberList "transformations" = ps.steps := by
    rw [Value.memberList, member_of_get? hsteps]
  rw [planNames, hlist, Paired.steps, ← hplan.known, map_map, map_map]
  refine map_congr_left fun p hp => ?_
  obtain ⟨_, -, hstep⟩ := hplan.steps p hp
  exact member_of_get? hstep.name

/-- Every type that a review accepts without a doubt is known to the rules, but for one. -/
theorem known_of_supported {type : String} (h : type ∈ Review.supportedTypes) :
    (Rules.standard.kind? type).isSome ↔ type ≠ "Update Strategy" := by
  have hall : ∀ type ∈ Review.supportedTypes, (Rules.standard.kind? type).isSome = (type != "Update Strategy") := by
    decide
  rw [hall type h, bne_iff_ne]

/-- Where a review rejects nothing and doubts no type: every transformation becomes a step of its name, in order,
    exactly if none of them is an update strategy and all are well shaped. -/
theorem nothing_lost_iff {f g : Review.Findings} (hreview : Runs (Review.mapping m) f () g) (herrors : g.errors = [])
    (hsure : ∀ t ∈ m.transformations, Review.unsure t ∉ g.warnings) (s : State) :
    (∃ plan u, Runs (convertMapping .standard m) s plan u ∧
        planNames plan = m.transformations.map fun t => .text t.name) ↔
      ∀ t ∈ m.transformations, t.type ≠ "Update Strategy" ∧ isShaped t = true := by
  have hsupported := Review.supported_of_sure hreview herrors hsure
  constructor
  · rintro ⟨plan, u, hrun, hnames⟩ t ht
    rw [planNames_eq hrun] at hnames
    have hknown : m.known .standard = m.transformations := by
      have hlength := congrArg List.length hnames
      rw [List.length_map, List.length_map] at hlength
      exact (List.filter_sublist).eq_of_length hlength
    have hkind := (List.mem_filter.mp (hknown ▸ ht : t ∈ m.known .standard)).2
    exact ⟨(known_of_supported (hsupported t ht)).mp hkind, (convertMapping_runs_iff s).mp ⟨plan, u, hrun⟩ t (hknown ▸ ht)⟩
  · intro hall
    have hknown : m.known .standard = m.transformations :=
      List.filter_eq_self.mpr fun t ht => (known_of_supported (hsupported t ht)).mpr (hall t ht).1
    obtain ⟨plan, u, hrun⟩ := (convertMapping_runs_iff (m := m) s).mpr (hknown ▸ fun t ht => (hall t ht).2)
    exact ⟨plan, u, hrun, by rw [planNames_eq hrun, hknown]⟩

theorem runs_review (h : (outcome (Review.mapping m) .none).1.isOk) :
    Runs (Review.mapping m) .none () (outcome (Review.mapping m) .none).2 := by
  obtain ⟨_, hrun⟩ := Runs.of_isOk h
  exact hrun

/-- A filter and an aggregate that state what they need, and a router with a group that needs nothing. -/
def routedRows : Mapping :=
  ⟨"m", none, "1", [⟨"S", "Oracle", none, [], []⟩], [⟨"T", "Oracle", none, [], []⟩],
    [⟨"FLT", "Filter", none, [], [("filter_condition", .text "A = 1")]⟩,
      ⟨"AGG", "Aggregator", none, [],
        [("aggregate_expressions", .list [.object [("name", .text "N"), ("expression", .text "SUM(A)")]])]⟩,
      ⟨"RTR", "Router", none, [], [("groups", .list [.object [("type", .text "default")]])]⟩],
    [⟨"S", "FLT", [], []⟩, ⟨"FLT", "AGG", [], []⟩, ⟨"AGG", "RTR", [], []⟩, ⟨"RTR", "T", [], []⟩], []⟩

theorem routedRows_kept : ∃ g, Runs (Review.mapping routedRows) .none () g ∧ g.errors = [] ∧
    (∀ t ∈ routedRows.transformations, Review.unsure t ∉ g.warnings) ∧
    ∃ plan u, Runs (convertMapping .standard routedRows) .start plan u ∧
      planNames plan = [.text "FLT", .text "AGG", .text "RTR"] := by
  have hreview := runs_review (m := routedRows) (by decide +kernel)
  have herrors : (outcome (Review.mapping routedRows) .none).2.errors = [] := by decide +kernel
  have hsure : ∀ t ∈ routedRows.transformations,
      Review.unsure t ∉ (outcome (Review.mapping routedRows) .none).2.warnings := by decide +kernel
  exact ⟨_, hreview, herrors, hsure, (nothing_lost_iff hreview herrors hsure .start).mpr (by decide +kernel)⟩

/-- A mapping whose only transformation changes rows. -/
def changedRows : Mapping :=
  ⟨"m", none, "1", [⟨"S", "Oracle", none, [], []⟩], [⟨"T", "Oracle", none, [], []⟩],
    [⟨"UPD", "Update Strategy", none, [], []⟩], [⟨"S", "UPD", [], []⟩, ⟨"UPD", "T", [], []⟩], []⟩

/-- A review finds nothing to say, and the transformation is gone. -/
theorem changedRows_lost : ∃ g, Runs (Review.mapping changedRows) .none () g ∧ g.errors = [] ∧ g.warnings = [] ∧
    ∃ plan u, Runs (convertMapping .standard changedRows) .start plan u ∧ planNames plan = [] := by
  refine ⟨_, runs_review (by decide +kernel), by decide +kernel, by decide +kernel, ?_⟩
  obtain ⟨plan, hrun⟩ : ∃ plan, Runs (convertMapping .standard changedRows) .start plan _ :=
    Runs.of_isOk (by decide +kernel)
  have hnone : (changedRows.known .standard).isEmpty = true := by decide +kernel
  exact ⟨plan, _, hrun, by rw [planNames_eq hrun, List.isEmpty_iff.mp hnone, List.map_nil]⟩

end Conversion

end MappingFlow
