/-
  MappingFlow.Proofs.Dataflow.Check — what the check of a data flow accepts.

  `Deployable` says it without the check: a document that is a flow, with sources that
  have a dataset each, steps that have their settings and depend on sources and on steps
  before them, and sinks that depend on sources and steps.

  The check goes on after an error and may stop with a fault, so a part of it is
  described by what has to hold for it to end with no error found (`Passes`). One lemma
  for each way to build a check turns programs into conditions, one lemma for each
  function states the condition, and `accepts_iff` is the last of them.
-/

import MappingFlow.Dataflow.Check
import MappingFlow.Proofs.Conversion.Steps
import MappingFlow.Proofs.Document.Access
import MappingFlow.Proofs.Sequence

namespace MappingFlow.Dataflow

open Value List

variable {vs : List Value} {c : Prop}

/-! ## Documents that can be deployed -/

/-- A value with a name that can be entered in a set. -/
def Named (v name : Value) : Prop := v.field "name" = .ok name ∧ name.requireHashable = .ok ()

def givenNames (vs : List Value) : List Value := vs.map (·.member "name")

@[simp] theorem givenNames_nil : givenNames [] = [] := rfl

theorem givenNames_cons (h : v.field "name" = .ok name) : givenNames (v :: vs) = name :: givenNames vs := by
  rw [givenNames, map_cons, Conversion.member_of_field h, givenNames]

/-- The first of some steps is one of those that the rest may depend on. -/
theorem eachAfter_givenNames_cons {P : List Value → Value → Prop} :
    EachAfter (fun before => P (steps ++ givenNames before)) (t :: ts) ↔
      P steps t ∧ EachAfter (fun before => P (steps ++ givenNames [t] ++ givenNames before)) ts := by
  rw [EachAfter.cons_iff, givenNames_nil, append_nil]
  simp [givenNames]

def IsDataset (v : Value) : Prop :=
  (∃ name, v.field "referenceName" = .ok name) ∧ v.field "type" = .ok (.text "DatasetReference")

/-- It names one of the steps, and has conditions that can be gone through. -/
def IsDependency (steps : List Value) (v : Value) : Prop :=
  (∃ activity, v.field "activity" = .ok activity ∧ activity.inSet steps = .ok true) ∧
    ∃ conditions items, v.field "dependencyConditions" = .ok conditions ∧ conditions.items = .ok items

/-- At least one, and each on one of the steps. -/
def AreDependencies (steps : List Value) (v : Value) : Prop :=
  ∃ ds, v = .list ds ∧ ds ≠ [] ∧ ∀ d ∈ ds, IsDependency steps d

/-- A value beside its type. -/
def IsTyped (v : Value) : Prop := (∃ w, v.field "value" = .ok w) ∧ ∃ type, v.field "type" = .ok type

def IsColumn (v : Value) : Prop := (∃ name, v.field "name" = .ok name) ∧ ∃ w, v.field "value" = .ok w ∧ IsTyped w

/-- The settings are those that a step of the type needs. A type that is not known needs none. -/
abbrev Suffices (type p : Value) : Prop :=
  match type with
  | .text "derivedColumn" => ∃ v cs, p.field "columns" = .ok v ∧ v.items = .ok cs ∧ ∀ c ∈ cs, IsColumn c
  | .text "filter" => ∃ v, p.field "condition" = .ok v ∧ IsTyped v
  | .text "aggregate" => p.holdsKey "aggregates" = .ok true
  | .text "join" => ∀ key ∈ ["joinType", "leftInput", "rightInput", "joinConditions"], ∃ v, p.field key = .ok v
  | .text "sort" => p.holdsKey "sortColumns" = .ok true
  | .text "conditionalSplit" => p.holdsKey "conditions" = .ok true
  | .text "lookup" => p.holdsKey "lookupDataset" = .ok true
  | .text "alterRow" => ∃ key ∈ Check.changeConditions, p.holdsKey key = .ok true
  | _ => True

def HasSettings (type p : Value) : Prop := type.requireHashable = .ok () ∧ Suffices type p

structure IsSource (s : Value) : Prop where
  named : ∃ name, Named s name
  dataset : ∃ v, s.field "dataset" = .ok v ∧ IsDataset v

structure IsStep (steps : List Value) (t : Value) : Prop where
  named : ∃ name, Named t name
  depends : ∃ v, t.field "dependsOn" = .ok v ∧ AreDependencies steps v
  settings : ∃ type p, t.field "type" = .ok type ∧ t.field "typeProperties" = .ok p ∧ HasSettings type p

structure IsSink (steps : List Value) (s : Value) : Prop where
  named : ∃ name, s.field "name" = .ok name
  dataset : ∃ v, s.field "dataset" = .ok v ∧ IsDataset v
  depends : ∃ v, s.field "dependsOn" = .ok v ∧ AreDependencies steps v

/-- The parts of a flow, where a document keeps them. -/
structure IsFlow (d : Value) (sources steps sinks : List Value) : Prop where
  name : ∃ v, d.field "name" = .ok v ∧ v.kind = .text
  type : d.field "type" = .ok (.text Check.dataflowType)
  parts : ∃ p q, d.field "properties" = .ok p ∧ p.field "type" = .ok (.text Check.mappingType) ∧
    p.field "typeProperties" = .ok q ∧ q.field "sources" = .ok (.list sources) ∧
    q.field "transformations" = .ok (.list steps) ∧ q.field "sinks" = .ok (.list sinks) ∧
    ∃ lines, q.field "scriptLines" = .ok lines

/-- Steps depend on sources and on steps before them, sinks on sources and steps. -/
def Deployable (d : Value) : Prop :=
  ∃ sources steps sinks, IsFlow d sources steps sinks ∧ (∀ s ∈ sources, IsSource s) ∧
    EachAfter (fun before => IsStep (givenNames sources ++ givenNames before)) steps ∧
    ∀ s ∈ sinks, IsSink (givenNames sources ++ givenNames steps) s

namespace Check

variable {α β : Type}

/-- The program answers without an error exactly the answers with `P`, and takes no earlier error back. -/
structure Passes (x : Checking α) (P : α → Prop) : Prop where
  sound : ∀ {f a g}, Runs x f a g → g.errors = [] → f.errors = [] ∧ P a
  complete : ∀ {f a}, f.errors = [] → P a → ∃ g, Runs x f a g ∧ g.errors = []

namespace Passes

variable {P Q : α → Prop} {R : α → β → Prop}

theorem congr (h : Passes x P) (hiff : ∀ a, P a ↔ Q a) : Passes x Q where
  sound hrun hg := (h.sound hrun hg).imp_right (hiff _).mp
  complete hf hq := h.complete hf ((hiff _).mpr hq)

theorem pure (a : α) : Passes (pure a) (a = ·) where
  sound hrun hg := by
    obtain ⟨rfl, rfl⟩ := Runs.pure_iff.mp hrun
    exact ⟨hg, rfl⟩
  complete hf ha := ⟨_, Runs.pure_iff.mpr ⟨ha, rfl⟩, hf⟩

theorem done : Passes (Pure.pure () : Checking Unit) fun _ => True := (pure ()).congr fun _ => iff_true_intro rfl

theorem lift (e : Except Fault α) : Passes (monadLift e : Checking α) (e = .ok ·) where
  sound hrun hg := by
    obtain ⟨he, rfl⟩ := Runs.lift_iff.mp hrun
    exact ⟨hg, he⟩
  complete hf he := ⟨_, Runs.lift_iff.mpr ⟨he, rfl⟩, hf⟩

theorem demandOk (e : Except Fault Unit) : Passes (monadLift e : Checking Unit) fun _ => e = .ok () := lift e

theorem bind (hx : Passes x P) (hk : ∀ a, Passes (k a) (R a)) : Passes (x >>= k) fun b => ∃ a, P a ∧ R a b where
  sound hrun hg := by
    obtain ⟨a, t, hfirst, hrest⟩ := Runs.bind_iff.mp hrun
    obtain ⟨ht, hr⟩ := (hk a).sound hrest hg
    obtain ⟨hf, hp⟩ := hx.sound hfirst ht
    exact ⟨hf, a, hp, hr⟩
  complete hf := by
    rintro ⟨a, hp, hr⟩
    obtain ⟨t, hfirst, ht⟩ := hx.complete hf hp
    obtain ⟨g, hrest, hg⟩ := (hk a).complete ht hr
    exact ⟨g, Runs.bind_iff.mpr ⟨a, t, hfirst, hrest⟩, hg⟩

/-- What answers nothing is a condition on the rest. -/
theorem andThen {x : Checking Unit} {p : Prop} {k : Unit → Checking α} (hx : Passes x fun _ => p) (hk : Passes (k ()) P) :
    Passes (x >>= k) fun a => p ∧ P a :=
  (hx.bind fun _ => hk).congr fun _ => ⟨fun ⟨_, h⟩ => h, fun h => ⟨(), h⟩⟩

theorem ite [Decidable c] (hx : Passes x P) (hy : Passes y Q) :
    Passes (if c then x else y) fun a => if c then P a else Q a := by
  split
  · exact hx
  · exact hy

/-- Nothing passes in the first case. -/
theorem refuse [Decidable c] (hx : Passes x fun _ => False) (hy : Passes y P) :
    Passes (if c then x else y) fun a => ¬c ∧ P a := by
  split
  · exact hx.congr fun _ => ⟨False.elim, fun h => h.1 ‹c›⟩
  · exact hy.congr fun _ => ⟨fun h => ⟨‹¬c›, h⟩, And.right⟩

/-- Nothing passes unless the answer is yes. -/
theorem ask {e : Except Fault Bool} (hx : Passes x P) (hy : Passes y fun _ => False) :
    Passes ((monadLift e : Checking Bool) >>= fun b => if b = true then x else y) fun a => e = .ok true ∧ P a := by
  refine .congr (.bind (.lift e) fun b => .ite hx hy) fun a => ⟨?_, fun ⟨he, h⟩ => ⟨true, he, h⟩⟩
  rintro ⟨_ | _, he, h⟩
  · cases h
  · exact ⟨he, h⟩

theorem reject (e) : Passes (reject e) fun _ => False where
  sound hrun hg := by
    rw [← Runs.modify_iff.mp hrun] at hg
    simp at hg
  complete _ := False.elim

/-- The check goes on after an error, and can no longer pass. -/
theorem rejectThen (e) {k : Unit → Checking α} (hk : Passes (k ()) P) : Passes (Check.reject e >>= k) fun _ => False :=
  (andThen (.reject e) hk).congr fun _ => iff_of_false And.left id

theorem refuseThen [Decidable c] {k : Unit → Checking α} (hk : Passes (k ()) P) :
    Passes (if c then Check.reject e >>= k else k ()) fun a => ¬c ∧ P a :=
  refuse (rejectThen e hk) hk

/-- What has to be there is asked for first. -/
theorem demand {q : Except Fault Bool} {k : Unit → Checking α} (hk : Passes (k ()) P) :
    Passes ((monadLift q : Checking Bool) >>= fun b => if (!b) = true then Check.reject e >>= k else k ())
      fun a => q = .ok true ∧ P a := by
  refine (Passes.bind (.lift q) fun b => refuseThen hk).congr fun a => ?_
  constructor
  · rintro ⟨_ | _, hq, hb, h⟩
    · exact absurd rfl hb
    · exact ⟨hq, h⟩
  · rintro ⟨hq, h⟩
    exact ⟨true, hq, Bool.false_ne_true, h⟩

theorem warn (w) : Passes (warn w) fun _ => True where
  sound hrun hg := by
    rw [← Runs.modify_iff.mp hrun] at hg
    exact ⟨hg, trivial⟩
  complete hf _ := ⟨_, Runs.modify_iff.mpr rfl, hf⟩

/-- A member that has to be there is looked at. -/
theorem inspect {v : Value} {k : Value → Checking α} {P : Value → α → Prop}
    (hk : ∀ w, Passes (k w) (P w)) (hy : Passes y fun _ => False) :
    Passes ((monadLift (v.holdsKey key) : Checking Bool) >>= fun b =>
        if b = true then (monadLift (v.field key) : Checking Value) >>= k else y)
      fun a => ∃ w, v.field key = .ok w ∧ P w a := by
  refine (ask (.bind (.lift _) hk) hy).congr fun a => and_iff_right_of_imp ?_
  rintro ⟨w, hw, -⟩
  exact holdsKey_of_field hw

/-- The rest is the same whatever the answer, after what a yes adds. -/
theorem askElse {e : Except Fault Bool} (hy : Passes y Q) (hx : Passes y Q → Passes x P) :
    Passes ((monadLift e : Checking Bool) >>= fun b => if b = true then x else y)
      fun a => e = .ok true ∧ P a ∨ e = .ok false ∧ Q a := by
  refine .congr (.bind (.lift e) fun b => .ite (hx hy) hy) fun a => ?_
  constructor
  · rintro ⟨_ | _, he, h⟩
    · exact .inr ⟨he, h⟩
    · exact .inl ⟨he, h⟩
  · rintro (⟨he, h⟩ | ⟨he, h⟩)
    · exact ⟨true, he, h⟩
    · exact ⟨false, he, h⟩

/-- A member is looked at if it is there. -/
theorem whenElse {v : Value} {k : Value → Checking α} {P : Value → α → Prop}
    (hy : Passes y Q) (hk : Passes y Q → ∀ w, Passes (k w) (P w)) :
    Passes ((monadLift (v.holdsKey key) : Checking Bool) >>= fun b =>
        if b = true then (monadLift (v.field key) : Checking Value) >>= k else y)
      fun a => (∃ w, v.field key = .ok w ∧ P w a) ∨ v.holdsKey key = .ok false ∧ Q a := by
  refine (askElse hy fun hy => .bind (.lift _) (hk hy)).congr fun a => or_congr_left (and_iff_right_of_imp ?_)
  rintro ⟨w, hw, -⟩
  exact holdsKey_of_field hw

theorem when {v : Value} {k : Value → Checking Unit} {p : Value → Prop}
    (hk : ∀ w, Passes (k w) fun _ => p w) : Passes ((monadLift (v.holdsKey key) : Checking Bool) >>= fun b =>
        if b = true then (monadLift (v.field key) : Checking Value) >>= k else Pure.pure ())
      fun _ => (∃ w, v.field key = .ok w ∧ p w) ∨ v.holdsKey key = .ok false :=
  (whenElse .done fun _ => hk).congr fun _ => or_congr_right (and_iff_left trivial)

end Passes

variable {key context name : String} {steps : List Value}

/-! ## The outer levels -/

theorem passes_require (complain) (keys) :
    Passes (require v complain keys) fun _ => ∀ key ∈ keys, v.holdsKey key = .ok true := by
  induction keys with
  | nil => exact .congr .done (by simp)
  | cons key keys ih => exact .congr (.demand ih) (by simp)

theorem passes_requireKind (absent) (wrong) (rows) :
    Passes (requireKind v absent wrong rows) fun _ => ∀ row ∈ rows, ∃ w, v.field row.1 = .ok w ∧ w.kind = row.2 := by
  induction rows with
  | nil => exact .congr .done (by simp)
  | cons row rows ih =>
    refine .congr (.inspect (fun w => .refuseThen ih) (.rejectThen _ ih)) fun _ => ?_
    simp only [forall_mem_cons, ne_eq, Decidable.not_not, ← and_assoc, exists_and_right]

theorem passes_requireText (expected) (complain) : Passes (requireText v key expected complain) fun _ =>
      v.field key = .ok (.text expected) ∨ v.holdsKey key = .ok false := by
  refine .congr (.when fun w => .refuse (.reject _) .done) fun _ => ?_
  simp only [Bool.not_eq_true', Bool.not_eq_false, isText_iff, and_true, exists_eq_right]

theorem passes_topLevel : Passes (topLevel d) fun _ => (∃ v, d.field "name" = .ok v ∧ v.kind = .text) ∧
      (∃ v, d.field "properties" = .ok v ∧ v.kind = .object) ∧ d.field "type" = .ok (.text dataflowType) := by
  refine .congr (.andThen (passes_requireKind _ _ _) (passes_requireText _ _)) fun _ => ?_
  simp only [forall_mem_cons, not_mem_nil, false_implies, implies_true, and_true, and_assoc]
  refine and_congr_right fun _ => and_congr_right fun _ => ⟨?_, fun h => ⟨⟨_, h, rfl⟩, .inl h⟩⟩
  rintro ⟨⟨w, hw, -⟩, h⟩
  exact (held_or (holdsKey_of_field hw)).mp h

theorem passes_propertiesLevel : Passes (propertiesLevel p) fun _ => p.field "type" = .ok (.text mappingType) ∧
      ∃ v, p.field "typeProperties" = .ok v ∧ v.kind = .object := by
  refine .congr (.andThen (passes_requireKind _ _ _) (passes_requireText _ _)) fun _ => ?_
  simp only [forall_mem_cons, not_mem_nil, false_implies, implies_true, and_true]
  refine ⟨?_, fun ⟨h, hsettings⟩ => ⟨⟨⟨_, h, rfl⟩, hsettings⟩, .inl h⟩⟩
  rintro ⟨⟨⟨w, hw, -⟩, hsettings⟩, h⟩
  exact ⟨(held_or (holdsKey_of_field hw)).mp h, hsettings⟩

/-! ## References -/

theorem passes_datasetReference : Passes (datasetReference v context) fun _ => IsDataset v := by
  refine .congr (.andThen (passes_require _ _) (passes_requireText _ _)) fun _ => ?_
  simp only [forall_mem_cons, not_mem_nil, false_implies, implies_true, and_true]
  constructor
  · rintro ⟨⟨hname, htype⟩, h⟩
    have h := (held_or htype).mp h
    exact ⟨(holdsKey_iff (kind_of_field h)).mp hname, h⟩
  · rintro ⟨⟨name, hname⟩, h⟩
    exact ⟨⟨holdsKey_of_field hname, holdsKey_of_field h⟩, .inl h⟩

theorem passes_dependencyConditions (cs) : Passes (dependencyConditions context cs) fun _ => True := by
  induction cs with
  | nil => exact .done
  | cons c cs ih =>
    refine .congr (.ite (.andThen (.warn _) ih) ih) fun _ => ?_
    simp

theorem passes_dependency : Passes (dependency steps context d) fun _ => IsDependency steps d := by
  refine .congr (.ask (.demand (.bind (.lift _) fun activity => .demand (.when fun conditions =>
    .bind (.lift _) fun items => passes_dependencyConditions items))) (.reject _)) fun _ => ?_
  constructor
  · rintro ⟨-, hconditions, activity, hactivity, hin, h⟩
    obtain ⟨conditions, hfield, items, hitems, -⟩ := (held_or hconditions).mp h
    exact ⟨⟨activity, hactivity, hin⟩, conditions, items, hfield, hitems⟩
  · rintro ⟨⟨activity, hactivity, hin⟩, conditions, items, hfield, hitems⟩
    exact ⟨holdsKey_of_field hactivity, holdsKey_of_field hfield, activity, hactivity, hin,
      .inl ⟨conditions, hfield, items, hitems, trivial⟩⟩

theorem passes_dependencies (ds) : Passes (dependencies steps context ds) fun _ => ∀ d ∈ ds, IsDependency steps d := by
  induction ds with
  | nil => exact .congr .done (by simp)
  | cons d ds ih => exact .congr (.andThen passes_dependency ih) (by simp)

/-- Only a list can hold dependencies: going through a text or an object yields texts. -/
theorem areDependencies_iff :
    AreDependencies steps v ↔ v.isPresent ∧ ∃ ds, v.items = .ok ds ∧ ∀ d ∈ ds, IsDependency steps d := by
  have text : ∀ s, ¬IsDependency steps (.text s) := fun s h => by
    obtain ⟨⟨activity, hactivity, -⟩, -⟩ := h
    cases hactivity
  cases v with
  | list ds => simp [AreDependencies, isPresent, items]
  | object fs =>
    cases fs with
    | nil => simp [AreDependencies, isPresent]
    | cons f fs => simp [AreDependencies, items, text]
  | text s =>
    have hsome : ¬s = "" → ∃ c, c ∈ s.toList := fun h => exists_mem_of_ne_nil _ (mt String.toList_eq_nil_iff.mp h)
    simpa [AreDependencies, items, text, isPresent] using hsome
  | _ => simp [AreDependencies, items]

theorem passes_dependsOn : Passes (dependsOn v steps context) fun _ => AreDependencies steps v := by
  refine .congr (.refuse (.reject _) (.bind (.lift _) fun ds => passes_dependencies ds)) fun _ => ?_
  rw [areDependencies_iff, Bool.not_eq_true', Bool.not_eq_false]

/-! ## Settings -/

/-- Only an object can have both members. -/
theorem passes_typed (e e' : String) :
    Passes (if v.kind ≠ .object then reject e else do if !(← isTyped v) then reject e') fun _ => IsTyped v := by
  refine .congr (.refuse (.reject e) (.bind (.bind (.lift _) fun b => .ite (.lift _) (.pure false)) fun b =>
    .refuse (.reject e') .done)) fun _ => ?_
  constructor
  · rintro ⟨hkind, _ | _, ⟨_ | _, hvalue, h⟩, hb, -⟩
    · exact absurd rfl hb
    · exact absurd rfl hb
    · cases h
    · rw [ne_eq, Decidable.not_not] at hkind
      exact ⟨(holdsKey_iff hkind).mp hvalue, (holdsKey_iff hkind).mp h⟩
  · rintro ⟨⟨w, hw⟩, type, htype⟩
    exact ⟨fun h => h (kind_of_field hw), true, ⟨true, holdsKey_of_field hw, holdsKey_of_field htype⟩,
      Bool.false_ne_true, trivial⟩

theorem passes_derivedColumn : Passes (derivedColumn name v) fun _ => IsColumn v := by
  refine .congr (.demand (.inspect (fun w => passes_typed _ _) (.reject _))) fun _ => ?_
  refine and_congr_left fun ⟨w, hw, _⟩ => holdsKey_iff (kind_of_field hw)

theorem passes_derivedColumns (cs) : Passes (derivedColumns name cs) fun _ => ∀ c ∈ cs, IsColumn c := by
  induction cs with
  | nil => exact .congr .done (by simp)
  | cons c cs ih => exact .congr (.andThen passes_derivedColumn ih) (by simp)

theorem passes_joinSettings : Passes (joinSettings p name) fun _ =>
    ∀ key ∈ ["joinType", "leftInput", "rightInput", "joinConditions"], ∃ v, p.field key = .ok v := by
  refine .congr (.andThen (passes_require _ _)
    (.when fun kind => .ite (.warn _) .done)) fun _ => ⟨?_, fun h => ⟨fun key hkey => ?_, ?_⟩⟩
  · rintro ⟨hkeys, h⟩
    obtain ⟨kind, hkind, -⟩ := (held_or (hkeys "joinType" (by simp))).mp h
    exact fun key hkey => (holdsKey_iff (kind_of_field hkind)).mp (hkeys key hkey)
  · obtain ⟨w, hw⟩ := h key hkey
    exact holdsKey_of_field hw
  · obtain ⟨w, hw⟩ := h "joinType" (by simp)
    exact .inl ⟨w, hw, by simp⟩

theorem passes_aggregateSettings : Passes (aggregateSettings p name) fun _ => p.holdsKey "aggregates" = .ok true := by
  have rest := passes_require (v := p) (fun key => "Aggregate '" ++ name ++ "': Falta campo '" ++ key ++ "'") ["aggregates"]
  refine .congr (.bind (.lift _) fun b => .ite (.andThen (.warn _) rest) rest) fun _ => ?_
  simp only [forall_mem_cons, not_mem_nil, false_implies, implies_true, and_true, true_and, ite_self,
    exists_and_right, and_iff_right_iff_imp]
  exact fun h => holdsKey_total h "groupBy"

theorem passes_holdsAny (keys) : Passes (holdsAny p keys) fun b =>
    if b = true then ∃ key ∈ keys, p.holdsKey key = .ok true else ∀ key ∈ keys, p.holdsKey key = .ok false := by
  induction keys with
  | nil => exact .congr (.pure false) (by simp)
  | cons key keys ih =>
    refine .congr (.bind (.lift _) fun b => .ite (.pure true) ih) fun a => ?_
    cases a with
    | false => simp
    | true =>
      -- The search ends at the first key that is there; what can be asked for one key can be asked for all.
      constructor
      · rintro ⟨_ | _, hb, h⟩
        · obtain ⟨k, hk, h⟩ := h
          exact ⟨k, mem_cons_of_mem _ hk, h⟩
        · exact ⟨key, mem_cons_self, hb⟩
      · rintro ⟨k, hk, h⟩
        obtain ⟨b, hb⟩ := holdsKey_total h key
        refine ⟨b, hb, ?_⟩
        cases b with
        | true => rfl
        | false =>
          rcases List.mem_cons.mp hk with rfl | hk
          · rw [hb] at h
            cases h
          · exact ⟨k, hk, h⟩

theorem passes_changeSettings :
    Passes (changeSettings p name) fun _ => ∃ key ∈ changeConditions, p.holdsKey key = .ok true := by
  refine .congr (.bind (passes_holdsAny _) fun b => .refuse (.reject _) .done) fun _ => ?_
  simp

theorem passes_stepSettings : Passes (stepSettings type p name) fun _ => HasSettings type p := by
  refine .andThen (.demandOk _) ?_
  split
  · exact .congr (.inspect (fun v => .bind (.lift _) passes_derivedColumns) (.reject _)) fun _ => by simp [Suffices]
  · exact Passes.inspect (fun v => passes_typed _ _) (.reject _)
  · exact passes_aggregateSettings
  · exact passes_joinSettings
  · exact (passes_require _ _).congr (by simp [Suffices])
  · exact (passes_require _ _).congr (by simp [Suffices])
  · exact (passes_require _ _).congr (by simp [Suffices])
  · exact passes_changeSettings
  · refine .congr .done fun _ => iff_of_true trivial ?_
    unfold Suffices
    split
    case h_9 => trivial
    all_goals contradiction

/-! ## Sources, transformations, sinks -/

/-- A source as far as it is looked at on its own; whether its name can be entered in a set is asked later. -/
theorem passes_source (index : Nat) : Passes (source index v) fun _ =>
    (∃ name, v.field "name" = .ok name) ∧ ∃ w, v.field "dataset" = .ok w ∧ IsDataset w := by
  refine .congr (.andThen (passes_require _ _) (.when fun dataset => .bind (.lift _) fun name =>
    passes_datasetReference)) fun _ => ?_
  simp only [forall_mem_cons, not_mem_nil, false_implies, implies_true, and_true]
  constructor
  · rintro ⟨⟨hname, hdataset⟩, h⟩
    obtain ⟨w, hw, _, -, h⟩ := (held_or hdataset).mp h
    exact ⟨(holdsKey_iff (kind_of_field hw)).mp hname, w, hw, h⟩
  · rintro ⟨⟨name, hname⟩, w, hw, h⟩
    obtain ⟨n, hn⟩ := exists_fieldD (kind_of_field hname) "name" (.int index)
    exact ⟨⟨holdsKey_of_field hname, holdsKey_of_field hw⟩, .inl ⟨w, hw, n, hn, h⟩⟩

theorem passes_sourcesFrom (index : Nat) (ss) : Passes (sourcesFrom index ss) fun _ =>
    ∀ s ∈ ss, (∃ name, s.field "name" = .ok name) ∧ ∃ w, s.field "dataset" = .ok w ∧ IsDataset w := by
  induction ss generalizing index with
  | nil => exact .congr .done (by simp)
  | cons s ss ih => exact .congr (.andThen (passes_source index) (ih (index + 1))) (by simp)

theorem passes_sourceNames (ss) :
    Passes (sourceNames ss) fun a => (∀ s ∈ ss, ∃ name, Named s name) ∧ givenNames ss = a := by
  induction ss with
  | nil => exact .congr (.pure []) (by simp [givenNames])
  | cons s ss ih =>
    refine .congr (.bind (.lift _) fun name => .andThen (.demandOk _) (.bind ih fun rest => .pure _)) fun a => ?_
    rw [forall_mem_cons]
    constructor
    · rintro ⟨name, hname, hkey, _, ⟨hrest, rfl⟩, rfl⟩
      exact ⟨⟨⟨name, hname, hkey⟩, hrest⟩, givenNames_cons hname⟩
    · rintro ⟨⟨⟨name, hname, hkey⟩, hrest⟩, rfl⟩
      exact ⟨name, hname, hkey, _, ⟨hrest, rfl⟩, (givenNames_cons hname).symm⟩

theorem passes_namesOf (ss) :
    Passes (namesOf ss) fun a => (∀ s ∈ ss, (∃ name, Named s name) ∨ s.holdsKey "name" = .ok false) ∧
      givenNames (ss.filter fun s => (s.field "name").isOk) = a := by
  induction ss with
  | nil => exact .congr (.pure []) (by simp [givenNames])
  | cons s ss ih =>
    refine .congr (.whenElse ih fun ih name => .andThen (.demandOk _) (.bind ih fun rest => .pure _)) fun a => ?_
    rw [forall_mem_cons]
    constructor
    · rintro (⟨name, hname, hkey, _, ⟨hrest, rfl⟩, rfl⟩ | ⟨hnone, hrest, rfl⟩)
      · refine ⟨⟨.inl ⟨name, hname, hkey⟩, hrest⟩, ?_⟩
        rw [filter_cons_of_pos (by rw [hname]; rfl), givenNames_cons hname]
      · refine ⟨⟨.inr hnone, hrest⟩, ?_⟩
        rw [filter_cons_of_neg]
        exact not_isOk_field hnone
    · rintro ⟨⟨⟨name, hname, hkey⟩ | hnone, hrest⟩, rfl⟩
      · refine .inl ⟨name, hname, hkey, _, ⟨hrest, rfl⟩, ?_⟩
        rw [filter_cons_of_pos (by rw [hname]; rfl), givenNames_cons hname]
      · refine .inr ⟨hnone, hrest, ?_⟩
        rw [filter_cons_of_neg]
        exact not_isOk_field hnone

theorem passes_transformation (index : Nat) :
    Passes (transformation steps index v) fun a => IsStep steps v ∧ steps ++ givenNames [v] = a := by
  refine .congr (.bind (.lift _) fun name => .andThen (passes_require _ _) (.whenElse
    (.askElse (.whenElse (.pure _) fun _ own => .andThen (.demandOk _) (.pure _)) fun last => .askElse last fun last =>
      .bind (.lift _) fun type => .bind (.lift _) fun p => .andThen passes_stepSettings last)
    fun rest d => .andThen passes_dependsOn rest)) fun a => ?_
  constructor
  · rintro ⟨name, hname, hkeys, h⟩
    -- All four members have been asked for, so none of the branches for a missing one is taken.
    have held : ∀ key ∈ ["name", "type", "dependsOn", "typeProperties"], ¬v.holdsKey key = .ok false :=
      fun key hkey hnone => by cases hnone.symm.trans (hkeys key hkey)
    obtain ⟨d, hd, hdepends, h⟩ := h.resolve_right (mt And.left (held "dependsOn" (by simp)))
    obtain ⟨-, h⟩ := h.resolve_right (mt And.left (held "type" (by simp)))
    obtain ⟨-, type, htype, p, hp, hsettings, h⟩ := h.resolve_right (mt And.left (held "typeProperties" (by simp)))
    obtain ⟨own, hown, hkey, rfl⟩ := h.resolve_right (mt And.left (held "name" (by simp)))
    refine ⟨⟨⟨own, hown, hkey⟩, ⟨d, hd, hdepends⟩, type, p, htype, hp, hsettings⟩, ?_⟩
    rw [givenNames_cons hown, givenNames_nil]
  · rintro ⟨⟨⟨own, hown, hkey⟩, ⟨d, hd, hdepends⟩, type, p, htype, hp, hsettings⟩, rfl⟩
    obtain ⟨name, hname⟩ := exists_fieldD (kind_of_field hown) "name" (.text (numbered index))
    refine ⟨name, hname, ?_, .inl ⟨d, hd, hdepends, .inl ⟨holdsKey_of_field htype, .inl ⟨holdsKey_of_field hp, type, htype,
      p, hp, hsettings, .inl ⟨own, hown, hkey, ?_⟩⟩⟩⟩⟩
    · simp [holdsKey_of_field hown, holdsKey_of_field htype, holdsKey_of_field hd, holdsKey_of_field hp]
    · rw [givenNames_cons hown, givenNames_nil]

theorem passes_transformationsFrom (index : Nat) (ts) : Passes (transformationsFrom steps index ts) fun _ =>
    EachAfter (fun before => IsStep (steps ++ givenNames before)) ts := by
  induction ts generalizing index steps with
  | nil => exact .congr .done fun _ => iff_of_true trivial .nil
  | cons t ts ih =>
    refine .congr (.bind (passes_transformation index) fun _ => ih (index + 1)) fun _ => ?_
    rw [eachAfter_givenNames_cons]
    simp only [and_assoc, exists_and_left, exists_eq_left']

theorem passes_transformations : Passes (transformations v sourceList) fun _ =>
    ∃ ss, sourceList.items = .ok ss ∧ (∀ s ∈ ss, ∃ name, Named s name) ∧
      ∃ ts, v.items = .ok ts ∧ EachAfter (fun before => IsStep (givenNames ss ++ givenNames before)) ts := by
  refine .congr (.bind (.lift _) fun ss => .bind (passes_sourceNames ss) fun steps => .bind (.lift _) fun ts =>
    passes_transformationsFrom 0 ts) fun _ => exists_congr fun ss => and_congr_right fun _ => ?_
  simp only [and_assoc, exists_and_left, exists_eq_left']

theorem passes_sink (index : Nat) : Passes (sink steps index v) fun _ => IsSink steps v := by
  refine .congr (.bind (.lift _) fun name => .andThen (passes_require _ _) (.whenElse (.when fun d => passes_dependsOn)
    fun rest d => .andThen passes_datasetReference rest)) fun _ => ?_
  constructor
  · rintro ⟨name, hname, hkeys, h⟩
    have held : ∀ key ∈ ["name", "dataset", "dependsOn"], ¬v.holdsKey key = .ok false :=
      fun key hkey hnone => by cases hnone.symm.trans (hkeys key hkey)
    obtain ⟨dataset, hdataset, href, h⟩ := h.resolve_right (mt And.left (held "dataset" (by simp)))
    exact ⟨(holdsKey_iff (kind_of_fieldD hname)).mp (hkeys "name" (by simp)), ⟨dataset, hdataset, href⟩,
      h.resolve_right (held "dependsOn" (by simp))⟩
  · rintro ⟨⟨own, hown⟩, ⟨dataset, hdataset, href⟩, d, hd, hdepends⟩
    obtain ⟨name, hname⟩ := exists_fieldD (kind_of_field hown) "name" (.text (numbered index))
    refine ⟨name, hname, ?_, .inl ⟨dataset, hdataset, href, .inl ⟨d, hd, hdepends⟩⟩⟩
    simp [holdsKey_of_field hown, holdsKey_of_field hdataset, holdsKey_of_field hd]

theorem passes_sinksFrom (index : Nat) (ss) : Passes (sinksFrom steps index ss) fun _ => ∀ s ∈ ss, IsSink steps s := by
  induction ss generalizing index with
  | nil => exact .congr .done (by simp)
  | cons s ss ih => exact .congr (.andThen (passes_sink index) (ih (index + 1))) (by simp)

/-- Nothing is asked of a value that is empty. -/
theorem passes_unlessEmpty {P : Value → Prop} (hk : ∀ vs, Passes (k vs) fun _ => ∀ w ∈ vs, P w) :
    Passes (if (!v.isPresent) = true then warn w else membersOf v >>= k) fun _ =>
      v.isPresent = false ∨ ∃ vs, v.items = .ok vs ∧ ∀ w ∈ vs, P w := by
  refine .congr (.ite (.warn w) (.bind (.lift _) hk)) fun _ => ?_
  cases v.isPresent <;> simp

theorem list_unlessEmpty {P : Value → Prop} : ((Value.list vs).isPresent = false ∨ ∀ w ∈ vs, P w) ↔ ∀ w ∈ vs, P w := by
  cases vs <;> simp [isPresent]

/-! ## The whole -/

theorem passes_requireLists (keys) : Passes (requireLists p keys) fun _ =>
    ∀ key ∈ keys, p.holdsKey key = .ok true ∧ (key ≠ "scriptLines" → ∃ vs, p.field key = .ok (.list vs)) := by
  induction keys with
  | nil => exact .congr .done (by simp)
  | cons key keys ih =>
    refine .congr (.ask (.ite (.bind (.lift _) fun v => .refuseThen ih) ih) (.rejectThen _ ih)) fun _ => ?_
    rw [forall_mem_cons]
    by_cases hkey : key = "scriptLines"
    · simp [hkey]
    · simp only [hkey, ne_eq, not_false_eq_true, if_true, forall_const, and_assoc]
      refine and_congr_right fun _ => ⟨?_, ?_⟩
      · rintro ⟨v, hv, hkind, hrest⟩
        obtain ⟨vs, rfl⟩ := kind_list_iff.mp (Decidable.not_not.mp hkind)
        exact ⟨⟨vs, hv⟩, hrest⟩
      · rintro ⟨⟨vs, hv⟩, hrest⟩
        exact ⟨_, hv, Decidable.not_not.mpr rfl, hrest⟩

/-- Members that all have a name are all looked at for theirs. -/
theorem filter_named (h : ∀ v ∈ vs, ∃ name, Named v name) : (vs.filter fun v => (v.field "name").isOk) = vs := by
  refine List.filter_eq_self.mpr fun v hv => ?_
  obtain ⟨name, hname, -⟩ := h v hv
  rw [hname]
  rfl

theorem passes_flowSettings : Passes (flowSettings p) fun _ => ∃ sources steps sinks,
    p.field "sources" = .ok (.list sources) ∧ p.field "transformations" = .ok (.list steps) ∧
      p.field "sinks" = .ok (.list sinks) ∧ (∃ lines, p.field "scriptLines" = .ok lines) ∧
      (∀ s ∈ sources, IsSource s) ∧ EachAfter (fun before => IsStep (givenNames sources ++ givenNames before)) steps ∧
      ∀ s ∈ sinks, IsSink (givenNames sources ++ givenNames steps) s := by
  refine .congr (.andThen (passes_requireLists _) (.whenElse
    (.whenElse (.askElse .done fun _ => .bind (.lift _) fun ss => .bind (.lift _) fun ts => .bind (.lift _) fun ss =>
        .bind (passes_namesOf ss) fun sourceSteps => .bind (.lift _) fun ts => .bind (passes_namesOf ts) fun steps =>
          .bind (.lift _) fun v => passes_unlessEmpty (passes_sinksFrom 0))
      fun rest v => .bind (.lift _) fun ss => .andThen passes_transformations rest)
    fun rest v => .andThen (passes_unlessEmpty (passes_sourcesFrom 0)) rest)) fun a => ?_
  constructor
  · rintro ⟨hkeys, h⟩
    obtain ⟨sources, hsources⟩ := (hkeys "sources" (by simp)).2 (by decide)
    obtain ⟨ts, hts⟩ := (hkeys "transformations" (by simp)).2 (by decide)
    obtain ⟨sinks, hsinks⟩ := (hkeys "sinks" (by simp)).2 (by decide)
    have hlines := (holdsKey_iff (kind_of_field hsources)).mp (hkeys "scriptLines" (by simp)).1
    simp only [hsources, hts, hsinks, holdsKey_of_field hsources, holdsKey_of_field hts, holdsKey_of_field hsinks,
      fieldD_eq_of_field hsources, fieldD_eq_of_field hts, items, Except.ok.injEq, exists_eq_left', list_unlessEmpty,
      reduceCtorEq, false_and, or_false, true_and, and_assoc, exists_and_left] at h
    obtain ⟨hss, hnamed, hflow, -, -, hks⟩ := h
    -- Sinks may depend on the steps that have a name, which by now are all of them.
    rw [filter_named hnamed, filter_named (hflow.forall_mem IsStep.named)] at hks
    exact ⟨sources, ts, sinks, hsources, hts, hsinks, hlines, fun s hs => ⟨hnamed s hs, (hss s hs).2⟩, hflow, hks⟩
  · rintro ⟨sources, ts, sinks, hsources, hts, hsinks, ⟨lines, hlines⟩, hss, hflow, hks⟩
    have hnamed : ∀ s ∈ sources, ∃ name, Named s name := fun s hs => (hss s hs).named
    have hdatasets : ∀ s ∈ sources, (∃ name, s.field "name" = .ok name) ∧ ∃ v, s.field "dataset" = .ok v ∧ IsDataset v :=
      fun s hs => ⟨(hnamed s hs).imp fun _ => And.left, (hss s hs).dataset⟩
    have htnamed := hflow.forall_mem IsStep.named
    simp only [forall_mem_cons, not_mem_nil, false_implies, implies_true, hsources, hts, hsinks,
      holdsKey_of_field hsources, holdsKey_of_field hts, holdsKey_of_field hsinks, holdsKey_of_field hlines,
      fieldD_eq_of_field hsources, fieldD_eq_of_field hts, items, Except.ok.injEq, exists_eq_left', list_unlessEmpty,
      reduceCtorEq, false_and, or_false, true_and, and_assoc, exists_and_left, Value.list.injEq, exists_eq', ne_eq,
      not_true, and_true, filter_named hnamed, filter_named htnamed]
    exact ⟨hdatasets, hnamed, hflow, fun s hs => .inl (hnamed s hs), fun t ht => .inl (htnamed t ht), hks⟩

theorem passes_afterReset : Passes (do
      topLevel d
      if ← holds d "properties" then
        let p ← member d "properties"
        propertiesLevel p
      if ← holds d "properties" then
        let p ← member d "properties"
        if ← holds p "typeProperties" then
          let q ← member p "typeProperties"
          flowSettings q) fun _ => Deployable d := by
  refine .congr (.andThen passes_topLevel (.whenElse (.when fun p => .when fun q => passes_flowSettings)
    fun rest p => .andThen passes_propertiesLevel rest)) fun _ => ?_
  constructor
  · rintro ⟨⟨hname, ⟨p, hp, -⟩, htype⟩, h⟩
    simp only [hp, holdsKey_of_field hp, Except.ok.injEq, exists_eq_left', reduceCtorEq, false_and, or_false] at h
    obtain ⟨⟨hmapping, q, hq, -⟩, h⟩ := h
    obtain ⟨q', hq', sources, steps, sinks, hsources, hsteps, hsinks, hlines, hflow⟩ := (held_or (holdsKey_of_field hq)).mp h
    exact ⟨sources, steps, sinks, ⟨hname, htype, p, q', hp, hmapping, hq', hsources, hsteps, hsinks, hlines⟩, hflow⟩
  · rintro ⟨sources, steps, sinks, ⟨hname, htype, p, q, hp, hmapping, hq, hsources, hsteps, hsinks, hlines⟩, hflow⟩
    refine ⟨⟨hname, ⟨p, hp, kind_of_field hq⟩, htype⟩, .inl ⟨p, hp, ⟨hmapping, q, hq, kind_of_field hsources⟩, .inl ⟨p, hp,
      .inl ⟨q, hq, sources, steps, sinks, hsources, hsteps, hsinks, hlines, hflow⟩⟩⟩⟩

/-- The check ends without an error, whatever it found before. -/
def Accepts (f : Findings) (d : Value) : Prop := ∃ g, Runs (dataflow d) f () g ∧ g.errors = []

theorem accepts_iff : Accepts f d ↔ Deployable d := by
  constructor
  · rintro ⟨g, hrun, hg⟩
    obtain ⟨_, _, -, hrun⟩ := Runs.bind_iff.mp hrun
    exact (passes_afterReset.sound hrun hg).2
  · intro h
    obtain ⟨g, hrun, hg⟩ := passes_afterReset.complete (f := .none) rfl h
    exact ⟨g, Runs.bind_iff.mpr ⟨⟨⟩, .none, Runs.set_iff.mpr rfl, hrun⟩, hg⟩

end Check

/-- Two steps of one name, the second of which depends on the first. -/
def twoFilters : Value :=
  let dataset := .object [("referenceName", .text "DS"), ("type", .text "DatasetReference")]
  let after step := .list [.object [("activity", .text step), ("dependencyConditions", .list [.text "Succeeded"])]]
  let condition := .object [("value", .text "AMOUNT > 0"), ("type", .text "Expression")]
  let filter step := .object [("name", .text "FIL"), ("type", .text "filter"), ("dependsOn", after step),
    ("typeProperties", .object [("condition", condition)])]
  .object [("name", .text "df"), ("properties", .object [("type", .text Check.mappingType), ("typeProperties", .object
      [("sources", .list [.object [("name", .text "SRC"), ("dataset", dataset)]]),
       ("transformations", .list [filter "SRC", filter "FIL"]),
       ("sinks", .list [.object [("name", .text "OUT"), ("dataset", dataset), ("dependsOn", after "FIL")]]),
       ("scriptLines", .list [])])]),
    ("type", .text Check.dataflowType)]

theorem twoFilters_accepted : Check.Accepts .none twoFilters := by
  have one {steps : List Value} {activity : String} (h : (Value.text activity).inSet steps = .ok true) :
      AreDependencies steps (.list [.object [("activity", .text activity),
        ("dependencyConditions", .list [.text "Succeeded"])]]) :=
    ⟨_, rfl, cons_ne_nil _ _, List.forall_mem_singleton.mpr ⟨⟨_, rfl, h⟩, _, _, rfl, rfl⟩⟩
  refine Check.accepts_iff.mpr ⟨_, _, _, ⟨⟨_, rfl, rfl⟩, rfl, _, _, rfl, rfl, rfl, rfl, rfl, rfl, _, rfl⟩, ?_, ?_, ?_⟩
  · exact List.forall_mem_singleton.mpr ⟨⟨_, rfl, rfl⟩, _, rfl, ⟨_, rfl⟩, rfl⟩
  · refine eachAfter_givenNames_cons.mpr ⟨⟨⟨_, rfl, rfl⟩, ⟨_, rfl, one rfl⟩, ?_⟩,
      eachAfter_givenNames_cons.mpr ⟨⟨⟨_, rfl, rfl⟩, ⟨_, rfl, one rfl⟩, ?_⟩, .nil⟩⟩
    all_goals exact ⟨_, _, rfl, rfl, rfl, _, rfl, ⟨_, rfl⟩, _, rfl⟩
  · exact List.forall_mem_singleton.mpr ⟨⟨_, rfl⟩, ⟨_, rfl, ⟨_, rfl⟩, rfl⟩, _, rfl, one rfl⟩

end MappingFlow.Dataflow
