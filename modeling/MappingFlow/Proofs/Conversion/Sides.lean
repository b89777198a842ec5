/-
  MappingFlow.Proofs.Conversion.Sides — the sides of a converted join under another order
  of the connectors.

  A join takes its sides from the first two instances that feed it, so its sides hang on
  the order in which the connectors are listed; its kind does not. `sides_kept_iff`: an
  order that leaves the feeders of each instance in their order keeps every join, and all
  orders keep them only if no join has two feeders, or one feeder that is a source
  qualifier over two sources (`Mapping.FedPlainly`). For a join with two feeders some
  order exchanges its sides (`Mapping.exists_swapped`).
-/

import MappingFlow.Proofs.Conversion.Joins
import MappingFlow.Proofs.Conversion.Shapes

namespace MappingFlow

open Conversion
open List

namespace Conversion

theorem head?_distinct (as : List String) : (distinct as).head? = as.head? := by
  cases as <;> rfl

/-- Where only one member can be found, it is found in any order. -/
theorem find?_eq_of_perm {α : Type} {p : α → Bool} {as bs : List α} (hperm : as.Perm bs)
    (hone : ∀ a ∈ bs, ∀ b ∈ bs, p a → p b → a = b) : as.find? p = bs.find? p := by
  cases ha : as.find? p with
  | none =>
    symm
    rw [find?_eq_none] at ha ⊢
    exact fun b hb => ha b (hperm.mem_iff.mpr hb)
  | some a =>
    have hmem : a ∈ bs := hperm.mem_iff.mp (mem_of_find?_eq_some ha)
    have hp := find?_some ha
    cases hb : bs.find? p with
    | none => exact absurd hp (find?_eq_none.mp hb a hmem)
    | some b => rw [hone a hmem b (mem_of_find?_eq_some hb) hp (find?_some hb)]

end Conversion

/-! ## Other connectors -/

namespace Mapping

variable {m : Mapping} {cs as bs : List Connector} {name q u : String}

/-- The mapping with other connectors. -/
def rewired (m : Mapping) (cs : List Connector) : Mapping := { m with connectors := cs }

def IsSource (m : Mapping) (name : String) : Prop := ∃ e ∈ m.sources, e.name = name

/-- The name is that of a source qualifier. -/
def IsQualifier (m : Mapping) (name : String) : Prop :=
  ∃ t, m.transformations.find? (·.name == name) = some t ∧ t.type = "Source Qualifier"

/-- One instance feeds it at most, and if that is a source qualifier, one source at most feeds the qualifier. -/
structure FedPlainly (m : Mapping) (name : String) : Prop where
  once : ¬m.FedTwice name
  one_source : ∀ q, m.Feeds q name → m.IsQualifier q →
    ∀ a b, m.IsSource a → m.Feeds a q → m.IsSource b → m.Feeds b q → a = b

theorem stream_of_qualifier (h : m.IsQualifier u) :
    m.stream u = ((m.feeders u).find? fun i => m.sources.any (·.name == i)).getD u := by
  obtain ⟨t, ht, htype⟩ := h
  rw [← lookup_feedsOf, stream, resolve, ht]
  exact if_pos htype

theorem stream_of_not_qualifier (h : ¬m.IsQualifier u) : m.stream u = u := by
  unfold stream resolve
  split
  · rename_i t ht
    exact if_neg fun htype => h ⟨t, ht, htype⟩
  · rfl

theorem any_source_iff : (m.sources.any (·.name == u)) ↔ m.IsSource u := by
  simp [IsSource]

/-- What an instance stands for changes only with what feeds it. -/
theorem stream_rewired (h : (m.rewired cs).feeders u = m.feeders u) : (m.rewired cs).stream u = m.stream u := by
  by_cases hq : m.IsQualifier u
  · rw [stream_of_qualifier hq, stream_of_qualifier (m := m.rewired cs) hq, h]
    rfl
  · rw [stream_of_not_qualifier hq, stream_of_not_qualifier (m := m.rewired cs) hq]

theorem joinInputs_rewired (h : ∀ u, (m.rewired cs).feeders u = m.feeders u) :
    (m.rewired cs).joinInputs name = m.joinInputs name := by
  simp only [joinInputs, h, stream_rewired (h _)]

theorem feeds_rewired (h : cs.Perm m.connectors) : (m.rewired cs).Feeds u name ↔ m.Feeds u name :=
  exists_congr fun _ => and_congr_left fun _ => h.mem_iff

theorem fedTwice_rewired (h : cs.Perm m.connectors) : (m.rewired cs).FedTwice name ↔ m.FedTwice name := by
  simp only [FedTwice, feeds_rewired h]

theorem feeders_perm (h : cs.Perm m.connectors) : ((m.rewired cs).feeders name).Perm (m.feeders name) :=
  (h.filter _).map _

/-! ## One feeder at most -/

theorem joinInputs_of_once (h : ¬m.FedTwice name) :
    m.joinInputs name = ((m.feeders name).head?.map m.stream, none) := by
  rw [fedTwice_iff] at h
  rw [← head?_distinct, joinInputs]
  rcases hd : distinct (m.feeders name) with _ | ⟨left, _ | ⟨right, rest⟩⟩
  · rfl
  · rfl
  · exact absurd ⟨left, right, rest, hd⟩ h

theorem head?_feeders (h : ¬m.FedTwice name) (hq : m.Feeds q name) : (m.feeders name).head? = some q := by
  cases hf : m.feeders name with
  | nil => exact absurd (hf ▸ mem_feeders_iff.mpr hq) not_mem_nil
  | cons v vs =>
    have hv : m.Feeds v name := mem_feeders_iff.mp (hf ▸ mem_cons_self ..)
    by_contra hne
    exact h ⟨v, q, fun he => hne (congrArg some he), hv, hq⟩

theorem FedPlainly.stream_eq (h : m.FedPlainly name) (hperm : cs.Perm m.connectors) (hq : m.Feeds q name) :
    (m.rewired cs).stream q = m.stream q := by
  by_cases hqual : m.IsQualifier q
  · rw [stream_of_qualifier hqual, stream_of_qualifier (m := m.rewired cs) hqual]
    refine congrArg (Option.getD · q) (find?_eq_of_perm (feeders_perm hperm) fun a ha b hb hsa hsb => ?_)
    exact h.one_source q hq hqual a b (any_source_iff.mp hsa) (mem_feeders_iff.mp ha) (any_source_iff.mp hsb)
      (mem_feeders_iff.mp hb)
  · rw [stream_of_not_qualifier hqual, stream_of_not_qualifier (m := m.rewired cs) hqual]

theorem FedPlainly.joinInputs_eq (h : m.FedPlainly name) (hperm : cs.Perm m.connectors) :
    (m.rewired cs).joinInputs name = m.joinInputs name := by
  have honce : ¬(m.rewired cs).FedTwice name := fun htwice => h.once ((fedTwice_rewired hperm).mp htwice)
  rw [joinInputs_of_once h.once, joinInputs_of_once honce]
  cases hf : m.feeders name with
  | nil =>
    have hnone : ((m.rewired cs).feeders name).Perm (m.feeders name) := feeders_perm hperm
    rw [hf, perm_nil] at hnone
    rw [hnone]
    rfl
  | cons q qs =>
    have hq : m.Feeds q name := mem_feeders_iff.mp (hf ▸ mem_cons_self ..)
    rw [head?_feeders honce ((feeds_rewired hperm).mpr hq)]
    exact congrArg (fun i => (some i, none)) (h.stream_eq hperm hq)

/-! ## One connector before all others -/

theorem exists_connector (h : m.Feeds u name) :
    ∃ as c bs, m.connectors = as ++ c :: bs ∧ c.source = u ∧ c.target = name := by
  obtain ⟨c, hc, hsource, htarget⟩ := h
  obtain ⟨as, bs, hsplit⟩ := append_of_mem hc
  exact ⟨as, c, bs, hsplit, hsource, htarget⟩

theorem perm_moved (h : m.connectors = as ++ c :: bs) : (c :: (as ++ bs)).Perm m.connectors :=
  h ▸ perm_middle.symm

theorem feeders_moved (h : m.connectors = as ++ c :: bs) :
    m.feeders c.target = (m.rewired as).feeders c.target ++ c.source :: (m.rewired bs).feeders c.target ∧
      (m.rewired (c :: (as ++ bs))).feeders c.target =
        c.source :: ((m.rewired as).feeders c.target ++ (m.rewired bs).feeders c.target) := by
  simp [feeders, rewired, h]

theorem feeders_moved_of_ne (h : m.connectors = as ++ c :: bs) (hne : c.target ≠ name) :
    (m.rewired (c :: (as ++ bs))).feeders name = m.feeders name := by
  simp [feeders, rewired, h, filter_cons_of_neg, hne]

theorem stream_moved (h : m.connectors = as ++ c :: bs) (hc : ¬m.IsQualifier c.target) :
    (m.rewired (c :: (as ++ bs))).stream u = m.stream u := by
  by_cases hu : c.target = u
  · subst hu
    rw [stream_of_not_qualifier hc, stream_of_not_qualifier (m := m.rewired (c :: (as ++ bs))) hc]
  · exact stream_rewired (feeders_moved_of_ne h hu)

/-- A source that is moved before all others is what its qualifier stands for. -/
theorem stream_moved_source (h : m.connectors = as ++ c :: bs) (hc : m.IsQualifier c.target)
    (hsource : m.IsSource c.source) : (m.rewired (c :: (as ++ bs))).stream c.target = c.source := by
  rw [stream_of_qualifier (m := m.rewired (c :: (as ++ bs))) hc, (feeders_moved h).2]
  exact congrArg (Option.getD · c.target) (find?_cons_of_pos (any_source_iff.mpr hsource))

theorem distinct_moved {rest fs gs : List String} (hd : distinct (fs ++ right :: gs) = left :: right :: rest) :
    ∃ rest', distinct (right :: (fs ++ gs)) = right :: left :: rest' := by
  have hne := ne_of_distinct hd
  -- The feeder on the left is the very first one, so it stands before the one that is moved.
  cases fs with
  | nil => exact absurd (List.cons.inj hd).1.symm hne
  | cons f fs =>
    obtain rfl : f = left := (List.cons.inj hd).1
    exact ⟨_, by simp [distinct, hne]; rfl⟩

/-- Of two feeders the second can be listed first, which exchanges the sides of the join. -/
theorem exists_swapped (h : m.FedTwice name) (hname : ¬m.IsQualifier name) :
    ∃ cs, cs.Perm m.connectors ∧ (m.rewired cs).joinInputs name = (m.joinInputs name).swap := by
  obtain ⟨left, right, rest, hd⟩ := fedTwice_iff.mp h
  have hr : m.Feeds right name :=
    mem_feeders_iff.mp (mem_distinct_iff.mp (hd ▸ mem_cons_of_mem _ (.head _)))
  obtain ⟨as, c, bs, hsplit, rfl, rfl⟩ := exists_connector hr
  refine ⟨c :: (as ++ bs), perm_moved hsplit, ?_⟩
  -- The first feeder comes second now, whatever stood between the two; and no stream changes, since only the feeders
  -- of the join itself have moved.
  obtain ⟨rest', hd'⟩ := distinct_moved ((feeders_moved hsplit).1 ▸ hd)
  simp only [joinInputs, (feeders_moved hsplit).2, hd', hd, stream_moved hsplit hname]
  by_cases hsame : m.stream left = m.stream c.source ∧ left ≠ c.source
  · rw [if_pos hsame, if_pos ⟨hsame.1.symm, hsame.2.symm⟩]
    rfl
  · rw [if_neg hsame, if_neg fun h => hsame ⟨h.1.symm, h.2.symm⟩]
    rfl

/-- Of two sources behind a qualifier each can be the side of a join that the qualifier alone feeds. -/
theorem exists_joinInputs_source (h : ¬m.FedTwice name) (hq : m.Feeds q name) (hqual : m.IsQualifier q)
    (hu : m.IsSource u) (hfeeds : m.Feeds u q) :
    ∃ cs, cs.Perm m.connectors ∧ (m.rewired cs).joinInputs name = (some u, none) := by
  obtain ⟨as, c, bs, hsplit, rfl, rfl⟩ := exists_connector hfeeds
  have hperm := perm_moved hsplit
  refine ⟨_, hperm, ?_⟩
  have honce : ¬(m.rewired (c :: (as ++ bs))).FedTwice name := fun htwice => h ((fedTwice_rewired hperm).mp htwice)
  rw [joinInputs_of_once honce, head?_feeders honce ((feeds_rewired hperm).mpr hq)]
  exact congrArg (fun i => (some i, none)) (stream_moved_source hsplit hqual hu)

/-- The sides of a join are the same in every order of the connectors exactly if it is fed plainly. -/
theorem joinInputs_kept_iff (hname : ¬m.IsQualifier name) :
    (∀ cs, cs.Perm m.connectors → (m.rewired cs).joinInputs name = m.joinInputs name) ↔ m.FedPlainly name := by
  refine ⟨fun hkept => ?_, fun h cs hperm => h.joinInputs_eq hperm⟩
  have honce : ¬m.FedTwice name := by
    -- Two sides that were the same after the exchange would be one stream.
    intro htwice
    obtain ⟨cs, hperm, hswap⟩ := exists_swapped htwice hname
    obtain ⟨l, r, hinputs, hne, -⟩ := joinInputs_of_fedTwice htwice
    rw [hkept cs hperm, hinputs] at hswap
    exact hne (Option.some.inj (Prod.mk.inj hswap).1)
  refine ⟨honce, fun q hq hqual a b ha hfa hb hfb => ?_⟩
  obtain ⟨cs, hperm, hleft⟩ := exists_joinInputs_source honce hq hqual ha hfa
  obtain ⟨ds, hperm', hleft'⟩ := exists_joinInputs_source honce hq hqual hb hfb
  rw [hkept cs hperm] at hleft
  rw [hkept ds hperm'] at hleft'
  exact Option.some.inj (Prod.mk.inj (hleft.symm.trans hleft')).1

end Mapping

/-! ## Joins of a structure -/

namespace Conversion

variable {m : Mapping} {t : Transformation} {type : Value}

/-- The kind of a join and its sides, as its step has them. -/
structure Join where
  name : Value
  kind : Value
  left : Value
  right : Value

def Join.ofStep (step : Value) : Join :=
  ⟨step.member "name", step.member "joinType", step.member "leftInput", step.member "rightInput"⟩

/-- Only joins have a left side, be it null. -/
def hasSide (step : Value) : Bool := (step.field "leftInput").isOk

def joinsOf (steps : List Value) : List Join := (steps.filter hasSide).map .ofStep

/-- The joins that a structure lists. -/
def joinsIn (plan : Value) : List Join := joinsOf (plan.memberList "transformations")

/-- What the join type that a join states is called, or nothing where it can be no join type. -/
def joinKind (t : Transformation) : Value :=
  .ofOption (choose joinTypes "inner" (property t "join_type" (.text "Normal Join"))).toOption

/-- The join that becomes of a transformation. -/
def Join.of (m : Mapping) (t : Transformation) : Join :=
  ⟨.text t.name, joinKind t, .ofOption (m.joinInputs t.name).1, .ofOption (m.joinInputs t.name).2⟩

theorem joinStep_kind : Answers (joinStep t type) fun v => v.member "joinType" = joinKind t := by
  refine .bind (.lift fun kind hkind => hkind) fun kind hkind => .after fun _ => .after fun _ => ?_
  have hkind : joinKind t = .text kind := by rw [joinKind, hkind]; rfl
  rw [hkind]
  refine .ite (fun _ => .after fun _ => ?_) fun _ => ?_
  · exact warnedWhen_answers _ (member_of_get? rfl) (member_of_get? rfl)
  · exact warnedWhen_answers _ (member_of_get? rfl) (member_of_get? rfl)

theorem convertStep_kind (htype : t.type = "Joiner") :
    Answers (convertStep r t type) fun v => v.member "joinType" = joinKind t := by
  rw [convertStep_joiner htype]
  exact joinStep_kind

theorem StepOf.joinsOf_eq (h : StepOf m t type fs)
    (hkind : t.type = "Joiner" → (Value.object fs).member "joinType" = joinKind t) :
    joinsOf [.object fs] = if isJoiner t then [Join.of m t] else [] := by
  have hleft := h.left
  have hright := h.right
  by_cases hj : isJoiner t = true
  · rw [if_pos hj] at hleft hright
    have hside : hasSide (.object fs) = true := by simp [hasSide, Value.field, hleft, Except.isOk, Except.toBool]
    rw [joinsOf, filter_cons_of_pos hside, if_pos hj]
    simp only [filter_nil, map_cons, map_nil, Join.ofStep, Join.of, member_of_get? h.name,
      member_of_get? hleft, member_of_get? hright, hkind (beq_iff_eq.mp hj)]
  · rw [if_neg hj] at hleft
    have hside : ¬hasSide (.object fs) = true := by simp [hasSide, Value.field, hleft, Except.isOk, Except.toBool]
    rw [joinsOf, filter_cons_of_neg hside, if_neg hj]
    rfl

theorem joinsOf_append (vs ws) : joinsOf (vs ++ ws) = joinsOf vs ++ joinsOf ws := by
  rw [joinsOf, filter_append, map_append]
  rfl

/-- The joins of a mapping that become steps. -/
def joinsKnown (r : Rules) (m : Mapping) (ts : List Transformation) : List Join :=
  (ts.filter fun t => (r.kind? t.type).isSome && isJoiner t).map (Join.of m)

theorem Converted.joinsOf (h : Converted r ts s vs u) (hs : Begun m s) :
    Conversion.joinsOf vs = joinsKnown r m ts := by
  induction h with
  | nil => rfl
  | @step t _ _ _ _ _ _ vs hkind hstep _ ih =>
    obtain ⟨⟨fs, rfl, hfs⟩, hs'⟩ := convertStep_steps _ _ _ hs hstep
    rw [← singleton_append, joinsOf_append, ih hs', hfs.joinsOf_eq fun hjoiner => convertStep_kind hjoiner _ _ _ hstep]
    by_cases hj : isJoiner t = true <;> simp [joinsKnown, hkind, hj]
  | leave hkind _ ih =>
    rw [ih hs]
    simp [joinsKnown, hkind]

/-- A structure lists the joins of its mapping that the rules know, each with its kind and its sides. -/
theorem joinsIn_eq (h : Runs (convertMapping r m) s plan u) : joinsIn plan = joinsKnown r m m.transformations := by
  obtain ⟨p, hparts, rfl⟩ := runs_convertMapping h
  obtain ⟨s₁, s₂, -, hkeep, hsteps, -⟩ := runs_convertParts hparts
  exact hsteps.joinsOf (hkeep _ stableLearning_begun.toStable (begun_begun m s))

/-! ## Another order of the connectors -/

theorem ofOption_injective (h : Value.ofOption a = .ofOption b) : a = b := by
  cases a <;> cases b <;> cases h <;> rfl

theorem joinsKnown_rewired_iff :
    joinsKnown r (m.rewired cs) ts = joinsKnown r m ts ↔ ∀ t ∈ ts, (r.kind? t.type).isSome → t.type = "Joiner" →
        (m.rewired cs).joinInputs t.name = m.joinInputs t.name := by
  rw [joinsKnown, joinsKnown, map_inj_left]
  simp only [mem_filter, Bool.and_eq_true, and_imp]
  refine forall₃_congr fun t ht hknown => ?_
  rw [isJoiner, beq_iff_eq]
  refine forall_congr' fun htype => ⟨fun h => ?_, fun h => by rw [Join.of, Join.of, h]⟩
  obtain ⟨-, -, hleft, hright⟩ := Join.mk.inj h
  exact Prod.ext (ofOption_injective hleft) (ofOption_injective hright)

theorem kinds_joinsKnown (cs ts) : (joinsKnown r (m.rewired cs) ts).map (fun j => (j.name, j.kind)) =
      (joinsKnown r m ts).map fun j => (j.name, j.kind) := by
  rw [joinsKnown, joinsKnown, map_map, map_map]
  rfl

/-- In another order of the connectors a mapping is still converted, and its joins keep their names and kinds. They
    keep their sides if the feeders of each instance keep their order, and in every order exactly if each join is fed
    plainly. A join that shares its name with a source qualifier is left out. -/
theorem sides_kept_iff {s u : State} {plan : Value} (h : Runs (convertMapping .standard m) s plan u)
    (hnames : ∀ t ∈ m.transformations, t.type = "Joiner" → ¬m.IsQualifier t.name) :
    (∀ cs, cs.Perm m.connectors → ∀ s', ∃ plan' u', Runs (convertMapping .standard (m.rewired cs)) s' plan' u' ∧
        (joinsIn plan').map (fun j => (j.name, j.kind)) = (joinsIn plan).map (fun j => (j.name, j.kind)) ∧
        ((∀ name, (m.rewired cs).feeders name = m.feeders name) → joinsIn plan' = joinsIn plan)) ∧
      ((∀ cs, cs.Perm m.connectors → ∀ s' plan' u', Runs (convertMapping .standard (m.rewired cs)) s' plan' u' →
          joinsIn plan' = joinsIn plan) ↔
        ∀ t ∈ m.transformations, t.type = "Joiner" → m.FedPlainly t.name) := by
  -- Whether a mapping is converted does not depend on its connectors.
  have hruns : ∀ cs s', ∃ plan' u', Runs (convertMapping .standard (m.rewired cs)) s' plan' u' := fun cs s' =>
    (convertMapping_runs_iff (m := m.rewired cs) s').mpr ((convertMapping_runs_iff (m := m) s).mp ⟨plan, u, h⟩)
  have hknown : (Rules.standard.kind? "Joiner").isSome = true := (known_of_supported (by decide)).mpr (by decide)
  rw [joinsIn_eq h]
  refine ⟨fun cs _ s' => ?_, fun hkept t ht htype => ?_, fun hplain cs hperm s' plan' u' hrun => ?_⟩
  · obtain ⟨plan', u', hrun⟩ := hruns cs s'
    refine ⟨plan', u', hrun, ?_⟩
    rw [joinsIn_eq hrun]
    exact ⟨kinds_joinsKnown cs _, fun hfeeders =>
      joinsKnown_rewired_iff.mpr fun _ _ _ _ => Mapping.joinInputs_rewired hfeeders⟩
  · refine (Mapping.joinInputs_kept_iff (hnames t ht htype)).mp fun cs hperm => ?_
    obtain ⟨plan', u', hrun⟩ := hruns cs s
    have heq := hkept cs hperm s plan' u' hrun
    rw [joinsIn_eq hrun] at heq
    exact joinsKnown_rewired_iff.mp heq t ht (htype ▸ hknown) htype
  · rw [joinsIn_eq hrun]
    exact joinsKnown_rewired_iff.mpr fun t ht _ htype => (hplain t ht htype).joinInputs_eq hperm

/-- A join that reads one source qualifier over two connectors. -/
def qualifiedJoin : Mapping :=
  ⟨"m", none, "1", [⟨"S", "Oracle", none, [], []⟩], [⟨"T", "Oracle", none, [], []⟩],
    [⟨"SQ", "Source Qualifier", none, [], []⟩, ⟨"J", "Joiner", none, [], [("join_type", .text "Detail Outer")]⟩],
    [⟨"S", "SQ", [], []⟩, ⟨"SQ", "J", ["A"], ["A"]⟩, ⟨"SQ", "J", ["B"], ["B"]⟩, ⟨"J", "T", [], []⟩], []⟩

theorem qualifiedJoin_fedPlainly : qualifiedJoin.FedPlainly "J" := by
  have hfeeds : ∀ q, qualifiedJoin.Feeds q "J" → q = "SQ" := by simp [Mapping.Feeds, qualifiedJoin]
  have hsource : ∀ a, qualifiedJoin.Feeds a "SQ" → a = "S" := by simp [Mapping.Feeds, qualifiedJoin]
  constructor
  · rintro ⟨a, b, hne, ha, hb⟩
    exact hne ((hfeeds a ha).trans (hfeeds b hb).symm)
  · intro q hq _ a b _ ha _ hb
    rw [hfeeds q hq] at ha hb
    exact (hsource a ha).trans (hsource b hb).symm

theorem qualifiedJoin_sides_kept : ∃ plan u, Runs (convertMapping .standard qualifiedJoin) .start plan u ∧
      (∀ t ∈ qualifiedJoin.transformations, t.type = "Joiner" → ¬qualifiedJoin.IsQualifier t.name) ∧
      ∀ cs, cs.Perm qualifiedJoin.connectors → ∀ s' plan' u',
        Runs (convertMapping .standard (qualifiedJoin.rewired cs)) s' plan' u' → joinsIn plan' = joinsIn plan := by
  obtain ⟨plan, u, hplan⟩ : ∃ plan u, Runs (convertMapping .standard qualifiedJoin) .start plan u :=
    (convertMapping_runs_iff .start).mpr fun t ht => List.all_eq_true.mp (by decide) t (List.mem_filter.mp ht).1
  have hnames : ∀ t ∈ qualifiedJoin.transformations, t.type = "Joiner" → ¬qualifiedJoin.IsQualifier t.name := by
    simp [Mapping.IsQualifier, qualifiedJoin]
  refine ⟨plan, u, hplan, hnames, (sides_kept_iff hplan hnames).2.mpr fun t ht htype => ?_⟩
  have hname : t.name = "J" := by
    revert htype
    revert t
    simp [qualifiedJoin]
  exact hname ▸ qualifiedJoin_fedPlainly

/-- A join that states its columns of the master and of the detail, fed by the one and the other. -/
def outerJoin : Mapping :=
  ⟨"m", none, "1", [⟨"A", "Oracle", none, [], []⟩, ⟨"B", "Oracle", none, [], []⟩], [⟨"T", "Oracle", none, [], []⟩],
    [⟨"J", "Joiner", none, [],
      [("join_type", .text "Master Outer"), ("join_condition", .text "A_ID = B_ID"),
       ("master_fields", .list [.text "A_ID"]), ("detail_fields", .list [.text "B_ID"])]⟩],
    [⟨"A", "J", ["A_ID"], ["A_ID"]⟩, ⟨"B", "J", ["B_ID"], ["B_ID"]⟩, ⟨"J", "T", [], []⟩], []⟩

/-- The join keeps the rows of the one side, or those of the other. -/
theorem outerJoin_sides_exchanged :
    ∃ plan u cs plan' u', Runs (convertMapping .standard outerJoin) .start plan u ∧ cs.Perm outerJoin.connectors ∧
      Runs (convertMapping .standard (outerJoin.rewired cs)) .start plan' u' ∧
      joinsIn plan = [⟨.text "J", .text "left", .text "A", .text "B"⟩] ∧
      joinsIn plan' = [⟨.text "J", .text "left", .text "B", .text "A"⟩] := by
  have hshaped : ∀ t ∈ outerJoin.known .standard, isShaped t = true := fun t ht =>
    List.all_eq_true.mp (by decide) t (List.mem_filter.mp ht).1
  obtain ⟨plan, u, hplan⟩ := (convertMapping_runs_iff .start).mpr hshaped
  obtain ⟨plan', u', hplan'⟩ :=
    (convertMapping_runs_iff (m := outerJoin.rewired outerJoin.connectors.reverse) .start).mpr hshaped
  refine ⟨plan, u, _, plan', u', hplan, List.reverse_perm _, hplan', ?_, ?_⟩
  · rw [joinsIn_eq hplan]
    rfl
  · rw [joinsIn_eq hplan']
    rfl

end Conversion

end MappingFlow
