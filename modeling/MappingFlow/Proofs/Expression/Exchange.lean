/-
  MappingFlow.Proofs.Expression.Exchange — what the passes write in place of other text.

  Two readers go through the text together: one for its literals, one for calls of date
  functions (`watching`). Signs in place of signs leave the literals as they are
  (`holding_of_sign`); this is all that the rules for calls and the comparisons do
  (`holding_flat`, `holding_comparisons`). Signs in place of other text leave the literals as they are or
  break one (`losing_of_sign`); this is what the joins, the operators and SYSDATE do.
-/

import MappingFlow.Proofs.Expression.Balance
import MappingFlow.Proofs.Expression.Blind
import MappingFlow.Proofs.Expression.DateCalls

namespace MappingFlow.Expression

open Pattern Reader
open List hiding all

variable {p : Pattern} {l k : List Pattern} {c : Char} {rule : CallRule}

/-! ## Watching literals and calls -/

def watching : Reader (Quoting × Option (List Char)) := quoting.prod dating

/-- The new text has the literals of the old one, and no new call of a date function. -/
def Holding (old new : List Char) : Prop := watching.Sim (Both Eq Thins) old new

/-- The same, except that literals may be lost. -/
def Losing (old new : List Char) : Prop := watching.Sim (Both Fades Thins) old new

theorem holding_respects : watching.Respects (Both Eq Thins) := respects_eq.prod thins_respects

theorem losing_respects : watching.Respects (Both Fades Thins) := fades_respects.prod thins_respects

variable {t t' u v : List Char}

theorem Holding.losing (h : Holding t t') : Losing t t' := by
  refine Sim.of_read losing_respects fun s => ?_
  obtain ⟨hsame, hthins⟩ := h s s (holding_respects.refl s)
  exact ⟨hsame ▸ .same _, hthins⟩

theorem Holding.read_eq (h : Holding t t') (q) : quoting.read q t' = quoting.read q t :=
  (h.read_both (rfl : q = q) (thins_respects.refl none)).1

theorem Losing.fades (h : Losing t t') (q) : Fades (quoting.read q t') (quoting.read q t) :=
  (h.read_both (.same q) (thins_respects.refl none)).1

theorem Losing.dateFree (h : Losing t t') (ht : DateFree t) : DateFree t' :=
  dateFree_of_thins (h.read_both (.same .broken) (thins_respects.refl (some []))).2 ht

/-! ## Signs -/

/-- Text without quotes that stands in no literal. -/
def IsSigned (v : List Char) : Prop := IsFree v ∧ ¬ IsPlain v

/-- Such text that calls no date function. -/
def IsSign (v : List Char) : Prop := IsSigned v ∧ isGuarded v = true

instance (v : List Char) : Decidable (IsSigned v) := inferInstanceAs (Decidable (_ ∧ _))

instance (v : List Char) : Decidable (IsSign v) := inferInstanceAs (Decidable (_ ∧ _))

theorem losing_of_sign (hu : IsFree u) (hv : IsSign v) : Losing u v :=
  (fades_of_sign hu hv.1.1 hv.1.2).prod (thins_of_guarded hv.2 u)

theorem holding_of_sign (hu : IsSigned u) (hv : IsSign v) : Holding u v :=
  (same_of_signs hu.1 hv.1.1 hu.2 hv.1.2).prod (thins_of_guarded hv.2 u)

/-! ## Patterns that read signs -/

theorem finds_free (hp : isFixed p) : Finds p IsFree := by
  refine ⟨?_, fun _ _ _ hr hu => isFree_of_reads hp hr hu⟩
  simp only [isFixed, Bool.and_eq_true] at hp
  exact hp.1

/-- A joint somewhere in a fixed stretch keeps the stretch out of literals. -/
theorem finds_signed (hc : c ∈ joints) (hp : ∀ p ∈ l ++ char c :: k, isFixed p) :
    Finds (all (l ++ char c :: k)) IsSigned := by
  obtain ⟨hg, hfree⟩ := finds_free (isFixed_all hp)
  refine ⟨hg, fun s s' u hr hu => ⟨hfree s s' u hr hu, fun hplain => ?_⟩⟩
  obtain ⟨a, ha, hr⟩ := reads_all_append hr
  obtain ⟨b, hb, hr⟩ := reads_all_cons hr
  obtain ⟨x, hx⟩ := reads_rest ha
  obtain ⟨y, hy⟩ := reads_rest hr
  rw [hx, (reads_char hb).1, hy, ← cons_append, ← append_assoc] at hu
  have hmem : c ∈ u := by
    rw [← append_cancel_right hu]
    simp
  exact hplain c hmem hc

theorem recasts_signed (hc : c ∈ joints) (hp : ∀ p ∈ l ++ char c :: k, isFixed p) (hv : IsSign v) :
    (all (l ++ char c :: k)).Recasts watching (Both Eq Thins) (Both Eq Thins) (.plain v) [] :=
  recasts_of_finds (finds_signed hc hp) fun _ hu => holding_of_sign hu hv

/-! ## Comparisons and joins -/

theorem holding_comparisons (t) : Holding t (convertComparisons t) := by
  have sign := recasts_signed (l := [blanks]) (c := '=') (k := [blanks]) (v := " == ".toList) (by decide) (by decide)
    (by decide)
  exact sim_substitute holding_respects (recasts_comparisons (Sim.rfl holding_respects) sign) (by decide) t

theorem losing_joinOnce (h : joinOnce? t = some t') : Losing t t' := by
  simp only [joinOnce?] at h
  split at h
  · cases h
    have bars := finds_free (p := all [blanks, literal ['|', '|'], blanks]) (by decide)
    exact sim_substitute losing_respects (recasts_joins (Sim.rfl losing_respects) (losing_of_sign (by decide) (by decide))
      (recasts_of_finds bars fun _ hu => losing_of_sign hu (by decide)) (losing_of_sign (by decide) (by decide))) (by decide) t
  · cases h

theorem Losing.repeatStep {I : List Char → Prop} {step : List Char → Option (List Char)}
    (h : ∀ t t', I t → step t = some t' → I t' ∧ Losing t t') (n : Nat) (ht : I t) : Losing t (repeatStep step n t) := by
  refine (repeatStep_invariant (I := fun u => I u ∧ Losing t u) (fun u u' hu hstep => ?_) n
    ⟨ht, Sim.rfl losing_respects t⟩).2
  obtain ⟨hu', hlosing⟩ := h u u' hu.1 hstep
  exact ⟨hu', hu.2.trans losing_respects hlosing⟩

theorem losing_joinTexts (t) : Losing t (joinTexts t) :=
  .repeatStep (I := fun _ => True) (fun _ _ _ h => ⟨trivial, losing_joinOnce h⟩) 20 trivial

/-! ## Operators and SYSDATE -/

theorem losing_blindly {rule : BlindRule} (hrule : rule ∈ blindRules) (hguard : isGuarded rule.2) (t) :
    Losing t (blindly t rule) := by
  refine ((isBlind_of_mem hrule).fades t).prod ?_
  rw [blindly_eq]
  exact sim_replaceAll thins_respects (fun _ _ m _ => thins_of_guarded hguard m.matched) t

theorem losing_sysdate (t) : Losing t (blindly t sysdateRule) :=
  losing_blindly (.tail _ (.head _)) (by decide) t

theorem losing_operators (t) : Losing t (convertOperators t) := by
  have check : ∀ rule ∈ operatorRules, isGuarded rule.2 = true := by decide
  exact Sim.foldl losing_respects (fun rule hrule t => losing_blindly (.tail _ (.tail _ hrule)) (check rule hrule) t) t

/-! ## Calls -/

def Argument.isUpTo : Argument → Bool
  | upTo _ => true
  | _ => false

theorem spacing_watching : Spacing watching (Both Eq Thins) Argument.isUpTo (· = []) where
  same := Sim.rfl holding_respects
  none := rfl
  fixed _ _ h := by cases h
  comma := by
    rintro _ rfl
    exact recasts_signed (l := [blanks]) (by decide) (by decide) (by decide)
  quote h := by cases h
  star := rfl

namespace CallRule

/-- A rule that keeps the arguments as they are; a star is dropped. -/
def isFlat (rule : CallRule) : Bool :=
  rule.isShaped Argument.isUpTo && isFixed (caseless rule.name.toList) && decide (IsSign rule.front ∧ IsSign rule.back)

theorem holding_flat (h : rule.isFlat) (t) : Holding t (rule.apply t) := by
  simp only [isFlat, Bool.and_eq_true, decide_eq_true_eq] at h
  obtain ⟨⟨hshaped, hname⟩, hfront, hback⟩ := h
  have opening {k : List Pattern} (hk : ∀ p ∈ k, isFixed p = true) :
      (all (rule.opening ++ k)).Recasts watching (Both Eq Thins) (Both Eq Thins) (.plain rule.front) [] := by
    refine recasts_signed (l := [caseless rule.name.toList, blanks]) (c := '(') (k := blanks :: k) (by decide) ?_ hfront
    simp only [cons_append, nil_append, forall_mem_cons]
    exact ⟨hname, rfl, rfl, rfl, hk⟩
  have hrule := recasts_rule spacing_watching hshaped (fun _ ps hps => opening ?_) fun _ => ⟨opening (k := []) (by simp), ?_⟩
  · exact sim_substitute holding_respects hrule.1 hrule.2 t
  · simp only [mem_cons, not_mem_nil, or_false] at hps
    rcases hps with rfl | rfl <;> decide
  · rintro _ rfl
    exact recasts_signed (l := [blanks]) (by decide) (by decide) hback

def isDated (rule : CallRule) : Bool := rule.arguments.isSome && decide (rule.name ∈ dateNames)

theorem holding_apply (h : rule.isDated || rule.isFlat) (ht : DateFree t) : Holding t (rule.apply t) := by
  rcases Bool.or_eq_true .. ▸ h with h | h
  · simp only [isDated, Bool.and_eq_true, decide_eq_true_eq] at h
    rw [ht.apply h.2 (Option.isSome_iff_ne_none.mp h.1)]
    exact Sim.rfl holding_respects t
  · exact holding_flat h t

theorem holding_foldl {rules : List CallRule} (h : ∀ rule ∈ rules, rule.isDated || rule.isFlat) (ht : DateFree t) :
    Holding t (rules.foldl apply t) := by
  induction rules generalizing t with
  | nil => exact Sim.rfl holding_respects t
  | cons rule rules ih =>
    have here := holding_apply (h rule (.head _)) ht
    exact here.trans holding_respects (ih (fun q hq => h q (.tail _ hq)) (here.losing.dateFree ht))

end CallRule

theorem sysdate_apply (t) : sysdate.apply t = blindly t sysdateRule := rfl

theorem rules_keep (h : rule ∈ rulesBeforeSysdate ++ rulesAfterSysdate) : (rule.isDated || rule.isFlat) = true := by
  have check : ((rulesBeforeSysdate ++ rulesAfterSysdate).all fun rule => rule.isDated || rule.isFlat) = true := by decide
  exact all_eq_true.mp check rule h

theorem holding_before (ht : DateFree t) : Holding t (rulesBeforeSysdate.foldl CallRule.apply t) :=
  CallRule.holding_foldl (fun _ hr => rules_keep (mem_append_left _ hr)) ht

theorem holding_after (ht : DateFree t) : Holding t (rulesAfterSysdate.foldl CallRule.apply t) :=
  CallRule.holding_foldl (fun _ hr => rules_keep (mem_append_right _ hr)) ht

theorem applyCallRules_eq (t) : applyCallRules t =
    rulesAfterSysdate.foldl CallRule.apply (blindly (rulesBeforeSysdate.foldl CallRule.apply t) sysdateRule) := by
  rw [applyCallRules, callRules_split, foldl_append, foldl_cons, sysdate_apply]

theorem losing_applyCallRules (ht : DateFree t) : Losing t (applyCallRules t) := by
  have before := (holding_before ht).losing
  have middle := losing_sysdate (rulesBeforeSysdate.foldl CallRule.apply t)
  have upTo : Losing t _ := before.trans losing_respects middle
  rw [applyCallRules_eq]
  exact upTo.trans losing_respects (holding_after (upTo.dateFree ht)).losing

theorem losing_convertCalls (ht : DateFree t) : Losing t (convertCalls t) := by
  refine .repeatStep (I := DateFree) (fun t t' ht h => ?_) 10 ht
  simp only [callsOnce?] at h
  split at h
  · cases h
  · rw [← Option.some.inj h]
    exact ⟨(losing_applyCallRules ht).dateFree ht, losing_applyCallRules ht⟩

end MappingFlow.Expression
