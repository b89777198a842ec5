/-
  MappingFlow.Proofs.Expression.Rules — what the rules for calls write in place of what they
  read.

  The result of a rule goes along with its pattern: captured arguments stay in their
  places, and the text before them (`front`), between them (`written`) and behind them
  (`back`) is exchanged. A reader that follows these exchanges follows the rule
  (`recasts_rule`). Joins and comparisons are of the same kind.
-/

import MappingFlow.Expression.Basic
import MappingFlow.Proofs.Pattern.Recasting

namespace MappingFlow

/-- The text that a template writes whatever the match is. -/
def Template.fixedText (t : Template) : List Char :=
  t.filterMap fun
    | .text c => some c
    | .group _ => none

namespace Expression

open Pattern Reader
open List hiding all

variable {σ : Type} {R R₁ : σ → σ → Prop}

theorem recasts_comparisons (hR : ∀ g, r.Leads R R g g)
    (hsign : (all [blanks, char '=', blanks]).Recasts r R R (.plain " == ".toList) []) :
    comparisonPattern.Recasts r R R comparisonTemplate [2, 1] := by
  have left : (all [group 1 (longest fun c => !(Text.isBlank c || isComparisonSign c))]).Recasts r R R [.group 1] [1] :=
    recasts_group hR rfl
  have right : (all [group 2 (seq (one fun c => !(Text.isBlank c || c == '=')) (many false (· != '=')))]).Recasts r R R
      [.group 2] [2] := recasts_group hR rfl
  have look : (all [ahead (seq blanks (any [literal ['&', '&'], literal ['|', '|'], char ',', char ')', finish]))]).Recasts
      r R R [] [] := recasts_stay fun _ _ h => h.1
  exact recasts_append left (recasts_append hsign (recasts_append right look))

theorem recasts_joins (hR : ∀ g, r.Leads R₁ R₁ g g) (hfront : r.Leads R R₁ [] "concat(".toList)
    (hbars : (all [blanks, literal ['|', '|'], blanks]).Recasts r R₁ R₁ (.plain ", ".toList) [])
    (hback : r.Leads R₁ R [] ")".toList) : joinPattern.Recasts r R R concatTemplate [2, 1] := by
  have first : (all [group 1 joinOperand]).Recasts r R₁ R₁ [.group 1] [1] := recasts_group hR rfl
  have second : (all [group 2 joinOperand]).Recasts r R₁ R₁ [.group 2] [2] := recasts_group hR rfl
  have opening : (all []).Recasts r R R₁ (.plain "concat(".toList) [] :=
    recasts_of_finds (finds_nil (Q := (· = [])) rfl) fun _ hu => hu ▸ hfront
  have closing : (all []).Recasts r R₁ R (.plain ")".toList) [] :=
    recasts_of_finds (finds_nil (Q := (· = [])) rfl) fun _ hu => hu ▸ hback
  exact recasts_append opening (recasts_append first (recasts_append hbars (recasts_append second closing)))

/-! ## Arguments -/

/-- A reader follows what is written between arguments. Text may be dropped before a separator. -/
structure Spacing (r : Reader σ) (R : σ → σ → Prop) (follows : Argument → Bool) (dropped : List Pattern → Prop) :
    Prop where
  same : ∀ g, r.Leads R R g g
  none : dropped []
  fixed : ∀ ps f, follows (.fixed f) = true → dropped ps →
    dropped (ps ++ ([blanks, char ',', blanks] ++ [(Argument.fixed f).pattern 0]))
  comma : ∀ ps, dropped ps → (all (ps ++ [blanks, char ',', blanks])).Recasts r R R (.plain ", ".toList) []
  quote : follows .quoted = true → (all [quoteMark]).Recasts r R R (.plain ['\'']) []
  star : follows .star = false

variable {dropped : List Pattern → Prop}

namespace Argument

def slot (index : Nat) (a : Argument) : List Nat := if a.captures then [index] else []

/-- The groups of an argument list, the last first. -/
def slotsFrom (index : Nat) : List Argument → List Nat
  | [] => []
  | a :: rest => slotsFrom (if a.captures then index + 1 else index) rest ++ a.slot index

def slots : List Argument → List Nat
  | [] => []
  | a :: rest => slotsFrom (if a.captures then 2 else 1) rest ++ a.slot 1

/-- The arguments from `index` on as they are written, and what is written behind them. -/
def written (index : Nat) (args : List Argument) (back : Template) : Template :=
  match args with
  | [] => back
  | quoted :: rest =>
    Template.plain ", ".toList ++ ((Template.plain ['\''] ++ ([.group index] ++ Template.plain ['\'']))
      ++ written (index + 1) rest back)
  | fixed _ :: rest => written index rest back
  | _ :: rest => Template.plain ", ".toList ++ ([.group index] ++ written (index + 1) rest back)

theorem recasts_written (hr : Spacing r R₁ follows dropped) {args : List Argument} (h : args.all follows)
    (hback : ∀ ps, dropped ps → (all (ps ++ [blanks, char ')'])).Recasts r R₁ R back []) :
    ∀ (index : Nat) (ps : List Pattern), dropped ps →
      (all (ps ++ (listFrom index args ++ [blanks, char ')']))).Recasts r R₁ R (written index args back)
        (slotsFrom index args) := by
  induction args with
  | nil => exact fun _ => hback
  | cons a args ih =>
    intro index ps hps
    rw [all_cons, Bool.and_eq_true] at h
    -- A captured argument keeps its place behind a comma.
    have captured : ∀ stretch : Char → Bool, (all (ps ++ ([blanks, char ',', blanks, group index (shortest stretch)] ++
        listFrom (index + 1) args ++ [blanks, char ')']))).Recasts r R₁ R
        (Template.plain ", ".toList ++ ([.group index] ++ written (index + 1) args back))
        (slotsFrom (index + 1) args ++ [index]) := by
      intro stretch
      have slot : (all [group index (shortest stretch)]).Recasts r R₁ R₁ [.group index] [index] := recasts_group hr.same rfl
      have := recasts_append (hr.comma ps hps) (recasts_append slot (ih h.2 (index + 1) [] hr.none))
      simpa using this
    cases a with
    | upTo stop => exact captured (· != stop)
    | anyText => exact captured isInLine
    | fixed f =>
      have := ih h.2 index _ (hr.fixed ps f h.1 hps)
      simpa [listFrom, written, slotsFrom, slot, captures, pattern] using this
    | quoted =>
      have inner : (all [group index (shortest fun c => c != '\'' && c != '"')]).Recasts r R₁ R₁ [.group index] [index] :=
        recasts_group hr.same rfl
      have slot : (all [quoted.pattern index]).Recasts r R₁ R₁ _ _ :=
        recasts_append (hr.quote h.1) (recasts_append inner (hr.quote h.1))
      have := recasts_append (hr.comma ps hps) (recasts_append slot (ih h.2 (index + 1) [] hr.none))
      simpa [listFrom, written, slotsFrom, Argument.slot, captures] using this
    | star =>
      rw [hr.star] at h
      cases h.1

end Argument

namespace CallRule

def slots (rule : CallRule) : List Nat := Argument.slots (rule.arguments.getD [])

/-- What is written before the first argument. -/
def front (rule : CallRule) : List Char :=
  Template.fixedText (rule.result.takeWhile fun | .text _ => true | .group _ => false)

/-- What is written behind the last argument and its quote. -/
def back (rule : CallRule) : List Char :=
  (Template.fixedText (rule.result.reverse.takeWhile fun | .text _ => true | .group _ => false).reverse).dropWhile
    fun c => c == '\'' || c == '"'

/-- A rule whose result keeps the captured arguments in their places. -/
def isShaped (follows : Argument → Bool) (rule : CallRule) : Bool :=
  decide (rule.slots.Nodup ∧ 0 ∉ rule.slots) &&
    match rule.arguments with
    | none => false
    | some [] | some [.star] => decide (rule.result = .plain rule.front)
    | some (.upTo _ :: rest) | some (.anyText :: rest) => rest.all follows &&
        decide (rule.result = Template.plain rule.front ++ ([.group 1] ++ Argument.written 2 rest (.plain rule.back)))
    | some _ => false

variable {rule : CallRule}

/-- The name of a call and its opening parenthesis. -/
def opening (rule : CallRule) : List Pattern := [caseless rule.name.toList, blanks, char '(', blanks]

/-- Without captured arguments the whole call is exchanged at once. -/
theorem recasts_rule (hr : Spacing r R₁ follows dropped) (h : rule.isShaped follows)
    (hwhole : rule.result = .plain rule.front → ∀ ps ∈ [[char ')'], [char '*', blanks, char ')']],
      (all (rule.opening ++ ps)).Recasts r R R (.plain rule.front) [])
    (hparts : rule.result ≠ .plain rule.front → (all rule.opening).Recasts r R R₁ (.plain rule.front) [] ∧
      ∀ ps, dropped ps → (all (ps ++ [blanks, char ')'])).Recasts r R₁ R (.plain rule.back) []) :
    rule.pattern.Recasts r R R rule.result rule.slots ∧ rule.slots.Nodup ∧ 0 ∉ rule.slots := by
  obtain ⟨name, args, result⟩ := rule
  simp only [isShaped, Bool.and_eq_true, decide_eq_true_eq] at h
  refine ⟨?_, h.1⟩
  replace h := h.2
  generalize hf : front ⟨name, args, result⟩ = f at hwhole hparts h
  generalize hb : back ⟨name, args, result⟩ = b at hparts h
  -- A first argument, and the others behind it.
  have parts (stretch : Char → Bool) {rest : List Argument} (h : rest.all follows = true ∧
      result = Template.plain f ++ ([.group 1] ++ Argument.written 2 rest (.plain b))) :
      (all ([caseless name.toList, blanks, char '(', blanks] ++ ([group 1 (shortest stretch)] ++
        ([] ++ (Argument.listFrom 2 rest ++ [blanks, char ')']))))).Recasts r R R result
        (Argument.slotsFrom 2 rest ++ [1] ++ []) := by
    obtain ⟨hfront, hback⟩ := hparts (by simp [h.2])
    rw [h.2]
    exact recasts_append hfront (recasts_append (recasts_group hr.same rfl)
      (Argument.recasts_written hr h.1 hback 2 [] hr.none))
  simp only [pattern, slots]
  split at h
  · cases h
  · have hresult := of_decide_eq_true h
    rw [hresult]
    exact hwhole hresult _ (.head _)
  · have hresult := of_decide_eq_true h
    rw [hresult]
    exact hwhole hresult _ (.tail _ (.head _))
  · rename_i stop rest
    rw [Bool.and_eq_true, decide_eq_true_eq] at h
    simpa [Argument.listPatterns, Argument.slots, Argument.slot, Argument.captures, Argument.pattern]
      using parts (· != stop) h
  · rename_i rest
    rw [Bool.and_eq_true, decide_eq_true_eq] at h
    simpa [Argument.listPatterns, Argument.slots, Argument.slot, Argument.captures, Argument.pattern]
      using parts isInLine h
  · cases h

end CallRule

/-- The one rule that is not about a call. -/
def sysdate : CallRule := ⟨"SYSDATE", none, invoke "currentTimestamp" []⟩

def rulesBeforeSysdate : List CallRule := callRules.take 34

def rulesAfterSysdate : List CallRule := callRules.drop 35

theorem callRules_split : callRules = rulesBeforeSysdate ++ sysdate :: rulesAfterSysdate := rfl

theorem mem_callRules : rule ∈ callRules ↔ rule = sysdate ∨ rule ∈ rulesBeforeSysdate ++ rulesAfterSysdate := by
  rw [callRules_split, mem_append, mem_cons, mem_append]
  exact or_left_comm

end Expression

end MappingFlow
