/-
  MappingFlow.Proofs.Conversion.Conditions — what is read of a condition that was put
  together from comparisons of columns.

  The comparisons stand apart again, because no column is called like the word between
  them (`split_conjunction`). But each is divided at the first sign that is looked for, and
  the equals sign is looked for first, also inside the signs that it is only a part of. So
  a comparison is read as it was written exactly if its sign holds no equals sign or is
  one itself (`conditions_read_back_iff`); in all other cases a column takes over what is
  left of the sign.
-/

import MappingFlow.Conversion.Conditions
import MappingFlow.Proofs.Text.Splitting
import MappingFlow.Proofs.Text.Words

namespace MappingFlow.Conversion

open Text
open List

variable {c : Comparison}
variable {cs : List Comparison} {after : List String}

/-! ## Conditions as they are written -/

/-- The name of a column, which may be dotted. -/
structure IsColumnName (name : String) : Prop where
  nonempty : name ≠ ""
  not_and : name ≠ "AND"
  chars : ∀ c ∈ name.toList, isWord c = true ∨ c = '.'

instance (name : String) : Decidable (IsColumnName name) :=
  decidable_of_iff (name ≠ "" ∧ name ≠ "AND" ∧ ∀ c ∈ name.toList, isWord c = true ∨ c = '.')
    ⟨fun h => ⟨h.1, h.2.1, h.2.2⟩, fun h => ⟨h.1, h.2, h.3⟩⟩

namespace Comparison

/-- Two columns and one of the signs. -/
structure IsSimple (c : Comparison) : Prop where
  left : IsColumnName c.left
  right : IsColumnName c.right
  operator : c.operator ∈ comparisonSigns

instance (c : Comparison) : Decidable c.IsSimple :=
  decidable_of_iff (IsColumnName c.left ∧ IsColumnName c.right ∧ c.operator ∈ comparisonSigns)
    ⟨fun h => ⟨h.1, h.2.1, h.2.2⟩, fun h => ⟨h.1, h.2, h.3⟩⟩

def written (c : Comparison) : String := c.left ++ " " ++ c.operator ++ " " ++ c.right

/-- The comparison as it is to be kept: equality has one sign. -/
def kept (c : Comparison) : Comparison := { c with operator := if c.operator = "=" then "==" else c.operator }

/-- The comparison as it is read: a sign that holds an equals sign is divided there. -/
def read (c : Comparison) : Comparison :=
  match c.operator with
  | "=" => ⟨c.left, c.right, "=="⟩
  | "==" => ⟨c.left, "= " ++ c.right, "=="⟩
  | "!=" => ⟨c.left ++ " !", c.right, "=="⟩
  | ">=" => ⟨c.left ++ " >", c.right, "=="⟩
  | "<=" => ⟨c.left ++ " <", c.right, "=="⟩
  | _ => c

end Comparison

/-- Comparisons with the word between them that joins them. -/
def conjunction (cs : List Comparison) : String := " AND ".intercalate (cs.map (·.written))

/-! ## Names and signs -/

/-- The characters of the signs. -/
def signChars : List Char := ['=', '!', '<', '>']

namespace IsColumnName

variable {name : String} (h : IsColumnName name)

include h

theorem not_blank : ∀ c ∈ name.toList, isBlank c = false := by
  intro c hc
  rcases h.chars c hc with hword | rfl
  · exact isBlank_of_isWord hword
  · decide

theorem no_space : ' ' ∉ name.toList := fun hmem => absurd (h.not_blank ' ' hmem) (by decide)

theorem no_sign (hs : s ∈ signChars) : s ∉ name.toList := by
  intro hmem
  have hsigns : ∀ s ∈ signChars, ¬ (isWord s = true ∨ s = '.') := by decide
  exact hsigns s hs (h.chars s hmem)

theorem first_not_blank : ∀ c, (name.toList ++ t).head? = some c → isBlank c = false := by
  obtain ⟨d, w, hw⟩ := exists_cons_of_ne_nil (mt String.toList_eq_nil_iff.mp h.nonempty)
  intro c hc
  rw [hw] at hc
  obtain rfl : d = c := Option.some.inj hc
  exact h.not_blank d (hw ▸ mem_cons_self)

theorem last_not_blank : ∀ c, (t ++ name.toList).getLast? = some c → isBlank c = false := by
  have hne : name.toList ≠ [] := mt String.toList_eq_nil_iff.mp h.nonempty
  intro c hc
  rw [getLast?_append_of_ne_nil _ hne] at hc
  exact h.not_blank c (mem_of_getLast? hc)

end IsColumnName

theorem no_space_of_sign (h : sign ∈ comparisonSigns) : ' ' ∉ sign.toList := by
  have hall : ∀ sign ∈ comparisonSigns, ' ' ∉ sign.toList := by decide
  exact hall sign h

/-! ## The comparisons stand apart -/

theorem written_toList (c : Comparison) :
    c.written.toList = c.left.toList ++ ' ' :: (c.operator.toList ++ ' ' :: c.right.toList) := by
  simp [Comparison.written]

/-- What stands between two comparisons. -/
abbrev joining : List Char := [' ', 'A', 'N', 'D', ' ']

/-- The end of the text, or the end of a word in it. -/
def EndsWord (t : List Char) : Prop := t = [] ∨ ∃ u, t = ' ' :: u

/-- Behind a blank, another word than the joining one does not divide the text. -/
theorem not_joining (hw : ' ' ∉ w) (hne : w ≠ "AND".toList) (ht : EndsWord t) :
    joining.isPrefixOf (' ' :: (w ++ t)) = false := by
  rw [Bool.eq_false_iff]
  intro hprefix
  obtain ⟨rest, hrest⟩ := isPrefixOf_iff_prefix.mp hprefix
  obtain ⟨-, heq⟩ : ' ' = ' ' ∧ "AND".toList ++ ' ' :: rest = w ++ t := List.cons.inj hrest
  have hword : ("AND".toList ++ ' ' :: rest).takeWhile (· ≠ ' ') = "AND".toList := rfl
  have hall : ∀ c ∈ w, decide (c ≠ ' ') = true := fun c hc => decide_eq_true fun h => hw (h ▸ hc)
  have htake : (w ++ t).takeWhile (· ≠ ' ') = w := by
    rw [takeWhile_append_of_pos hall]
    rcases ht with rfl | ⟨u, rfl⟩ <;> simp
  rw [heq, htake] at hword
  exact hne hword

theorem splitFrom_written (hc : c.IsSimple) (ht : EndsWord t) (hsplit : splitFrom joining 0 t = q :: qs) :
    splitFrom joining 0 (c.written.toList ++ t) = (c.written.toList ++ q) :: qs := by
  have hsign : c.operator.toList ≠ "AND".toList := by
    have hall : ∀ sign ∈ comparisonSigns, sign.toList ≠ "AND".toList := by decide
    exact hall _ hc.operator
  have hright : c.right.toList ≠ "AND".toList := fun h => hc.right.not_and (String.toList_inj.mp h)
  -- From the end of the comparison to its beginning: each word, and the blank before it.
  have hafter := splitFrom_append hc.right.no_space hsplit
  have hafter := splitFrom_pass (not_joining hc.right.no_space hright ht) hafter
  have hafter := splitFrom_append (no_space_of_sign hc.operator) hafter
  have hafter := splitFrom_pass (not_joining (no_space_of_sign hc.operator) hsign (.inr ⟨_, rfl⟩)) hafter
  have hafter := splitFrom_append hc.left.no_space hafter
  simpa only [written_toList, append_assoc, cons_append] using hafter

theorem split_conjunction (hne : cs ≠ []) (hcs : ∀ c ∈ cs, c.IsSimple) :
    split joining (conjunction cs).toList = cs.map (·.written.toList) := by
  induction cs with
  | nil => exact absurd rfl hne
  | cons c cs ih =>
    have hc := hcs c mem_cons_self
    have htext : (conjunction (c :: cs)).toList =
        joining.intercalate (c.written.toList :: cs.map (·.written.toList)) := by
      rw [conjunction, String.toList_intercalate, map_map]
      rfl
    cases cs with
    | nil =>
      have hlast := splitFrom_written hc (t := []) (.inl rfl) rfl
      rw [htext, map_nil, intercalate_singleton]
      rwa [append_nil] at hlast
    | cons d cs =>
      have hrest := ih (cons_ne_nil d cs) fun e he => hcs e (.tail _ he)
      have hjoined : (conjunction (c :: d :: cs)).toList =
          c.written.toList ++ (joining ++ (conjunction (d :: cs)).toList) := by
        rw [htext, map_cons, intercalate_cons_cons, append_assoc, conjunction, String.toList_intercalate,
          map_map]
        rfl
      have hstart := splitFrom_written hc (.inr ⟨_, rfl⟩) (split_sep ' ' ['A', 'N', 'D', ' '] (conjunction (d :: cs)).toList)
      rw [append_nil] at hstart
      rw [hjoined, map_cons, ← hrest]
      exact hstart

/-! ## One comparison -/

theorem trimmed_eq {s : String} (h : trim t = s.toList) : trimmed t = s := by
  rw [trimmed, h, String.ofList_toList]

theorem trimmed_before {left : String} (h : IsColumnName left) : trimmed (left.toList ++ [' ']) = left :=
  trimmed_eq (trim_append (a := []) (by simp) (by decide)
    (fun c hc => h.first_not_blank (t := []) c (by rwa [append_nil]))
    (fun c hc => h.last_not_blank (t := []) c (by rwa [nil_append])))

theorem trimmed_after (h : IsColumnName right) : trimmed (' ' :: right.toList) = right := by
  have htrim := trim_append (a := [' ']) (b := []) (by decide) (by simp)
    (fun c hc => h.first_not_blank (t := []) c (by rwa [append_nil]))
    (fun c hc => h.last_not_blank (t := []) c (by rwa [nil_append]))
  rw [append_nil] at htrim
  exact trimmed_eq htrim

/-- The part is divided at the first sign of which it holds all characters. -/
theorem comparison?_eq {part l r : List Char} (before)
    (hsigns : comparisonSigns = before ++ sign :: after) (hbefore : ∀ s ∈ before, ∃ d ∈ s.toList, d ∉ part)
    (hsplit : splitFirst? sign.toList part = some (l, r)) :
    comparison? part = some ⟨trimmed l, trimmed r, if sign = "=" then "==" else sign⟩ := by
  have hnone : ∀ k : String → List Char × List Char → Comparison,
      (before.findSome? fun s => (splitFirst? s.toList part).map (k s)) = none := by
    intro k
    rw [findSome?_eq_none_iff]
    intro s hs
    obtain ⟨d, hd, hpart⟩ := hbefore s hs
    rw [splitFirst?_eq_none hd hpart, Option.map_none]
  rw [comparison?, hsigns, findSome?_append, hnone, Option.none_or, findSome?_cons, hsplit]
  rfl

theorem trim_written (hc : c.IsSimple) : trim c.written.toList = c.written.toList := by
  refine trim_eq_self (fun d hd => ?_) (fun d hd => ?_)
  · rw [written_toList] at hd
    exact hc.left.first_not_blank d hd
  · refine hc.right.last_not_blank (t := c.left.toList ++ ' ' :: (c.operator.toList ++ [' '])) d ?_
    simpa only [written_toList, append_assoc, cons_append, nil_append] using hd

section

variable (hleft : IsColumnName left) (hright : IsColumnName right)

include hleft

/-- A sign that holds an equals sign is divided there. -/
theorem comparison?_equals (sign : String) (before after : List Char) (hsign : sign.toList = before ++ '=' :: after)
    (hbefore : '=' ∉ before) : comparison? (left.toList ++ ' ' :: (sign.toList ++ ' ' :: right.toList)) =
      some ⟨trimmed (left.toList ++ ' ' :: before), trimmed (after ++ ' ' :: right.toList), "=="⟩ := by
  have hnot : '=' ∉ left.toList ++ ' ' :: before := by
    simp [hleft.no_sign (s := '=') (by decide), hbefore]
  have hsplit : splitFirst? ['='] (left.toList ++ ' ' :: before ++ (['='] ++ (after ++ ' ' :: right.toList))) =
      some (left.toList ++ ' ' :: before, after ++ ' ' :: right.toList) := splitFirst?_append hnot
  have htext : left.toList ++ ' ' :: (sign.toList ++ ' ' :: right.toList) =
      left.toList ++ ' ' :: before ++ (['='] ++ (after ++ ' ' :: right.toList)) := by simp [hsign]
  rw [htext]
  exact comparison?_eq [] rfl (by simp) hsplit

include hright

/-- A sign without an equals sign stands between the columns, if it holds none of those that are looked for before it. -/
theorem comparison?_unequal (sign before) (hsign : sign.toList = s :: rest)
    (hs : s ∈ signChars) (hne : sign ≠ "=") (hsigns : comparisonSigns = before ++ sign :: after)
    (hbefore : ∀ b ∈ before, b.toList.any (fun d => d ∈ signChars ∧ d ∉ sign.toList) = true) :
    comparison? (left.toList ++ ' ' :: (sign.toList ++ ' ' :: right.toList)) = some ⟨left, right, sign⟩ := by
  have hspace : ' ' ∉ signChars := by decide
  have hnot : s ∉ left.toList ++ [' '] := by
    rw [mem_append, mem_singleton, not_or]
    exact ⟨hleft.no_sign hs, fun h => hspace (h ▸ hs)⟩
  have hsplit : splitFirst? (s :: rest) (left.toList ++ [' '] ++ (s :: rest ++ ' ' :: right.toList)) =
      some (left.toList ++ [' '], ' ' :: right.toList) := splitFirst?_append hnot
  rw [append_assoc, singleton_append, ← hsign] at hsplit
  have hpart : ∀ b ∈ before, ∃ d ∈ b.toList, d ∉ left.toList ++ ' ' :: (sign.toList ++ ' ' :: right.toList) := by
    intro b hb
    obtain ⟨d, hd, hsigned⟩ := any_eq_true.mp (hbefore b hb)
    obtain ⟨hchar, hother⟩ := of_decide_eq_true hsigned
    have hblank : d ≠ ' ' := fun h => hspace (h ▸ hchar)
    refine ⟨d, hd, ?_⟩
    simp only [mem_append, mem_cons, not_or]
    exact ⟨hleft.no_sign hchar, hblank, hother, hblank, hright.no_sign hchar⟩
  rw [comparison?_eq before hsigns hpart hsplit, trimmed_before hleft, trimmed_after hright, if_neg hne]

end

/-- What is left of a sign goes with the column before it. -/
theorem trimmed_before_sign (h : IsColumnName left) (hs : isBlank s = false) :
    trimmed (left.toList ++ [' ', s]) = left ++ String.ofList [' ', s] := by
  refine trimmed_eq ?_
  rw [String.toList_append, String.toList_ofList]
  refine trim_eq_self h.first_not_blank fun d hd => ?_
  rw [getLast?_append_of_ne_nil _ (cons_ne_nil _ _)] at hd
  obtain rfl : s = d := Option.some.inj hd
  exact hs

theorem trimmed_after_equals (h : IsColumnName right) : trimmed ('=' :: ' ' :: right.toList) = "= " ++ right := by
  refine trimmed_eq ?_
  rw [String.toList_append]
  refine trim_eq_self ?_ (h.last_not_blank (t := ['=', ' ']))
  rintro d ⟨⟩
  decide

theorem comparison?_written (hc : c.IsSimple) : comparison? c.written.toList = some c.read := by
  obtain ⟨left, right, operator⟩ := c
  obtain ⟨hleft, hright, hop⟩ := hc
  simp only at hleft hright hop
  rw [written_toList]
  simp only [comparisonSigns, mem_cons, not_mem_nil, or_false] at hop
  rcases hop with rfl | rfl | rfl | rfl | rfl | rfl | rfl | rfl
  · rw [comparison?_equals hleft "=" [] [] rfl (by simp), trimmed_before hleft, nil_append, trimmed_after hright]
    rfl
  · rw [comparison?_equals hleft "==" [] ['='] rfl (by simp), trimmed_before hleft, singleton_append,
      trimmed_after_equals hright]
    rfl
  · rw [comparison?_equals hleft "!=" ['!'] [] rfl (by decide), trimmed_before_sign hleft (by decide), nil_append,
      trimmed_after hright]
    rfl
  · rw [comparison?_unequal hleft hright "<>" ["=", "==", "!="] rfl (by decide) (by decide) rfl (by decide)]
    rfl
  · rw [comparison?_unequal hleft hright ">" ["=", "==", "!=", "<>"] rfl (by decide) (by decide) rfl (by decide)]
    rfl
  · rw [comparison?_unequal hleft hright "<" ["=", "==", "!=", "<>", ">"] rfl (by decide) (by decide) rfl (by decide)]
    rfl
  · rw [comparison?_equals hleft ">=" ['>'] [] rfl (by decide), trimmed_before_sign hleft (by decide), nil_append,
      trimmed_after hright]
    rfl
  · rw [comparison?_equals hleft "<=" ['<'] [] rfl (by decide), trimmed_before_sign hleft (by decide), nil_append,
      trimmed_after hright]
    rfl

/-! ## Whole conditions -/

theorem comparisons_conjunction (hcs : ∀ c ∈ cs, c.IsSimple) : comparisons (conjunction cs) = cs.map (·.read) := by
  cases cs with
  | nil => rfl
  | cons c rest =>
    have hsplit := split_conjunction (cons_ne_nil c rest) hcs
    have hne : conjunction (c :: rest) ≠ "" := by
      intro hempty
      rw [hempty] at hsplit
      have hword : [] = c.written.toList := (List.cons.inj hsplit).1
      simp [written_toList] at hword
    rw [comparisons, if_neg hne]
    calc (split " AND ".toList (conjunction (c :: rest)).toList).filterMap (fun part => comparison? (trim part))
        = (c :: rest).filterMap (fun d => comparison? (trim d.written.toList)) := by
          rw [show " AND ".toList = joining from rfl, hsplit, filterMap_map]; rfl
      _ = (c :: rest).filterMap (fun d => some d.read) :=
          filterMap_congr fun d hd => by rw [trim_written (hcs d hd), comparison?_written (hcs d hd)]
      _ = (c :: rest).map (·.read) := congrFun filterMap_eq_map' _

theorem conditions_text (s) : conditions (.text s) = .ok (.list ((comparisons s).map (·.toValue))) := by
  by_cases hs : s = ""
  · subst hs
    rfl
  · have hpresent : (Value.text s).isPresent = true := by simpa [Value.isPresent] using hs
    rw [conditions, hpresent]
    rfl

theorem toValue_injective : Function.Injective Comparison.toValue := by
  intro c d h
  obtain ⟨left, right, operator⟩ := c
  obtain ⟨left', right', operator'⟩ := d
  simpa [Comparison.toValue] using h

/-- A comparison is read as it was written under those signs only that hold no equals sign beside another character. -/
theorem read_eq_kept_iff (hc : c.IsSimple) : c.read = c.kept ↔ c.operator ∈ ["=", "<>", ">", "<"] := by
  obtain ⟨left, right, operator⟩ := c
  have hop := hc.operator
  simp only [comparisonSigns, mem_cons, not_mem_nil, or_false] at hop
  rcases hop with rfl | rfl | rfl | rfl | rfl | rfl | rfl | rfl
  all_goals simp [Comparison.read, Comparison.kept]

/-- Each comparison of a condition is read on its own and in order, and all of them as they
were written exactly if the sign of each is among the four that are found as they stand. -/
theorem conditions_read_back_iff (cs : List Comparison) (hcs : ∀ c ∈ cs, c.IsSimple) :
    conditions (.text (conjunction cs)) = .ok (.list (cs.map fun c => c.read.toValue)) ∧
      (conditions (.text (conjunction cs)) = .ok (.list (cs.map fun c => c.kept.toValue)) ↔
        ∀ c ∈ cs, c.operator ∈ ["=", "<>", ">", "<"]) := by
  have hread : conditions (.text (conjunction cs)) = .ok (.list (cs.map fun c => c.read.toValue)) := by
    rw [conditions_text, comparisons_conjunction hcs, List.map_map]
    rfl
  refine ⟨hread, ?_⟩
  rw [hread]
  simp only [Except.ok.injEq, Value.list.injEq]
  rw [List.map_inj_left]
  refine forall₂_congr fun c hc => ?_
  rw [toValue_injective.eq_iff, read_eq_kept_iff (hcs c hc)]

/-- An order joined to its customer by key, by another region and by a range of dates. -/
def orderJoin : List Comparison :=
  [⟨"ORDERS.CUST_ID", "CUSTOMERS.ID", "="⟩, ⟨"ORDERS.REGION", "CUSTOMERS.REGION", "<>"⟩,
    ⟨"ORDER_DATE", "VALID_FROM", ">"⟩, ⟨"ORDER_DATE", "VALID_TO", "<"⟩]

theorem orderJoin_read_back :
    conjunction orderJoin = "ORDERS.CUST_ID = CUSTOMERS.ID AND ORDERS.REGION <> CUSTOMERS.REGION AND " ++
        "ORDER_DATE > VALID_FROM AND ORDER_DATE < VALID_TO" ∧
      (∀ c ∈ orderJoin, c.IsSimple) ∧
      conditions (.text (conjunction orderJoin)) = .ok (.list
        [Comparison.toValue ⟨"ORDERS.CUST_ID", "CUSTOMERS.ID", "=="⟩,
          Comparison.toValue ⟨"ORDERS.REGION", "CUSTOMERS.REGION", "<>"⟩,
          Comparison.toValue ⟨"ORDER_DATE", "VALID_FROM", ">"⟩, Comparison.toValue ⟨"ORDER_DATE", "VALID_TO", "<"⟩]) := by
  have hsimple : ∀ c ∈ orderJoin, c.IsSimple := by decide
  exact ⟨by decide, hsimple, (conditions_read_back_iff orderJoin hsimple).2.mpr (by decide)⟩

/-- An inequality is read as an equality, and its left column is not the one that was written. -/
theorem inequality_misread : Comparison.IsSimple ⟨"A", "B", "!="⟩ ∧ conjunction [⟨"A", "B", "!="⟩] = "A != B" ∧
      conditions (.text "A != B") = .ok (.list [Comparison.toValue ⟨"A !", "B", "=="⟩]) ∧
      conditions (.text "A != B") ≠ .ok (.list [Comparison.toValue (Comparison.kept ⟨"A", "B", "!="⟩)]) := by
  have hread : conditions (.text "A != B") = .ok (.list [Comparison.toValue ⟨"A !", "B", "=="⟩]) := by rfl
  refine ⟨by decide, by decide, hread, ?_⟩
  rw [hread]
  simp [Comparison.toValue, Comparison.kept]

end MappingFlow.Conversion
