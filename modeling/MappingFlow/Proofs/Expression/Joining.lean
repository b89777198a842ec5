/-
  MappingFlow.Proofs.Expression.Joining — what the passes over a chain of joins write.

  A pass joins the operands of a chain two by two (`replaceFrom_chain`). An operand of the
  pattern has at most one level of parentheses, so after two passes no operand that stands
  before a join is one any more (`absent_of_barred`), and the work ends there
  (`joinTexts_chain`).
-/

import MappingFlow.Proofs.Expression.Calls
import MappingFlow.Proofs.Expression.Decoding

namespace MappingFlow.Expression

open Pattern Text
open List hiding all

variable {t : Concat}

/-! ## Nested joins -/

inductive Concat where
  | leaf (name : List Char)
  | node (l r : Concat)

namespace Concat

def marks : Concat → List Mark
  | leaf name => [.column name]
  | node l r => .head "concat".toList :: (l.marks ++ .comma :: (r.marks ++ [.close]))

def text (t : Concat) : List Char := phrase t.marks

def leaves : Concat → List (List Char)
  | leaf name => [name]
  | node l r => l.leaves ++ r.leaves

@[simp] theorem text_leaf (name) : (leaf name).text = name := by
  simp [text, marks, Mark.text]

@[simp] theorem text_node (l r) : (node l r).text = "concat(".toList ++ l.text ++ [',', ' '] ++ r.text ++ [')'] := by
  simp [text, marks, Mark.text]

theorem isPhrase_marks (h : ∀ w ∈ t.leaves, isOrdinary w) : IsPhrase true t.marks := by
  induction t with
  | leaf name => exact isPhrase_column (h name (mem_singleton_self name))
  | node l r ihl ihr =>
    have hl := ihl fun w hw => h w (mem_append_left _ hw)
    have hr := ihr fun w hw => h w (mem_append_right _ hw)
    refine ⟨⟨rfl, hl.joined.append ⟨rfl, hr.joined.append ⟨rfl, rfl⟩⟩⟩, fun m hm w hw => ?_⟩
    simp only [marks, mem_cons, mem_append, not_mem_nil, or_false] at hm
    rcases hm with rfl | hm | rfl | hm | rfl
    · cases hw; decide
    · exact hl.ordinary m hm w hw
    · cases hw
    · exact hr.ordinary m hm w hw
    · cases hw

end Concat

open Concat

/-- The operands with joins between them. -/
def chain (ts : List Concat) : List Char := join [' ', '|', '|', ' '] (ts.map Concat.text)

/-- What a pass does to the operands of a chain. -/
def pairUp : List Concat → List Concat
  | a :: b :: ts => node a b :: pairUp ts
  | ts => ts

/-- An operand with at most one level of parentheses. -/
def isShallow : Concat → Bool
  | leaf _ => true
  | node (leaf _) (leaf _) => true
  | _ => false

/-! ## One operand -/

/-- What stands behind an operand does not belong to it. -/
structure EndsOperand (rest : List Char) : Prop where
  name : rest.head?.any (fun c => isWord c || c == '.') = false
  call : rest.head? ≠ some '('

section Operand

variable {before rest : List Char}

theorem run_quoted_none (hc : isWord c) : (all (quoteMark :: ps)).run ⟨before, c :: rest, groups⟩ k = none := by
  have hquote : ['\'', '"'].contains c = false := by
    rw [← Bool.not_eq_true, contains_iff_mem]
    intro hmem
    have hsigns : ∀ d ∈ ['\'', '"'], isWord d = false := by decide
    rw [hsigns c hmem] at hc
    cases hc
  rw [run_all_cons]
  simp only [quoteMark, oneOf, run, hquote, Bool.false_eq_true, if_false]

theorem run_name (hw : isOrdinary w) (hrest : rest.head?.any (fun c => isWord c || c == '.') = false)
    (hk : k ⟨w.reverse ++ before, rest, groups⟩ = some r) :
    (longest fun c => isWord c || c == '.').run ⟨before, w ++ rest, groups⟩ k = some r := by
  obtain ⟨c, w, rfl⟩ := exists_cons_of_ne_nil (isOrdinary.ne_nil hw)
  have hword := isOrdinary.allWord hw
  simp only [longest, run, cons_append, hword c (.head _), Bool.true_or, if_true]
  refine run_many_greedy (fun d hd => ?_) hrest (by simpa using hk)
  simp [hword d (.tail _ hd)]

theorem run_joinOperand (hw : isOrdinary w)
    (hrun : (seq (longest fun c => isWord c || c == '.') (Pattern.optional (all [char '(', many true (· != ')'), char ')']))).run ⟨before, w ++ rest, groups⟩ k = some r) :
    joinOperand.run ⟨before, w ++ rest, groups⟩ k = some r := by
  obtain ⟨c, w, rfl⟩ := exists_cons_of_ne_nil (isOrdinary.ne_nil hw)
  have hnone : (all [quoteMark, many false isInLine, quoteMark]).run ⟨before, c :: (w ++ rest), groups⟩ k = none :=
    run_quoted_none (isOrdinary.allWord hw c (.head _))
  rw [joinOperand, run, cons_append, hnone]
  exact hrun

theorem run_operand (ht : isShallow t) (hw : ∀ w ∈ t.leaves, isOrdinary w) (hrest : EndsOperand rest)
    (hk : k ⟨t.text.reverse ++ before, rest, groups⟩ = some r) :
    joinOperand.run ⟨before, t.text ++ rest, groups⟩ k = some r := by
  match t, ht with
  | leaf w, _ =>
    have hw := hw w (mem_singleton_self w)
    rw [text_leaf] at hk ⊢
    refine run_joinOperand hw (run_name hw hrest.name ?_)
    rw [Pattern.optional, run, run_all_cons, run_char_ne hrest.call]
    exact hk
  | node (leaf a) (leaf b), _ =>
    have hfree : ∀ c ∈ a ++ [',', ' '] ++ b, (c != ')') = true := by
      have hword : ∀ w, isOrdinary w = true → ∀ c ∈ w, (c != ')') = true := by
        intro w hw c hc
        rw [bne_iff_ne]
        rintro rfl
        cases isOrdinary.allWord hw ')' hc
      intro c hc
      rcases mem_append.mp hc with hc | hc
      · rcases mem_append.mp hc with hc | hc
        · exact hword a (hw a (by simp [leaves])) c hc
        · exact (by decide : ∀ c ∈ [',', ' '], (c != ')') = true) c hc
      · exact hword b (hw b (by simp [leaves])) c hc
    have hrun : joinOperand.run ⟨before, "concat".toList ++ '(' :: (a ++ [',', ' '] ++ b ++ ')' :: rest), groups⟩ k = some r := by
      refine run_joinOperand (by decide) (run_name (w := "concat".toList) (by decide) rfl ?_)
      have hcall : (all [char '(', many true (· != ')'), char ')']).run
          ⟨"concat".toList.reverse ++ before, '(' :: (a ++ [',', ' '] ++ b ++ ')' :: rest), groups⟩ k = some r := by
        rw [run_all_cons, run_char, run_all_cons]
        refine run_many_greedy hfree (by simp) ?_
        rw [run_all_cons, run_char]
        simpa [all, run] using hk
      rw [Pattern.optional, run, hcall]
    simpa using hrun

end Operand

/-! ## One pass -/

/-- The operands of a chain as the passes may meet them. -/
structure IsOperand (t : Concat) : Prop where
  shallow : isShallow t = true
  ordinary : ∀ w ∈ t.leaves, isOrdinary w = true

theorem IsOperand.isPhrase (h : IsOperand t) : IsPhrase true t.marks := isPhrase_marks h.ordinary

theorem gap_not_mem_marks (t : Concat) : Mark.gap ∉ t.marks := by
  induction t with
  | leaf name => simp [marks]
  | node l r ihl ihr => simp [marks, ihl, ihr]

theorem IsOperand.starts (h : IsOperand t) (rest) : (t.text ++ rest).head?.any isBlank = false := by
  obtain ⟨c, hc, hblank⟩ := phrase_first h.isPhrase (gap_not_mem_marks t)
  rw [Concat.text, head?_append, hc]
  exact hblank

theorem join_match (ha : IsOperand a) (hb : IsOperand b) (before)
    (hrest : EndsOperand rest) : ∃ m, joinPattern.at? before (a.text ++ [' ', '|', '|', ' '] ++ b.text ++ rest) = some m ∧
      m.matched = a.text ++ [' ', '|', '|', ' '] ++ b.text ∧ concatTemplate.expand m = (node a b).text := by
  have hrun : joinPattern.run ⟨before, a.text ++ (' ' :: '|' :: '|' :: ' ' :: (b.text ++ rest)), []⟩ some = some
      ⟨b.text.reverse ++ (' ' :: '|' :: '|' :: ' ' :: (a.text.reverse ++ before)), rest,
        [(2, ⟨b.text ++ rest, rest⟩), (1, ⟨a.text ++ (' ' :: '|' :: '|' :: ' ' :: (b.text ++ rest)),
          ' ' :: '|' :: '|' :: ' ' :: (b.text ++ rest)⟩)]⟩ := by
    rw [joinPattern, run_all_cons, run]
    refine run_operand ha.shallow ha.ordinary ⟨rfl, by simp⟩ ?_
    rw [run_all_cons]
    refine run_blanks_one rfl ?_
    rw [run_all_cons]
    refine (run_literal ['|', '|']).trans ?_
    rw [run_all_cons]
    refine run_blanks_one (hb.starts rest) ?_
    rw [run_all_cons, run]
    exact run_operand hb.shallow hb.ordinary hrest rfl
  have hat := at_of_run (p := joinPattern) (x := a.text ++ [' ', '|', '|', ' '] ++ b.text) (by simpa using hrun)
  refine ⟨_, hat, rfl, ?_⟩
  simp [concatTemplate, Match.group, Span.text_append, lookup_cons]

/-- An operand begins with a letter, a digit, a dot or a quote. -/
theorem joinOperand_first (h : joinOperand.Reads s u) : ∃ c rest, s.rest = c :: rest ∧ c ≠ ' ' ∧ c ≠ '|' := by
  rcases h with h | ⟨_, ⟨_, ⟨c, rest, hrest, hc, -⟩, -⟩, -⟩
  · obtain ⟨_, ⟨c, rest, hrest, hc, -⟩, -⟩ := reads_all_cons h
    refine ⟨c, rest, hrest, ?_, ?_⟩ <;> rintro rfl <;> cases hc
  · refine ⟨c, rest, hrest, ?_, ?_⟩ <;> rintro rfl <;> cases hc

theorem join_none_of_sign (hc : c = ' ' ∨ c = '|') : joinPattern.at? before (c :: rest) = none := by
  refine at_eq_none_iff.mpr fun u hu => ?_
  obtain ⟨_, ⟨_, hoperand, -⟩, -⟩ := reads_all_cons hu
  obtain ⟨d, rest', hrest, hblank, hbar⟩ := joinOperand_first hoperand
  obtain ⟨rfl, -⟩ := List.cons.inj hrest
  exact hc.elim hblank hbar

theorem join_none_of_free (h : '|' ∉ rest) : joinPattern.at? before rest = none := by
  refine at_eq_none_iff.mpr fun u hu => h ?_
  obtain ⟨v, hgroup, hu⟩ := reads_all_cons hu
  obtain ⟨v', hblanks, hu⟩ := reads_all_cons hu
  obtain ⟨v'', hlit, -⟩ := reads_all_cons hu
  obtain ⟨x, hx⟩ := reads_rest hgroup
  obtain ⟨gap, -, hgap⟩ := reads_blanks hblanks
  rw [(reads_literal hlit).1] at hgap
  rw [show rest = x ++ v.rest from hx, hgap]
  simp

/-- What stands behind the first operand. -/
def chainTail : List Concat → List Char
  | [] => []
  | t :: ts => [' ', '|', '|', ' '] ++ chain (t :: ts)

theorem chain_cons (t ts) : chain (t :: ts) = t.text ++ chainTail ts := by
  cases ts with
  | nil | cons => simp [chain, chainTail, join]

theorem endsOperand_chainTail (ts) : EndsOperand (chainTail ts) := by
  cases ts with
  | nil | cons => exact ⟨rfl, by simp [chainTail]⟩

theorem bar_not_mem_marks (t : Concat) : Mark.bar ∉ t.marks := by
  induction t with
  | leaf name => simp [marks]
  | node l r ihl ihr => simp [marks, ihl, ihr]

theorem bar_not_mem_operand (h : ∀ w ∈ t.leaves, isOrdinary w) : '|' ∉ t.text := by
  intro hmem
  obtain ⟨m, hm, hsign⟩ := exists_sign (isPhrase_marks h) rfl hmem
  cases m with
  | bar => exact bar_not_mem_marks t hm
  | head | column | comma | gap | close => simp [Mark.signs] at hsign

theorem replaceFrom_free (h : '|' ∉ x) (before) : joinPattern.replaceFrom concatTemplate.expand before 0 x = x :=
  replaceFrom_of_none fun u v huv => join_none_of_free fun hv => h (by rw [huv]; exact mem_append_right u hv)

theorem replaceFrom_chainTail (h : ∀ before, joinPattern.replaceFrom concatTemplate.expand before 0 (chain ts) =
    chain (pairUp ts)) (before) :
    joinPattern.replaceFrom concatTemplate.expand before 0 (chainTail ts) = chainTail (pairUp ts) := by
  match ts with
  | [] => exact replaceFrom_free (by simp [chainTail]) before
  | t :: ts =>
    rw [chainTail, replaceFrom_pass, h]
    · cases ts <;> rfl
    · intro u v huv hv
      obtain ⟨c, v, rfl⟩ := exists_cons_of_ne_nil hv
      have hc : c ∈ [' ', '|', '|', ' '] := by rw [huv]; simp
      exact join_none_of_sign ((by decide : ∀ c ∈ [' ', '|', '|', ' '], c = ' ' ∨ c = '|') c hc)

theorem replaceFrom_chain (h : ∀ t ∈ ts, IsOperand t) (before) :
    joinPattern.replaceFrom concatTemplate.expand before 0 (chain ts) = chain (pairUp ts) := by
  fun_induction pairUp ts generalizing before with
  | case1 a b ts ih =>
    have hts := ih fun t ht => h t (.tail _ (.tail _ ht))
    obtain ⟨m, hat, hmatched, hwrite⟩ := join_match (h a (by simp)) (h b (by simp)) before (endsOperand_chainTail ts)
    have htext : chain (a :: b :: ts) = a.text ++ [' ', '|', '|', ' '] ++ b.text ++ chainTail ts := by
      rw [chain_cons, chainTail, chain_cons]
      simp
    rw [htext, replaceFrom_match hat hmatched (by simp), hwrite, replaceFrom_chainTail hts, chain_cons]
  | case2 ts hts =>
    match ts, hts with
    | [], _ => exact replaceFrom_free (by simp [chain, join]) before
    | [a], _ => exact replaceFrom_free (bar_not_mem_operand (h a (by simp)).ordinary) before
    | a :: b :: ts, hts => exact absurd rfl (hts a b ts)

/-! ## No further pass -/

/-- Behind at most one parenthesis, an operand ends with something else. -/
theorem joinOperand_last (h : joinOperand.Reads s u) (hquote : '\'' ∉ s.rest ∧ '"' ∉ s.rest) :
    ∃ read, s.rest = read ++ u.rest ∧ ((∃ c x, read.reverse = c :: x ∧ isBlank c = false ∧ c ≠ ')') ∨
      ∃ d x, read.reverse = ')' :: d :: x ∧ d ≠ ')') := by
  rcases h with h | ⟨v, ⟨v', ⟨c, rest, hrest, hc, rfl⟩, cs, rest', hcs, hrest', rfl⟩, h⟩
  · obtain ⟨_, ⟨c, rest, hrest, hc, -⟩, -⟩ := reads_all_cons h
    have hmem : c ∈ s.rest := by rw [hrest]; exact mem_cons_self ..
    rcases contains_iff_mem.mp hc with _ | ⟨_, _ | ⟨_, hc⟩⟩
    · exact absurd hmem hquote.1
    · exact absurd hmem hquote.2
    · cases hc
  · simp only at hrest' h
    subst hrest'
    rcases h with h | h
    · obtain ⟨w, hopen, h⟩ := reads_all_cons h
      obtain ⟨w', ⟨x, rest'', hx, hw, rfl⟩, h⟩ := reads_all_cons h
      have hclose := (reads_char h).1
      have hopen := (reads_char hopen).1
      simp only at hopen hclose
      subst hclose
      rw [hw] at hopen
      refine ⟨c :: (cs ++ '(' :: (x ++ [')'])), by simp [hrest, hopen], .inr ?_⟩
      cases hlast : x.reverse with
      | nil => exact ⟨'(', cs.reverse ++ [c], by simp [hlast], by decide⟩
      | cons d ds =>
        refine ⟨d, ds ++ '(' :: (cs.reverse ++ [c]), by simp [hlast], ?_⟩
        have hd : d ∈ x := by rw [← mem_reverse, hlast]; exact mem_cons_self ..
        exact bne_iff_ne.mp (hx d hd)
    · rw [show u = _ from h]
      refine ⟨c :: cs, hrest, .inl ?_⟩
      obtain ⟨d, ds, hlast⟩ := exists_cons_of_ne_nil (by simp : (c :: cs).reverse ≠ [])
      have hd : d ∈ c :: cs := by rw [← mem_reverse, hlast]; exact mem_cons_self ..
      have haccepts : (isWord d || d == '.') = true := by
        rcases mem_cons.mp hd with rfl | hd
        · exact hc
        · exact hcs d hd
      refine ⟨d, ds, hlast, ?_, by rintro rfl; cases haccepts⟩
      rcases Bool.or_eq_true_iff.mp haccepts with hword | hdot
      · exact isBlank_of_isWord hword
      · rw [beq_iff_eq.mp hdot]; rfl

/-- Every join has two closing parentheses before it. -/
def Barred (t : List Char) : Prop := ∀ a b, t = a ++ '|' :: '|' :: b → ∃ a', a = a' ++ [')', ')', ' ']

theorem absent_of_barred {t : List Char} (h : Barred t) (hquote : '\'' ∉ t ∧ '"' ∉ t) : joinPattern.Absent t := by
  refine fun before rest ht => at_eq_none_iff.mpr fun u hu => ?_
  obtain ⟨_, ⟨v, hoperand, rfl⟩, hu⟩ := reads_all_cons hu
  obtain ⟨w, hblanks, hu⟩ := reads_all_cons hu
  obtain ⟨x, hlit, -⟩ := reads_all_cons hu
  have hquote' : '\'' ∉ rest ∧ '"' ∉ rest :=
    ⟨fun hmem => hquote.1 (by rw [ht]; simp [hmem]), fun hmem => hquote.2 (by rw [ht]; simp [hmem])⟩
  obtain ⟨read, hread, hlast⟩ := joinOperand_last hoperand hquote'
  obtain ⟨gap, hgap, hrest⟩ := reads_blanks hblanks
  simp only [(reads_literal hlit).1] at hread hrest
  obtain ⟨a, ha⟩ := h (before.reverse ++ read ++ gap) x.rest (by rw [ht, hread, hrest]; simp)
  have hends : gap.reverse ++ (read.reverse ++ before) = ' ' :: ')' :: ')' :: a.reverse := by
    have := congrArg List.reverse ha
    simpa using this
  -- The gap is the one blank, so the operand ends with two parentheses.
  have hends : read.reverse ++ before = ')' :: ')' :: a.reverse := by
    have hgap' : ∀ c ∈ gap.reverse, isBlank c = true := fun c hc => hgap c (mem_reverse.mp hc)
    match gap.reverse, hgap', hends with
    | [], _, hends =>
      rcases hlast with ⟨c, y, hy, hc, -⟩ | ⟨d, y, hy, -⟩
      · rw [hy] at hends
        rw [(List.cons.inj hends).1] at hc
        cases hc
      · rw [hy] at hends
        cases hends
    | [_], _, hends => exact (List.cons.inj hends).2
    | _ :: g :: gs, hgap', hends =>
      have hg : g = ')' := (List.cons.inj (List.cons.inj hends).2).1
      have hblank := hgap' g (by simp)
      rw [hg] at hblank
      cases hblank
  rcases hlast with ⟨c, y, hy, -, hc⟩ | ⟨d, y, hy, hd⟩
  · rw [hy] at hends
    exact hc (List.cons.inj hends).1
  · rw [hy] at hends
    exact hd (List.cons.inj (List.cons.inj hends).2).1

theorem barred_append (hx : '|' ∉ x) (hclosed : ∃ x', x = x' ++ [')', ')']) (h : Barred rest) :
    Barred (x ++ [' ', '|', '|', ' '] ++ rest) := by
  intro a b hab
  obtain ⟨x', rfl⟩ := hclosed
  by_cases ha : '|' ∈ a
  · -- The join is one of the later ones.
    obtain ⟨a₁, a₂, rfl, ha₁⟩ := eq_append_cons_of_mem ha
    have hfirst : (x' ++ [')', ')'] ++ [' ']) ++ '|' :: ('|' :: ' ' :: rest) = a₁ ++ '|' :: (a₂ ++ '|' :: '|' :: b) := by
      rw [← cons_append, ← append_assoc, ← hab]
      simp
    obtain ⟨rfl, hlater⟩ := append_cons_inj (by simpa using hx) ha₁ hfirst
    match a₂, hlater with
    | [], hlater => cases hlater
    | [_], hlater => cases hlater
    | c :: d :: a₃, hlater =>
      obtain ⟨a', rfl⟩ := h a₃ b (List.cons.inj (List.cons.inj hlater).2).2
      exact ⟨x' ++ [')', ')'] ++ [' '] ++ '|' :: c :: d :: a', by simp⟩
  · have hfirst : (x' ++ [')', ')'] ++ [' ']) ++ '|' :: ('|' :: ' ' :: rest) = a ++ '|' :: ('|' :: b) := by
      rw [← hab]
      simp
    obtain ⟨hx', -⟩ := append_cons_inj (by simpa using hx) ha hfirst
    exact ⟨x', by rw [← hx']; simp⟩

theorem barred_chain (hw : ∀ t ∈ ts, ∀ w ∈ t.leaves, isOrdinary w)
    (h : ∀ t ∈ ts.dropLast, ∃ l a b, t = node l (node a b)) : Barred (chain ts) := by
  have single : ∀ x : List Char, '|' ∉ x → Barred x := by
    rintro x hx a b rfl
    exact absurd (by simp) hx
  induction ts with
  | nil => exact single _ (by simp [chain, join])
  | cons t ts ih =>
    have ht := bar_not_mem_operand (hw t (.head _))
    cases ts with
    | nil => exact single _ ht
    | cons t' ts =>
      rw [chain_cons, chainTail, ← append_assoc]
      refine barred_append ht ?_ (ih (fun t ht => hw t (.tail _ ht)) fun t ht => h t ?_)
      · obtain ⟨l, a, b, rfl⟩ := h t (by simp)
        exact ⟨"concat(".toList ++ l.text ++ [',', ' '] ++ ("concat(".toList ++ a.text ++ [',', ' '] ++ b.text), by simp⟩
      · rw [dropLast_cons_of_ne_nil (by simp)]
        exact mem_cons_of_mem _ ht

/-! ## The whole chain -/

theorem mem_dropLast_pairUp (h : t ∈ (pairUp ts).dropLast) :
    ∃ a b, t = node a b ∧ a ∈ ts.dropLast ∧ b ∈ ts.dropLast := by
  fun_induction pairUp ts with
  | case1 a b ts ih =>
    cases ts with
    | nil => cases h
    | cons c ts =>
      have hne : pairUp (c :: ts) ≠ [] := by cases ts <;> simp [pairUp]
      rw [dropLast_cons_of_ne_nil hne] at h
      simp only [dropLast_cons_cons]
      rcases mem_cons.mp h with rfl | h
      · exact ⟨a, b, rfl, by simp, by simp⟩
      · obtain ⟨a', b', rfl, ha', hb'⟩ := ih h
        exact ⟨a', b', rfl, by simp [ha'], by simp [hb']⟩
  | case2 ts hts =>
    match ts, hts with
    | [], _ => cases h
    | [a], _ => cases h
    | a :: b :: ts, hts => exact absurd rfl (hts a b ts)

theorem mem_pairUp (h : t ∈ pairUp ts) : t ∈ ts ∨ ∃ a ∈ ts, ∃ b ∈ ts, t = node a b := by
  fun_induction pairUp ts with
  | case1 a b ts ih =>
    rcases mem_cons.mp h with rfl | h
    · exact .inr ⟨a, by simp, b, by simp, rfl⟩
    · rcases ih h with h | ⟨a', ha', b', hb', rfl⟩
      · exact .inl (by simp [h])
      · exact .inr ⟨a', by simp [ha'], b', by simp [hb'], rfl⟩
  | case2 ts _ => exact .inl h

theorem length_pairUp : ∀ ts, (pairUp ts).length = (ts.length + 1) / 2
  | a :: b :: ts => by simp only [pairUp, length_cons, length_pairUp ts]; omega
  | [a] => by simp [pairUp]
  | [] => rfl

theorem leaves_pairUp : ∀ ts, (pairUp ts).flatMap leaves = ts.flatMap leaves
  | a :: b :: ts => by simp [pairUp, leaves, leaves_pairUp ts]
  | [a] => rfl
  | [] => rfl

theorem pairUp_of_short (h : ts.length < 2) : pairUp ts = ts := by
  match ts with
  | [] => rfl
  | [a] => rfl
  | a :: b :: ts => simp only [length_cons] at h; omega

/-- Columns and nested joins of columns. -/
def Spoken (ts : List Concat) : Prop := ∀ t ∈ ts, ∀ w ∈ t.leaves, isOrdinary w = true

theorem Spoken.pairUp (h : Spoken ts) : Spoken (pairUp ts) := by
  intro t ht w hw
  rcases mem_pairUp ht with ht | ⟨a, ha, b, hb, rfl⟩
  · exact h t ht w hw
  · exact (mem_append.mp hw).elim (h a ha w) (h b hb w)

theorem chain_eq_phrase (ts) : chain ts = phrase (between .bar (ts.map marks)) := by
  rw [phrase_between, map_map]
  rfl

theorem isPhrase_chain (h : Spoken ts) (hne : ts ≠ []) : IsPhrase true (between .bar (ts.map marks)) := by
  refine isPhrase_between rfl rfl (fun p hp => ?_) (by simpa using hne)
  obtain ⟨t, ht, rfl⟩ := mem_map.mp hp
  exact isPhrase_marks (h t ht)

theorem contains_chain (hw : Spoken ts) : contains ['|', '|'] (chain ts) = decide (2 ≤ ts.length) := by
  match ts with
  | [] => rfl
  | [a] => exact not_contains_bars (bar_not_mem_operand (hw a (by simp)))
  | a :: b :: ts =>
    have hmem : contains ['|', '|'] (chain (a :: b :: ts)) = true := by
      refine contains_iff.mpr ⟨a.text ++ [' '], ' ' :: chain (b :: ts), ?_⟩
      rw [chain_cons, chainTail]
      simp
    simpa using hmem

theorem joinOnce_chain (h : ∀ t ∈ ts, IsOperand t) :
    joinOnce? (chain ts) = if 2 ≤ ts.length then some (chain (pairUp ts)) else none := by
  rw [joinOnce?, contains_chain fun t ht => (h t ht).ordinary]
  rcases ts with _ | ⟨a, _ | ⟨b, ts⟩⟩
  · rfl
  · rfl
  · have hoccurs : joinPattern.occursIn (chain (a :: b :: ts)) = true := by
      rw [← Bool.not_eq_false, occursIn_eq_false_iff]
      intro habsent
      obtain ⟨m, hat, -⟩ := join_match (h a (by simp)) (h b (by simp)) [] (endsOperand_chainTail ts)
      have hnone := habsent [] (chain (a :: b :: ts)) rfl
      rw [chain_cons, chainTail, chain_cons, ← append_assoc, ← append_assoc, hat] at hnone
      cases hnone
    have hpass : joinPattern.substitute concatTemplate (chain (a :: b :: ts)) = chain (pairUp (a :: b :: ts)) :=
      replaceFrom_chain h []
    simp [hoccurs, hpass]

/-- After two passes the work ends. -/
theorem joinOnce_twice (h : Spoken ts) : joinOnce? (chain (pairUp (pairUp ts))) = none := by
  have hspoken := h.pairUp.pairUp
  have hquote : ∀ c, isWord c = false → c ∉ plainSigns → c ∉ chain (pairUp (pairUp ts)) := by
    intro c hword hsign
    by_cases hne : pairUp (pairUp ts) = []
    · rw [hne]; simp [chain, join]
    · rw [chain_eq_phrase]
      exact not_mem_phrase (isPhrase_chain hspoken hne) hword hsign
  have hbarred : Barred (chain (pairUp (pairUp ts))) := by
    refine barred_chain hspoken fun t ht => ?_
    obtain ⟨l, r, rfl, -, hr⟩ := mem_dropLast_pairUp ht
    obtain ⟨a, b, rfl, -⟩ := mem_dropLast_pairUp hr
    exact ⟨l, a, b, rfl⟩
  have habsent : joinPattern.occursIn (chain (pairUp (pairUp ts))) = false :=
    occursIn_eq_false_iff.mpr (absent_of_barred hbarred ⟨hquote _ rfl (by decide), hquote _ rfl (by decide)⟩)
  rw [joinOnce?, habsent, Bool.and_false, if_neg (by decide)]

theorem joinTexts_chain (h : Spoken ts) (hleaf : ∀ t ∈ ts, ∃ w, t = leaf w) :
    joinTexts (chain ts) = chain (pairUp (pairUp ts)) := by
  have hfirst : ∀ t ∈ ts, IsOperand t := by
    intro t ht
    obtain ⟨w, rfl⟩ := hleaf t ht
    exact ⟨rfl, h _ ht⟩
  have hsecond : ∀ t ∈ pairUp ts, IsOperand t := by
    intro t ht
    rcases mem_pairUp ht with ht' | ⟨a, ha, b, hb, rfl⟩
    · exact hfirst t ht'
    · obtain ⟨v, rfl⟩ := hleaf a ha
      obtain ⟨w, rfl⟩ := hleaf b hb
      exact ⟨rfl, h.pairUp _ ht⟩
  rw [joinTexts, repeatStep, joinOnce_chain hfirst]
  by_cases hlen : 2 ≤ ts.length
  · rw [if_pos hlen]
    simp only
    rw [repeatStep, joinOnce_chain hsecond]
    by_cases hlen' : 2 ≤ (pairUp ts).length
    · rw [if_pos hlen']
      exact repeatStep_of_none (joinOnce_twice h) 18
    · rw [if_neg hlen', pairUp_of_short (Nat.lt_of_not_le hlen')]
  · have hshort := pairUp_of_short (Nat.lt_of_not_le hlen)
    rw [if_neg hlen, hshort, hshort]

end MappingFlow.Expression
