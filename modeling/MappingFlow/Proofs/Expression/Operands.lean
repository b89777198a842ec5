/-
  MappingFlow.Proofs.Expression.Operands — joining keeps literals whole.

  A join begins and ends outside of literals: its second operand, if quoted, ends at the
  first quote behind its own (`operand_outside`), and one that began at the closing quote
  of a literal would have begun at the opening quote before (`at_none_inside`). So the
  literals of a text with joins are those of the text in which they are calls
  (`read_joinTexts`).
-/

import MappingFlow.Proofs.Expression.Exchange

namespace MappingFlow.Expression

open Pattern Quoting
open List hiding all

variable {x y z rest before : List Char}

/-! ## Where a reader is outside -/

theorem outside_of_joint (hc : c ∈ joints) (h : quoting.read q (c :: z) = outside ds) : ∃ d, q = outside d := by
  cases q with
  | outside d => exact ⟨d, rfl⟩
  | inside d x =>
    rw [Reader.read_cons, step_joint hc, read_broken] at h
    cases h
  | broken =>
    rw [read_broken] at h
    cases h

theorem outside_of_free (hx : IsFree x) (h : quoting.read q x = outside ds) : q = outside ds := by
  cases q with
  | outside d => rw [read_outside hx] at h; exact h
  | inside d y =>
    rw [read_inside hx] at h
    split at h <;> cases h
  | broken =>
    rw [read_broken] at h
    cases h

theorem double_not_mem (h : quoting.read (outside d) z = outside ds) : '"' ∉ z := (read_eq_outside.1.mp h).1

/-! ## Operands -/

/-- A dotted name with an optional flat argument list. -/
def joinName : Pattern :=
  seq (longest fun c => Text.isWord c || c == '.') (Pattern.optional (all [char '(', many true (· != ')'), char ')']))

theorem isFree_of_name (h : ∀ c ∈ x, (Text.isWord c || c == '.')) : IsFree x := by
  have hquote : (Text.isWord '\'' || '\'' == '.') = false := by decide
  have hdouble : (Text.isWord '"' || '"' == '.') = false := by decide
  intro c hc
  have hword := h c hc
  refine ⟨?_, ?_⟩
  · rintro rfl
    rw [hquote] at hword
    cases hword
  · rintro rfl
    rw [hdouble] at hword
    cases hword

theorem reads_joinName (h : joinName.Reads s t) : ∃ w, IsFree w ∧ w ≠ [] ∧
    (s.rest = w ++ t.rest ∨ ∃ y, s.rest = w ++ '(' :: (y ++ ')' :: t.rest)) := by
  obtain ⟨u, ⟨_, ⟨c, rest, hs, hc, rfl⟩, cs, rest', hcs, hrest, rfl⟩, h⟩ := h
  simp only at hrest
  subst hrest
  have hfree : IsFree (c :: cs) := isFree_of_name fun e he => by
    rcases mem_cons.mp he with rfl | he
    · exact hc
    · exact hcs e he
  refine ⟨c :: cs, hfree, by simp, ?_⟩
  rcases h with h | rfl
  · obtain ⟨u₁, hopen, h⟩ := reads_all_cons h
    obtain ⟨u₂, ⟨y, rest₂, -, hy, rfl⟩, h⟩ := reads_all_cons h
    have hopen := (reads_char hopen).1
    have hclose := (reads_char h).1
    simp only at hopen hclose
    exact .inr ⟨y, by rw [hs, hopen, hy, hclose]; simp⟩
  · exact .inl hs

theorem joinName_outside (h : joinName.Reads s t) (hread : quoting.read (outside d) s.rest = outside ds) :
    ∃ x d', s.rest = x ++ t.rest ∧ quoting.read (outside d) x = outside d' := by
  obtain ⟨w, hw, -, hrest | ⟨y, hrest⟩⟩ := reads_joinName h
  · exact ⟨w, d, hrest, read_outside hw⟩
  · -- At the closing parenthesis the reader is outside again.
    have hsplit : s.rest = (w ++ '(' :: y) ++ ')' :: t.rest := by rw [hrest]; simp
    rw [hsplit, Reader.read_append] at hread
    obtain ⟨d', hd'⟩ := outside_of_joint (by decide) hread
    refine ⟨(w ++ '(' :: y) ++ [')'], d', by rw [hsplit]; simp, ?_⟩
    rw [Reader.read_append, hd', read_outside (by decide)]

/-- A quoted text, with the closing quote the first one behind the opening one. -/
theorem read_quoted (hy : IsFree y) (hread : quoting.read (outside d) ('\'' :: (y ++ '\'' :: z)) = outside ds) :
    quoting.read (outside d) ('\'' :: (y ++ ['\''])) = outside (d ++ [y]) := by
  rw [Reader.read_cons, step_outside_quote, Reader.read_append, read_inside hy] at hread ⊢
  split at hread
  · rename_i hplain
    rw [if_pos hplain]
    rfl
  · rw [read_broken] at hread
    cases hread

theorem eq_quote (hc : (['\'', '"'] : List Char).contains c) (hne : c ≠ '"') : c = '\'' := by
  simpa [hne] using hc

/-- The second operand, as the match takes it, leaves a reader outside. -/
theorem operand_outside (hk : ∀ t, (k t).isSome)
    (hend : ∀ t r, k t = some r → r.rest = t.rest) (h : joinOperand.run s k = some r)
    (hread : quoting.read (outside d) s.rest = outside ds) :
    ∃ x d', s.rest = x ++ r.rest ∧ quoting.read (outside d) x = outside d' := by
  have hdouble := double_not_mem hread
  rw [joinOperand, run] at h
  split at h
  · rename_i r' hquoted
    cases h
    obtain ⟨s₁, ⟨c, rest, hs, hc, rfl⟩, hrun⟩ := run_all_peel hquoted
    rw [run_all_cons] at hrun
    obtain ⟨y, rest', -, rfl, hlast, hfirst⟩ := lazy_first hrun
    obtain ⟨t, ⟨e, z, hz, he, rfl⟩, ht⟩ := run_reads hlast
    simp only at hz
    subst hz
    -- At a quote inside the text the repetition would have stopped.
    have hy : IsFree y := by
      intro a ha
      obtain ⟨u, v, rfl⟩ := append_of_mem ha
      have hnone := hfirst u (a :: v) rfl (by simp)
      refine ⟨?_, fun h => hdouble (by rw [hs]; simp [h])⟩
      rintro rfl
      have := hk ⟨'\'' :: (u.reverse ++ c :: s.before), v ++ e :: z, s.groups⟩
      have hsome : (all [quoteMark]).run ⟨u.reverse ++ c :: s.before, '\'' :: v ++ e :: z, s.groups⟩ k =
        k ⟨'\'' :: (u.reverse ++ c :: s.before), v ++ e :: z, s.groups⟩ := rfl
      rw [hnone] at hsome
      rw [← hsome] at this
      cases this
    have hc : c = '\'' := eq_quote hc fun h => hdouble (by rw [hs]; simp [h])
    have he : e = '\'' := eq_quote he fun h => hdouble (by rw [hs]; simp [h])
    subst hc he
    rw [hs] at hread
    refine ⟨_, _, ?_, read_quoted hy hread⟩
    rw [hs, hend _ _ ht]
    simp
  · obtain ⟨t, ht, hkt⟩ := run_reads h
    rw [hend _ _ hkt]
    exact joinName_outside ht hread

/-! ## Matches -/

theorem expand_concat (m : Match) : concatTemplate.expand m =
    "concat(".toList ++ (m.group 1 ++ (", ".toList ++ (m.group 2 ++ ")".toList))) := by
  simp only [concatTemplate, Template.expand_append, Template.expand_plain, Template.expand_group, Template.expand_nil,
    append_nil, append_assoc]

/-- The parts of a match, the second operand as it was taken. -/
theorem join_parts (h : joinPattern.at? before rest = some m) : ∃ gap gap' s k r,
    (∀ c ∈ gap, Text.isBlank c) ∧ (∀ c ∈ gap', Text.isBlank c) ∧
    rest = m.group 1 ++ (gap ++ '|' :: '|' :: (gap' ++ s.rest)) ∧
    (∀ t, (k t).isSome) ∧ (∀ t r, k t = some r → r.rest = t.rest) ∧ joinOperand.run s k = some r ∧
    m.after = r.rest ∧ s.rest = m.group 2 ++ r.rest := by
  obtain ⟨r, hr, rfl⟩ := Option.map_eq_some_iff.mp h
  obtain ⟨_, ⟨u, hu, rfl⟩, hr⟩ := run_all_peel hr
  obtain ⟨s₂, hgap, hr⟩ := run_all_peel hr
  obtain ⟨s₃, hbars, hr⟩ := run_all_peel hr
  obtain ⟨s₄, hgap', hr⟩ := run_all_peel hr
  have hgroups : s₄.groups = [(1, ⟨rest, u.rest⟩)] := by
    rw [reads_groups rfl hgap', reads_groups rfl hbars, reads_groups rfl hgap, reads_groups rfl hu]
  obtain ⟨t, ht, htr⟩ := run_reads hr
  obtain ⟨t', ht', rfl⟩ := ht
  cases htr
  obtain ⟨x, hx⟩ := reads_rest hu
  obtain ⟨y, hy⟩ := reads_rest ht'
  obtain ⟨gap, hblank, hrest⟩ := reads_blanks hgap
  obtain ⟨gap', hblank', hrest'⟩ := reads_blanks hgap'
  have hbars := (reads_literal hbars).1
  simp only at hx hrest
  have hone : (toMatch before rest { t' with groups := (2, ⟨s₄.rest, t'.rest⟩) :: t'.groups }).group 1 = x := by
    simp [Match.group, toMatch, reads_groups rfl ht', hgroups, lookup_cons, hx, Span.text_append]
  have htwo : (toMatch before rest { t' with groups := (2, ⟨s₄.rest, t'.rest⟩) :: t'.groups }).group 2 = y := by
    simp [Match.group, toMatch, hy, Span.text_append]
  refine ⟨gap, gap', s₄, fun t => some { t with groups := (2, ⟨s₄.rest, t.rest⟩) :: t.groups }, _, hblank, hblank', ?_,
    fun _ => rfl, fun t r h => ?_, hr, rfl, by rw [htwo, hy]⟩
  · rw [hone, ← hrest', ← show _ = '|' :: '|' :: s₃.rest from hbars, ← hrest, hx]
  · cases h
    rfl

/-- Matched or written, the text of a join that begins outside reads the same. -/
theorem read_match (h : joinPattern.at? before rest = some m)
    (hread : quoting.read (outside d) rest = outside ds) : ∃ d', quoting.read (outside d) m.matched = outside d' ∧
      quoting.read (outside d) (concatTemplate.expand m) = outside d' := by
  obtain ⟨gap, gap', s, k, r, hgap, hgap', hrest, hk, hend, hrun, hafter, hsecond⟩ := join_parts h
  have hmatched : m.matched = m.group 1 ++ (gap ++ '|' :: '|' :: (gap' ++ m.group 2)) := by
    have hsplit := (at_reads h).rest_eq
    rw [hrest, hsecond, hafter] at hsplit
    exact append_cancel_right (by simpa using hsplit.symm)
  -- Before the bars the reader is outside, so it is behind the first operand.
  rw [hrest, ← append_assoc, Reader.read_append] at hread
  obtain ⟨d₁, hd₁⟩ := outside_of_joint (by decide) hread
  have hfirst : quoting.read (outside d) (m.group 1) = outside d₁ := by
    rw [Reader.read_append] at hd₁
    exact outside_of_free (isFree_of_blank hgap) hd₁
  have hbars : IsFree ('|' :: '|' :: gap') := by
    intro c hc
    rcases mem_cons.mp hc with rfl | hc
    · decide
    · rcases mem_cons.mp hc with rfl | hc
      · decide
      · exact isFree_of_blank hgap' c hc
  rw [hd₁, ← cons_append, ← cons_append, Reader.read_append, read_outside hbars] at hread
  obtain ⟨y, d₂, hy, hd₂⟩ := operand_outside hk hend hrun hread
  have hsecond : m.group 2 = y := append_cancel_right (hsecond.symm.trans hy)
  refine ⟨d₂, ?_, ?_⟩
  · rw [hmatched, ← cons_append, ← cons_append, hsecond, Reader.read_append, Reader.read_append, hfirst,
      read_outside (isFree_of_blank hgap), Reader.read_append, read_outside hbars, hd₂]
  · rw [expand_concat, hsecond, Reader.read_append, read_outside (by decide), Reader.read_append, hfirst,
      Reader.read_append, read_outside (by decide), Reader.read_append, hd₂, read_outside (by decide)]

/-! ## The walk -/

/-- The literal before this place was open where a join could have begun, and none did. -/
def Passed (before rest : List Char) : Prop :=
  ∃ start x, before = x.reverse ++ '\'' :: start ∧ (∀ c ∈ x, isInLine c = true) ∧
    joinPattern.at? start ('\'' :: (x ++ rest)) = none

theorem Passed.cons (h : Passed before (c :: rest)) (hc : c ≠ '\n') : Passed (c :: before) rest := by
  obtain ⟨start, x, hbefore, hx, hnone⟩ := h
  refine ⟨start, x ++ [c], by simp [hbefore], fun e he => ?_, by simpa using hnone⟩
  rcases mem_append.mp he with he | he
  · exact hx e he
  · rw [mem_singleton.mp he]
    simpa [isInLine] using hc

/-- A quoted operand may begin at an earlier quote of the same line. -/
theorem quoted_from_start {start : List Char} (hx : ∀ c ∈ x, isInLine c)
    (h : (all [quoteMark, many false isInLine, quoteMark]).Reads ⟨x.reverse ++ '\'' :: start, '\'' :: rest, []⟩ v) :
    (all [quoteMark, many false isInLine, quoteMark]).Reads ⟨start, '\'' :: (x ++ '\'' :: rest), []⟩ v := by
  obtain ⟨_, ⟨c, rest₁, hrest₁, -, rfl⟩, h⟩ := reads_all_cons h
  obtain ⟨rfl, rfl⟩ := List.cons.inj hrest₁
  obtain ⟨_, ⟨y, rest₂, hy, hrest₂, rfl⟩, h⟩ := reads_all_cons h
  refine ⟨_, ⟨'\'', _, rfl, by decide, rfl⟩, _, ⟨x ++ '\'' :: y, rest₂, fun e he => ?_, ?_, rfl⟩, by simpa using h⟩
  · rcases mem_append.mp he with he | he
    · exact hx e he
    · rcases mem_cons.mp he with rfl | he
      · decide
      · exact hy e he
  · simp only at hrest₂
    simp [hrest₂]

theorem read_inside_joint (hx : IsFree x) (hc : c ∈ joints) : quoting.read (inside d y) (x ++ c :: z) = broken := by
  rw [Reader.read_append, read_inside hx]
  split
  · rw [Reader.read_cons, step_joint hc, read_broken]
  · rw [read_broken]

/-- Inside of a literal no join begins. -/
theorem at_none_inside (hpassed : Passed before (c :: rest)) (hread : quoting.read (inside d x) (c :: rest) = outside ds) :
    joinPattern.at? before (c :: rest) = none := by
  refine at_eq_none_iff.mpr fun u hu => ?_
  obtain ⟨_, ⟨v, hoperand, rfl⟩, hu⟩ := reads_all_cons hu
  rcases hoperand with hquoted | hname
  · obtain ⟨start, y, rfl, hy, hnone⟩ := hpassed
    have hc : c = '\'' := by
      obtain ⟨_, ⟨e, rest', he, hquote, -⟩, -⟩ := reads_all_cons hquoted
      obtain ⟨rfl, -⟩ := List.cons.inj he
      refine eq_quote hquote ?_
      rintro rfl
      rw [Reader.read_cons, step_double, read_broken] at hread
      cases hread
    subst hc
    obtain ⟨groups, hu⟩ := reads_regroup hu ((1, ⟨'\'' :: (y ++ '\'' :: rest), v.rest⟩) :: v.groups)
    exact at_eq_none_iff.mp hnone _ ⟨_, ⟨v, .inl (quoted_from_start hy hquoted), rfl⟩, hu⟩
  · obtain ⟨w, hw, -, hrest⟩ := reads_joinName hname
    obtain ⟨v', hgap, hu⟩ := reads_all_cons hu
    obtain ⟨v'', hbars, -⟩ := reads_all_cons hu
    obtain ⟨gap, hblank, hgap⟩ := reads_blanks hgap
    have hbars := (reads_literal hbars).1
    simp only at hgap hrest
    rcases hrest with hrest | ⟨y, hrest⟩
    · have hfree : IsFree (w ++ gap) := fun e he => by
        rcases mem_append.mp he with he | he
        · exact hw e he
        · exact isFree_of_blank hblank e he
      rw [hrest, hgap, hbars, ← append_assoc, cons_append, read_inside_joint hfree (by decide)] at hread
      cases hread
    · rw [hrest, read_inside_joint hw (by decide)] at hread
      cases hread

theorem joinPattern_pos : 0 < joinPattern.minLength := by decide

/-- With joins written as calls the literals are the same, from outside of a literal and from
    inside of one that no join took for its operand. -/
theorem read_joins (hread : quoting.read (outside d) t = outside ds) :
    quoting.read (outside d) (joinPattern.substitute concatTemplate t) = outside ds := by
  refine (walk_replaceFrom (I := fun before rest q => quoting.read q rest = outside ds ∧
    ∀ d x, q = inside d x → Passed before rest) joinPattern_pos ?_ ?_ t [] _ ⟨hread, nofun⟩).1
  · rintro before c rest q ⟨hread, hpassed⟩ hat
    refine ⟨hread, fun d x hq => ?_⟩
    rw [Reader.read_cons, hq] at hread
    by_cases hc : c = '\''
    · subst hc
      cases q with
      | outside => exact ⟨before, [], rfl, by simp, hat⟩
      | inside | broken => cases hq
    · have hd : c ≠ '"' := by
        rintro rfl
        rw [step_double] at hq
        cases hq
      cases q with
      | outside =>
        rw [step_outside hc hd] at hq
        cases hq
      | inside d' x' =>
        refine (hpassed d' x' rfl).cons ?_
        rintro rfl
        rw [step_joint (by decide)] at hq
        cases hq
      | broken => cases hq
  · rintro before rest m q ⟨hread, hpassed⟩ hat
    cases q with
    | outside d =>
      obtain ⟨d', hmatched, hwritten⟩ := read_match hat hread
      rw [(at_reads hat).rest_eq, Reader.read_append, hmatched] at hread
      exact ⟨hwritten ▸ hread, fun _ _ h => by rw [hwritten] at h; cases h⟩
    | inside d x =>
      cases rest with
      | nil => cases hread
      | cons c rest =>
        rw [at_none_inside (hpassed d x rfl) hread] at hat
        cases hat
    | broken =>
      rw [read_broken] at hread
      cases hread

theorem read_joinOnce (h : joinOnce? t = some t') (hread : quoting.read (outside d) t = outside ds) :
    quoting.read (outside d) t' = outside ds := by
  simp only [joinOnce?] at h
  split at h
  · cases h
    exact read_joins hread
  · cases h

theorem read_joinTexts (hread : quoting.read (outside d) t = outside ds) :
    quoting.read (outside d) (joinTexts t) = outside ds :=
  repeatStep_invariant (I := fun t => quoting.read (outside d) t = outside ds) (fun _ _ ht h => read_joinOnce h ht) 20 hread

end MappingFlow.Expression
