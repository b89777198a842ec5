/-
  MappingFlow.Proofs.Expression.Comparing — comparisons are rewritten once and for all.

  The pass writes `==` for an `=` that stands between two operands. `Pass` relates a text to
  what one pass makes of it. The pass copies an `=` only where no comparison is read
  (`Pass.copy`), and what is behind that sign keeps its first separator (`Pass.rightOperand`): no
  comparison can be read there in the result either. A written `==` is none, because no
  operand begins with `=`.
-/

import MappingFlow.Proofs.Expression.Quiet
import MappingFlow.Proofs.Pattern.Locality

namespace MappingFlow.Expression

open Pattern Text
open List hiding all

variable {c : Char} {w x y b g t : List Char}

def inOperand (c : Char) : Bool := !(isBlank c || isComparisonSign c)

/-- What may follow a right operand: the last character of a sign behind the others. -/
def separators : List (List Char × Char) := [(['&'], '&'), (['|'], '|'), ([], ','), ([], ')')]

/-- A right operand may end here. -/
def OperandEnds (t : List Char) : Prop :=
  ∃ g u, AllBlank g ∧ t = g ++ u ∧ ((u = [] ∨ u = ['\n']) ∨ ∃ e ∈ separators, ∃ v, u = e.1 ++ e.2 :: v)

/-- A right operand begins here, perhaps behind blanks. -/
def RightOperand (t : List Char) : Prop :=
  ∃ g c m s, AllBlank g ∧ isBlank c = false ∧ '=' ∉ c :: m ∧ OperandEnds s ∧ t = g ++ (c :: m ++ s)

/-- A comparison begins here. -/
def Comparison (t : List Char) : Prop :=
  ∃ w g b, w ≠ [] ∧ (∀ c ∈ w, inOperand c) ∧ AllBlank g ∧ RightOperand b ∧ t = w ++ (g ++ '=' :: b)

theorem not_rightOperand_equals : ¬ RightOperand ('=' :: b) := by
  rintro ⟨g, c, m, s, hg, -, hm, -, h⟩
  cases g with
  | nil => exact hm (by rw [(cons.inj h).1]; exact .head _)
  | cons d g => exact absurd (hg d (.head _)) (by rw [← (cons.inj h).1]; decide)

theorem not_ends_equals (hg : AllBlank g) : ¬ OperandEnds (g ++ '=' :: b) := by
  rintro ⟨g', u, hg', h, hu⟩
  have hdrop := congrArg (dropWhile isBlank) h
  rw [dropWhile_append_of_pos hg, dropWhile_append_of_pos hg', dropWhile_cons_of_neg (by decide)] at hdrop
  rcases hu with (rfl | rfl) | ⟨e, he, v, rfl⟩
  · cases hdrop
  · cases hdrop
  · simp only [separators, mem_cons, not_mem_nil, or_false] at he
    rcases he with rfl | rfl | rfl | rfl <;> cases hdrop

/-! ## Reading a comparison -/

theorem reads_ends :
    (∃ t, (seq blanks (any [literal ['&', '&'], literal ['|', '|'], char ',', char ')', finish])).Reads s t) ↔
      OperandEnds s.rest := by
  refine ⟨?_, ?_⟩
  · rintro ⟨t, u, hblanks, h⟩
    obtain ⟨g, hg, hrest⟩ := reads_blanks hblanks
    refine ⟨g, u.rest, hg, hrest, ?_⟩
    rcases h with h | h | h | h | h
    · exact .inr ⟨_, .head _, t.rest, (reads_literal h).1⟩
    · exact .inr ⟨_, .tail _ (.head _), t.rest, (reads_literal h).1⟩
    · exact .inr ⟨_, .tail _ (.tail _ (.head _)), t.rest, (reads_char h).1⟩
    · exact .inr ⟨_, .tail _ (.tail _ (.tail _ (.head _))), t.rest, (reads_char h).1⟩
    · exact .inl h.2
  · rintro ⟨g, u, hg, hrest, hu⟩
    have hblanks : blanks.Reads s ⟨g.reverse ++ s.before, u, s.groups⟩ := ⟨g, u, hg, hrest, rfl⟩
    rcases hu with hu | ⟨e, he, v, rfl⟩
    · exact ⟨_, _, hblanks, .inr (.inr (.inr (.inr ⟨rfl, hu⟩)))⟩
    · simp only [separators, mem_cons, not_mem_nil, or_false] at he
      rcases he with rfl | rfl | rfl | rfl
      · exact ⟨_, _, hblanks, .inl ⟨_, ⟨_, _, rfl, rfl, rfl⟩, _, _, rfl, rfl, rfl⟩⟩
      · exact ⟨_, _, hblanks, .inr (.inl ⟨_, ⟨_, _, rfl, rfl, rfl⟩, _, _, rfl, rfl, rfl⟩)⟩
      · exact ⟨_, _, hblanks, .inr (.inr (.inl ⟨_, _, rfl, rfl, rfl⟩))⟩
      · exact ⟨_, _, hblanks, .inr (.inr (.inr (.inl ⟨_, _, rfl, rfl, rfl⟩)))⟩

theorem reads_comparison {s t : Scan} (h : comparisonPattern.Reads s t) :
    ∃ w g g' o, w ≠ [] ∧ (∀ c ∈ w, inOperand c) ∧ AllBlank g ∧ AllBlank g' ∧ (∃ c m, o = c :: m ∧ isBlank c = false) ∧
      '=' ∉ o ∧ OperandEnds t.rest ∧ s.rest = w ++ (g ++ '=' :: (g' ++ (o ++ t.rest))) ∧
      t.groups = (2, ⟨o ++ t.rest, t.rest⟩) :: (1, ⟨s.rest, g ++ '=' :: (g' ++ (o ++ t.rest))⟩) :: s.groups := by
  obtain ⟨_, ⟨_, hleft, rfl⟩, _, ⟨g, _, hg, hgap, rfl⟩, _, hsign, _, ⟨g', _, hg', hgap', rfl⟩, _,
    ⟨_, ⟨_, ⟨c, _, hfirst, hc, rfl⟩, m, _, hm, hright, rfl⟩, rfl⟩, rfl, hends⟩ := h
  obtain ⟨w, _, hne, hw, hrest, rfl⟩ := reads_longest_iff.mp hleft
  obtain ⟨_, _, hequals, hd, rfl⟩ := hsign
  simp only at hgap hequals hgap' hfirst hright
  subst hright hfirst hgap' hequals hgap
  obtain rfl := beq_iff_eq.mp hd
  have hc' : isBlank c = false ∧ c ≠ '=' := by simpa using hc
  have ho : '=' ∉ c :: m := by
    rintro (_ | ⟨_, hmem⟩)
    · exact hc'.2 rfl
    · exact absurd (hm _ hmem) (by decide)
  exact ⟨w, g, g', c :: m, hne, hw, hg, hg', ⟨c, m, rfl, hc'.1⟩, ho, reads_ends.mp hends, hrest, rfl⟩

theorem compares_reads (h : Comparison s.rest) : ∃ t, comparisonPattern.Reads s t := by
  obtain ⟨w, g, b, hne, hw, hg, ⟨g', c, m, u, hg', hc, hm, hends, rfl⟩, hrest⟩ := h
  have hc' : (!(isBlank c || c == '=')) = true := by simpa [hc] using (ne_of_not_mem_cons hm).symm
  have hm' : ∀ d ∈ m, (d != '=') = true := fun d hd => bne_iff_ne.mpr fun h => hm (.tail _ (h ▸ hd))
  exact ⟨_, _, ⟨_, reads_longest_iff.mpr ⟨w, _, hne, hw, hrest, rfl⟩, rfl⟩, _, ⟨g, _, hg, rfl, rfl⟩, _,
    ⟨_, _, rfl, rfl, rfl⟩, _, ⟨g', _, hg', rfl, rfl⟩, _, ⟨_, ⟨_, ⟨c, _, rfl, hc', rfl⟩, m, _, hm', rfl, rfl⟩, rfl⟩, rfl,
    reads_ends.mpr hends⟩

/-! ## One pass -/

/-- What one pass makes of a text. -/
inductive Pass : List Char → List Char → Prop
  | done : Pass [] []
  | copy {c : Char} {x y : List Char} : ¬ Comparison (c :: x) → Pass x y → Pass (c :: x) (c :: y)
  | compare {w z o x y : List Char} : w ≠ [] → (∀ c ∈ w, inOperand c) → '=' ∉ o → OperandEnds x → Pass x y →
    Pass (w ++ z) (w ++ ([' ', '=', '=', ' '] ++ (o ++ y)))

theorem Pass.of_not_mem (h : Pass x y) (hy : '=' ∉ y) : x = y := by
  induction h with
  | done => rfl
  | copy _ _ ih => rw [ih (not_mem_of_not_mem_cons hy)]
  | compare => simp at hy

/-- The text before a sign of the result is copied, if no `=` is in it. -/
theorem Pass.front (h : Pass x y) (hy : y = u ++ c :: v) (hu : '=' ∉ u) (hc : c ≠ '=')
    (hblank : isBlank c = false) : ∃ v', x = u ++ c :: v' := by
  induction h generalizing u with
  | done => simp at hy
  | @copy d x y _ _ ih =>
    cases u with
    | nil => exact ⟨x, by rw [(cons.inj hy).1]; rfl⟩
    | cons e u =>
      obtain ⟨v', rfl⟩ := ih (cons.inj hy).2 (not_mem_of_not_mem_cons hu)
      exact ⟨v', by rw [(cons.inj hy).1]; rfl⟩
  | @compare w z o x y _ _ _ _ _ _ =>
    rcases append_eq_append_iff.mp hy with ⟨a, rfl, h⟩ | ⟨a, rfl, h⟩
    · exfalso
      rcases a with _ | ⟨_, _ | ⟨_, a⟩⟩
      · cases h; exact absurd hblank (by decide)
      · cases h; exact hc rfl
      · rw [← (cons.inj (cons.inj h).2).1] at hu
        simp at hu
    · cases a with
      | nil => cases h; exact absurd hblank (by decide)
      | cons e a => exact ⟨a ++ z, by rw [(cons.inj h).1, append_assoc]; rfl⟩

theorem Pass.rightOperand (h : Pass x y) (hy : RightOperand y) : RightOperand x := by
  obtain ⟨g, d, m, s, hg, hd, hm, ⟨g', u, hg', rfl, hu⟩, rfl⟩ := hy
  have hblank : ∀ {g}, AllBlank g → '=' ∉ g := fun hg hmem => absurd (hg _ hmem) (by decide)
  rcases hu with hu | ⟨e, he, v, rfl⟩
  · have hend : '=' ∉ u := by rcases hu with rfl | rfl <;> decide
    rw [h.of_not_mem (by simp only [mem_append]; simp [hblank hg, hblank hg', hm, hend])]
    exact ⟨g, d, m, _, hg, hd, hm, ⟨g', u, hg', rfl, .inl hu⟩, rfl⟩
  · have hsep : ∀ e ∈ separators, '=' ∉ e.1 ∧ e.2 ≠ '=' ∧ isBlank e.2 = false := by decide
    obtain ⟨h₁, h₂, h₃⟩ := hsep e he
    obtain ⟨v', rfl⟩ := h.front (u := g ++ (d :: m ++ (g' ++ e.1))) (v := v) (by simp)
      (by simp only [mem_append]; simp [hblank hg, hblank hg', hm, h₁]) h₂ h₃
    exact ⟨g, d, m, _, hg, hd, hm, ⟨g', _, hg', rfl, .inr ⟨e, he, v', rfl⟩⟩, by simp⟩

theorem Pass.equals (h : Pass x (g ++ '=' :: b)) (hg : AllBlank g) (hb : RightOperand b) :
    ∃ b', x = g ++ '=' :: b' ∧ RightOperand b' := by
  generalize hy : g ++ '=' :: b = y at h
  induction h generalizing g with
  | done => simp at hy
  | @copy c x y _ h ih =>
    cases g with
    | nil => cases hy; exact ⟨x, rfl, h.rightOperand hb⟩
    | cons d g =>
      obtain ⟨b', rfl, hb'⟩ := ih (fun c hc => hg c (.tail _ hc)) (cons.inj hy).2
      exact ⟨b', by rw [(cons.inj hy).1]; rfl, hb'⟩
  | @compare w z o x y hne hw _ _ _ _ =>
    obtain ⟨c, w, rfl⟩ := exists_cons_of_ne_nil hne
    have hc := hw c (.head _)
    cases g with
    | nil => cases hy; exact absurd hc (by decide)
    | cons d g => simp [inOperand, ← (cons.inj hy).1, hg d (.head _)] at hc

/-! ## The result -/

/-- No comparison begins in the text. -/
def Settled (t : List Char) : Prop := ∀ s, s <:+ t → ¬ Comparison s

/-- No left operand may be put before the text. -/
def Unled (t : List Char) : Prop := ∀ g b, AllBlank g → t = g ++ '=' :: b → ¬ RightOperand b

theorem Settled.cons (h : Settled t) (hc : inOperand c → Unled t) : Settled (c :: t) := by
  rintro s hs ⟨w, g, b, hne, hw, hg, hb, rfl⟩
  rcases suffix_cons_iff.mp hs with heq | hs
  · obtain ⟨d, w, rfl⟩ := exists_cons_of_ne_nil hne
    obtain ⟨rfl, rfl⟩ := cons.inj heq
    cases w with
    | nil => exact hc (hw _ (.head _)) g b hg rfl hb
    | cons e w => exact h _ suffix_rfl ⟨e :: w, g, b, cons_ne_nil e w, fun c hc => hw c (.tail _ hc), hg, hb, rfl⟩
  · exact h _ hs ⟨w, g, b, hne, hw, hg, hb, rfl⟩

theorem Settled.append (h : Settled t) (ht : Unled t) (hw : '=' ∉ w) : Settled (w ++ t) ∧ Unled (w ++ t) := by
  induction w with
  | nil => exact ⟨h, ht⟩
  | cons c w ih =>
    obtain ⟨hsettled, hunled⟩ := ih (not_mem_of_not_mem_cons hw)
    refine ⟨hsettled.cons fun _ => hunled, fun g b hg heq => ?_⟩
    cases g with
    | nil => exact absurd (cons.inj heq).1 (ne_of_not_mem_cons hw).symm
    | cons d g => exact hunled g b (fun c hc => hg c (.tail _ hc)) (cons.inj heq).2

theorem Pass.settled (h : Pass x y) : Settled y := by
  induction h with
  | done =>
    rintro s hs ⟨w, g, b, hne, -, -, -, rfl⟩
    simp at hs
  | @copy c x y hnone h ih =>
    refine ih.cons fun hc g b hg hy hb => ?_
    obtain ⟨b', rfl, hb'⟩ := (hy ▸ h).equals hg hb
    exact hnone ⟨[c], g, b', cons_ne_nil c [], by simpa using hc, hg, hb', rfl⟩
  | @compare w z o x y _ hw ho hends h ih =>
    have hunled : Unled y := by
      intro g b hg hy hb
      obtain ⟨b', rfl, -⟩ := (hy ▸ h).equals hg hb
      exact not_ends_equals hg hends
    have hright := (ih.append hunled (w := ' ' :: o) (by simpa using ho)).1
    have hsigns : Settled ('=' :: '=' :: (' ' :: o ++ y)) := 
      (hright.cons (absurd · (by decide))).cons (absurd · (by decide))
    have hleft : '=' ∉ w ++ [' '] := by
      simp only [mem_append, mem_singleton, not_or]
      exact ⟨fun hmem => absurd (hw _ hmem) (by decide), by decide⟩
    have htext := (hsigns.append (fun g b hg heq => ?_) hleft).1
    · simpa using htext
    · cases g with
      | nil => rw [← (cons.inj heq).2]; exact not_rightOperand_equals
      | cons d g => exact absurd (hg d (.head _)) (by rw [← (cons.inj heq).1]; decide)

theorem pass_replaceFrom (rest before) :
    Pass rest (comparisonPattern.replaceFrom comparisonTemplate.expand before 0 rest) := by
  refine replaceFrom_induction (motive := fun _ => Pass) (by decide) (fun _ => .done) (fun before c rest out hat ih => ?_)
    (fun before m out hat ih => ?_) rest before
  · refine .copy (fun h => ?_) ih
    obtain ⟨t, ht⟩ := compares_reads (s := ⟨before, c :: rest, []⟩) h
    exact at_eq_none_iff.mp hat t ht
  · obtain ⟨t, ht, hm⟩ := at_reads hat
    obtain ⟨w, g, g', o, hne, hw, -, -, -, ho, hends, hrest, hgroups⟩ := reads_comparison ht
    simp only at hrest hgroups
    have hafter : m.after = t.rest := by rw [hm]; rfl
    have hexpand : comparisonTemplate.expand m = w ++ ([' ', '=', '=', ' '] ++ o) := by
      rw [hm]
      simp [comparisonTemplate, Match.group, toMatch, hgroups, hrest, Span.text_append, lookup_cons]
    rw [hexpand, hrest, append_assoc, append_assoc]
    exact .compare hne hw ho (hafter ▸ hends) ih

/-- Converting the comparisons of a text again changes nothing. -/
theorem convertComparisons_twice (t : List Char) :
    convertComparisons (convertComparisons t) = convertComparisons t := by
  refine replaceAll_of_absent fun before rest hrest => at_eq_none_iff.mpr fun s hs => ?_
  obtain ⟨w, g, g', o, hne, hw, hg, hg', ⟨c, m, rfl, hc⟩, ho, hends, heq, -⟩ := reads_comparison hs
  exact (pass_replaceFrom t []).settled rest ⟨before.reverse, hrest.symm⟩
    ⟨w, g, _, hne, hw, hg, ⟨g', c, m, _, hg', hc, ho, hends, rfl⟩, heq⟩

end MappingFlow.Expression
