/-
  MappingFlow.Proofs.Expression.Edges — names next to what is replaced.

  Words, direction markers and joins are replaced where a word begins, so a name that is used
  elsewhere is not touched. The walk through the text (`walk_replaceFrom`) carries along
  that the reader of the new text is ahead (`Ahead`), or that the reader of the old text
  has only begun a name that ends here unfinished (`Keeping`).
-/

import MappingFlow.Proofs.Expression.Mentions
import MappingFlow.Proofs.Expression.Operands

namespace MappingFlow.Expression

open Pattern Reader Text
open List hiding all

variable {w t u v x y before rest : List Char}
variable {p : Pattern}

/-! ## At the edge of a word -/

/-- The old reader has begun the name, and the word is over. -/
def Unfinished (w rest : List Char) (b : Sight) : Prop := (∃ n, b = .reading n ∧ n ≠ w.length) ∧ StartsClear rest

/-- Either the new reader is ahead, or the old one has nothing. -/
def Keeping (w rest : List Char) (a b : Sight) : Prop := Ahead a b ∨ Unfinished w rest b

theorem Unfinished.step (h : Unfinished w (c :: rest) b) : Ahead ((sighting w).step a c) ((sighting w).step b c) := by
  obtain ⟨⟨n, rfl, hn⟩, hclear⟩ := h
  have hc : isWord c = false := hclear
  rw [show (sighting w).step (.reading n) c = .reading 0 by simp [sighting, hc, hn]]
  exact ahead_step hc

theorem Keeping.step (hw : w ≠ []) (h : Keeping w (c :: rest) a b) :
    Ahead ((sighting w).step a c) ((sighting w).step b c) := by
  rcases h with h | h
  · exact (ahead_respects hw).step c h
  · exact h.step

theorem Keeping.isSeen (h : Keeping w rest a b) (hb : b.isSeen w) : a.isSeen w = true := by
  rcases h with h | ⟨⟨n, rfl, hn⟩, -⟩
  · exact h.isSeen hb
  · exact absurd (beq_iff_eq.mp hb) hn

/-- The reader of the text before a place. -/
def behind (w before : List Char) : Sight := (sighting w).read (.reading 0) before.reverse

theorem behind_cons : behind w (c :: before) = (sighting w).step (behind w before) c := by
  rw [behind, reverse_cons, read_append]
  rfl

theorem behind_append : behind w (x.reverse ++ before) = (sighting w).read (behind w before) x := by
  rw [behind, reverse_append, reverse_reverse, read_append, behind]

/-- Where a word may begin, none goes on. -/
theorem behind_clear (h : StartsClear before) :
    behind w before = .reading 0 ∨ behind w before = .passed ∨ behind w before = .found := by
  have hclear : EndsClear before.reverse := by rwa [EndsClear, getLast?_reverse]
  rcases ahead_of_endsClear (w := w) hclear with h | h | h | ⟨h, -⟩
  · cases h
  · exact .inl h
  · exact .inr (.inr h)
  · exact .inr (.inl h)

/-- A walk that keeps the new reader level keeps what is seen. -/
theorem sees_of_walk {J : List Char → List Char → Sight → Prop} (hp : 0 < p.minLength) (hstart : J [] t (.reading 0))
    (hcopy : ∀ before c rest a, t = before.reverse ++ c :: rest → J before (c :: rest) a → p.at? before (c :: rest) = none → J (c :: before) rest ((sighting w).step a c))
    (hmatch : ∀ before rest m a, t = before.reverse ++ rest → J before rest a → p.at? before rest = some m → J (m.matched.reverse ++ before) m.after ((sighting w).read a (write m)))
    (hend : ∀ before a, J before [] a → (behind w before).isSeen w → a.isSeen w) (h : Sees w t) :
    Sees w (p.replaceAll write t) := by
  have hwalk := walk_replaceFrom (r := sighting w)
    (I := fun before rest a => t = before.reverse ++ rest ∧ J before rest a) hp
    (fun before c rest a ⟨ht, hJ⟩ hnone => ⟨by simp [ht], hcopy before c rest a ht hJ hnone⟩)
    (fun before rest m a ⟨ht, hJ⟩ hsome => ⟨by simp [ht, (at_reads hsome).rest_eq], hmatch before rest m a ht hJ hsome⟩)
    t [] (.reading 0) ⟨rfl, hstart⟩
  simp only [append_nil] at hwalk
  refine hend _ _ hwalk.2 ?_
  rwa [behind, reverse_reverse]

/-! ## Words -/

/-- A match of a word, and the clear text around it. -/
theorem wholeWord_parts (hx : AllWord x) (hne : x ≠ []) (h : (wholeWord x).at? before rest = some m) :
    m.matched = x ∧ StartsClear before ∧ StartsClear m.after ∧ ∃ c rest', isWord c ∧ rest = c :: rest' := by
  obtain ⟨u, hreads, rfl⟩ := at_reads h
  obtain ⟨hrest, hbefore, hclear⟩ := reads_wholeWord hne hx hreads
  simp only at hrest hbefore
  obtain ⟨c, x', rfl⟩ := exists_cons_of_ne_nil hne
  exact ⟨by simp only [toMatch, hrest, Span.text_append], hbefore, hclear, c, _, hx c (.head _), hrest⟩

theorem not_unfinished (hc : isWord c) : ¬ Unfinished w (c :: rest) b := by
  rintro ⟨-, hclear⟩
  rw [StartsClear, head?_cons, Option.any_some, hc] at hclear
  cases hclear

theorem wholeWord_pos (hne : x ≠ []) : 0 < (wholeWord x).minLength := by
  obtain ⟨c, x, rfl⟩ := exists_cons_of_ne_nil hne
  cases x <;> simp [wholeWord, literal, all, char, minLength]

/-- A word gives way to firm text; a name that is another word stays. -/
theorem sees_wholeWord (hw : w ≠ []) (hx : AllWord x) (hne : x ≠ []) (hother : x ≠ w) (hv : isFirm v)
    (h : Sees w t) : Sees w ((wholeWord x).substitute (.plain v) t) := by
  refine sees_of_walk (J := fun before rest a => Keeping w rest a (behind w before)) (wholeWord_pos hne)
    (.inl (.inr (.inl rfl))) (fun before c rest a _ hJ _ => .inl (behind_cons ▸ hJ.step hw))
    (fun before rest m a _ hJ hat => ?_) (fun before a hJ hb => hJ.isSeen hb) h
  obtain ⟨hmatched, hbefore, hafter, c, rest', hc, rfl⟩ := wholeWord_parts hx hne hat
  have hJ : Ahead a (behind w before) := hJ.resolve_right (not_unfinished hc)
  rw [hmatched, behind_append, Template.expand_plain]
  rcases behind_clear (w := w) hbefore with hb | hb
  · -- The word is not the name, so it is lost or an unfinished part of it.
    rw [hb, read_reading hx, drop_zero, Nat.zero_add]
    split
    · rename_i hpart
      exact .inr ⟨⟨_, rfl, fun hlength => hother (hpart.eq_of_length hlength)⟩, hafter⟩
    · exact .inl (.inl rfl)
  · rw [read_firm hv hJ hb]
    exact .inl (.inr (.inr (.inl rfl)))

/-! ## Direction markers -/

/-- A match of a marker, the clear text before it and the word that goes on behind it. -/
theorem marker_parts (hbare : ∀ b, ¬ Stands "IN_".toList t b ∧ ¬ Stands "OUT_".toList t b)
    (ht : t = before.reverse ++ rest) (h : markerPattern.at? before rest = some m) :
    (m.matched = "IN_".toList ∨ m.matched = "OUT_".toList) ∧ StartsClear before ∧ ¬ StartsClear m.after := by
  obtain ⟨u, hreads, rfl⟩ := at_reads h
  obtain ⟨_, ⟨rfl, hedge⟩, hu⟩ := reads_all_cons hreads
  obtain ⟨v, halt, hchar⟩ := reads_all_cons hu
  have hchar := (reads_char hchar).1
  have marker : ∀ n : List Char, n ≠ [] → AllWord n → (∀ b, ¬ Stands (n ++ ['_']) t b) →
      (literal n).Reads ⟨before, rest, []⟩ v →
      (toMatch before rest u).matched = n ++ ['_'] ∧ StartsClear before ∧ ¬ StartsClear u.rest := by
    intro n hn hword hnone hlit
    have hrest := (reads_literal hlit).1
    simp only [hchar] at hrest
    have hrest : rest = (n ++ ['_']) ++ u.rest := by simp [hrest]
    obtain ⟨c, n', rfl⟩ := exists_cons_of_ne_nil hn
    have hclear : StartsClear before :=
      startsClear_of_edge hedge (show _ = c :: (n' ++ '_' :: u.rest) by simp [hrest]) (hword c (.head _))
    refine ⟨by simp only [toMatch, hrest, Span.text_append], hclear, fun hafter => ?_⟩
    refine hnone u.rest ⟨by simp, fun d hd => ?_, hafter, before.reverse, by rw [ht, hrest]; simp, ?_⟩
    · rcases mem_append.mp hd with hd | hd
      · exact hword d hd
      · rw [mem_singleton.mp hd]; rfl
    · rwa [EndsClear, getLast?_reverse]
  rcases halt with hlit | hlit
  · obtain ⟨hmatched, hclear⟩ := marker _ (by decide) (by unfold AllWord; decide) (fun b => (hbare b).1) hlit
    exact ⟨.inl hmatched, hclear⟩
  · obtain ⟨hmatched, hclear⟩ := marker _ (by decide) (by unfold AllWord; decide) (fun b => (hbare b).2) hlit
    exact ⟨.inr hmatched, hclear⟩

/-- Where a marker was dropped behind a name and blanks, the word it began comes next. -/
def Trailing (rest : List Char) (a b : Sight) : Prop := Ahead a b ∨ a = .passed ∧ b = .found ∧ ¬ StartsClear rest

/-- A name that begins with no marker, in a text in which no marker is a word. -/
theorem sees_dropDirectionMarkers (hw : w ≠ []) (hmark : ¬ "IN_".toList <+: w ∧ ¬ "OUT_".toList <+: w)
    (hbare : ∀ b, ¬ Stands "IN_".toList t b ∧ ¬ Stands "OUT_".toList t b) (h : Sees w t) :
    Sees w (dropDirectionMarkers t) := by
  refine sees_of_walk (J := fun before rest a => Trailing rest a (behind w before)) (by decide) (.inl (.inr (.inl rfl)))
    (fun before c rest a _ hJ _ => ?_) (fun before rest m a ht hJ hat => ?_) (fun before a hJ hb => ?_) h
  · rw [behind_cons]
    rcases hJ with hJ | ⟨rfl, hb, hword⟩
    · exact .inl ((ahead_respects hw).step c hJ)
    · have hc : isWord c = true := by simpa [StartsClear] using hword
      exact .inl (.inr (.inr (.inl (step_word hc).2.1)))
  · obtain ⟨hmatched, hclear, hword⟩ := marker_parts hbare ht hat
    have hmarker : AllWord m.matched ∧ m.matched ≠ [] ∧ ¬ m.matched <+: w := by
      rcases hmatched with hm | hm <;> rw [hm]
      · exact ⟨by unfold AllWord; decide, by decide, hmark.1⟩
      · exact ⟨by unfold AllWord; decide, by decide, hmark.2⟩
    rw [behind_append]
    change Trailing m.after a _
    rcases behind_clear (w := w) hclear with hb | hb | hb
    · rw [hb, read_reading hmarker.1, drop_zero, if_neg hmarker.2.2]
      exact .inl (.inl rfl)
    · rw [hb, read_passed hmarker.1 hmarker.2.1]
      rcases hJ with hJ | ⟨-, hJ, -⟩
      · rw [hb] at hJ
        rcases hJ.of_passed with rfl | rfl
        · exact .inr ⟨rfl, rfl, hword⟩
        · exact .inl (.inr (.inl rfl))
      · rw [hb] at hJ
        cases hJ
    · rw [hb, read_found]
      rcases hJ with hJ | ⟨rfl, -, -⟩
      · exact .inl (.inr (.inl (hb ▸ hJ).eq_found))
      · exact .inr ⟨rfl, rfl, hword⟩
  · rcases hJ with hJ | ⟨-, -, hword⟩
    · exact hJ.isSeen hb
    · exact absurd rfl hword

/-! ## Joins -/

theorem optional_isSome {t : Scan} (hk : (k t).isSome) :
    ((Pattern.optional p).run t k).isSome = true := run_isSome (.inr rfl) hk

def isOperandPart (c : Char) : Bool := isWord c || c == '.'

/-- The second operand goes as far as it can. -/
theorem operand_ends {s r : Scan} (hk : ∀ t, (k t).isSome) (hend : ∀ t r, k t = some r → r.rest = t.rest)
    (h : joinOperand.run s k = some r) :
    ∃ x, s.rest = x ++ r.rest ∧ x ≠ [] ∧ (EndsClear x ∨ r.rest.head?.any isOperandPart = false) := by
  rw [joinOperand, run] at h
  split at h
  · rename_i r' hquoted
    cases h
    obtain ⟨t, ht, hkt⟩ := run_reads hquoted
    obtain ⟨_, ⟨c, rest, hs, -, rfl⟩, ht⟩ := reads_all_cons ht
    obtain ⟨_, ⟨y, rest', -, hy, rfl⟩, ht⟩ := reads_all_cons ht
    obtain ⟨d, z, hz, hd, rfl⟩ := ht
    simp only at hy hz
    refine ⟨c :: y ++ [d], by rw [hs, hy, hz, hend _ _ hkt]; simp, by simp, .inl ?_⟩
    have hword : isWord d = false := by
      have hquote : d = '\'' ∨ d = '"' := by simpa using hd
      rcases hquote with rfl | rfl <;> decide
    exact (endsClear_append (by simp)).mpr hword
  · -- What may follow the name never fails, so the name is as long as can be.
    change ((one isOperandPart).run s fun u => (many true isOperandPart).run u fun t => (Pattern.optional _).run t k) =
      some r at h
    obtain ⟨_, ⟨c, rest, hs, -, rfl⟩, h⟩ := run_reads h
    obtain ⟨y, rest', -, hy, hstop, h⟩ := greedy_last (fun t => optional_isSome (hk t)) h
    obtain ⟨t, ht, hkt⟩ := run_reads h
    rw [hend _ _ hkt]
    rcases ht with ht | rfl
    · obtain ⟨_, hopen, ht⟩ := reads_all_cons ht
      obtain ⟨_, ⟨z, rest'', -, hz, rfl⟩, ht⟩ := reads_all_cons ht
      have hopen := (reads_char hopen).1
      have hclose := (reads_char ht).1
      simp only at hopen hclose hz
      refine ⟨c :: y ++ '(' :: z ++ [')'], by rw [hs, hy, hopen, hz, hclose]; simp, by simp, .inl ?_⟩
      exact (endsClear_append (by simp)).mpr rfl
    · exact ⟨c :: y, by rw [hs, hy]; simp, by simp, .inr hstop⟩

/-- The parts of a match, and how it ends. -/
theorem join_ends (h : joinPattern.at? before rest = some m) : ∃ gap gap', AllBlank gap ∧ AllBlank gap' ∧
    m.matched = m.group 1 ++ (gap ++ '|' :: '|' :: (gap' ++ m.group 2)) ∧ m.group 2 ≠ [] ∧
    (EndsClear (m.group 2) ∨ m.after.head?.any isOperandPart = false) := by
  obtain ⟨gap, gap', s, k, r, hgap, hgap', hrest, hk, hend, hrun, hafter, hsecond⟩ := join_parts h
  obtain ⟨x, hx, hne, hlast⟩ := operand_ends hk hend hrun
  obtain rfl : m.group 2 = x := append_cancel_right (hsecond.symm.trans hx)
  refine ⟨gap, gap', hgap, hgap', ?_, hne, hafter ▸ hlast⟩
  have hsplit := (at_reads h).rest_eq
  rw [hrest, hsecond, hafter] at hsplit
  exact append_cancel_right (by simpa using hsplit.symm)

/-- A first operand may begin here: no word goes on, or the place before was tried in vain, or none can begin. -/
def Joinable (before rest : List Char) : Prop :=
  StartsClear before ∨ (∃ c before', before = c :: before' ∧ isWord c = true ∧ joinPattern.at? before' (c :: rest) = none) ∨
    rest.head?.any isOperandPart = false

/-- A dotted name may begin one word character earlier. -/
theorem joinName_earlier {v : Scan} (hc : isWord c) (h : joinName.Reads ⟨c :: before, rest, []⟩ v) :
    joinName.Reads ⟨before, c :: rest, []⟩ v := by
  obtain ⟨_, ⟨_, ⟨d, rest₁, hrest, hd, rfl⟩, ds, rest₂, hds, hrest₂, rfl⟩, hargs⟩ := h
  simp only at hrest hrest₂
  refine ⟨_, ⟨_, ⟨c, rest, rfl, by simp [hc], rfl⟩, d :: ds, rest₂, fun e he => ?_, by rw [hrest, hrest₂]; rfl, rfl⟩, ?_⟩
  · rcases mem_cons.mp he with rfl | he
    · exact hd
    · exact hds e he
  · simpa using hargs

/-- A first operand is quoted, or begins where no word goes on. -/
theorem join_begins (hplace : Joinable before rest) (h : joinPattern.at? before rest = some m) :
    (∃ c y, m.group 1 = c :: y ∧ isQuote c) ∨ StartsClear before := by
  obtain ⟨u, hreads, hm⟩ := at_reads h
  obtain ⟨_, ⟨v, hoperand, rfl⟩, hu⟩ := reads_all_cons hreads
  rcases hoperand with hquoted | hname
  · left
    obtain ⟨_, ⟨c, rest', hrest, hc, -⟩, -⟩ := reads_all_cons hquoted
    have hquote : isQuote c = true := by simpa [isQuote] using hc
    have hsign : isBlank c = false ∧ c ≠ '|' := by
      have : c = '\'' ∨ c = '"' := by simpa using hc
      rcases this with rfl | rfl <;> decide
    obtain ⟨gap, gap', s, k, r, hgap, -, hparts, -⟩ := join_parts h
    simp only at hrest
    rw [hrest] at hparts
    cases hfirst : m.group 1 with
    | cons d y =>
      rw [hfirst, cons_append] at hparts
      exact ⟨d, y, rfl, (List.cons.inj hparts).1 ▸ hquote⟩
    | nil =>
      rw [hfirst, nil_append] at hparts
      cases gap with
      | nil => exact absurd (List.cons.inj hparts).1 hsign.2
      | cons d gap =>
        have := hgap d (.head _)
        rw [← (List.cons.inj hparts).1, hsign.1] at this
        cases this
  · right
    rcases hplace with hclear | ⟨c, before', rfl, hc, hnone⟩ | hnone
    · exact hclear
    · obtain ⟨groups, hu⟩ := reads_regroup hu ((1, ⟨c :: rest, v.rest⟩) :: v.groups)
      exact (at_eq_none_iff.mp hnone _ ⟨_, ⟨v, .inr (joinName_earlier hc hname), rfl⟩, hu⟩).elim
    · obtain ⟨_, ⟨_, ⟨d, rest₁, hrest, hd, -⟩, -⟩, -⟩ := hname
      simp only at hrest
      rw [hrest] at hnone
      exact absurd (hd.symm.trans hnone) (by simp)

theorem read_bars (hw : w ≠ []) (hx : AllBlank x) (hy : AllBlank y) :
    (sighting w).read s (x ++ '|' :: '|' :: y) = s.severed w := by
  have hsplit : x ++ '|' :: '|' :: y = (x ++ ['|']) ++ ([] ++ '|' :: y) := by simp
  rw [hsplit, read_append, read_sign hw hx (by decide) (forall_mem_nil _), read_sign hw (forall_mem_nil _) (by decide) hy,
    severed_severed hw]

/-- Read with the name of the call before it, a first operand leaves the new reader ahead. -/
theorem first_operand (hw : w ≠ []) (hkeep : Keeping w rest a (behind w before)) (hplace : Joinable before rest)
    (h : joinPattern.at? before rest = some m) :
    Ahead ((sighting w).read a ("concat(".toList ++ m.group 1)) ((sighting w).read (behind w before) (m.group 1)) := by
  have hname : ∀ s : Sight, Ahead ((sighting w).read s "concat(".toList) (.reading 0) := fun s =>
    ahead_ends (by decide) (by unfold EndsClear; decide)
  -- A name and blanks before the place have been used, on both sides.
  have hused : behind w before = .passed ∨ behind w before = .found → (sighting w).read a "concat(".toList = .found := by
    intro hb
    rcases hkeep with hkeep | ⟨⟨n, hn, -⟩, -⟩
    · exact read_firm (by decide) hkeep hb
    · rw [hn] at hb
      rcases hb with hb | hb <;> cases hb
  rw [read_append]
  rcases join_begins hplace h with ⟨c, y, hfirst, hc⟩ | hclear
  · rw [hfirst, read_cons, read_cons]
    refine (ahead_respects hw).read ?_ y
    by_cases hb : behind w before = .passed ∨ behind w before = .found
    · rw [hused hb]
      exact .inr (.inr (.inl rfl))
    · rw [step_quote hc (s := behind w before), Sight.opened, if_neg (by tauto)]
      exact ahead_step (by
        have : c = '\'' ∨ c = '"' := by simpa [isQuote] using hc
        rcases this with rfl | rfl <;> decide)
  · refine (ahead_respects hw).read ?_ _
    rcases behind_clear (w := w) hclear with hb | hb
    · rw [hb]
      exact hname a
    · rw [hused hb]
      exact .inr (.inr (.inl rfl))

/-- With the closing parenthesis behind it, a second operand is over. -/
theorem Ahead.closed (h : Ahead a b) (hend : Ahead b (.reading 0) ∨ StartsClear rest) : Keeping w rest (a.severed w) b := by
  by_cases hb : b.isSeen w = true
  · exact .inl (by rw [Sight.severed, if_pos (h.isSeen hb)]; exact .inr (.inr (.inl rfl)))
  · cases b with
    | lost => exact .inl (.inl rfl)
    | reading n =>
      have hn : n ≠ w.length := fun hn => hb (beq_iff_eq.mpr hn)
      rcases hend with hfresh | hclear
      · refine .inl ?_
        rcases hfresh with h | h | h | ⟨h, -⟩
        · cases h
        · rw [h]
          exact severed_ahead
        · cases h
        · cases h
      · exact .inr ⟨⟨n, rfl, hn⟩, hclear⟩
    | passed | found => exact absurd rfl hb

theorem sees_joins (hw : w ≠ []) (h : Sees w t) : Sees w (joinPattern.substitute concatTemplate t) := by
  refine sees_of_walk (J := fun before rest a => Keeping w rest a (behind w before) ∧ Joinable before rest) joinPattern_pos
    ⟨.inl (.inr (.inl rfl)), .inl rfl⟩ (fun before c rest a _ hJ hnone => ?_) (fun before rest m a _ hJ hat => ?_)
    (fun before a hJ hb => hJ.1.isSeen hb) h
  · refine ⟨.inl (behind_cons ▸ hJ.1.step hw), ?_⟩
    by_cases hc : isWord c = true
    · exact .inr (.inl ⟨c, before, rfl, hc, hnone⟩)
    · exact .inl (by simpa [StartsClear] using hc)
  · obtain ⟨gap, gap', hgap, hgap', hmatched, hne, hlast⟩ := join_ends hat
    have hfirst := first_operand hw hJ.1 hJ.2 hat
    have hcomma : (sighting w).read ((sighting w).read a ("concat(".toList ++ m.group 1)) ", ".toList =
        ((sighting w).read a ("concat(".toList ++ m.group 1)).severed w :=
      read_sign (x := []) (y := [' ']) hw (forall_mem_nil _) (by decide) (by decide)
    have hsecond := (ahead_respects hw).read (hfirst.severed (w := w)) (m.group 2)
    have hold : behind w (m.matched.reverse ++ before) =
        (sighting w).read (((sighting w).read (behind w before) (m.group 1)).severed w) (m.group 2) := by
      rw [behind_append, hmatched, ← cons_append, ← cons_append, ← append_assoc gap, read_append,
        read_append, read_bars hw hgap hgap']
    have hnew : (sighting w).read a (concatTemplate.expand m) = ((sighting w).read
        (((sighting w).read a ("concat(".toList ++ m.group 1)).severed w) (m.group 2)).severed w := by
      rw [expand_concat, ← append_assoc, read_append, read_append, hcomma, read_append]
      exact step_sign (by decide)
    rw [hnew, hold]
    refine ⟨hsecond.closed ?_, ?_⟩
    · rcases hlast with hends | hnext
      · exact .inl (ahead_ends hne hends)
      · refine .inr ?_
        cases hafter : m.after with
        | nil => rfl
        | cons c after =>
          rw [hafter] at hnext
          simp only [head?_cons, Option.any_some, isOperandPart, Bool.or_eq_false_iff] at hnext
          exact hnext.1
    · rcases hlast with hends | hnext
      · refine .inl ?_
        have hclear : EndsClear m.matched := by
          have hsplit : m.matched = (m.group 1 ++ (gap ++ '|' :: '|' :: gap')) ++ m.group 2 := by simp [hmatched]
          rwa [hsplit, endsClear_append hne]
        have hnonempty := at_ne_nil joinPattern_pos hat
        exact startsClear_append (by rwa [StartsClear, head?_reverse]) (by simpa using hnonempty)
      · exact .inr (.inr hnext)

end MappingFlow.Expression
