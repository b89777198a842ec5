/-
  MappingFlow.Proofs.Expression.Chains — which chains of joins are converted as a whole.

  The operands are columns and DECODE calls of columns. Two passes join at most four
  operands; of five some join is left (`convert_chain`). One DECODE among the operands, and
  the joins are not converted at all (`convert_chained`).
-/

import MappingFlow.Proofs.Expression.Joining

namespace MappingFlow.Expression

open Pattern Text Concat
open List

variable {ts : List Concat} {names : List (List Char)}

/-! ## The conversion of a chain -/

theorem mem_chain_marks (h : m ∈ between .bar (ts.map marks)) (hbar : m ≠ .bar) : ∃ t ∈ ts, m ∈ t.marks := by
  obtain ⟨p, hp, hmem⟩ := (mem_between h).resolve_left hbar
  obtain ⟨t, ht, rfl⟩ := mem_map.mp hp
  exact ⟨t, ht, hmem⟩

theorem eq_concat_of_head {t : Concat} (h : .head w ∈ t.marks) : w = "concat".toList := by
  induction t with
  | leaf name => simp [marks] at h
  | node l r ihl ihr =>
    simp only [marks, mem_cons, mem_append, not_mem_nil, or_false, Mark.head.injEq, reduceCtorEq,
      false_or] at h
    rcases h with rfl | h | h
    · rfl
    · exact ihl h
    · exact ihr h

@[simp] theorem pairUp_eq_nil : pairUp ts = [] ↔ ts = [] := by
  rw [← length_eq_zero_iff, ← length_eq_zero_iff, length_pairUp]
  omega

theorem convert_chain (h : Spoken ts) (hleaf : ∀ t ∈ ts, ∃ w, t = leaf w) (hne : ts ≠ [])
    (hdecode : contains "DECODE".toList (upper (chain ts)) = false) :
    convert (chain ts) = .ok (chain (pairUp (pairUp ts))) := by
  have hp := isPhrase_chain h hne
  have hheads : ∀ w, .head w ∉ between .bar (ts.map marks) := by
    intro w hw
    obtain ⟨t, ht, hmem⟩ := mem_chain_marks hw (by simp)
    obtain ⟨name, rfl⟩ := hleaf t ht
    cases mem_singleton.mp hmem
  have hgap : .gap ∉ between .bar (ts.map marks) := by
    intro hmem
    obtain ⟨t, -, hmem⟩ := mem_chain_marks hmem (by simp)
    exact gap_not_mem_marks t hmem
  have hsilent : ∀ name, Silent (between .bar (ts.map marks)) name := fun name w hw => absurd hw (hheads w)
  have hstructure : convertStructure (chain ts) = chain ts := by
    rw [chain_eq_phrase, convertStructure, clean_phrase hp hgap, convertDecode_phrase hp (hsilent _),
      convertDates_phrase hp (hsilent _) (hsilent _) (hsilent _)]
    exact convertCalls_quiet fun r hr => apply_phrase hr hp fun _ => hsilent _
  have hjoins : convertJoins (chain ts) (chain ts) = chain (pairUp (pairUp ts)) := by
    rw [convertJoins, hdecode, contains_chain h]
    by_cases hlen : 2 ≤ ts.length
    · simpa [hlen] using joinTexts_chain h hleaf
    · have hshort := pairUp_of_short (Nat.lt_of_not_le hlen)
      simp [hlen, hshort]
  have hp' : IsPhrase true (between .bar ((pairUp (pairUp ts)).map marks)) := isPhrase_chain h.pairUp.pairUp (by simpa using hne)
  have hresult : convertUnchecked (chain ts) = chain (pairUp (pairUp ts)) := by
    rw [convertUnchecked, hstructure, hjoins, chain_eq_phrase, convertOperators_phrase hp', convertComparisons_phrase hp']
  have hmarkers : markersIn (chain (pairUp (pairUp ts))) = [] := by
    rw [chain_eq_phrase]
    refine markersIn_phrase hp' fun w hw => ?_
    obtain ⟨t, -, hmem⟩ := mem_chain_marks hw (by simp)
    rw [eq_concat_of_head hmem]
    decide
  have hblank : isBlankText (chain ts) = false := by
    rw [chain_eq_phrase]
    exact not_isBlankText_phrase hp hgap
  rw [convert, hblank, if_neg (by decide)]
  simp only [hresult, hmarkers]

/-! ## Operands -/

/-- A column that shows neither a construct of the source language nor a DECODE. -/
def isIdentifier (w : List Char) : Bool := isOrdinary w && !contains "DECODE".toList (upper w)

theorem isOrdinary_of_identifier (h : isIdentifier w) : isOrdinary w = true :=
  (Bool.and_eq_true_iff.mp h).1

inductive Operand where
  | column (name : List Char)
  | decode (args : List (List Char))

namespace Operand

def text : Operand → List Char
  | column name => name
  | decode args => "DECODE".toList ++ ['('] ++ join [',', ' '] args ++ [')']

/-- Identifiers, and DECODE calls of three or more of them. -/
def IsPlain : Operand → Prop
  | column name => isIdentifier name = true
  | decode args => 3 ≤ args.length ∧ ∀ a ∈ args, isIdentifier a = true

instance : DecidablePred IsPlain
  | column name => inferInstanceAs (Decidable (isIdentifier name = true))
  | decode args => inferInstanceAs (Decidable (3 ≤ args.length ∧ ∀ a ∈ args, isIdentifier a = true))

def marks : Operand → List Mark
  | column name => [.column name]
  | decode args => .head "DECODE".toList :: (between .comma (args.map fun a => [.column a]) ++ [.close])

variable {o : Operand}

theorem phrase_marks (o : Operand) : phrase o.marks = o.text := by
  cases o with
  | column name => exact append_nil name
  | decode args =>
    have hargs : (args.map fun a => [Mark.column a]).map phrase = args := by
      simp [Function.comp_def, Mark.text]
    change "DECODE".toList ++ ['('] ++ phrase (between .comma _ ++ [.close]) = "DECODE".toList ++ ['('] ++ _ ++ [')']
    rw [phrase_append, phrase_between, hargs]
    simp only [Mark.text, phrase_cons, phrase_nil, append_assoc, append_nil]

theorem mem_marks (h : m ∈ o.marks) : (∃ name, m = .column name) ∨ m = .comma ∨ m = .close ∨
    m = .head "DECODE".toList := by
  cases o with
  | column name => exact .inl ⟨name, mem_singleton.mp h⟩
  | decode args =>
    simp only [marks, mem_cons, mem_append, not_mem_nil, or_false] at h
    rcases h with h | h | h
    · exact .inr (.inr (.inr h))
    · rcases mem_between h with h | ⟨p, hp, hm⟩
      · exact .inr (.inl h)
      · obtain ⟨a, -, rfl⟩ := mem_map.mp hp
        exact .inl ⟨a, mem_singleton.mp hm⟩
    · exact .inr (.inr (.inl h))

theorem isPhrase_marks (h : o.IsPlain) : IsPhrase true o.marks := by
  cases o with
  | column name => exact isPhrase_column (isOrdinary_of_identifier h)
  | decode args =>
    obtain ⟨hlen, hargs⟩ := h
    have hlist : IsPhrase true (between .comma (args.map fun a => [.column a])) := by
      refine isPhrase_between rfl rfl (fun p hp => ?_) ?_
      · obtain ⟨a, ha, rfl⟩ := mem_map.mp hp
        exact isPhrase_column (isOrdinary_of_identifier (hargs a ha))
      · rw [ne_eq, map_eq_nil_iff]
        rintro rfl
        cases hlen
    refine ⟨⟨rfl, hlist.joined.append ⟨rfl, rfl⟩⟩, fun m hm w hw => ?_⟩
    simp only [marks, mem_cons, mem_append, not_mem_nil, or_false] at hm
    rcases hm with rfl | hm | rfl
    · cases hw; decide
    · exact hlist.ordinary m hm w hw
    · cases hw

theorem flat_marks (o : Operand) : Flat false o.marks := by
  cases o with
  | column name => rfl
  | decode args =>
    refine (flat_inner fun m hm => ?_).mpr rfl
    rcases mem_between hm with rfl | ⟨p, hp, hm⟩
    · rfl
    · obtain ⟨a, -, rfl⟩ := mem_map.mp hp
      rw [mem_singleton.mp hm]
      rfl

end Operand

/-- The operands with joins between them. -/
def joined (os : List Operand) : List Char := join [' ', '|', '|', ' '] (os.map Operand.text)

/-- A nesting of two-argument `concat` calls, by its leaves from left to right. -/
inductive ConcatOf : List (List Char) → List Char → Prop where
  | leaf (x : List Char) : ConcatOf [x] x
  | call {xs ys : List (List Char)} {s t : List Char} : ConcatOf xs s → ConcatOf ys t →
      ConcatOf (xs ++ ys) ("concat(".toList ++ s ++ [',', ' '] ++ t ++ [')'])

/-- The text has no join left and nests the conversions of the operands. -/
def FullyJoined (os : List Operand) (r : List Char) : Prop :=
  contains ['|', '|'] r = false ∧
    ∃ xs, Forall₂ (fun o x => convert (Operand.text o) = .ok x) os xs ∧ ConcatOf xs r

theorem concatOf_text (t : Concat) : ConcatOf t.leaves t.text := by
  induction t with
  | leaf name => rw [text_leaf]; exact .leaf name
  | node l r ihl ihr => rw [text_node]; exact .call ihl ihr

variable {os : List Operand}

theorem joined_eq_phrase (os) : joined os = phrase (between .bar (os.map Operand.marks)) := by
  rw [phrase_between, map_map, joined]
  exact congrArg _ (map_congr_left fun o _ => (Operand.phrase_marks o).symm)

theorem chained_marks (h : ∀ o ∈ os, o.IsPlain) (hlen : 2 ≤ os.length) : Chained (between .bar (os.map Operand.marks)) := by
  refine ⟨?_, ?_, ?_, fun w hw => .inl ?_⟩
  · refine isPhrase_between rfl rfl (fun p hp => ?_) ?_
    · obtain ⟨o, ho, rfl⟩ := mem_map.mp hp
      exact Operand.isPhrase_marks (h o ho)
    · rw [ne_eq, map_eq_nil_iff]
      rintro rfl
      cases hlen
  · refine flat_between fun p hp => ?_
    obtain ⟨o, -, rfl⟩ := mem_map.mp hp
    exact o.flat_marks
  · match os with
    | a :: b :: os => simp [between]
  · obtain ⟨p, hp, hm⟩ := (mem_between hw).resolve_left (by simp)
    obtain ⟨o, -, rfl⟩ := mem_map.mp hp
    rcases Operand.mem_marks hm with ⟨_, h⟩ | h | h | h <;> cases h
    rfl

/-- One DECODE among the operands, and the joins stay. -/
theorem contains_of_decode (h : ∀ o ∈ os, o.IsPlain) (hlen : 2 ≤ os.length)
    (hargs : .decode args ∈ os) (hr : convert (joined os) = .ok r) : contains ['|', '|'] r = true := by
  have hgap : Mark.gap ∉ between .bar (os.map Operand.marks) := by
    intro hmem
    obtain ⟨p, hp, hm⟩ := (mem_between hmem).resolve_left (by simp)
    obtain ⟨o, -, rfl⟩ := mem_map.mp hp
    rcases Operand.mem_marks hm with ⟨_, h⟩ | h | h | h <;> cases h
  have hdecode : contains "DECODE".toList (upper (phrase (between .bar (os.map Operand.marks)))) = true := by
    have hmem : Mark.head "DECODE".toList ∈ between .bar (os.map Operand.marks) :=
      mem_between_of_mem (mem_map_of_mem hargs) (.head _)
    obtain ⟨pre, post, hsplit⟩ := append_of_mem hmem
    have hupper : upper "DECODE".toList = "DECODE".toList := by decide
    rw [hsplit, phrase_append, phrase_cons, Mark.text, upper_append, upper_append, upper_append, hupper]
    exact contains_iff.mpr ⟨upper (phrase pre), upper ['('] ++ upper (phrase post), by simp⟩
  rw [joined_eq_phrase] at hr
  exact convert_chained (chained_marks h hlen) hgap hdecode hr

theorem not_contains_decode (h : ∀ w ∈ names, isIdentifier w) :
    contains "DECODE".toList (upper (chain (names.map leaf))) = false := by
  have hfree : ∀ w, isIdentifier w = true → contains "DECODE".toList (upper w) = false := fun w hw => by
    simpa using (Bool.and_eq_true_iff.mp hw).2
  induction names with
  | nil => decide
  | cons w names ih =>
    have hw := hfree w (h w (.head _))
    have hlater := ih fun w' hw' => h w' (.tail _ hw')
    cases names with
    | nil => simpa [chain, join] using hw
    | cons w' names =>
      have skip : ∀ d ∈ [' ', '|'], ∀ y, contains "DECODE".toList (upper (d :: y)) = true →
          contains "DECODE".toList (upper y) = true := fun d hd y h =>
        (contains_upper_sep (x := []) ((by decide +kernel : ∀ d ∈ [' ', '|'], isUncased d = true) d hd)
          ((by decide : ∀ d ∈ [' ', '|'], d ∉ "DECODE".toList) d hd) h).resolve_left (by decide)
      rw [← Bool.not_eq_true, map_cons, map_cons, chain_cons, chainTail, text_leaf]
      intro hall
      rcases contains_upper_sep (d := ' ') (by decide +kernel) (by decide) hall with hfirst | hall
      · rw [hw] at hfirst; cases hfirst
      · have hrest : contains "DECODE".toList (upper (chain ((w' :: names).map leaf))) = true :=
          skip ' ' (by simp) _ (skip '|' (by simp) _ (skip '|' (by simp) _ hall))
        rw [hlater] at hrest
        cases hrest

theorem spoken_leaves (h : ∀ w ∈ names, isIdentifier w) : Spoken (names.map leaf) := by
  intro t ht w hw
  obtain ⟨v, hv, rfl⟩ := mem_map.mp ht
  rw [mem_singleton.mp hw]
  exact isOrdinary_of_identifier (h v hv)

/-- Columns alone are joined by two passes. -/
theorem convert_columns (h : ∀ w ∈ names, isIdentifier w) (hne : names ≠ []) :
    convert (joined (names.map .column)) = .ok (chain (pairUp (pairUp (names.map leaf)))) := by
  have htext : joined (names.map .column) = chain (names.map leaf) := by
    rw [joined, chain, map_map, map_map]
    exact congrArg _ (map_congr_left fun w _ => (text_leaf w).symm)
  rw [htext]
  refine convert_chain (spoken_leaves h) (fun t ht => ?_) (by simpa using hne) (not_contains_decode h)
  obtain ⟨w, -, rfl⟩ := mem_map.mp ht
  exact ⟨w, rfl⟩

theorem exists_names (h : ∀ o ∈ os, ∃ name, o = .column name) : ∃ names : List (List Char), os = names.map .column := by
  induction os with
  | nil => exact ⟨[], rfl⟩
  | cons o os ih =>
    obtain ⟨name, rfl⟩ := h o (.head _)
    obtain ⟨names, rfl⟩ := ih fun o ho => h o (.tail _ ho)
    exact ⟨name :: names, rfl⟩

/-- Two passes join up to four columns. -/
theorem fullyJoined_columns (h : ∀ w ∈ names, isIdentifier w) (hne : names ≠ []) (hfour : names.length ≤ 4) :
    FullyJoined (names.map .column) (chain (pairUp (pairUp (names.map leaf)))) := by
  have hpos : 0 < names.length := length_pos_iff.mpr hne
  obtain ⟨t, ht⟩ : ∃ t, pairUp (pairUp (names.map leaf)) = [t] := by
    rw [← length_eq_one_iff, length_pairUp, length_pairUp, length_map]
    omega
  have hleaves : t.leaves = names := by
    have := leaves_pairUp (pairUp (names.map leaf))
    rw [ht, leaves_pairUp, flatMap_map] at this
    simpa [leaves] using this
  have htext : chain [t] = t.text := by rw [chain_cons]; simp [chainTail]
  rw [ht, htext]
  refine ⟨?_, names, ?_, hleaves ▸ concatOf_text t⟩
  · refine not_contains_bars (bar_not_mem_operand fun w hw => ?_)
    rw [hleaves] at hw
    exact isOrdinary_of_identifier (h w hw)
  · rw [forall₂_map_left_iff, forall₂_same]
    intro w hw
    have hone := @convert_columns [w] (by simpa using h w hw) (by simp)
    have hsingle : chain (pairUp (pairUp [leaf w])) = w := text_leaf w
    rw [map_singleton, map_singleton, hsingle] at hone
    exact hone

/-- A chain is converted as a whole exactly when it has at most four operands and none of them is
    a DECODE call. -/
theorem convert_joined_iff (os : List Operand) (hlen : 2 ≤ os.length) (h : ∀ o ∈ os, o.IsPlain) :
    (∃ r, convert (joined os) = .ok r ∧ FullyJoined os r) ↔
      os.length ≤ 4 ∧ ∀ o ∈ os, ∃ name, o = .column name := by
  constructor
  · rintro ⟨r, hr, hfree, -⟩
    have hcolumns : ∀ o ∈ os, ∃ name, o = .column name := by
      intro o ho
      cases o with
      | column name => exact ⟨name, rfl⟩
      | decode args =>
        have := contains_of_decode h hlen ho hr
        rw [hfree] at this
        cases this
    refine ⟨?_, hcolumns⟩
    obtain ⟨names, rfl⟩ := exists_names hcolumns
    have hnames : ∀ w ∈ names, isIdentifier w = true := fun w hw => h (.column w) (List.mem_map_of_mem hw)
    rw [List.length_map] at hlen ⊢
    have hne : names ≠ [] := by rintro rfl; cases hlen
    rw [convert_columns hnames hne] at hr
    cases hr
    rw [contains_chain (spoken_leaves hnames).pairUp.pairUp, decide_eq_false_iff_not, length_pairUp, length_pairUp,
      List.length_map] at hfree
    omega
  · rintro ⟨hfour, hcolumns⟩
    obtain ⟨names, rfl⟩ := exists_names hcolumns
    have hnames : ∀ w ∈ names, isIdentifier w = true := fun w hw => h (.column w) (List.mem_map_of_mem hw)
    rw [List.length_map] at hlen hfour
    have hne : names ≠ [] := by rintro rfl; cases hlen
    exact ⟨_, convert_columns hnames hne, fullyJoined_columns hnames hne hfour⟩

def fourColumns : List Operand := [.column ['A'], .column ['B'], .column ['C'], .column ['D']]

theorem fourColumns_joined : (2 ≤ fourColumns.length ∧ ∀ o ∈ fourColumns, o.IsPlain) ∧
    ∃ r, convert (joined fourColumns) = .ok r ∧ FullyJoined fourColumns r :=
  have hplain : ∀ o ∈ fourColumns, o.IsPlain := by decide +kernel
  ⟨⟨by decide, hplain⟩, (convert_joined_iff fourColumns (by decide) hplain).mpr ⟨by decide, by simp [fourColumns]⟩⟩

def fiveColumns : List Operand := fourColumns ++ [.column ['E']]

/-- The pattern finds no operand before the last join any more. -/
theorem fiveColumns_unjoined : (∀ o ∈ fiveColumns, o.IsPlain) ∧
    convert (joined fiveColumns) = .ok "concat(concat(A, B), concat(C, D)) || E".toList := by
  have hplain : ∀ o ∈ fiveColumns, o.IsPlain := by decide +kernel
  refine ⟨hplain, ?_⟩
  have hresult := @convert_columns [['A'], ['B'], ['C'], ['D'], ['E']] (by decide +kernel) (by simp)
  exact hresult.trans (congrArg Except.ok (by decide))

end MappingFlow.Expression
