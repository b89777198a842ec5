/-
  MappingFlow.Proofs.Expression.Quiet — texts that a pass of the conversion leaves alone.

  Passes look for words (AND, IN_, SYSDATE), for names in front of a parenthesis (DECODE,
  UPPER) or for signs (`=`, `<>`). Here each condition is said once, about the words of the
  text (`Stands`) and the names it calls (`Calls`); the pattern of the pass is then
  absent. A text of words and the signs in `plainSigns` (`Spelled`) gives a name no other
  way to be found than inside a word.
-/

import MappingFlow.Expression.Basic
import MappingFlow.Proofs.Pattern.Replacing
import MappingFlow.Proofs.Text.Words

namespace MappingFlow

open Text
open List

variable {name k n : List Char}
variable {step : List Char → Option (List Char)}

namespace Pattern

/-! ## What fixed texts read -/

theorem reads_caseless : (caseless name).Reads s t ↔ ∃ n rest, SameLetters name n ∧ s.rest = n ++ rest ∧
      t = ⟨n.reverse ++ s.before, rest, s.groups⟩ := by
  induction name generalizing s with
  | nil =>
    refine ⟨fun h => ⟨[], s.rest, .nil, rfl, h⟩, ?_⟩
    rintro ⟨n, rest, hn, hr, rfl⟩
    cases hn
    rw [nil_append] at hr
    subst hr
    rfl
  | cons c name ih =>
    rw [caseless, map_cons]
    refine ⟨fun h => ?_, ?_⟩
    · obtain ⟨u, ⟨d, rest, hr, hd, rfl⟩, hrest⟩ := reads_all_cons h
      obtain ⟨n, rest', hn, hr', rfl⟩ := ih.mp hrest
      simp only at hr'
      exact ⟨d :: n, rest', .cons hd hn, by rw [hr, hr']; rfl, by simp⟩
    · rintro ⟨n, rest, hn, hr, rfl⟩
      cases hn with
      | @cons _ d _ n hd hn =>
        have hrest := ih (s := ⟨d :: s.before, n ++ rest, s.groups⟩).mpr ⟨n, rest, hn, rfl, by simp⟩
        have hone : (one (sameLetter c)).Reads s ⟨d :: s.before, n ++ rest, s.groups⟩ := ⟨d, n ++ rest, hr, hd, rfl⟩
        cases name with
        | nil => cases hn; exact hone
        | cons e name => exact ⟨_, hone, hrest⟩

theorem reads_literal {text : List Char} (h : (literal text).Reads s t) :
    s.rest = text ++ t.rest ∧ t.before = text.reverse ++ s.before := by
  induction text generalizing s with
  | nil => rw [show t = s from h]; exact ⟨rfl, rfl⟩
  | cons c text ih =>
    rw [literal, map_cons] at h
    obtain ⟨u, ⟨d, rest, hr, hd, rfl⟩, hrest⟩ := reads_all_cons h
    obtain ⟨h1, h2⟩ := ih hrest
    simp only at h1 h2
    rw [beq_iff_eq.mp hd] at hr h2
    exact ⟨by rw [hr, h1]; rfl, by rw [h2]; simp⟩

theorem reads_char (h : (char c).Reads s t) : s.rest = c :: t.rest ∧ t.before = c :: s.before := by
  obtain ⟨d, rest, hr, hd, rfl⟩ := h
  rw [beq_iff_eq.mp hd] at hr
  exact ⟨hr, by rw [beq_iff_eq.mp hd]⟩

theorem reads_blanks (h : blanks.Reads s t) : ∃ gap, AllBlank gap ∧ s.rest = gap ++ t.rest := by
  obtain ⟨gap, rest, hgap, hr, rfl⟩ := h
  exact ⟨gap, hgap, hr⟩

/-- A pattern with this character in it reads one. -/
theorem mem_of_reads (hp : char c ∈ ps) (h : (all ps).Reads s t) : c ∈ s.rest := by
  induction ps generalizing s with
  | nil => cases hp
  | cons p ps ih =>
    obtain ⟨u, hu, h⟩ := reads_all_cons h
    obtain ⟨x, hx⟩ := reads_rest hu
    rcases mem_cons.mp hp with rfl | hp
    · exact (reads_char hu).1 ▸ .head _
    · exact hx ▸ mem_append_right _ (ih hp h)

theorem absent_of_not_mem (hp : char c ∈ ps) (ht : c ∉ t) :
    (all ps).Absent t := fun _ _ hrest => at_eq_none_iff.mpr fun _ h =>
  ht (hrest ▸ mem_append_right _ (mem_of_reads hp h))

/-! ## Words -/

/-- Signs that stand between words. -/
def plainSigns : List Char := ['(', ')', ',', ' ', '|']

/-- Words and plain signs, nothing else. -/
def Spelled (t : List Char) : Prop := ∀ c ∈ t, isWord c = true ∨ c ∈ plainSigns

theorem startsClear_of_edge (h : atWordEdge s) (hr : s.rest = c :: rest) (hc : isWord c) : StartsClear s.before := by
  rw [atWordEdge, hr] at h
  simpa [StartsClear, hc] using h

/-- A word is read where it stands. -/
theorem reads_wholeWord (hk : k ≠ []) (hword : AllWord k) (h : (wholeWord k).Reads s u) :
    s.rest = k ++ u.rest ∧ StartsClear s.before ∧ StartsClear u.rest := by
  obtain ⟨_, ⟨rfl, hstart⟩, hu⟩ := reads_all_cons h
  obtain ⟨v, hlit, rfl, hend⟩ := reads_all_cons hu
  obtain ⟨hrest, hbefore⟩ := reads_literal hlit
  obtain ⟨c, k', rfl⟩ := exists_cons_of_ne_nil hk
  refine ⟨hrest, startsClear_of_edge hstart hrest (hword c (.head _)), ?_⟩
  -- Before the second edge stands a letter, so behind it there is none.
  have hlast : u.before.head?.any isWord = true := by
    rw [hbefore, head?_append, head?_reverse]
    obtain ⟨d, hd⟩ := Option.ne_none_iff_exists'.mp (mt getLast?_eq_none_iff.mp hk)
    rw [hd]
    exact hword d (mem_of_getLast? hd)
  rw [atWordEdge, hlast] at hend
  simpa [StartsClear] using hend

theorem wholeWord_absent (hk : k ≠ []) (hword : AllWord k) (h : ∀ b, ¬ Stands k t b) : (wholeWord k).Absent t := by
  refine fun before rest ht => at_eq_none_iff.mpr fun u hu => ?_
  obtain ⟨hrest, hbefore, hclear⟩ := reads_wholeWord hk hword hu
  simp only at hrest hbefore
  refine h u.rest ⟨hk, hword, hclear, before.reverse, ?_, ?_⟩
  · rw [ht, hrest, append_assoc]
  · rwa [EndsClear, getLast?_reverse]

/-- The letters of a name are those of no plain sign. -/
def isLettered (name : List Char) : Bool :=
  !name.isEmpty && name.all fun c => plainSigns.all fun d => !sameLetter c d

theorem exists_of_caseless (hn : SameLetters name n) (hd : d ∈ n) : ∃ c ∈ name, sameLetter c d = true := by
  induction hn with
  | nil => cases hd
  | @cons c e name n hce _ ih =>
    rcases mem_cons.mp hd with rfl | hd
    · exact ⟨c, mem_cons_self .., hce⟩
    · obtain ⟨c', hc', hd'⟩ := ih hd
      exact ⟨c', mem_cons_of_mem _ hc', hd'⟩

theorem allWord_of_caseless (hname : isLettered name)
    (hn : SameLetters name n) (hs : ∀ c ∈ n, isWord c ∨ c ∈ plainSigns) : n ≠ [] ∧ AllWord n := by
  simp only [isLettered, Bool.and_eq_true, Bool.not_eq_true', isEmpty_eq_false_iff, all_eq_true] at hname
  refine ⟨fun h => ?_, fun d hd => ?_⟩
  · subst h
    cases hn
    exact hname.1 rfl
  · refine (hs d hd).resolve_right fun hsign => ?_
    obtain ⟨c, hc, hcd⟩ := exists_of_caseless hn hd
    rw [hname.2 c hc d hsign] at hcd
    cases hcd

theorem caseless_absent (hname : isLettered name) (hs : Spelled t)
    (h : ∀ w b, Stands w t b → (caseless name).Absent w) : (caseless name).Absent t := by
  refine fun before rest ht => at_eq_none_iff.mpr fun u hu => ?_
  obtain ⟨n, rest', hn, hrest, -⟩ := reads_caseless.mp hu
  simp only at hrest
  subst hrest
  obtain ⟨hne, hword⟩ := allWord_of_caseless hname hn fun c hc => hs c (by rw [ht]; simp [hc])
  obtain ⟨x, y, hstands, -, -⟩ := exists_stands (a := before.reverse) (b := rest') hne hword
  rw [append_assoc before.reverse, ← ht, append_assoc] at hstands
  have hnone := h _ _ hstands x.reverse (n ++ y) (by simp)
  exact at_eq_none_iff.mp hnone ⟨n.reverse ++ x.reverse, y, []⟩ (reads_caseless.mpr ⟨n, y, hn, rfl, rfl⟩)

/-! ## Calls -/

/-- The word is called: a parenthesis follows, perhaps after blanks. -/
def Calls (t w : List Char) : Prop := ∃ b, Stands w t b ∧ (b.dropWhile isBlank).head? = some '('

/-- The name is at the end of the word, without regard to case. -/
def EndsIn (name w : List Char) : Prop :=
  ∃ u n, w = u ++ n ∧ SameLetters name n

/-- Where a call of the name is read, a word stands that ends in the name. -/
theorem stands_of_reads (hname : isLettered name) (hs : Spelled t) (ht : t = s.before.reverse ++ s.rest)
    (hu : (all (caseless name :: blanks :: char '(' :: ps)).Reads s u) :
    ∃ a n gap v, SameLetters name n ∧ AllBlank gap ∧
      s.rest = n ++ (gap ++ '(' :: v.rest) ∧ Stands (a ++ n) t (gap ++ '(' :: v.rest) ∧ (all ps).Reads v u := by
  obtain ⟨_, hcaseless, hu⟩ := reads_all_cons hu
  obtain ⟨n, rest, hn, hrest, rfl⟩ := reads_caseless.mp hcaseless
  obtain ⟨v, hblanks, hu⟩ := reads_all_cons hu
  obtain ⟨gap, hgap, hrest'⟩ := reads_blanks hblanks
  obtain ⟨x, hchar, hx⟩ := reads_all_cons hu
  simp only at hrest'
  rw [(reads_char hchar).1] at hrest'
  subst hrest'
  rw [hrest, ← append_assoc] at ht
  obtain ⟨hne, hword⟩ := allWord_of_caseless hname hn fun c hc => hs c (by rw [ht]; simp [hc])
  have hclear : StartsClear (gap ++ '(' :: x.rest) := by
    cases gap with
    | nil => rfl
    | cons c gap => exact isWord_of_isBlank (hgap c (.head _))
  obtain ⟨a, b, hstands, -, hb⟩ := exists_stands (a := s.before.reverse) hne hword
  obtain ⟨rfl, hdrop⟩ := hb hclear
  rw [append_nil, hdrop, ← ht] at hstands
  exact ⟨a, n, gap, x, hn, hgap, hrest, hstands, hx⟩

theorem calls_of_reads (hname : isLettered name) (hs : Spelled t) (ht : t = s.before.reverse ++ s.rest)
    (hu : (all (caseless name :: blanks :: char '(' :: ps)).Reads s u) : ∃ w, Calls t w ∧ EndsIn name w := by
  obtain ⟨a, n, gap, v, hn, hgap, -, hstands, -⟩ := stands_of_reads hname hs ht hu
  refine ⟨a ++ n, ⟨_, hstands, ?_⟩, a, n, rfl, hn⟩
  rw [dropWhile_append_of_pos hgap]
  rfl

theorem call_absent (hname : isLettered name) (hs : Spelled t) (h : ∀ w, Calls t w → ¬ EndsIn name w) :
    (all (caseless name :: blanks :: char '(' :: ps)).Absent t := by
  refine fun before rest ht => at_eq_none_iff.mpr fun u hu => ?_
  obtain ⟨w, hcalls, hends⟩ := calls_of_reads hname hs ht hu
  exact h w hcalls hends

/-- `EndsIn`, on the reversed texts. -/
def startsAs : List Char → List Char → Bool
  | [], _ => true
  | _ :: _, [] => false
  | c :: name, d :: w => sameLetter c d && startsAs name w

theorem startsAs_of_caseless (hn : SameLetters name n) (w) : startsAs name (n ++ w) = true := by
  induction hn with
  | nil => rfl
  | cons hcd _ ih => simp [startsAs, hcd, ih]

theorem EndsIn.startsAs (h : EndsIn name w) : startsAs name.reverse w.reverse = true := by
  obtain ⟨u, n, rfl, hn⟩ := h
  rw [reverse_append]
  exact startsAs_of_caseless (rel_reverse hn) _

end Pattern

namespace Expression

open Pattern

/-! ## The passes -/

variable {t : List Char}

theorem repeatStep_of_none (h : step t = none) (n : Nat) : repeatStep step n t = t := by
  cases n with
  | zero => rfl
  | succ n => rw [repeatStep, h]

theorem repeatStep_invariant {I : List Char → Prop} (h : ∀ t t', I t → step t = some t' → I t') (n : Nat) (ht : I t) :
    I (repeatStep step n t) := by
  induction n generalizing t with
  | zero => exact ht
  | succ n ih =>
    simp only [repeatStep]
    split
    · rename_i t' hstep
      exact ih (h t t' ht hstep)
    · exact ht

theorem find_of_absent {p : Pattern} (h : p.Absent t) : p.find? t = none := by
  have := occursIn_eq_false_iff.mpr h
  rwa [occursIn, Option.isSome_eq_false_iff, Option.isNone_iff_eq_none] at this

/-- IN_ and OUT_ begin no word. -/
theorem dropDirectionMarkers_quiet (h : ∀ w b, Stands w t b → ¬ "IN_".toList <+: w ∧ ¬ "OUT_".toList <+: w) :
    dropDirectionMarkers t = t := by
  refine replaceAll_of_absent fun before rest ht => at_eq_none_iff.mpr fun u hu => ?_
  obtain ⟨_, ⟨rfl, hedge⟩, hu⟩ := reads_all_cons hu
  obtain ⟨v, halt, hu⟩ := reads_all_cons hu
  obtain ⟨hchar, -⟩ := reads_char hu
  -- In both cases a word begins here and goes on behind the underscore.
  have word : ∀ n : List Char, n ≠ [] → AllWord n → (literal n).Reads ⟨before, rest, []⟩ v →
      ∃ w b, Stands w t b ∧ n ++ ['_'] <+: w := by
    intro n hn hword hlit
    obtain ⟨hrest, -⟩ := reads_literal hlit
    simp only at hrest
    obtain ⟨c, n', rfl⟩ := exists_cons_of_ne_nil hn
    have hclear := startsClear_of_edge hedge hrest (hword c (.head _))
    have hword' : AllWord (c :: n' ++ ['_']) := fun d hd => by
      rcases mem_append.mp hd with hd | hd
      · exact hword d hd
      · rw [mem_singleton.mp hd]; rfl
    obtain ⟨a, b, hstands, ha, -⟩ := exists_stands (a := before.reverse) (b := u.rest) (by simp) hword'
    have ha : a = [] := ha (by rwa [EndsClear, getLast?_reverse])
    subst ha
    refine ⟨_, u.rest.dropWhile isWord, ?_, b, rfl⟩
    rw [ht, hrest, hchar]
    simpa using hstands
  rcases halt with hlit | hlit
  · obtain ⟨w, b, hw, hin⟩ := word _ (by decide) (by unfold AllWord; decide) hlit
    exact (h w b hw).1 hin
  · obtain ⟨w, b, hw, hout⟩ := word _ (by decide) (by unfold AllWord; decide) hlit
    exact (h w b hw).2 hout

theorem convertDecode_absent (h : decodePattern.Absent t) : convertDecode t = t := by
  refine repeatStep_of_none ?_ 20
  rw [decodeOnce?, find_of_absent h]
  rfl

theorem partOnce_absent (h : (callOf "GET_DATE_PART").Absent t) : partOnce? t = none := by
  rw [partOnce?, find_of_absent h]
  rfl

theorem addOnce_absent (h : addCallPattern.Absent t) : addOnce? t = none := by
  rw [addOnce?, find_of_absent h]
  rfl

theorem convertDatePart_absent (h : (callOf "GET_DATE_PART").Absent t) : convertDatePart t = t :=
  repeatStep_of_none (partOnce_absent h) 20

theorem convertAddToDate_absent (h : addCallPattern.Absent t) : convertAddToDate t = t :=
  repeatStep_of_none (addOnce_absent h) 20

section Calls

variable (hs : Spelled t)

include hs

theorem convertDecode_quiet (h : ∀ w, Calls t w → ¬ EndsIn "DECODE".toList w) : convertDecode t = t :=
  convertDecode_absent (call_absent (by decide) hs h)

theorem convertDatePart_quiet (h : ∀ w, Calls t w → ¬ EndsIn "GET_DATE_PART".toList w) : convertDatePart t = t :=
  convertDatePart_absent (call_absent (by decide) hs h)

theorem convertAddToDate_quiet (h : ∀ w, Calls t w → ¬ EndsIn "DATE".toList w ∧ ¬ EndsIn "ADD_toDate".toList w) :
    convertAddToDate t = t := by
  refine convertAddToDate_absent fun before rest ht => at_eq_none_iff.mpr fun u hu => ?_
  rcases hu with hu | hu
  · obtain ⟨_, hadd, hu⟩ := reads_all_cons hu
    obtain ⟨n, rest', -, hrest, rfl⟩ := reads_caseless.mp hadd
    obtain ⟨v, hto, hu⟩ := reads_all_cons hu
    have hv : t = v.before.reverse ++ v.rest := by
      simp only at hrest
      rcases hto with hto | rfl
      · obtain ⟨n', rest'', -, hrest', rfl⟩ := reads_caseless.mp hto
        simp only at hrest'
        simp [ht, hrest, hrest']
      · simp [ht, hrest]
    obtain ⟨w, hcalls, hends⟩ := calls_of_reads (by decide) hs hv hu
    exact (h w hcalls).1 hends
  · obtain ⟨w, hcalls, hends⟩ := calls_of_reads (by decide) hs ht hu
    exact (h w hcalls).2 hends

/-- A rule whose name the text neither calls nor, if it takes no parentheses, has in a word. -/
theorem apply_quiet {r : CallRule} (hname : isLettered r.name.toList)
    (h : if r.arguments.isSome then ∀ w, Calls t w → ¬ EndsIn r.name.toList w
      else ∀ w b, Stands w t b → (caseless r.name.toList).Absent w) : r.apply t = t := by
  refine replaceAll_of_absent ?_
  obtain ⟨name, args, result⟩ := r
  cases args with
  | none => exact caseless_absent hname hs h
  | some args => exact call_absent hname hs h

end Calls

theorem convertCalls_quiet (h : ∀ r ∈ callRules, r.apply t = t) : convertCalls t = t := by
  refine repeatStep_of_none ?_ 10
  have hfold : ∀ rs : List CallRule, (∀ r ∈ rs, r.apply t = t) → rs.foldl CallRule.apply t = t := by
    intro rs
    induction rs with
    | nil => exact fun _ => rfl
    | cons r rs ih =>
      intro hrs
      rw [foldl_cons, hrs r (.head _)]
      exact ih fun r' hr' => hrs r' (.tail _ hr')
  rw [callsOnce?, applyCallRules, hfold callRules h]
  simp

theorem not_contains_bars (h : '|' ∉ t) : contains ['|', '|'] t = false := by
  rw [← Bool.not_eq_true, contains_iff]
  rintro ⟨a, b, hab⟩
  exact h (hab ▸ by simp)

theorem joinOnce_quiet (h : '|' ∉ t) : joinOnce? t = none := by
  rw [joinOnce?, not_contains_bars h, Bool.false_and, if_neg (by decide)]

theorem joinTexts_quiet (h : '|' ∉ t) : joinTexts t = t := repeatStep_of_none (joinOnce_quiet h) 20

theorem convertJoins_quiet (h : '|' ∉ t) (source) : convertJoins source t = t := by
  rw [convertJoins, not_contains_bars h, Bool.false_and, if_neg (by decide)]

theorem convertOperators_quiet (hwords : ∀ b, ¬ Stands "AND".toList t b ∧ ¬ Stands "OR".toList t b ∧
    ¬ Stands "NOT".toList t b) (hsigns : '<' ∉ t ∧ '=' ∉ t) : convertOperators t = t := by
  have word : ∀ k new : List Char, k ≠ [] → AllWord k → (∀ b, ¬ Stands k t b) →
      (wholeWord k).substitute (Template.plain new) t = t :=
    fun k new hk hword h => replaceAll_of_absent (wholeWord_absent hk hword h)
  have sign : ∀ (c : Char) (k new : List Char), c ∈ k → c ∉ t →
      (literal k).substitute (Template.plain new) t = t := by
    intro c k new hk hc
    refine replaceAll_of_absent fun before rest ht => at_eq_none_iff.mpr fun u hu => hc ?_
    have hrest : rest = k ++ u.rest := (reads_literal hu).1
    rw [ht, hrest]
    simp [hk]
  have hand := word _ "&&".toList (by decide) (by unfold AllWord; decide) fun b => (hwords b).1
  have hor := word _ "||".toList (by decide) (by unfold AllWord; decide) fun b => (hwords b).2.1
  have hnot := word _ "!".toList (by decide) (by unfold AllWord; decide) fun b => (hwords b).2.2
  have hunequal := sign '<' "<>".toList "!=".toList (by decide) hsigns.1
  have hequal := sign '=' "===".toList "==".toList (by decide) hsigns.2
  simp only [convertOperators, operatorRules, foldl_cons, foldl_nil, hand, hor, hnot, hunequal, hequal]

theorem convertComparisons_quiet (h : '=' ∉ t) : convertComparisons t = t :=
  replaceAll_of_absent (absent_of_not_mem (by simp) h)

/-! ## The check of the result -/

/-- The markers that are names of calls, without the parenthesis. -/
def callMarkers : List String :=
  ["GET_DATE_PART", "ADD_TO_DATE", "ADD_TODATE", "LAST_DAY", "TO_CHAR", "TO_DATE", "REPLACE_CHAR", "INSTR", "DECODE"]

def keywords : List String := ["AND", "OR", "NOT"]

theorem upper_sourceMarkers : sourceMarkers.map (fun m => upper m.toList) =
    callMarkers.map (fun m => m.toList ++ ['(']) ++ keywords.map (fun m => ' ' :: m.toList ++ [' ']) := by
  decide

theorem isUncased_of_plain (h : d ∈ plainSigns) : isUncased d = true :=
  (by decide : ∀ d ∈ plainSigns, isUncased d = true) d h

theorem calls_of_contains (hs : Spelled t) (hne : name ≠ []) (hname : ∀ d ∈ plainSigns, d ∉ name)
    (h : contains (name ++ ['(']) (upper t)) : ∃ w, Calls t w ∧ name <:+ upper w := by
  obtain ⟨a, b, hab⟩ := contains_iff.mp h
  obtain ⟨t₁, t₂, rfl, h₁, -⟩ := upper_split (d := '(') (by decide) (a := a ++ name) (b := b) (by simpa using hab)
  -- The word in front of the parenthesis; what stands before it ends in a sign.
  have hsplit : t₁ = (t₁.reverse.dropWhile isWord).reverse ++ (t₁.reverse.takeWhile isWord).reverse := by
    rw [← reverse_append, takeWhile_append_dropWhile, reverse_reverse]
  generalize hx : (t₁.reverse.dropWhile isWord).reverse = x at hsplit
  generalize hw : (t₁.reverse.takeWhile isWord).reverse = w at hsplit
  have hclear : EndsClear x := by
    rw [← hx, EndsClear, getLast?_reverse]
    exact startsClear_dropWhile _
  have hword : AllWord w := by
    intro d hd
    rw [← hw, mem_reverse] at hd
    exact allWord_takeWhile _ d hd
  have hsuffix : name <:+ upper w := by
    rw [hsplit, upper_append] at h₁
    rcases append_eq_append_iff.mp h₁ with ⟨y, -, hy⟩ | ⟨y, hy, hname'⟩
    · exact ⟨y, hy.symm⟩
    · rcases eq_nil_or_concat y with rfl | ⟨y', d, rfl⟩
      · exact ⟨[], hname'⟩
      · exfalso
        rcases eq_nil_or_concat x with rfl | ⟨x', e, rfl⟩
        · simp [upper] at hy
        · have he : e ∈ plainSigns := by
            refine (hs e (by rw [hsplit]; simp)).resolve_left fun he => ?_
            simp [EndsClear, he] at hclear
          have hde : d = e := by
            rw [concat_eq_append, upper_append, concat_eq_append, ← append_assoc] at hy
            have hlast := congrArg List.getLast? hy
            have hupper : upper [e] = [e] := by simp [upper, upperChar_of_uncased (isUncased_of_plain he)]
            rw [hupper] at hlast
            simpa using hlast.symm
          exact hname e he (by rw [hname', ← hde]; simp)
  refine ⟨w, ⟨'(' :: t₂, ⟨?_, hword, rfl, x, by rw [hsplit], hclear⟩, rfl⟩, hsuffix⟩
  rintro rfl
  exact hne (suffix_nil.mp hsuffix)

/-- A word between two blanks, whatever its case. -/
theorem contains_spaced_iff :
    contains (' ' :: k ++ [' ']) (upper t) ↔ ∃ x w y, t = x ++ ' ' :: (w ++ ' ' :: y) ∧ upper w = k := by
  have hspace : isUncased ' ' = true := by decide
  rw [contains_iff]
  constructor
  · rintro ⟨a, b, hab⟩
    obtain ⟨x, t₂, rfl, -, h₂⟩ := upper_split hspace (a := a) (b := k ++ ' ' :: b) (by simpa using hab)
    obtain ⟨w, y, rfl, hw, -⟩ := upper_split hspace h₂
    exact ⟨x, w, y, rfl, hw⟩
  · rintro ⟨x, w, y, rfl, rfl⟩
    exact ⟨upper x, upper y, by simp [upper, upperChar_of_uncased hspace]⟩

theorem stands_of_contains (hs : Spelled t) (hne : k ≠ []) (hk : ∀ d ∈ plainSigns, d ∉ k)
    (h : contains (' ' :: k ++ [' ']) (upper t)) : ∃ w b, Stands w t b ∧ upper w = k := by
  obtain ⟨t₁, w, t₃, rfl, hw⟩ := contains_spaced_iff.mp h
  refine ⟨w, ' ' :: t₃, ⟨?_, fun c hc => ?_, rfl, t₁ ++ [' '], by simp, ?_⟩, hw⟩
  · rintro rfl
    exact hne hw.symm
  · refine (hs c (by simp [hc])).resolve_right fun hsign => hk c hsign ?_
    rw [← hw]
    exact mem_flatMap.mpr ⟨c, hc, (mem_upperChar_iff (isUncased_of_plain hsign)).mpr rfl⟩
  · simp [EndsClear]
    decide

/-- A call of the name, whatever its case. -/
def hasCall (t : List Char) (name : String) : Bool := contains (name.toList ++ ['(']) (upper t)

/-- The word between two blanks, whatever its case. -/
def hasKeyword (t : List Char) (word : String) : Bool := contains (' ' :: word.toList ++ [' ']) (upper t)

theorem markersIn_eq_nil_iff :
    markersIn t = [] ↔ (∀ m ∈ callMarkers, hasCall t m = false) ∧ ∀ k ∈ keywords, hasKeyword t k = false := by
  have hmarkers : markersIn t = [] ↔ ∀ u ∈ sourceMarkers.map (fun m => upper m.toList), contains u (upper t) = false := by
    simp only [markersIn, filter_eq_nil_iff, markerIn, Bool.not_eq_true, forall_mem_map]
  rw [hmarkers, upper_sourceMarkers, forall_mem_append, forall_mem_map, forall_mem_map]
  rfl

theorem markersIn_eq_nil (hs : Spelled t) (hcalls : ∀ w, Calls t w → ∀ m ∈ callMarkers, ¬ m.toList <:+ upper w)
    (hwords : ∀ w b, Stands w t b → ∀ k ∈ keywords, upper w ≠ k.toList) : markersIn t = [] := by
  have hplain : ∀ m ∈ callMarkers ++ keywords, m.toList ≠ [] ∧ ∀ d ∈ plainSigns, d ∉ m.toList := by decide
  refine markersIn_eq_nil_iff.mpr ⟨fun name hname => ?_, fun k hk => ?_⟩
  · obtain ⟨hne, hsigns⟩ := hplain name (mem_append_left _ hname)
    refine Bool.eq_false_iff.mpr fun hmark => ?_
    obtain ⟨w, hw, hsuffix⟩ := calls_of_contains hs hne hsigns hmark
    exact hcalls w hw name hname hsuffix
  · obtain ⟨hne, hsigns⟩ := hplain k (mem_append_right _ hk)
    refine Bool.eq_false_iff.mpr fun hmark => ?_
    obtain ⟨w, b, hw, hupper⟩ := stands_of_contains hs hne hsigns hmark
    exact hwords w b hw k hk hupper

end Expression

end MappingFlow
