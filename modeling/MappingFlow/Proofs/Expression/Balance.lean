/-
  MappingFlow.Proofs.Expression.Balance — conversion keeps parentheses and quotes in
  balance.

  A parenthesis weighs one up or one down, a quote of either kind one modulo two, and
  every other character nothing (`mark`). Each pass of the conversion keeps this weight:
  - `recasts_weighs`: a pass that replaces the matches of one pattern, by what the
    pieces of the pattern weigh and the template writes for them.
  - `weigh_applyCallRules`: the rules for calls, which all pass one check (`isBalanced`).
  - `weigh_decodeOnce` / `weigh_addOnce` / `weigh_partOnce`: the passes that take a call
    apart, drop some of it and put the rest together.
  So does the whole conversion (`weigh_convert`), on any text, well formed or not.
-/

import MappingFlow.Proofs.Expression.Arguments
import MappingFlow.Proofs.Expression.Quiet
import MappingFlow.Proofs.Expression.Rules
import Mathlib.Algebra.Field.ZMod

namespace MappingFlow.Expression

open Pattern
open List hiding all

variable {p : Pattern} {l k : List Pattern} {t t' v : List Char} {rule : CallRule} {c d d' : ℤ × ZMod 2}

def signs : List Char := ['(', ')', '\'', '"']

def mark (c : Char) : ℤ × ZMod 2 :=
  if c = '(' then (1, 0)
  else if c = ')' then (-1, 0)
  else if c = '\'' then (0, 1)
  else if c = '"' then (0, 1)
  else 0

theorem mark_eq_zero {c : Char} (h : c ∉ signs) : mark c = 0 := by
  simp only [signs, mem_cons, not_mem_nil, or_false, not_or] at h
  simp [mark, h.1, h.2.1, h.2.2.1, h.2.2.2]

theorem weigh_mark (t) : weigh mark t =
    ((t.count '(' : ℤ) - t.count ')', ((t.count '\'' + t.count '"' : ℕ) : ZMod 2)) := by
  induction t with
  | nil => rfl
  | cons c t ih =>
    rw [weigh_cons, ih]
    by_cases h1 : c = '('
    · subst h1; simp [mark]; abel
    by_cases h2 : c = ')'
    · subst h2; simp [mark]; abel
    by_cases h3 : c = '\''
    · subst h3; simp [mark]; abel
    by_cases h4 : c = '"'
    · subst h4; simp [mark]; abel
    simp [mark, h1, h2, h3, h4]

/-- A pattern that captures nothing and reads none of the signs. -/
def isUnmarked (p : Pattern) : Bool := p.isGroupless && signs.all (rejects · p)

/-- Whatever the pattern reads has this weight. -/
def Weighs (p : Pattern) (c : ℤ × ZMod 2) : Prop := Finds p (weigh mark · = c)

theorem weighs_unmarked (h : isUnmarked p) : Weighs p 0 := by
  simp only [isUnmarked, Bool.and_eq_true, all_eq_true] at h
  refine ⟨h.1, fun s s' u hr hu => weigh_eq_zero mark fun c hc => mark_eq_zero fun hs => ?_⟩
  obtain ⟨x, hx, hrest⟩ := reads_rejects (h.2 c hs) hr
  exact hx (append_cancel_right (hrest.symm.trans hu) ▸ hc)

theorem weighs_char (c : Char) : Weighs (all [char c]) (mark c) := (finds_char c).mono fun _ hu => by simp [hu]

theorem weighs_quote : Weighs (all [quoteMark]) (0, 1) := by
  refine (finds_one _).mono ?_
  rintro _ ⟨c, hc, rfl⟩
  simp only [contains_iff_mem, mem_cons, not_mem_nil, or_false] at hc
  rcases hc with rfl | rfl <;> rfl

theorem Weighs.append (hp : Weighs (all l) c) (hq : Weighs (all k) d) : Weighs (all (l ++ k)) (c + d) :=
  finds_append hp hq fun x y hx hy => by rw [weigh_append, hx, hy]

theorem weighs_last (hp : isUnmarked (all l)) (c : Char) : Weighs (all (l ++ [char c])) (mark c) := by
  simpa using (weighs_unmarked hp).append (weighs_char c)

theorem recasts_weighs (hp : Weighs p c) (h : d + weigh mark v = c + d') :
    p.Recasts (weighing mark) (AheadBy d) (AheadBy d') (.plain v) [] :=
  recasts_of_finds hp fun _ hu => leads_weighing (hu ▸ h)

theorem same_weighing (d) (g) : (weighing mark).Leads (AheadBy d) (AheadBy d) g g :=
  leads_weighing (add_comm _ _)

/-! ## Texts -/

theorem mark_blank (c : Char) (hc : Text.isBlank c) : mark c = 0 := by
  have hsigns : signs.all (!Text.isBlank ·) = true := by decide
  exact mark_eq_zero fun hs => by simpa [hc] using all_eq_true.mp hsigns c hs

theorem weigh_trimLeft (t) : weigh mark (Text.trimLeft t) = weigh mark t := by
  have hz : weigh mark (t.takeWhile Text.isBlank) = 0 :=
    weigh_eq_zero mark fun c hc => mark_blank c (all_eq_true.mp all_takeWhile c hc)
  have h := congrArg (weigh mark) (takeWhile_append_dropWhile (p := Text.isBlank) (l := t))
  rwa [weigh_append, hz, zero_add] at h

@[simp] theorem weigh_trim (t) : weigh mark (Text.trim t) = weigh mark t := by
  rw [Text.trim, Text.trimRight, weigh_reverse, weigh_trimLeft, weigh_reverse, weigh_trimLeft]

theorem weigh_squeezeFrom (inRun : Bool) (t) : weigh mark (Text.squeezeFrom inRun t) = weigh mark t := by
  induction t generalizing inRun with
  | nil => rfl
  | cons c rest ih =>
    simp only [Text.squeezeFrom]
    split
    · rename_i hc
      rw [weigh_cons, mark_blank c hc, zero_add]
      split
      · exact ih true
      · rw [weigh_cons, ih true, mark_blank ' ' (by decide), zero_add]
    · rw [weigh_cons, weigh_cons, ih false]

theorem weigh_join (hs : weigh mark sep = 0) (ts) : weigh mark (Text.join sep ts) = (ts.map (weigh mark)).sum := by
  induction ts with
  | nil => rfl
  | cons t ts ih =>
    cases ts with
    | nil => simp [Text.join]
    | cons u us => simp only [Text.join, weigh_append, hs, add_zero, ih, map_cons, sum_cons]

theorem repeatStep_keeps {α : Type} {f : List Char → α}
    (h : ∀ t t', step t = some t' → f t' = f t) (n : Nat) (t) : f (repeatStep step n t) = f t :=
  repeatStep_invariant (I := fun u => f u = f t) (fun u u' hu hstep => (h u u' hstep).trans hu) n rfl

/-! ## Operators -/

theorem weigh_joinOnce (h : joinOnce? t = some t') : weigh mark t' = weigh mark t := by
  simp only [joinOnce?] at h
  split at h
  · cases h
    have opening : (weighing mark).Leads (AheadBy 0) (AheadBy (1, 0)) [] "concat(".toList := leads_weighing (by decide)
    have bars := weighs_unmarked (p := all [blanks, literal ['|', '|'], blanks]) (by decide)
    exact weigh_substitute (recasts_joins (same_weighing _) opening (recasts_weighs bars (by decide))
      (leads_weighing (by decide))) (by decide) t
  · cases h

theorem weigh_joinTexts (t) : weigh mark (joinTexts t) = weigh mark t :=
  repeatStep_keeps (fun _ _ => weigh_joinOnce) 20 t

theorem weigh_convertOperators (t) : weigh mark (convertOperators t) = weigh mark t := by
  have check : ∀ rule ∈ operatorRules, isUnmarked rule.1 = true ∧ 0 + weigh mark rule.2 = 0 + 0 := by decide
  refine List.foldlRecOn (motive := fun u => weigh mark u = weigh mark t) _ _ rfl fun u hu rule hrule => ?_
  obtain ⟨hpattern, hsign⟩ := check rule hrule
  rw [← hu]
  exact weigh_substitute (recasts_weighs (weighs_unmarked hpattern) hsign) (by decide) u

theorem weigh_convertComparisons (t) : weigh mark (convertComparisons t) = weigh mark t :=
  weigh_substitute (recasts_comparisons (same_weighing 0) (recasts_weighs (weighs_unmarked (by decide)) (by decide)))
    (by decide) t

/-! ## Calls -/

/-- An argument whose fixed text has no signs. -/
def Argument.isPlain : Argument → Bool
  | fixed t => isUnmarked (caseless t.toList)
  | star => false
  | _ => true

/-- The two quotes around a text weigh nothing together. -/
theorem spacing_weighing (d) : Spacing (weighing mark) (AheadBy d) Argument.isPlain fun ps => Weighs (all ps) 0 where
  same := same_weighing d
  none := weighs_unmarked rfl
  fixed ps f hf hps := by
    have hquoted : Weighs ((Argument.fixed f).pattern 0) _ :=
      weighs_quote.append ((weighs_unmarked (p := all [caseless f.toList]) hf).append weighs_quote)
    have pair : (0 : ℤ × ZMod 2) + (0 + ((0, 1) + (0 + (0, 1)))) = 0 := by decide
    rw [← pair]
    exact hps.append ((weighs_unmarked (p := all [blanks, char ',', blanks]) (by decide)).append hquoted)
  comma ps hps := by
    refine recasts_weighs (hps.append (weighs_unmarked (by decide))) ?_
    rw [show weigh mark ", ".toList = 0 by decide]
    abel
  quote _ := recasts_weighs weighs_quote (add_comm _ _)
  star := rfl

namespace CallRule

/-- A rule whose fixed texts have no signs and whose result is balanced by itself. -/
def isBalanced (rule : CallRule) : Bool :=
  isUnmarked (all [caseless rule.name.toList, blanks]) && rule.isShaped Argument.isPlain &&
    decide (weigh mark rule.front + (if rule.result = .plain rule.front then 0 else weigh mark rule.back) = 0)

theorem weigh_apply (h : rule.isBalanced) (t) : weigh mark (rule.apply t) = weigh mark t := by
  simp only [isBalanced, Bool.and_eq_true, decide_eq_true_eq] at h
  obtain ⟨⟨hname, hshaped⟩, hweight⟩ := h
  have hopening : Weighs (all rule.opening) (mark '(') := by
    rw [← add_zero (mark '(')]
    exact (weighs_last hname '(').append (weighs_unmarked (p := all [blanks]) (by decide))
  have hclosing : Weighs (all [blanks, char ')']) (-mark '(') := weighs_last (l := [blanks]) (by decide) ')'
  suffices h : rule.pattern.Recasts (weighing mark) (AheadBy 0) (AheadBy 0) rule.result rule.slots ∧ _ from
    weigh_substitute h.1 h.2 t
  refine recasts_rule (spacing_weighing (weigh mark rule.front - mark '(')) hshaped (fun hresult ps hps => ?_)
    fun hresult => ⟨recasts_weighs hopening (by abel), fun ps hps => ?_⟩
  · have hps : Weighs (all ps) (-mark '(') := by
      simp only [mem_cons, not_mem_nil, or_false] at hps
      rcases hps with rfl | rfl
      · exact weighs_char ')'
      · exact weighs_last (l := [char '*', blanks]) (by decide) ')'
    rw [if_pos hresult, add_zero] at hweight
    exact recasts_weighs (hopening.append hps) (by rw [hweight]; abel)
  · rw [if_neg hresult] at hweight
    refine recasts_weighs (hps.append hclosing) ?_
    rw [eq_neg_of_add_eq_zero_left hweight]
    abel

end CallRule

theorem weigh_applyCallRules (t) : weigh mark (applyCallRules t) = weigh mark t := by
  have check : (rulesBeforeSysdate ++ rulesAfterSysdate).all CallRule.isBalanced = true := by decide +kernel
  refine List.foldlRecOn (motive := fun u => weigh mark u = weigh mark t) _ _ rfl fun u hu rule hrule => ?_
  rw [← hu]
  rcases mem_callRules.mp hrule with rfl | hrule
  · exact weigh_substitute (recasts_weighs (v := "currentTimestamp()".toList)
      (weighs_unmarked (p := sysdate.pattern) (by decide)) (by decide)) (by decide) u
  · exact CallRule.weigh_apply (all_eq_true.mp check rule hrule) u

theorem weigh_convertCalls (t) : weigh mark (convertCalls t) = weigh mark t := by
  refine repeatStep_keeps (fun t t' h => ?_) 10 t
  simp only [callsOnce?] at h
  split at h
  · cases h
  · rw [← Option.some.inj h]
    exact weigh_applyCallRules t

/-! ## Calls that are taken apart -/

theorem weighs_callOf (h : isUnmarked (all [caseless name.toList, blanks])) :
    Weighs (callOf name) (mark '(') := weighs_last h '('

/-- The text around the name of a call, its content and what follows it. -/
theorem weigh_call (hp : Weighs p (mark '(')) {content after : List Char} {m : Match}
    (hm : p.find? t = some m) (hc : closeCall? m.after = some (content, after)) :
    weigh mark t = weigh mark m.before + weigh mark content + weigh mark after := by
  have pair : mark '(' + mark ')' = 0 := by decide
  rw [(find_reads hm).1, closeCall_eq hc]
  simp only [weigh_append, weigh_reverse, weigh_cons, hp.found hm]
  calc weigh mark m.before + mark '(' + (weigh mark content + (mark ')' + weigh mark after))
      = weigh mark m.before + weigh mark content + weigh mark after + (mark '(' + mark ')') := by abel
    _ = weigh mark m.before + weigh mark content + weigh mark after := by rw [pair, add_zero]

theorem weigh_convertArgument (t) : weigh mark (convertArgument t) = weigh mark t := by
  rw [convertArgument, weigh_convertComparisons, weigh_convertOperators, weigh_joinTexts]

/-- Signs have no case, so they survive in the upper-case form of a text. -/
theorem mem_upper_of_sign {c : Char} (hs : c ∈ signs) (ht : c ∈ t) : c ∈ Text.upper t := by
  refine mem_flatMap.mpr ⟨c, ht, ?_⟩
  simp only [signs, mem_cons, not_mem_nil, or_false] at hs
  rcases hs with rfl | rfl | rfl | rfl <;> decide

theorem weigh_trueWord (h : isTrueWord t) : weigh mark t = 0 := by
  have hu : Text.upper (Text.trim t) = "TRUE".toList := beq_iff_eq.mp h
  rw [← weigh_trim]
  refine weigh_eq_zero mark fun c hc => mark_eq_zero fun hs => ?_
  have hm := mem_upper_of_sign hs hc
  rw [hu] at hm
  simp only [signs, mem_cons, not_mem_nil, or_false] at hs
  rcases hs with rfl | rfl | rfl | rfl <;> exact absurd hm (by decide)

theorem weigh_caseCall (args) : weigh mark (caseCall args) = (args.map (weigh mark)).sum := by
  have dropped : ∀ as : List (List Char), ((dropTrue as).map (weigh mark)).sum = (as.map (weigh mark)).sum := by
    intro as
    cases as with
    | nil => rfl
    | cons a rest =>
      simp only [dropTrue]
      split
      · rename_i h; simp [weigh_trueWord h]
      · rfl
  have converted : (args.map convertArgument).map (weigh mark) = args.map (weigh mark) := by
    rw [map_map]
    exact map_congr_left fun a _ => weigh_convertArgument a
  have opening : weigh mark "case(".toList + weigh mark [')'] = 0 := by decide
  have separator : weigh mark ", ".toList = 0 := by decide
  calc weigh mark (caseCall args)
      = weigh mark "case(".toList + weigh mark [')'] + (args.map (weigh mark)).sum := by
        rw [caseCall, weigh_append, weigh_append, weigh_join separator, dropped, converted]
        abel
    _ = (args.map (weigh mark)).sum := by rw [opening, zero_add]

theorem weigh_decodeOnce (h : decodeOnce? t = some t') : weigh mark t' = weigh mark t := by
  simp only [decodeOnce?, Option.bind_eq_bind, Option.bind_eq_some_iff] at h
  obtain ⟨m, hm, ⟨content, after⟩, hc, h⟩ := h
  split at h
  · cases h
  · cases h
    rw [weigh_call (weighs_callOf (by decide)) hm hc]
    simp only [weigh_append, weigh_reverse, weigh_caseCall, sum_weigh_split (w := mark) (by decide)]

theorem weigh_unit (hl : isUnmarked (longest letter)) (h : unitOf? letter t = some u) : weigh mark t = 0 := by
  obtain ⟨m, hm, -⟩ := Option.map_eq_some_iff.mp h
  obtain ⟨r, hr, -⟩ := at_reads hm
  obtain ⟨a, ha, hr⟩ := reads_all_cons hr
  obtain ⟨b, ⟨b', hb, rfl⟩, hr⟩ := reads_all_cons hr
  obtain ⟨c, hc, hr⟩ := reads_all_cons hr
  obtain ⟨rfl, hend⟩ := hr
  obtain ⟨read₁, he₁⟩ := reads_rest ha
  obtain ⟨read₂, he₂⟩ := reads_rest hb
  obtain ⟨read₃, he₃⟩ := reads_rest hc
  have hw₁ := weighs_quote.2 _ _ _ ha he₁
  have hw₂ := (weighs_unmarked hl).2 _ _ _ hb he₂
  have hw₃ := weighs_quote.2 _ _ _ hc he₃
  have hz : weigh mark r.rest = 0 := by
    rcases hend with he | he <;> rw [he] <;> decide
  simp only at he₁ he₃
  rw [he₁, he₂, he₃]
  simp only [weigh_append, hw₁, hw₂, hw₃, hz]
  decide

theorem weigh_functionFor (ht : ∀ f ∈ table, weigh mark f.2.toList = 0) (h : functionFor? table u = some name) : weigh mark name = 0 := by
  obtain ⟨target, hl, rfl⟩ := Option.map_eq_some_iff.mp h
  clear h
  induction table with
  | nil => cases hl
  | cons f table ih =>
    rw [lookup_cons] at hl
    split at hl
    · cases hl; exact ht f (.head _)
    · exact ih (fun g hg => ht g (.tail _ hg)) hl

theorem weighs_addCall : Weighs addCallPattern (mark '(') :=
  finds_alt (weighs_last (l := [caseless "ADD_".toList, Pattern.optional (caseless "TO_".toList),
    caseless "DATE".toList, blanks]) (by decide) '(') (weighs_callOf (by decide))

theorem weigh_addOnce (h : addOnce? t = some t') : weigh mark t' = weigh mark t := by
  simp only [addOnce?, Option.bind_eq_bind, Option.bind_eq_some_iff] at h
  obtain ⟨m, hm, ⟨content, after⟩, hc, h⟩ := h
  simp only at h
  split at h
  · rename_i date u amount hs
    obtain ⟨unit, hu, h⟩ := Option.bind_eq_some_iff.mp h
    obtain ⟨name, hn, h⟩ := Option.bind_eq_some_iff.mp h
    cases h
    have args := sum_weigh_split (w := mark) (by decide) content
    have unitZero : weigh mark u = 0 := by rw [← weigh_trim]; exact weigh_unit (by decide) hu
    have nameZero := weigh_functionFor (by decide) hn
    have pair : weigh mark ['('] + weigh mark [',', ' '] + weigh mark [')'] = 0 := by decide
    rw [hs] at args
    simp only [map_cons, map_nil, sum_cons, sum_nil, unitZero] at args
    rw [weigh_call weighs_addCall hm hc, ← args]
    simp only [weigh_append, weigh_reverse, weigh_trim, nameZero]
    calc weigh mark m.before + 0 + weigh mark ['('] + weigh mark date + weigh mark [',', ' '] + weigh mark amount
          + weigh mark [')'] + weigh mark after
        = weigh mark m.before + (weigh mark date + (0 + (weigh mark amount + 0))) + weigh mark after
          + (weigh mark ['('] + weigh mark [',', ' '] + weigh mark [')']) := by abel
      _ = weigh mark m.before + (weigh mark date + (0 + (weigh mark amount + 0))) + weigh mark after := by
        rw [pair, add_zero]
  · cases h

theorem weigh_partOnce (h : partOnce? t = some t') : weigh mark t' = weigh mark t := by
  simp only [partOnce?, Option.bind_eq_bind, Option.bind_eq_some_iff] at h
  obtain ⟨m, hm, ⟨content, after⟩, hc, comma, hs, unit, hu, name, hn, h⟩ := h
  cases h
  have unitZero : weigh mark (content.drop (comma + 1)) = 0 := by rw [← weigh_trim]; exact weigh_unit (by decide) hu
  have nameZero := weigh_functionFor (by decide) hn
  have pair : weigh mark ['('] + weigh mark [')'] = 0 := by decide
  have args : weigh mark content = weigh mark (content.take comma) := by
    have := congrArg (weigh mark) (lastSeparator_eq hs)
    rw [weigh_append, weigh_cons, unitZero, show mark ',' = 0 by decide, add_zero, add_zero] at this
    exact this
  rw [weigh_call (weighs_callOf (by decide)) hm hc, args]
  simp only [weigh_append, weigh_reverse, weigh_trim, nameZero]
  calc weigh mark m.before + 0 + weigh mark ['('] + weigh mark (content.take comma) + weigh mark [')']
        + weigh mark after
      = weigh mark m.before + weigh mark (content.take comma) + weigh mark after
        + (weigh mark ['('] + weigh mark [')']) := by abel
    _ = weigh mark m.before + weigh mark (content.take comma) + weigh mark after := by rw [pair, add_zero]

/-! ## The whole conversion -/

theorem weigh_dropDirectionMarkers (t) : weigh mark (dropDirectionMarkers t) = weigh mark t :=
  weigh_substitute (p := markerPattern) (recasts_weighs (v := []) (weighs_unmarked (by decide)) (by decide)) (by decide) t

theorem weigh_convertStructure (t) : weigh mark (convertStructure t) = weigh mark t := by
  rw [convertStructure, weigh_convertCalls, convertDatePart, repeatStep_keeps (fun _ _ => weigh_partOnce),
    convertAddToDate, repeatStep_keeps (fun _ _ => weigh_addOnce), convertDecode,
    repeatStep_keeps (fun _ _ => weigh_decodeOnce), weigh_dropDirectionMarkers, weigh_trim, Text.squeeze,
    weigh_squeezeFrom, weigh_trim]

theorem weigh_convert (h : convert t = .ok r) : weigh mark r = weigh mark t := by
  simp only [convert] at h
  split at h
  · cases h; rfl
  · split at h
    · rw [← Except.ok.inj h, convertUnchecked, weigh_convertComparisons, weigh_convertOperators, convertJoins]
      split
      · rw [weigh_joinTexts, weigh_convertStructure]
      · rw [weigh_convertStructure]
    · cases h

theorem mem_complaints_parentheses (t) : Complaint.parentheses ∈ complaints t ↔ t.count '(' ≠ t.count ')' := by
  by_cases hp : t.count '(' = t.count ')' <;> by_cases hs : t.count '\'' % 2 = 0 <;>
    by_cases hd : t.count '"' % 2 = 0 <;> simp [complaints, hp, hs, hd]

/-- The conversion may drop or add parentheses and quotes, but only in pairs, and on malformed text too. -/
theorem convert_keeps_balance {e r : List Char} (h : convert e = .ok r) :
    (r.count '(' : ℤ) - r.count ')' = (e.count '(' : ℤ) - e.count ')' ∧
      (r.count '\'' + r.count '"') % 2 = (e.count '\'' + e.count '"') % 2 ∧
      (Complaint.parentheses ∈ complaints r ↔ e.count '(' ≠ e.count ')') := by
  have hw := weigh_convert h
  rw [weigh_mark, weigh_mark, Prod.mk.injEq] at hw
  obtain ⟨hparens, hquotes⟩ := hw
  refine ⟨hparens, ?_, ?_⟩
  · exact (ZMod.natCast_eq_natCast_iff' _ _ 2).mp hquotes
  · rw [mem_complaints_parentheses]
    omega

theorem convert_keeps_balance_unclosed : convert "UPPER(x) AND (y".toList = .ok "upper(x) && (y".toList ∧
      Complaint.parentheses ∈ complaints "upper(x) && (y".toList :=
  have h : convert "UPPER(x) AND (y".toList = .ok "upper(x) && (y".toList := by decide +kernel
  ⟨h, (convert_keeps_balance h).2.2.mpr (by decide)⟩

end MappingFlow.Expression
