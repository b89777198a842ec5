/-
  MappingFlow.Proofs.Expression.Blind — replacements that work inside literals too.

  Direction markers, SYSDATE and the operators are replaced wherever they stand, in a
  literal or not (`blindRules`). Each of these replacements works between the quotes piece
  by piece (`isPiecewise_blindly`), and what it does to a text it never does back: the new
  text is shorter or has a sign that no literal has (`fades_blindly`). So a literal stays as it is
  exactly if no such pattern is in it (`foldl_blindly_iff`).
-/

import MappingFlow.Expression.Basic
import MappingFlow.Proofs.Expression.Literals

namespace MappingFlow.Expression

open Pattern Reader Quoting
open List

/-- A pattern and the fixed text that its matches are replaced by. -/
abbrev BlindRule := Pattern × List Char

def blindly (t : List Char) (rule : BlindRule) : List Char := rule.1.substitute (Template.plain rule.2) t

/-- The pattern does not see across a quote, and what is written has a sign that no literal
    has or is shorter than what was read. -/
structure IsBlind (rule : BlindRule) : Prop where
  near : rule.1.isLocal '\'' = true
  fixed : isFixed rule.1 = true
  pos : 0 < rule.1.minLength
  free : IsFree rule.2
  fading : ¬ IsPlain rule.2 ∨ rule.2.length < rule.1.minLength ∧ ∀ c ∈ joints, rule.1.rejects c = true

instance (rule : BlindRule) : Decidable (IsBlind rule) :=
  decidable_of_iff (rule.1.isLocal '\'' = true ∧ isFixed rule.1 = true ∧ 0 < rule.1.minLength ∧ IsFree rule.2 ∧
    (¬ IsPlain rule.2 ∨ rule.2.length < rule.1.minLength ∧ ∀ c ∈ joints, rule.1.rejects c = true))
    ⟨fun ⟨h1, h2, h3, h4, h5⟩ => ⟨h1, h2, h3, h4, h5⟩, fun ⟨h1, h2, h3, h4, h5⟩ => ⟨h1, h2, h3, h4, h5⟩⟩

variable {rule : BlindRule} {rules : List BlindRule} {t x : List Char}

theorem blindly_eq (rule t) : blindly t rule = rule.1.replaceAll (fun _ => rule.2) t :=
  substitute_plain rule.1 rule.2 t

theorem IsBlind.isPiecewise (h : IsBlind rule) : IsPiecewise (blindly · rule) := by
  have hfree : '\'' ∉ rule.2 ∧ '"' ∉ rule.2 := ⟨fun hc => (h.free _ hc).1 rfl, fun hc => (h.free _ hc).2 rfl⟩
  exact (funext (blindly_eq rule)) ▸ isPiecewise_replaceAll h.near h.pos hfree

theorem IsBlind.matched (h : IsBlind rule) (hm : rule.1.Matches before rest m) :
    quoting.Sim Fades m.matched rule.2 := by
  have hrest := hm.rest_eq
  have hlength := hm.minLength_le
  obtain ⟨s, hs, rfl⟩ := hm
  have hmatched := isFree_of_reads h.fixed hs hrest
  by_cases hsign : IsPlain rule.2
  · obtain ⟨hlt, hrejects⟩ := h.fading.resolve_left (not_not_intro hsign)
    have hplain : IsPlain (toMatch before rest s).matched := by
      intro c hc hj
      obtain ⟨y, hy, hsplit⟩ := reads_rejects (hrejects c hj) hs
      exact hy (append_cancel_right (hsplit.symm.trans hrest) ▸ hc)
    exact fades_of_shorter hmatched h.free hplain hsign (by omega)
  · exact fades_of_sign hmatched h.free hsign

theorem IsBlind.fades (h : IsBlind rule) (t) : quoting.Sim Fades t (blindly t rule) := by
  rw [blindly_eq]
  exact sim_replaceAll fades_respects (fun _ _ _ => h.matched) t

/-! ## Texts that stay as they are -/

/-- Where the pattern is, the text is no longer what it was. -/
theorem IsBlind.eq_self_iff (h : IsBlind rule) (hx : IsPlain x) : blindly x rule = x ↔ rule.1.occursIn x = false := by
  rw [blindly_eq]
  refine ⟨fun heq => ?_, fun habsent => replaceAll_of_absent (occursIn_eq_false_iff.mp habsent)⟩
  by_contra hoccurs
  rw [Bool.not_eq_false, occursIn, Option.isSome_iff_exists] at hoccurs
  obtain ⟨m, hm⟩ := hoccurs
  obtain ⟨hsplit, hmatches⟩ := find_reads hm
  have hlength := hmatches.minLength_le
  have hpos := h.pos
  rw [replaceAll_find hm (ne_nil_of_length_pos (by omega))] at heq
  rcases h.fading with hsign | ⟨hlt, -⟩
  · refine hsign fun c hc => hx c ?_
    rw [← heq]
    simp [hc]
  · have hshorter : ∀ before rest m, rule.1.Matches before rest m → rule.2.length ≤ m.matched.length := by
      intro before rest m hm
      have := hm.minLength_le
      omega
    have hle := length_replaceFrom_le hshorter (m.matched.reverse ++ m.before) m.after
    have := congrArg List.length (heq.trans hsplit)
    simp only [length_append] at this
    omega

theorem isFree_blindly (h : IsBlind rule) (hx : IsFree x) : IsFree (blindly x rule) := by
  have hsingle := h.isPiecewise.single x fun hc => (hx _ hc).1 rfl
  have hdouble := h.isPiecewise.double x fun hc => (hx _ hc).2 rfl
  exact fun c hc => ⟨fun he => hsingle (he ▸ hc), fun he => hdouble (he ▸ hc)⟩

theorem fades_foldl (h : ∀ rule ∈ rules, IsBlind rule) (t) : quoting.Sim Fades t (rules.foldl blindly t) :=
  Sim.foldl fades_respects (fun rule hrule t => (h rule hrule).fades t) t

theorem isPiecewise_foldl (h : ∀ rule ∈ rules, IsBlind rule) : IsPiecewise fun t => rules.foldl blindly t := by
  induction rules with
  | nil => exact ⟨fun _ _ => rfl, fun _ => id, fun _ => id⟩
  | cons rule rules ih =>
    exact (ih fun r hr => h r (.tail _ hr)).comp (h rule (.head _)).isPiecewise

theorem foldl_blindly_iff (h : ∀ rule ∈ rules, IsBlind rule) (hx : IsFree x) (hplain : IsPlain x) :
    rules.foldl blindly x = x ↔ ∀ rule ∈ rules, rule.1.occursIn x = false := by
  induction rules with
  | nil => simp
  | cons rule rules ih =>
    have hrule := h rule (.head _)
    have hrules := fun r hr => h r (.tail _ hr)
    rw [foldl_cons, forall_mem_cons, ← hrule.eq_self_iff hplain, ← ih hrules]
    refine ⟨fun heq => ?_, fun ⟨hhere, hlater⟩ => by rw [hhere, hlater]⟩
    -- What the first rule loses no later one brings back.
    have hself : blindly x rule = x := by
      have hread : quoting.read (.inside [] []) x = .inside [] x := by rw [read_inside hx, if_pos hplain]; rfl
      have hlater := fades_foldl hrules (blindly x rule) _ _ (.same (.inside [] []))
      have hhere := hrule.fades x _ _ (.same (.inside [] []))
      rw [heq, hread] at hlater
      rw [hread] at hhere
      have hsame := hhere.antisymm hlater
      rw [read_inside (isFree_blindly hrule hx)] at hsame
      split at hsame
      · simpa using hsame
      · cases hsame
    rw [hself] at heq
    exact ⟨hself, heq⟩

/-! ## The replacements -/

def markerRule : BlindRule := (markerPattern, [])

def sysdateRule : BlindRule := (caseless "SYSDATE".toList, "currentTimestamp()".toList)

def blindRules : List BlindRule := markerRule :: sysdateRule :: operatorRules

theorem isBlind_of_mem (h : rule ∈ blindRules) : IsBlind rule := by
  have check : ∀ rule ∈ blindRules, IsBlind rule := by decide +kernel
  exact check rule h

theorem isBlind_operators : ∀ rule ∈ operatorRules, IsBlind rule := fun _ h =>
  isBlind_of_mem (.tail _ (.tail _ h))

/-! ## Blanks -/

theorem mem_squeezeFrom (h : c ∈ Text.squeezeFrom inRun t) : c = ' ' ∨ c ∈ t := by
  induction t generalizing inRun with
  | nil => cases h
  | cons d t ih =>
    rw [Text.squeezeFrom] at h
    split at h
    · split at h
      · exact (ih h).imp_right (mem_cons_of_mem d)
      · rcases mem_cons.mp h with h | h
        · exact .inl h
        · exact (ih h).imp_right (mem_cons_of_mem d)
    · rcases mem_cons.mp h with rfl | h
      · exact .inr (.head _)
      · exact (ih h).imp_right (mem_cons_of_mem d)

theorem squeezeFrom_quote (inRun : Bool) (x t) :
    Text.squeezeFrom inRun (x ++ '\'' :: t) = Text.squeezeFrom inRun x ++ '\'' :: Text.squeezeFrom false t := by
  have hquote : Text.isBlank '\'' = false := by decide
  induction x generalizing inRun with
  | nil => simp [Text.squeezeFrom, hquote]
  | cons c x ih =>
    simp only [cons_append, Text.squeezeFrom, ih]
    split
    · split <;> rfl
    · rfl

theorem isPiecewise_squeeze : IsPiecewise Text.squeeze where
  split := squeezeFrom_quote false
  single _ hx h := (mem_squeezeFrom h).elim (by decide) hx
  double _ hx h := (mem_squeezeFrom h).elim (by decide) hx

theorem isPlain_squeeze (h : IsPlain x) : IsPlain (Text.squeeze x) := by
  intro c hc
  rcases mem_squeezeFrom hc with rfl | hc
  · decide
  · exact h c hc

theorem length_squeezeFrom_le (inRun : Bool) (t) : (Text.squeezeFrom inRun t).length ≤ t.length := by
  induction t generalizing inRun with
  | nil => exact Nat.le_refl 0
  | cons c t ih =>
    have htrue := ih true
    have hfalse := ih false
    rw [Text.squeezeFrom]
    split
    · split <;> simp only [length_cons] <;> omega
    · simpa using hfalse

theorem size_squeeze_le (xs) : size (xs.map Text.squeeze) ≤ size xs := by
  induction xs with
  | nil => exact Nat.le_refl 0
  | cons x xs ih =>
    have := length_squeezeFrom_le false x
    simp only [size, map_cons, sum_cons] at ih ⊢
    exact Nat.add_le_add this ih

end MappingFlow.Expression
