/-
  MappingFlow.Proofs.Expression.Cases — literals in the arguments of DECODE.

  A DECODE call is taken apart at commas, its arguments are converted one by one, and
  they are put together as arguments of `case`. Apart from what happens in the arguments,
  signs take the place of signs (`holding_cases`). So nothing is lost that no argument loses
  (`losing_decode`), and the literals are the same if they are in every
  argument (`read_decode`).
-/

import MappingFlow.Proofs.Expression.Operands

namespace MappingFlow.Expression

open Pattern Quoting Reader
open List

/-! ## Texts put together -/

theorem IsFree.append (hu : IsFree u) (hv : IsFree v) : IsFree (u ++ v) := by
  intro c hc
  rcases mem_append.mp hc with hc | hc
  · exact hu c hc
  · exact hv c hc

theorem IsSigned.append (hu : IsSigned u) (hv : IsFree v) : IsSigned (u ++ v) :=
  ⟨hu.1.append hv, fun h => hu.2 fun c hc => h c (mem_append_left _ hc)⟩

theorem outside_of_signed (hu : IsSigned u) (h : quoting.read q (u ++ z) = outside ds) : ∃ d, q = outside d := by
  cases q with
  | outside d => exact ⟨d, rfl⟩
  | inside d x =>
    rw [Reader.read_append, read_inside hu.1, if_neg hu.2, read_broken] at h
    cases h
  | broken =>
    rw [read_broken] at h
    cases h

theorem mem_of_read (h : quoting.read (outside d) z = outside ds) (hx : x ∈ d) : x ∈ ds := by
  obtain ⟨-, xs, -, -, rfl⟩ := read_eq_outside.1.mp h
  exact mem_append_left xs hx

theorem mem_trimLeft (hc : Text.isBlank c = false) (h : c ∈ t) : c ∈ Text.trimLeft t := by
  rw [← takeWhile_append_dropWhile (p := Text.isBlank) (l := t)] at h
  refine (mem_append.mp h).resolve_left fun hblank => ?_
  rw [all_eq_true.mp all_takeWhile c hblank] at hc
  cases hc

theorem not_mem_trueWord (hsign : c ∈ signs) (hblank : Text.isBlank c = false) (htrue : c ∉ "TRUE".toList)
    (h : isTrueWord u) : c ∉ u := by
  intro hc
  have hupper : Text.upper (Text.trim u) = "TRUE".toList := beq_iff_eq.mp h
  have htrim : c ∈ Text.trim u :=
    mem_reverse.mpr (mem_trimLeft hblank (mem_reverse.mpr (mem_trimLeft hblank hc)))
  exact htrue (hupper ▸ mem_upper_of_sign hsign htrim)

theorem isFree_of_trueWord (h : isTrueWord u) : IsFree u := fun c hc =>
  ⟨fun he => not_mem_trueWord (by decide) (by decide) (by decide) h (he ▸ hc),
    fun he => not_mem_trueWord (by decide) (by decide) (by decide) h (he ▸ hc)⟩

/-! ## The parts of a call -/

theorem decode_parts (h : decodeOnce? t = some t') : ∃ pre call args last after,
    t = pre ++ (call ++ (Text.join [','] args ++ (last ++ ')' :: after))) ∧ t' = pre ++ (caseCall args ++ after) ∧
    IsSigned call ∧ (last = [] ∨ last = [',']) ∧ 3 ≤ args.length := by
  simp only [decodeOnce?, Option.bind_eq_bind, Option.bind_eq_some_iff] at h
  obtain ⟨m, hm, ⟨content, after⟩, hclose, h⟩ := h
  split at h
  · cases h
  · rename_i hlength
    cases h
    have hcall := finds_signed (l := [caseless "DECODE".toList, blanks]) (c := '(') (k := []) (by decide) (by decide +kernel)
    obtain ⟨last, hlast, hcontent⟩ := splitArguments_join content
    refine ⟨m.before.reverse, m.matched, splitArguments content, last, after, ?_, by simp,
      hcall.found hm, hlast, Nat.le_of_not_lt hlength⟩
    rw [(find_reads hm).1, closeCall_eq hclose]
    nth_rewrite 1 [hcontent]
    simp

theorem holding_join (as) : Holding (Text.join [','] as) (Text.join ", ".toList as) := by
  have comma : Holding [','] ", ".toList := holding_of_sign (by decide) (by decide +kernel)
  induction as with
  | nil => exact Sim.rfl holding_respects []
  | cons a as ih =>
    cases as with
    | nil => exact Sim.rfl holding_respects a
    | cons b bs => exact ((Sim.rfl holding_respects a).append comma).append ih

/-- A first argument TRUE goes with the name of the call. -/
theorem holding_cases (hcall : IsSigned call) (hlast : last = [] ∨ last = [',']) (has : 2 ≤ as.length) :
    Holding (call ++ (Text.join [','] as ++ (last ++ [')'])))
      ("case(".toList ++ (Text.join ", ".toList (dropTrue as) ++ [')'])) := by
  have hsign : IsSign "case(".toList := by decide +kernel
  have closing : Holding (last ++ [')']) [')'] := by
    refine holding_of_sign ?_ (by decide +kernel)
    rcases hlast with rfl | rfl <;> decide
  obtain ⟨a, b, bs, rfl⟩ : ∃ a b bs, as = a :: b :: bs := by
    cases as with
    | nil => simp at has
    | cons a as =>
      cases as with
      | nil => simp at has
      | cons b bs => exact ⟨a, b, bs, rfl⟩
  rw [dropTrue]
  split
  · rename_i htrue
    have hfirst : IsSigned (call ++ (a ++ [','])) := hcall.append ((isFree_of_trueWord htrue).append (by decide))
    have : Holding _ _ := (holding_of_sign hfirst hsign).append ((holding_join (b :: bs)).append closing)
    simpa only [Text.join, append_assoc] using this
  · exact (holding_of_sign hcall hsign).append ((holding_join (a :: b :: bs)).append closing)

/-- With the arguments converted, the rest of the work is signs for signs. -/
theorem decode_steps (h : decodeOnce? t = some t') : ∃ pre call args last after,
    t = pre ++ (call ++ (Text.join [','] args ++ (last ++ ')' :: after))) ∧ IsSigned call ∧ (last = [] ∨ last = [',']) ∧
    Holding (pre ++ (call ++ (Text.join [','] (args.map convertArgument) ++ (last ++ ')' :: after)))) t' := by
  obtain ⟨pre, call, args, last, after, ht, rfl, hcall, hlast, hlength⟩ := decode_parts h
  refine ⟨pre, call, args, last, after, ht, hcall, hlast, ?_⟩
  have hargs : 2 ≤ (args.map convertArgument).length := by
    rw [length_map]
    omega
  have : Holding _ _ := (Sim.rfl holding_respects pre).append ((holding_cases hcall hlast hargs).append
    (Sim.rfl holding_respects after))
  simpa only [caseCall, append_assoc, cons_append, nil_append] using this

/-! ## What is lost -/

theorem losing_join (h : ∀ a, Losing a (f a)) (sep as) : Losing (Text.join sep as) (Text.join sep (as.map f)) := by
  induction as with
  | nil => exact Sim.rfl losing_respects []
  | cons a as ih =>
    cases as with
    | nil => exact h a
    | cons b bs =>
      have := ((h a).append (Sim.rfl losing_respects sep)).append ih
      exact this

theorem losing_convertArgument (t) : Losing t (convertArgument t) :=
  ((losing_joinTexts t).trans losing_respects (losing_operators _)).trans losing_respects (holding_comparisons _).losing

theorem losing_decode (t) : Losing t (convertDecode t) := by
  refine .repeatStep (I := fun _ => True) (fun t t' _ h => ⟨trivial, ?_⟩) 20 trivial
  obtain ⟨pre, call, args, last, after, rfl, -, -, hholding⟩ := decode_steps h
  have hargs := losing_join losing_convertArgument [','] args
  exact ((Sim.rfl losing_respects pre).append ((Sim.rfl losing_respects call).append
    (hargs.append (Sim.rfl losing_respects _)))).trans losing_respects hholding.losing

/-! ## What is kept -/

/-- The conversion keeps the literals of every text that is read from outside to outside and
    has no literals but these. -/
def Spares (ds : List (List Char)) (f : List Char → List Char) : Prop :=
  ∀ a d₁ d₂, (∀ x ∈ d₂, x ∈ ds) → quoting.read (outside d₁) a = outside d₂ → quoting.read (outside d₁) (f a) = outside d₂

/-- A text in front of a joint is read from outside to outside. -/
theorem Spares.read_before (hf : Spares ds f) (hc : c ∈ joints)
    (hread : quoting.read (outside d) (a ++ c :: z) = outside ds) :
    ∃ d', quoting.read (outside d) (f a) = outside d' ∧ quoting.read (outside d') (c :: z) = outside ds := by
  rw [Reader.read_append] at hread
  obtain ⟨d', hd'⟩ := outside_of_joint hc hread
  rw [hd'] at hread
  exact ⟨d', hf a d d' (fun x => mem_of_read hread) hd', hread⟩

theorem Spares.read_join (hf : Spares ds f) (hc : c ∈ joints)
    (hread : quoting.read (outside d) (Text.join [','] as ++ c :: z) = outside ds) :
    quoting.read (outside d) (Text.join [','] (as.map f) ++ c :: z) = outside ds := by
  induction as generalizing d with
  | nil => exact hread
  | cons a as ih =>
    cases as with
    | nil =>
      obtain ⟨d', ha, hz⟩ := hf.read_before hc hread
      exact (Reader.read_append ..).trans (ha ▸ hz)
    | cons b bs =>
      simp only [Text.join, map_cons, append_assoc, cons_append, nil_append] at hread ih ⊢
      obtain ⟨d', ha, hz⟩ := hf.read_before (by decide) hread
      rw [Reader.read_append, ha]
      rw [Reader.read_cons, step_outside (by decide) (by decide)] at hz ⊢
      exact ih hz

theorem read_decodeOnce (hf : Spares ds convertArgument) (h : decodeOnce? t = some t')
    (hread : quoting.read (outside d) t = outside ds) : quoting.read (outside d) t' = outside ds := by
  obtain ⟨pre, call, args, last, after, rfl, hcall, hlast, hholding⟩ := decode_steps h
  rw [hholding.read_eq]
  rw [Reader.read_append] at hread ⊢
  obtain ⟨d₁, hd₁⟩ := outside_of_signed hcall hread
  rw [hd₁, Reader.read_append, read_outside hcall.1] at hread ⊢
  rcases hlast with rfl | rfl
  · exact hf.read_join (by decide) hread
  · exact hf.read_join (by decide) hread

theorem read_decode (hf : Spares ds convertArgument) (hread : quoting.read (outside d) t = outside ds) :
    quoting.read (outside d) (convertDecode t) = outside ds :=
  repeatStep_invariant (I := fun t => quoting.read (outside d) t = outside ds) (fun _ _ ht h => read_decodeOnce hf h ht) 20 hread

end MappingFlow.Expression
