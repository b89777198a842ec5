/-
  MappingFlow.Proofs.Conversion.Recorded — columns of the sources under the casing recorded
  for them.

  An expression is handed over with each word in the casing that is known (`mem_runs_recased`).
  Wherever a casing is known at all, the columns of the sources are known before any other
  (`prefix_known`), so a column of the sources is written as recorded, whatever has been
  defined since. The conditions of a router are handed over as they are: there a word keeps
  the casing it has (`comparisons_mention_casing`).
-/

import MappingFlow.Proofs.Conversion.Respelling
import MappingFlow.Proofs.Conversion.Uses

namespace MappingFlow.Conversion

open Pattern Text Expression
open List

variable {r : Rules} {m : Mapping} {t : Transformation} {known : List String} {e w : String} {v x : List Char}

/-! ## Words of a comparison -/

/-- No calls, quotes and joins: names, numbers and what compares them. -/
def isComparing (t : List Char) : Bool := t.all fun c => !(c == '(' || c == '|' || isQuote c)

theorem stands_of_mem_runs (ht : isComparing x) (hv : IsRun isWord v) (h : v ∈ runs isWord x) :
    Uses x v ∧ StandsApart v x := by
  obtain ⟨b, hb⟩ := exists_stands_of_mem_runs h hv
  obtain ⟨a, rfl, ha⟩ := hb.split
  have hplain : ∀ c ∈ a ++ v ++ b, c ≠ '(' ∧ c ≠ '|' ∧ isQuote c = false := fun c hc => by
    simpa [and_assoc] using all_eq_true.mp ht c hc
  have hbreak : ∀ o : Option Char, o.any isWord = false → (∀ c ∈ o, c ∈ a ++ v ++ b) → o.all isBreak = true := by
    rintro (_ | c) hsign hmem
    · rfl
    · simpa [isBreak, (hplain c (hmem c rfl)).2.1] using hsign
  refine ⟨⟨b, hb, fun hopen => ?_, ?_⟩, hv.ne_nil, hv.all, a, b, rfl, hbreak _ ha ?_, hbreak _ hb.clear ?_⟩
  · have hmem : '(' ∈ b := (dropWhile_sublist _).subset (mem_of_mem_head? hopen)
    exact (hplain '(' (mem_append_right _ hmem)).1 rfl
  · cases b with
    | nil => rfl
    | cons c b => exact (hplain c (by simp)).2.2
  · exact fun c hc => mem_append_left _ (mem_append_left _ (mem_of_getLast? hc))
  · exact fun c hc => mem_append_right _ (mem_of_mem_head? hc)

theorem mem_runs_recased (hcasing : Learned casing) (h : v ∈ runs isWord e.toList) :
    respell casing v ∈ runs isWord (recased casing e).toList := by
  rw [toList_recased hcasing, (keepsRuns_respell hcasing).runs_mapRuns]
  exact mem_map_of_mem h

theorem isComparing_recased (hcasing : Learned casing) (h : isComparing e.toList) :
    isComparing (recased casing e).toList := by
  have hword : ∀ c, isWord c = true → (!(c == '(' || c == '|' || isQuote c)) = true := by
    intro c hc
    rw [Bool.not_eq_true']
    refine Bool.eq_false_iff.mpr fun hsign => ?_
    simp only [isQuote, Bool.or_eq_true, beq_iff_eq] at hsign
    rcases hsign with (rfl | rfl) | rfl | rfl <;> exact absurd hc (by decide)
  refine all_eq_true.mpr fun c hc => ?_
  rw [toList_recased hcasing, mapRuns, mem_flatMap] at hc
  obtain ⟨v, hv, hc⟩ := hc
  rcases mem_runs hv with hrun | ⟨d, hd, rfl⟩
  · exact hword c (((keepsRuns_respell hcasing).run v hrun).all c hc)
  · rw [respell_sign hd, mem_singleton] at hc
    refine all_eq_true.mp h c ?_
    rw [hc, ← flatten_runs (p := isWord) e.toList]
    exact mem_flatten.mpr ⟨_, hv, .head _⟩

/-! ## One use -/

theorem respell_casingOf (hname : isAsciiName w.toList) :
    respell (casingOf known) w.toList = (spelling known w).toList := by
  rw [respell, if_pos hname, spelled, lookup_casingOf, spelling]
  change _ = ((known.find? (lowerName · == String.ofList (lower w.toList))).getD w).toList
  cases known.find? (lowerName · == String.ofList (lower w.toList)) <;> rfl

/-- Neither the conversion of the text nor the renaming that stands in for it looks for the name. -/
structure Spared (r : Rules) (e name : String) : Prop where
  safe : IsSafe name.toList
  unmarked : IsUnmarked e.toList
  renamed : ∀ x, convert e.toList = .error x → r.rename (.text name) = .ok name

/-- A word of a comparison is written in the casing known for it. -/
theorem Translated.mentions_spelling (hr : r.isOrdinary) (h : Translated r u out) (he : u.expression = .text e)
    (hcomparing : isComparing e.toList) (hname : isAsciiName w.toList) (hw : w.toList ∈ runs isWord e.toList)
    (hspared : Spared r (u.respelled e) (spelling u.known w)) : Mentions out (spelling u.known w) := by
  have hlearned := learned_casingOf u.known
  have hword := mem_runs_recased hlearned hw
  have hrun := (keepsRuns_respell hlearned).run _ (isRun_of_asciiName hname)
  rw [respell_casingOf hname] at hword hrun
  obtain ⟨huses, hapart⟩ := stands_of_mem_runs (isComparing_recased hlearned hcomparing) hrun hword
  -- What is handed over is converted as if no casing were known.
  have hplain : (Use.mk (.text (u.respelled e)) []).respelled (u.respelled e) = u.respelled e := recased_nil _
  have htranslated : Translated r ⟨.text (u.respelled e), []⟩ out := by
    rintro _ ⟨⟩
    rw [hplain]
    exact h e he
  refine htranslated.mentions hr rfl ⟨rfl, fun _ _ => ⟨huses, hspared.safe, ?_⟩, fun x hx => ⟨hapart, ?_⟩⟩
  · rw [hplain]
    exact hspared.unmarked
  · rw [hplain] at hx
    exact hspared.renamed x hx

theorem prefix_derivedUses (hu : u ∈ derivedUses known cs) : known <+: u.known := by
  induction cs generalizing known with
  | nil => cases hu
  | cons c cs ih =>
    unfold derivedUses at hu
    split at hu
    · exact ih hu
    · rcases mem_cons.mp hu with rfl | hu
      · exact prefix_rfl
      · exact (prefix_append ..).trans (ih hu)

theorem prefix_known (ht : t.type ≠ "Router") (hu : u ∈ t.uses known) : known <+: u.known := by
  unfold Transformation.uses at hu
  split at hu
  · exact prefix_derivedUses hu
  · rw [mem_singleton.mp hu]
  · obtain ⟨_, _, rfl⟩ := mem_map.mp hu
    exact prefix_rfl
  · exact absurd ‹_› ht
  · cases hu

theorem known_router (ht : t.type = "Router") (hu : u ∈ t.uses known) : u.known = [] := by
  simp only [Transformation.uses, ht] at hu
  obtain ⟨_, _, rfl⟩ := mem_map.mp hu
  rfl

/-- The first columns tell the casing of theirs. -/
theorem spelling_prefix {columns : List String} (h : columns <+: known) (hw : ∃ c ∈ columns, lowerName c = lowerName w) :
    spelling known w = spelling columns w := by
  obtain ⟨later, rfl⟩ := h
  obtain ⟨c, hc, hsame⟩ := hw
  have hsome : (columns.find? (lowerName · == lowerName w)).isSome = true :=
    find?_isSome.mpr ⟨c, hc, by simpa using hsame⟩
  rw [spelling, find?_append, Option.or_of_isSome hsome, spelling]

/-! ## Mappings -/

/-- A comparison that mentions a column of the sources in any casing is written with the casing recorded for the
    column; in a router, with the casing it has. -/
theorem comparisons_mention_casing (hr : r.isOrdinary = true) {s u : State} {plan : Value}
    (h : Runs (convertMapping r m) s plan u) {before after : List Transformation}
    (hknown : m.known r = before ++ t :: after) :
    ∃ steps step, plan.member "transformations" = .list steps ∧ steps[before.length]? = some step ∧
      List.Forall₂ (fun use out => ∀ e w name : String, use.expression = .text e → isComparing e.toList = true →
          w.toList ∈ runs isWord e.toList → isAsciiName w.toList = true →
          (∃ c ∈ m.sourceColumns, lowerName c = lowerName w) →
          name = (if t.type = "Router" then w else spelling m.sourceColumns w) →
          Spared r (use.respelled e) name → Mentions out name)
        (t.uses (m.sourceColumns ++ before.flatMap (·.defined))) (t.written step) := by
  obtain ⟨steps, hsteps, hwritten⟩ := convertMapping_written h
  rw [hknown] at hwritten
  obtain ⟨step, hget, hstep⟩ := hwritten.get
  refine ⟨steps, step, hsteps, hget, List.forall₂_iff_get.mpr ⟨hstep.uses.length_eq, fun i hi ho => ?_⟩⟩
  rintro e w name he hcomparing hw hascii hcolumn rfl hspared
  have htranslated := hstep.uses.get hi ho
  have hspelling : spelling (List.get _ ⟨i, hi⟩).known w = if t.type = "Router" then w else spelling m.sourceColumns w := by
    split
    · rename_i hrouter
      rw [known_router hrouter (List.get_mem _ _)]
      rfl
    · rename_i hother
      exact spelling_prefix ((List.prefix_append ..).trans (prefix_known hother (List.get_mem _ _))) hcolumn
  rw [← hspelling] at hspared ⊢
  exact htranslated.mentions_spelling hr he hcomparing hascii hw hspared

/-- A filter and a router with one condition, which has a column of the source in lower case. -/
def amountFilter : Transformation := ⟨"FLT", "Filter", none, [], [("filter_condition", .text "amount > 5")]⟩

def amountRouter : Transformation :=
  ⟨"RTR", "Router", none, [], [("groups", .list [.object
    [("name", .text "HIGH"), ("type", .text "output"), ("expression", .text "amount > 5")]])]⟩

def amounts : Mapping :=
  ⟨"m", none, "10.x", [⟨"S", "Oracle", none, [⟨"AMOUNT", "number", 10, 0, none, none⟩], []⟩], [],
    [amountFilter, amountRouter], [], []⟩

theorem amounts_filtered : ∃ plan u steps step, Runs (convertMapping .standard amounts) .start plan u ∧
    plan.member "transformations" = .list steps ∧ steps[0]? = some step ∧ Mentions (step.member "condition") "AMOUNT" := by
  obtain ⟨plan, u, hrun⟩ := (convertMapping_runs_iff (m := amounts) .start).mpr (by decide +kernel)
  obtain ⟨steps, step, hsteps, hstep, huses⟩ := comparisons_mention_casing (by decide +kernel) hrun
    (show amounts.known .standard = [] ++ amountFilter :: [amountRouter] from rfl)
  refine ⟨plan, u, steps, step, hrun, hsteps, hstep, (List.forall₂_cons.mp huses).1 "amount > 5" "amount" "AMOUNT" rfl
    (by decide +kernel) (by decide +kernel) (by decide +kernel) ⟨"AMOUNT", .head _, by decide +kernel⟩ (by decide +kernel)
    ⟨⟨by decide, by decide +kernel, by decide, by decide +kernel, by decide +kernel, by decide +kernel⟩, fun b => ?_,
      fun _ _ => ok_of_toOption (by decide +kernel)⟩⟩
  exact ⟨not_stands_of_contains (by decide +kernel), not_stands_of_contains (by decide +kernel)⟩

/-- The router asks for the column in lower case. -/
theorem amounts_routed : ∃ plan u steps step, Runs (convertMapping .standard amounts) .start plan u ∧
    plan.member "transformations" = .list steps ∧ steps[1]? = some step ∧
    (step.memberList "conditions").map (·.member "expression") = [.text "amount > 5"] ∧
    spelling amounts.sourceColumns "amount" = "AMOUNT" ∧ ¬ Mentions (.text "amount > 5") "AMOUNT" := by
  obtain ⟨plan, u, hrun⟩ := (convertMapping_runs_iff (m := amounts) .start).mpr (by decide +kernel)
  obtain ⟨steps, hsteps, hwritten⟩ := convertMapping_written hrun
  have hboth : Written .standard ["AMOUNT"] ([amountFilter] ++ amountRouter :: []) steps := hwritten
  obtain ⟨step, hget, hstep⟩ := hboth.get
  have huses : List.Forall₂ (Translated .standard) [⟨.text "amount > 5", []⟩]
      ((step.memberList "conditions").map (·.member "expression")) := hstep.uses
  obtain ⟨out, rest, hout, hrest, houts⟩ := List.forall₂_cons_left_iff.mp huses
  obtain rfl := List.forall₂_nil_left_iff.mp hrest
  obtain ⟨o, rfl, ho⟩ := hout _ rfl
  have hkept : Rules.standard.convert (.text (recased (casingOf []) "amount > 5")) = .ok "amount > 5" :=
    ok_of_toOption (by decide +kernel)
  refine ⟨plan, u, steps, step, hrun, hsteps, hget, ?_, by decide +kernel, ?_⟩
  · rw [houts, Except.ok.inj (ho.symm.trans hkept)]
  · rintro ⟨o, ⟨⟩, b, hb⟩
    exact not_stands_of_contains (by decide +kernel) hb

end MappingFlow.Conversion
