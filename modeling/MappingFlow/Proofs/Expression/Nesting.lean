/-
  MappingFlow.Proofs.Expression.Nesting — which nested calls are converted at every depth.

  A sweep translates the outermost calls of a function only: the match that begins at one
  goes on to the first closing parenthesis behind its commas, and what stands in between
  is passed over. The next round can reach further in if the rule no longer matches what it
  wrote. That is so for NVL, which becomes `coalesce`, but not for a name that only changes
  case. `Layered` counts how many matches of a function lie over each of its calls.
-/

import MappingFlow.Proofs.Expression.Sweep

namespace MappingFlow.Expression

open Pattern Text
open List

variable {s : Slot} {ss : List Slot} {σ : Option Nat}

/-! ## How many rounds a function needs -/

/-- The heads of `f` left so far whose matches would still be going on, each with the commas it
    has to pass. -/
def waiting (f : Callee) (s : Slot) (reach : List Nat) : List Nat :=
  (if s = .head f false then [f.commas] else []) ++ reach.filterMap s.advance

/-- At every head of `f` that is left, fewer than `n` earlier ones would still be matching. -/
def Layered (f : Callee) (n : Nat) : List Nat → List Slot → Prop
  | _, [] => True
  | reach, s :: ss => (s = .head f false → reach.length < n) ∧ Layered f n (waiting f s reach) ss

instance decidableLayered (f : Callee) (n : Nat) : ∀ reach ss, Decidable (Layered f n reach ss)
  | _, [] => .isTrue trivial
  | reach, s :: ss =>
    have := decidableLayered f n (waiting f s reach) ss
    inferInstanceAs (Decidable ((s = .head f false → reach.length < n) ∧ Layered f n (waiting f s reach) ss))

variable {f g : Callee} {reach : List Nat}

theorem layered_zero_iff : Layered f 0 reach ss ↔ .head f false ∉ ss := by
  induction ss generalizing reach with
  | nil => simp [Layered]
  | cons s ss ih =>
    rw [Layered, ih, mem_cons, not_or]
    refine and_congr_left fun _ => ?_
    exact ⟨fun h hs => absurd (h hs.symm) (Nat.not_lt_zero _), fun h hs => absurd hs.symm h⟩

/-! ### Rounds of other functions -/

/-- The slot as far as `f` is concerned: the head of another function is nothing to it. -/
def Slot.mask (f : Callee) : Slot → Slot
  | head g t => if g = f then head g t else column []
  | s => s

@[simp] theorem advance_mask (s : Slot) : (s.mask f).advance = s.advance := by
  cases s with
  | head g t =>
    change (if g = f then Slot.head g t else .column []).advance = _
    split <;> rfl
  | column | comma | close => rfl

@[simp] theorem mask_eq_head_iff (t : Bool) : s.mask f = .head f t ↔ s = .head f t := by
  cases s with
  | head g u => by_cases hg : g = f <;> simp [Slot.mask, hg]
  | column | comma | close => rfl

theorem mem_mask (t : Bool) : .head f t ∈ ss.map (Slot.mask f) ↔ .head f t ∈ ss := by
  simp

theorem layered_mask : Layered f n reach (ss.map (Slot.mask f)) ↔ Layered f n reach ss := by
  induction ss generalizing reach with
  | nil => rfl
  | cons s ss ih => simp only [map_cons, Layered, waiting, advance_mask, mask_eq_head_iff, ih]

theorem takes_iff (s : Slot) : f.takes s ↔ s = .head f false ∨ s = .head f true ∧ f ≠ .nvl := by
  simp [Callee.takes]

theorem translate_of_takes (h : f.takes s) : s.translate = .head f true := by
  rcases (takes_iff s).mp h with rfl | ⟨rfl, -⟩ <;> rfl

theorem mask_pass (f : Callee) (σ : Option Nat) :
    (sweep f.takes f.commas σ ss).map (Slot.mask f) = sweep f.takes f.commas σ (ss.map (Slot.mask f)) := by
  have htakes : ∀ s : Slot, f.takes (s.mask f) = f.takes s := fun s => by
    rw [Bool.eq_iff_iff, takes_iff, takes_iff, mask_eq_head_iff, mask_eq_head_iff]
  fun_induction sweep f.takes f.commas σ ss with
  | case1 => rfl
  | case2 j s ss ih => simp [sweep, ih]
  | case3 s ss hs ih =>
    rw [map_cons, map_cons, sweep, htakes, if_pos hs, ih, translate_of_takes hs, translate_of_takes ((htakes s).trans hs),
      (mask_eq_head_iff true).mpr rfl]
  | case4 s ss hs ih => rw [map_cons, map_cons, sweep, htakes, if_neg hs, ih]

theorem mask_other (hg : g ≠ f) (σ : Option Nat) :
    (sweep g.takes g.commas σ ss).map (Slot.mask f) = ss.map (Slot.mask f) := by
  fun_induction sweep g.takes g.commas σ ss with
  | case1 => rfl
  | case2 j s ss ih => rw [map_cons, ih, map_cons]
  | case3 s ss hs ih =>
    have hmask : s.translate.mask f = s.mask f := by
      rcases (takes_iff s).mp hs with rfl | ⟨rfl, -⟩ <;> simp [Slot.translate, Slot.mask, hg]
    rw [map_cons, ih, hmask, map_cons]
  | case4 s ss hs ih => rw [map_cons, ih, map_cons]

/-- Of all rounds, `f` sees its own passes. -/
theorem mask_rounds (n : Nat) : (round^[n] ss).map (Slot.mask f) = f.pass^[n] (ss.map (Slot.mask f)) := by
  have pass : ∀ g ss, (Callee.pass g ss).map (Slot.mask f) =
      if g = f then f.pass (ss.map (Slot.mask f)) else ss.map (Slot.mask f) := by
    intro g ss
    split
    · subst_vars; exact mask_pass g none
    · exact mask_other ‹_› none
  have once : Function.Semiconj (map (Slot.mask f)) round f.pass := fun ss => by
    simp only [round, Callee.all, foldl_cons, foldl_nil, pass]
    cases f <;> rfl
  exact once.iterate_right n ss

/-! ### Functions whose rule matches what it has written -/

theorem sweep_cons (hs : ¬ begins s) : sweep begins k σ (s :: ss) = s :: sweep begins k (σ.bind s.advance) ss := by
  cases σ with
  | some j => rfl
  | none => rw [sweep, if_neg hs]; rfl

/-- A pass leaves a head where the match of another one goes on. -/
theorem left_iff_layered (h : .head f true ∉ ss) (σ : Option Nat) :
    .head f false ∉ sweep f.takes f.commas σ ss ↔ Layered f 1 σ.toList ss := by
  induction ss generalizing σ with
  | nil => cases σ <;> simp [sweep, Layered]
  | cons s ss ih =>
    simp only [mem_cons, not_or] at h
    have ih := ih h.2
    by_cases hs : s = .head f false
    · subst hs
      cases σ with
      | some j => simp [sweep, Layered]
      | none => simp [sweep, Layered, takes_iff, Slot.translate, ih, waiting]
    · have htakes : ¬ f.takes s = true := by simp [takes_iff, hs, Ne.symm h.1]
      have hreach : waiting f s σ.toList = (σ.bind s.advance).toList := by
        cases σ with
        | none => simp [waiting, hs]
        | some j => cases hj : s.advance j <;> simp [waiting, hs, hj]
      rw [sweep_cons htakes, Layered, hreach, mem_cons, not_or, ih]
      simp [hs, Ne.symm hs]

theorem pass_pass (hf : f ≠ .nvl) (σ : Option Nat) :
    sweep f.takes f.commas σ (sweep f.takes f.commas σ ss) = sweep f.takes f.commas σ ss := by
  have hagain : f.takes (.head f true) = true := (takes_iff _).mpr (.inr ⟨rfl, hf⟩)
  fun_induction sweep f.takes f.commas σ ss with
  | case1 => rfl
  | case2 j s ss ih => rw [sweep, ih]
  | case3 s ss hs ih =>
    rw [translate_of_takes hs, sweep, if_pos hagain, ih]
    rfl
  | case4 s ss hs ih => rw [sweep, if_neg hs, ih]

/-! ### The function whose rule does not -/

@[simp] theorem filterMap_head (f : Callee) (t : Bool) (reach : List Nat) :
    reach.filterMap (Slot.head f t).advance = reach := by
  rw [show (Slot.head f t).advance = some from funext fun _ => rfl, filterMap_some]

theorem waiting_perm (hperm : reach.Perm (σ.toList ++ reach')) :
    (reach.filterMap s.advance).Perm ((σ.bind s.advance).toList ++ reach'.filterMap s.advance) := by
  have := hperm.filterMap s.advance
  rw [filterMap_append] at this
  cases σ with
  | none => exact this
  | some j =>
    cases hj : s.advance j with
    | none | some => simpa [hj] using this

/-- A round takes one layer off. -/
theorem layered_sweep (hperm : reach.Perm (σ.toList ++ reach')) (hlen : reach'.length ≤ n) :
    Layered .nvl n reach' (sweep Callee.nvl.takes 1 σ ss) ↔ Layered .nvl (n + 1) reach ss := by
  induction ss generalizing σ reach reach' with
  | nil => cases σ <;> exact Iff.rfl
  | cons s ss ih =>
    have hlength := hperm.length_eq
    rw [length_append] at hlength
    by_cases hs : s = .head .nvl false
    · subst hs
      have here : ∀ reach, waiting .nvl (.head .nvl false) reach = 1 :: reach := fun reach => by
        simp [waiting, Callee.commas]
      cases σ with
      | some j =>
        -- The head stands inside a match, and is left to the next round.
        rw [sweep, Layered, Layered, here, here]
        simp only [Option.toList_some, length_singleton] at hlength
        have hperm' : (1 :: reach).Perm ((some j).toList ++ 1 :: reach') :=
          (hperm.cons 1).trans perm_middle.symm
        by_cases hroom : reach'.length < n
        · exact and_congr (by simp [hroom, hlength]; omega) (ih hperm' hroom)
        · exact iff_of_false (fun h => hroom (h.1 rfl)) fun h => by have := h.1 rfl; omega
      | none =>
        -- The head begins a match.
        have htakes : Callee.nvl.takes (.head .nvl false) = true := by decide
        have passed : waiting .nvl (.head .nvl true) reach' = reach' := by simp [waiting]
        rw [sweep, if_pos htakes, Slot.translate, Layered, Layered, here, passed]
        simp only [Option.toList_none, length_nil] at hlength
        exact and_congr (by simp [hlength]; omega) (ih (hperm.cons 1) hlen)
    · have htakes : ¬ Callee.nvl.takes s = true := by simp [takes_iff, hs]
      have elsewhere : ∀ reach, waiting .nvl s reach = reach.filterMap s.advance := fun reach => by simp [waiting, hs]
      rw [sweep_cons htakes, Layered, Layered, elsewhere, elsewhere]
      exact and_congr (by simp [hs]) (ih (waiting_perm hperm) (Nat.le_trans (length_filterMap_le ..) hlen))

/-! ### All rounds -/

/-- How many layers of calls the rounds reach. -/
def Callee.limit : Callee → Nat
  | nvl => 10
  | _ => 1

/-- A function other than NVL is done in the first round, if at all: its rule finds its own
    output again. -/
theorem left_rounds (h : .head f true ∉ ss) : .head f false ∉ round^[10] ss ↔ Layered f f.limit [] ss := by
  rw [← mem_mask, mask_rounds, ← layered_mask]
  rw [← mem_mask] at h
  generalize ss.map (Slot.mask f) = ss at h ⊢
  by_cases hf : f = .nvl
  · subst hf
    have rounds : ∀ m n ss, Layered .nvl n [] (Callee.nvl.pass^[m] ss) ↔ Layered .nvl (n + m) [] ss := by
      intro m
      induction m with
      | zero => exact fun n ss => Iff.rfl
      | succ m ih =>
        intro n ss
        rw [Function.iterate_succ_apply, ih]
        exact layered_sweep (σ := none) (List.Perm.refl _) (Nat.zero_le _)
    exact layered_zero_iff.symm.trans (rounds _ 0 ss)
  · have hlimit : f.limit = 1 := by cases f <;> trivial
    have hfixed : f.pass (f.pass ss) = f.pass ss := pass_pass hf none
    rw [Function.iterate_succ_apply, Function.iterate_fixed hfixed, hlimit]
    exact left_iff_layered h none

/-! ## Expression trees -/

inductive Unary where
  | upper
  | lower
  | length
  | abs
  deriving DecidableEq

def Unary.callee : Unary → Callee
  | upper => .upper
  | lower => .lower
  | length => .length
  | abs => .abs

inductive Tree where
  | column (name : List Char)
  | one (f : Unary) (x : Tree)
  | nvl (x y : Tree)
  | iif (x y z : Tree)

namespace Tree

/-- The expression, with the names of the source language or those of the target. -/
def render (translated : Bool) : Tree → List Char
  | column name => name
  | one f x => f.callee.name translated ++ ['('] ++ x.render translated ++ [')']
  | nvl x y =>
    Callee.nvl.name translated ++ ['('] ++ x.render translated ++ [',', ' '] ++ y.render translated ++ [')']
  | iif x y z =>
    Callee.iif.name translated ++ ['('] ++ x.render translated ++ [',', ' '] ++ y.render translated ++ [',', ' '] ++
      z.render translated ++ [')']

def columns : Tree → List (List Char)
  | column name => [name]
  | one _ x => x.columns
  | nvl x y => x.columns ++ y.columns
  | iif x y z => x.columns ++ y.columns ++ z.columns

/-- The slots of the expression, with no name translated. -/
def slots : Tree → List Slot
  | column name => [.column name]
  | one f x => .head f.callee false :: (x.slots ++ [.close])
  | nvl x y => .head .nvl false :: (x.slots ++ .comma :: (y.slots ++ [.close]))
  | iif x y z => .head .iif false :: (x.slots ++ .comma :: (y.slots ++ .comma :: (z.slots ++ [.close])))

variable {t : Tree}

theorem text_slots (t : Tree) : text t.slots = t.render false := by
  induction t with
  | column name => exact append_nil name
  | one f x ih => simp [slots, render, ih, Slot.mark, Mark.text]
  | nvl x y ihx ihy => simp [slots, render, ihx, ihy, Slot.mark, Mark.text]
  | iif x y z ihx ihy ihz => simp [slots, render, ihx, ihy, ihz, Slot.mark, Mark.text]

theorem text_translated (t : Tree) : text (t.slots.map Slot.translate) = t.render true := by
  induction t with
  | column name => exact append_nil name
  | one f x ih => simp [slots, render, ih, Slot.translate, Slot.mark, Mark.text]
  | nvl x y ihx ihy => simp [slots, render, ihx, ihy, Slot.translate, Slot.mark, Mark.text]
  | iif x y z ihx ihy ihz => simp [slots, render, ihx, ihy, ihz, Slot.translate, Slot.mark, Mark.text]

theorem untranslated (t : Tree) (f : Callee) : .head f true ∉ t.slots := by
  induction t with
  | column name => simp [slots]
  | one g x ih => simp [slots, ih]
  | nvl x y ihx ihy => simp [slots, ihx, ihy]
  | iif x y z ihx ihy ihz => simp [slots, ihx, ihy, ihz]

theorem joined_slots (h : Joined false (rest.map Slot.mark)) : Joined true ((t.slots ++ rest).map Slot.mark) := by
  induction t generalizing rest with
  | column name => exact ⟨rfl, h⟩
  | one f x ih =>
    rw [slots, cons_append, append_assoc]
    exact ⟨rfl, ih ⟨rfl, h⟩⟩
  | nvl x y ihx ihy =>
    rw [slots, cons_append, append_assoc, cons_append, append_assoc]
    exact ⟨rfl, ihx ⟨rfl, ihy ⟨rfl, h⟩⟩⟩
  | iif x y z ihx ihy ihz =>
    simp only [slots, cons_append, append_assoc]
    exact ⟨rfl, ihx ⟨rfl, ihy ⟨rfl, ihz ⟨rfl, h⟩⟩⟩⟩

theorem closes_close (rest : List Slot) : Closes 0 (.close :: rest) := trivial

theorem closes_comma (h : Closes k rest) : Closes (k + 1) (.comma :: rest) := h

theorem closing_slots (h : Closing rest) : Closing (t.slots ++ rest) := by
  have close : ∀ rest, Closing rest → Closing (.close :: rest) := fun _ h => ⟨by simp, h⟩
  have comma : ∀ rest, Closing rest → Closing (.comma :: rest) := fun _ h => ⟨by simp, h⟩
  have head : ∀ f rest, Closes (Callee.commas f) rest → Closing rest → Closing (.head f false :: rest) :=
    fun f rest hc h => ⟨fun g b hg => by cases hg; exact hc, h⟩
  induction t generalizing rest with
  | column name => exact ⟨by simp, h⟩
  | one f x ih =>
    rw [slots, cons_append, append_assoc]
    refine head _ _ ?_ (ih (close _ h))
    have hzero : f.callee.commas = 0 := by cases f <;> rfl
    rw [hzero]
    exact (closes_close rest).append _
  | nvl x y ihx ihy =>
    simp only [slots, cons_append, append_assoc]
    refine head _ _ ?_ (ihx (comma _ (ihy (close _ h))))
    exact (closes_comma ((closes_close rest).append y.slots)).append _
  | iif x y z ihx ihy ihz =>
    simp only [slots, cons_append, append_assoc]
    refine head _ _ ?_ (ihx (comma _ (ihy (comma _ (ihz (close _ h))))))
    exact (closes_comma ((closes_comma ((closes_close rest).append z.slots)).append y.slots)).append _

theorem mem_columns {name : List Char} (h : .column name ∈ t.slots) : name ∈ t.columns := by
  induction t with
  | column name' => simpa [slots, columns] using h
  | one f x ih => exact ih (by simpa [slots] using h)
  | nvl x y ihx ihy =>
    have h : .column name ∈ x.slots ∨ .column name ∈ y.slots := by simpa [slots] using h
    exact mem_append.mpr (h.imp ihx ihy)
  | iif x y z ihx ihy ihz =>
    have h : (.column name ∈ x.slots ∨ .column name ∈ y.slots) ∨ .column name ∈ z.slots := by
      simpa [slots, or_assoc] using h
    exact mem_append.mpr (h.imp (fun h => mem_append.mpr (h.imp ihx ihy)) ihz)

theorem shaped_slots (h : ∀ c ∈ t.columns, isOrdinary c) : Shaped t.slots := by
  refine shaped_iff.mpr ⟨?_, fun c hc => h c (mem_columns hc), ?_⟩
  · have hjoined : Joined true ((t.slots ++ []).map Slot.mark) := joined_slots rfl
    rwa [append_nil] at hjoined
  · have hclosing : Closing (t.slots ++ []) := closing_slots trivial
    rwa [append_nil] at hclosing

end Tree

/-! ## The conversion of a tree -/

theorem bar_not_mem_text (h : Shaped ss) : '|' ∉ text ss := by
  refine sign_not_mem_text h.isPhrase rfl fun s _ => ?_
  cases s <;> simp [Slot.mark, Mark.signs]

theorem map_translate_rounds (n : Nat) : (round^[n] ss).map Slot.translate = ss.map Slot.translate := by
  induction n with
  | zero => rfl
  | succ n ih =>
    rw [Function.iterate_succ_apply', ← ih]
    simp only [round, Callee.all, foldl_cons, foldl_nil, Callee.pass, map_translate_sweep]

theorem convert_text (h : Shaped ss) : convert (text ss) = .ok (text (round^[10] ss)) := by
  have hrounds : Shaped (round^[10] ss) := by
    rwa [← shaped_translate, map_translate_rounds, shaped_translate]
  have hstructure : convertStructure (text ss) = text (round^[10] ss) := by
    rw [convertStructure, text, clean_phrase h.isPhrase (gap_not_mem ss),
      convertDecode_phrase h.isPhrase (silent_slots (by decide) ss),
      convertDates_phrase h.isPhrase (silent_slots (by decide) ss) (silent_slots (by decide) ss)
        (silent_slots (by decide) ss)]
    exact convertCalls_text h
  have hresult : convertUnchecked (text ss) = text (round^[10] ss) := by
    rw [convertUnchecked, hstructure, convertJoins_quiet (bar_not_mem_text hrounds)]
    exact (congrArg convertComparisons (convertOperators_phrase hrounds.isPhrase)).trans
      (convertComparisons_phrase hrounds.isPhrase)
  have hmarkers : markersIn (text (round^[10] ss)) = [] := by
    refine markersIn_phrase hrounds.isPhrase fun w hw => ?_
    obtain ⟨s, -, hs⟩ := mem_map.mp hw
    cases s with
    | head f b => cases hs; cases f <;> cases b <;> decide
    | column | comma | close => cases hs
  have hblank : isBlankText (text ss) = false := not_isBlankText_phrase h.isPhrase (gap_not_mem ss)
  rw [convert, hblank, if_neg (by decide)]
  simp only [hresult, hmarkers]

/-- A text has all its names translated if it reads so. -/
theorem text_eq_translated_iff : text ss = text (ss.map Slot.translate) ↔ ∀ f, .head f false ∉ ss := by
  induction ss with
  | nil => simp
  | cons s ss ih =>
    rw [map_cons, text_cons, text_cons]
    by_cases hs : s.translate = s
    · rw [hs, append_cancel_left_eq, ih]
      refine forall_congr' fun f => ?_
      have hne : .head f false ≠ s := by rintro rfl; cases hs
      rw [mem_cons, not_or]
      exact (and_iff_right hne).symm
    · cases s with
      | head f b =>
        cases b with
        | true => exact absurd rfl hs
        | false =>
          -- The two names begin with different letters.
          refine iff_of_false (fun heq => ?_) fun h => h f (.head _)
          cases f <;> cases heq
      | column | comma | close => exact absurd rfl hs

/-- The expression comes out translated at every depth exactly when no UPPER, LOWER, LENGTH, ABS or
    IIF stands where the match of an earlier one of the same name still goes on, and no NVL
    where those of ten earlier ones do. A match goes on to the first closing parenthesis behind
    its commas, wherever that parenthesis belongs. -/
theorem convert_render_iff (t : Tree) (h : ∀ c ∈ t.columns, isOrdinary c = true) :
    convert (t.render false) = .ok (t.render true) ↔ ∀ f : Callee, Layered f f.limit [] t.slots := by
  have hshaped := Tree.shaped_slots h
  rw [← t.text_slots, ← t.text_translated, convert_text hshaped, ← map_translate_rounds 10, Except.ok.injEq,
    text_eq_translated_iff]
  exact forall_congr' fun f => left_rounds (t.untranslated f)

/-- A value or the default of its default, with a call in every argument. -/
def defaultOfDefault : Tree :=
  .nvl (.one .upper (.column ['A'])) (.nvl (.one .length (.column ['B'])) (.iif (.column ['C']) (.column ['D']) (.column ['E'])))

theorem defaultOfDefault_translated : (∀ c ∈ defaultOfDefault.columns, isOrdinary c = true) ∧
    convert (defaultOfDefault.render false) = .ok (defaultOfDefault.render true) :=
  have hcolumns : ∀ c ∈ defaultOfDefault.columns, isOrdinary c = true := by decide +kernel
  ⟨hcolumns, (convert_render_iff defaultOfDefault hcolumns).mpr fun f => by cases f <;> decide⟩

def upperOfUpper : Tree := .one .upper (.one .upper (.column ['X']))

/-- The rule for UPPER finds its own output and never sees the call inside. -/
theorem upperOfUpper_untranslated : convert (upperOfUpper.render false) = .ok "upper(UPPER(X))".toList ∧
    upperOfUpper.render true = "upper(upper(X))".toList := by
  have hcolumns : ∀ c ∈ upperOfUpper.columns, isOrdinary c = true := by decide +kernel
  refine ⟨?_, by decide⟩
  rw [← Tree.text_slots, convert_text (Tree.shaped_slots hcolumns)]
  exact congrArg Except.ok (by decide)

end MappingFlow.Expression
