/-
  MappingFlow.Proofs.Text.Runs — a text as its runs and the signs between them.

  For a class of characters `runs` takes a text apart, each run of the class in one piece and
  every other character by itself, and `mapRuns` puts something in the place of each piece.
  If signs stay and runs become runs, the pieces of the new text are the new pieces
  (`runs_mapRuns`), so two such changes are one (`mapRuns_mapRuns`).
-/

import Mathlib.Data.List.SplitBy

namespace MappingFlow.Text

open List

/-- The runs of a class in a text, and each character between them. -/
def runs (p : Char → Bool) (t : List Char) : List (List Char) := t.splitBy fun c d => p c && p d

/-- Characters of a class, at least one. -/
structure IsRun (p : Char → Bool) (w : List Char) : Prop where
  ne_nil : w ≠ []
  all : ∀ c ∈ w, p c = true

instance (p : Char → Bool) (w : List Char) : Decidable (IsRun p w) :=
  decidable_of_iff (w ≠ [] ∧ w.all p = true)
    ⟨fun h => ⟨h.1, all_eq_true.mp h.2⟩, fun h => ⟨h.ne_nil, all_eq_true.mpr h.all⟩⟩

theorem IsRun.head (hw : IsRun p w) (t) : (w ++ t).head?.any p = true := by
  obtain ⟨c, w, rfl⟩ := exists_cons_of_ne_nil hw.ne_nil
  exact hw.all c mem_cons_self

theorem IsRun.reverse (hw : IsRun p w) : IsRun p w.reverse :=
  ⟨mt reverse_eq_nil_iff.mp hw.ne_nil, fun c hc => hw.all c (mem_reverse.mp hc)⟩

theorem IsRun.not_mem (hw : IsRun p w) (hd : p d = false) : d ∉ w := fun hmem =>
  Bool.false_ne_true (hd.symm.trans (hw.all d hmem))

theorem flatten_runs (t) : (runs p t).flatten = t := flatten_splitBy _ t

theorem runs_sign (hd : p d = false) (t) : runs p (d :: t) = [d] :: runs p t := by
  have hbreak : ∀ x ∈ [d].getLast?, ∀ y ∈ t.head?, (p x && p y) = false := by
    rintro x hx y -
    obtain rfl : d = x := Option.some.inj hx
    rw [hd, Bool.false_and]
  exact splitBy_append hbreak

theorem runs_run (hw : IsRun p w) (ht : t.head?.any p = false) : runs p (w ++ t) = w :: runs p t := by
  have hbreak : ∀ x ∈ w.getLast?, ∀ y ∈ t.head?, (p x && p y) = false := by
    intro x _ y hy
    rw [hy] at ht
    rw [show p y = false from ht, Bool.and_false]
  have hchain : w.IsChain fun c d => (p c && p d) = true := by
    refine (isChain_iff_getElem).mpr fun i hi => ?_
    rw [hw.all _ (getElem_mem _), hw.all _ (getElem_mem _), Bool.and_self]
  rw [runs, splitBy_append hbreak, splitBy_of_isChain hw.ne_nil hchain]
  rfl

theorem head?_dropWhile_any (p : Char → Bool) (t : List Char) : (t.dropWhile p).head?.any p = false := by
  have hnot := head?_dropWhile_not p t
  cases hh : (t.dropWhile p).head? with
  | none => rfl
  | some x => rwa [hh] at hnot

/-- Along a text: a run in one step, any other character in one step. -/
@[elab_as_elim]
theorem runs_induction (p : Char → Bool) {motive : List Char → Prop} (nil : motive [])
    (sign : ∀ d t, p d = false → motive t → motive (d :: t))
    (run : ∀ w t, IsRun p w → t.head?.any p = false → motive t → motive (w ++ t)) (t : List Char) : motive t := by
  induction hn : t.length using Nat.strongRecOn generalizing t with
  | _ n ih =>
    cases t with
    | nil => exact nil
    | cons d t =>
      by_cases hd : p d = true
      · have hsplit := takeWhile_append_dropWhile (p := p) (l := d :: t)
        have hrun : IsRun p ((d :: t).takeWhile p) := ⟨by simp [hd], all_eq_true.mp all_takeWhile⟩
        have hlt : ((d :: t).dropWhile p).length < n := by
          have hlength := congrArg List.length hsplit
          have hpos := length_pos_iff.mpr hrun.ne_nil
          rw [length_append] at hlength
          omega
        rw [← hsplit]
        exact run _ _ hrun (head?_dropWhile_any p _) (ih _ hlt _ rfl)
      · exact sign d t (Bool.not_eq_true _ ▸ hd) (ih t.length (by rw [← hn]; exact Nat.lt_succ_self _) t rfl)

theorem mem_runs (h : w ∈ runs p t) : IsRun p w ∨ ∃ d, p d = false ∧ w = [d] := by
  induction t using runs_induction p with
  | nil => cases h
  | sign d t hd ih =>
    rw [runs_sign hd] at h
    rcases mem_cons.mp h with rfl | h
    · exact .inr ⟨d, hd, rfl⟩
    · exact ih h
  | run v t hv ht ih =>
    rw [runs_run hv ht] at h
    rcases mem_cons.mp h with rfl | h
    · exact .inl hv
    · exact ih h

/-- Something else for each run and for each other character. -/
def mapRuns (p : Char → Bool) (f : List Char → List Char) (t : List Char) : List Char := (runs p t).flatMap f

/-- Signs stay, and runs become runs. -/
structure KeepsRuns (p : Char → Bool) (f : List Char → List Char) : Prop where
  sign : ∀ d, p d = false → f [d] = [d]
  run : ∀ w, IsRun p w → IsRun p (f w)

theorem mapRuns_sign (hd : p d = false) (t) : mapRuns p f (d :: t) = f [d] ++ mapRuns p f t := by
  rw [mapRuns, runs_sign hd, flatMap_cons, mapRuns]

theorem mapRuns_run (hw : IsRun p w) (ht : t.head?.any p = false) : mapRuns p f (w ++ t) = f w ++ mapRuns p f t := by
  rw [mapRuns, runs_run hw ht, flatMap_cons, mapRuns]

theorem mapRuns_congr (h : ∀ w ∈ runs p t, f w = g w) : mapRuns p f t = mapRuns p g t := flatMap_congr h

theorem KeepsRuns.runs_mapRuns (hf : KeepsRuns p f) (t) : runs p (mapRuns p f t) = (runs p t).map f := by
  induction t using runs_induction p with
  | nil => rfl
  | sign d t hd ih =>
    rw [mapRuns_sign hd, runs_sign hd, map_cons, hf.sign d hd, ← ih]
    exact runs_sign hd _
  | run w t hw ht ih =>
    have hclear : (mapRuns p f t).head?.any p = false := by
      cases t with
      | nil => rfl
      | cons d t =>
        rw [mapRuns_sign ht, hf.sign d ht]
        exact ht
    rw [mapRuns_run hw ht, runs_run (hf.run w hw) hclear, ih, runs_run hw ht, map_cons]

theorem KeepsRuns.mapRuns_mapRuns (hf : KeepsRuns p f) (g t) : mapRuns p g (mapRuns p f t) = mapRuns p (g ∘ f) t := by
  rw [mapRuns, hf.runs_mapRuns, flatMap_map]
  rfl

end MappingFlow.Text
