/-
  MappingFlow.Proofs.Expression.Literals — the quoted texts of an expression.

  The single quotes cut a text into stretches; every second one is a literal (`literals?`).
  A reader goes through the text with the literals it has behind it and the one it is in
  (`Quoting`). It breaks at a double quote, and inside a literal at a sign that the passes
  take for structure. The readings are ordered: broken below all others, and of two
  readings of one kind the one with shorter literals below the other (`Fades`).
-/

import MappingFlow.Proofs.Pattern.Locality
import MappingFlow.Proofs.Text.Words
import Mathlib.Algebra.BigOperators.Group.List.Basic
import Mathlib.Algebra.GroupWithZero.Nat

namespace MappingFlow.Expression

open Pattern
open List hiding all

/-! ## Literals -/

/-- The stretches between single quotes. -/
def segments : List Char → List (List Char)
  | [] => [[]]
  | c :: t =>
    if c = '\'' then [] :: segments t
    else
      match segments t with
      | [] => [[c]]
      | s :: ss => (c :: s) :: ss

/-- Every second stretch, if behind each of them there is another one. -/
def enclosed : List (List Char) → Option (List (List Char))
  | [] => none
  | [_] => some []
  | _ :: x :: ss => (enclosed ss).map (x :: ·)

/-- The literals of a text from left to right, if it has no double quote and all literals
    are closed. -/
def literals? (t : List Char) : Option (List (List Char)) := if '"' ∈ t then none else enclosed (segments t)

@[simp] theorem segments_quote (t) : segments ('\'' :: t) = [] :: segments t := rfl

theorem segments_ne_nil (t) : segments t ≠ [] := by
  cases t with
  | nil => simp [segments]
  | cons c t =>
    rw [segments]
    split
    · simp
    · split <;> simp

theorem segments_cons (hc : c ≠ '\'') (h : segments t = s :: ss) : segments (c :: t) = (c :: s) :: ss := by
  rw [segments, if_neg hc, h]

theorem segments_append (hx : '\'' ∉ x) (h : segments t = s :: ss) : segments (x ++ t) = (x ++ s) :: ss := by
  induction x with
  | nil => exact h
  | cons c x ih =>
    simp only [mem_cons, not_or] at hx
    exact segments_cons (Ne.symm hx.1) (ih hx.2)

/-! ## Reading a text -/

/-- Signs that the passes take for structure. -/
def joints : List Char := ['(', ')', ',', '=', '|', '\n']

def IsPlain (x : List Char) : Prop := ∀ c ∈ x, c ∉ joints

inductive Quoting where
  | outside (done : List (List Char))
  | inside (done : List (List Char)) (current : List Char)
  | broken

namespace Quoting

def step : Quoting → Char → Quoting
  | outside done, c => if c = '\'' then inside done [] else if c = '"' then broken else outside done
  | inside done x, c =>
    if c = '\'' then outside (done ++ [x]) else if c = '"' ∨ c ∈ joints then broken else inside done (x ++ [c])
  | broken, _ => broken

end Quoting

open Quoting

def quoting : Reader Quoting := ⟨Quoting.step⟩

variable {done ds : List (List Char)}

@[simp] theorem step_outside_quote : quoting.step (outside done) '\'' = inside done [] := rfl

@[simp] theorem step_inside_quote : quoting.step (inside done x) '\'' = outside (done ++ [x]) := rfl

@[simp] theorem step_double (q) : quoting.step q '"' = broken := by cases q <;> rfl

@[simp] theorem step_broken (c : Char) : quoting.step broken c = broken := rfl

theorem step_outside (hc : c ≠ '\'') (hd : c ≠ '"') : quoting.step (outside done) c = outside done := by
  simp [quoting, Quoting.step, hc, hd]

theorem step_inside (hc : c ≠ '\'') (hd : c ≠ '"') (hj : c ∉ joints) :
    quoting.step (inside done x) c = inside done (x ++ [c]) := by
  simp [quoting, Quoting.step, hc, hd, hj]

theorem step_joint (hj : c ∈ joints) : quoting.step (inside done x) c = broken := by
  have hc : c ≠ '\'' := fun h => absurd (h ▸ hj) (by decide)
  simp [quoting, Quoting.step, hc, hj]

@[simp] theorem read_broken (t) : quoting.read broken t = broken := by
  induction t with
  | nil => rfl
  | cons c t ih => exact ih

theorem enclosed_cons (a b ss) : enclosed (a :: ss) = enclosed (b :: ss) := by
  cases ss <;> rfl

/-- The reading of a whole text, and of the rest of one inside a literal. -/
theorem read_eq_outside : (quoting.read (outside done) t = outside ds ↔ '"' ∉ t ∧ ∃ xs, enclosed (segments t) = some xs ∧
      (∀ x ∈ xs, IsPlain x) ∧ ds = done ++ xs) ∧
    ∀ y, quoting.read (inside done y) t = outside ds ↔ '"' ∉ t ∧ ∃ s ss xs, segments t = s :: ss ∧ enclosed ss = some xs ∧
      IsPlain s ∧ (∀ x ∈ xs, IsPlain x) ∧ ds = done ++ (y ++ s) :: xs := by
  induction t generalizing done with
  | nil => simp [segments, enclosed, eq_comm]
  | cons c t ih =>
    obtain ⟨s, ss, hsegments⟩ := exists_cons_of_ne_nil (segments_ne_nil t)
    by_cases hd : c = '"'
    · subst hd
      simp
    have double : '"' ∉ c :: t ↔ '"' ∉ t := by simp [Ne.symm hd]
    by_cases hc : c = '\''
    · subst hc
      simp only [Reader.read_cons, step_outside_quote, step_inside_quote, segments_quote, double]
      refine ⟨?_, fun y => ?_⟩
      · simp only [ih.2, hsegments, enclosed, Option.map_eq_some_iff, List.cons.injEq]
        grind
      · simp [ih.1, IsPlain]
    · have hcons := segments_cons hc hsegments
      refine ⟨?_, fun y => ?_⟩
      · rw [Reader.read_cons, step_outside hc hd, ih.1, double, hsegments, hcons, enclosed_cons s (c :: s)]
      · by_cases hj : c ∈ joints
        · have hplain : ¬ IsPlain (c :: s) := fun h => h c (.head _) hj
          rw [Reader.read_cons, step_joint hj, read_broken, hcons]
          simp [hplain]
        · have hplain : IsPlain (c :: s) ↔ IsPlain s := by simp [IsPlain, hj]
          rw [Reader.read_cons, step_inside hc hd hj, ih.2, double, hsegments, hcons]
          simp [hplain]

theorem read_eq_iff : quoting.read (outside []) t = outside xs ↔ literals? t = some xs ∧ ∀ x ∈ xs, IsPlain x := by
  rw [read_eq_outside.1, literals?]
  constructor
  · rintro ⟨hq, xs', hxs, hplain, rfl⟩
    rw [if_neg hq]
    exact ⟨hxs, hplain⟩
  · rintro ⟨h, hplain⟩
    split at h
    · cases h
    · rename_i hq
      exact ⟨hq, xs, h, hplain, rfl⟩

/-! ## Texts without quotes -/

def IsFree (t : List Char) : Prop := ∀ c ∈ t, c ≠ '\'' ∧ c ≠ '"'

instance (t : List Char) : Decidable (IsFree t) := inferInstanceAs (Decidable (∀ c ∈ t, c ≠ '\'' ∧ c ≠ '"'))

instance (t : List Char) : Decidable (IsPlain t) := inferInstanceAs (Decidable (∀ c ∈ t, c ∉ joints))

theorem IsFree.tail (h : IsFree (c :: t)) : IsFree t := fun d hd => h d (.tail _ hd)

theorem read_outside (h : IsFree t) : quoting.read (outside done) t = outside done := by
  induction t with
  | nil => rfl
  | cons c t ih =>
    obtain ⟨hc, hd⟩ := h c (.head _)
    rw [Reader.read_cons, step_outside hc hd, ih h.tail]

theorem read_inside (h : IsFree t) :
    quoting.read (inside done x) t = if IsPlain t then inside done (x ++ t) else broken := by
  induction t generalizing x with
  | nil => simp [IsPlain]
  | cons c t ih =>
    obtain ⟨hc, hd⟩ := h c (.head _)
    by_cases hj : c ∈ joints
    · have hplain : ¬ IsPlain (c :: t) := fun h => h c (.head _) hj
      rw [Reader.read_cons, step_joint hj, read_broken, if_neg hplain]
    · have hplain : IsPlain (c :: t) ↔ IsPlain t := by simp [IsPlain, hj]
      rw [Reader.read_cons, step_inside hc hd hj, ih h.tail]
      simp [hplain]

/-! ## Patterns that read no quote -/

/-- Patterns that capture nothing and read no quote. -/
def isFixed (p : Pattern) : Bool := p.isGroupless && (p.rejects '\'' && p.rejects '"')

theorem isFixed_all (h : ∀ p ∈ ps, isFixed p) : isFixed (all ps) = true := by
  induction ps with
  | nil => rfl
  | cons p ps ih =>
    have hp := h p (.head _)
    have hps := ih fun q hq => h q (.tail _ hq)
    cases ps with
    | nil => exact hp
    | cons q ps =>
      simp only [isFixed, Bool.and_eq_true, all, isGroupless, rejects] at hp hps ⊢
      exact ⟨⟨hp.1, hps.1⟩, ⟨hp.2.1, hps.2.1⟩, hp.2.2, hps.2.2⟩

theorem isFree_of_reads (hp : isFixed p) (hr : p.Reads s s') (hu : s.rest = u ++ s'.rest) : IsFree u := by
  simp only [isFixed, Bool.and_eq_true] at hp
  have not_mem : ∀ {d : Char}, p.rejects d = true → d ∉ u := by
    intro d hd
    obtain ⟨x, hx, hrest⟩ := reads_rejects hd hr
    rwa [append_cancel_right (hu.symm.trans hrest)]
  exact fun c hc => ⟨fun h => not_mem hp.2.1 (h ▸ hc), fun h => not_mem hp.2.2 (h ▸ hc)⟩

/-! ## The order of readings -/

def size (xs : List (List Char)) : Nat := (xs.map List.length).sum

@[simp] theorem size_nil : size [] = 0 := rfl

@[simp] theorem size_append (xs ys) : size (xs ++ ys) = size xs + size ys := by simp [size]

@[simp] theorem size_singleton (x) : size [x] = x.length := by simp [size]

/-- The first reading has lost something against the second, or they are equal. -/
inductive Fades : Quoting → Quoting → Prop
  | same (q : Quoting) : Fades q q
  | broken (q : Quoting) : Fades broken q
  | outside {done ds : List (List Char)} : size done < size ds → Fades (outside done) (outside ds)
  | inside {done ds : List (List Char)} {x y : List Char} :
      size done + x.length < size ds + y.length → Fades (inside done x) (inside ds y)

theorem Fades.trans {c : Quoting} (hab : Fades a b) (hbc : Fades b c) : Fades a c := by
  cases hab with
  | same => exact hbc
  | broken => exact .broken c
  | outside h =>
    cases hbc with
    | same => exact .outside h
    | outside h' => exact .outside (by omega)
  | inside h =>
    cases hbc with
    | same => exact .inside h
    | inside h' => exact .inside (by omega)

theorem Fades.step (c : Char) (h : Fades a b) : Fades (quoting.step a c) (quoting.step b c) := by
  by_cases hd : c = '"'
  · subst hd
    rw [step_double]
    exact .broken _
  cases h with
  | same => exact .same _
  | broken => exact .broken _
  | outside h =>
    by_cases hc : c = '\''
    · subst hc
      exact .inside (by simpa using h)
    · rw [step_outside hc hd, step_outside hc hd]
      exact .outside h
  | inside h =>
    by_cases hc : c = '\''
    · subst hc
      exact .outside (by simpa using h)
    · by_cases hj : c ∈ joints
      · rw [step_joint hj]
        exact .broken _
      · rw [step_inside hc hd hj, step_inside hc hd hj]
        exact .inside (by simp; omega)

theorem fades_respects : quoting.Respects Fades := ⟨.same, .trans, .step⟩

/-- What is read as well as before is read in the same way. -/
theorem Fades.eq_of_size (h : Fades (.outside done) (.outside ds)) (hs : size ds ≤ size done) : done = ds := by
  cases h with
  | same => rfl
  | outside h => omega

theorem Fades.antisymm (hab : Fades a b) (hba : Fades b a) : a = b := by
  cases hab with
  | same => rfl
  | broken => cases hba <;> rfl
  | outside h =>
    cases hba with
    | same => rfl
    | outside h' => omega
  | inside h =>
    cases hba with
    | same => rfl
    | inside h' => omega

/-- Signs in place of text without quotes break the literal they stand in, if any. -/
theorem fades_of_sign (hu : IsFree u) (hv : IsFree v) (hsign : ¬ IsPlain v) : quoting.Sim Fades u v := by
  refine .of_read fades_respects fun q => ?_
  cases q with
  | outside done =>
    rw [read_outside hu, read_outside hv]
    exact .same _
  | inside done x =>
    rw [read_inside hv, if_neg hsign]
    exact .broken _
  | broken =>
    rw [read_broken]
    exact .broken _

/-- Signs in place of signs break the same literals. -/
theorem same_of_signs (hu : IsFree u) (hv : IsFree v) (husign : ¬ IsPlain u) (hvsign : ¬ IsPlain v) :
    quoting.Sim Eq u v := by
  rintro q _ rfl
  cases q with
  | outside done => rw [read_outside hu, read_outside hv]
  | inside done x => rw [read_inside hu, read_inside hv, if_neg husign, if_neg hvsign]
  | broken => rw [read_broken, read_broken]

theorem fades_of_shorter (hu : IsFree u) (hv : IsFree v) (huplain : IsPlain u) (hvplain : IsPlain v)
    (hlt : v.length < u.length) : quoting.Sim Fades u v := by
  refine .of_read fades_respects fun q => ?_
  cases q with
  | outside done =>
    rw [read_outside hu, read_outside hv]
    exact .same _
  | inside done x =>
    rw [read_inside hu, read_inside hv, if_pos huplain, if_pos hvplain]
    exact .inside (by simpa using hlt)
  | broken =>
    rw [read_broken]
    exact .broken _

/-! ## Passes that work between quotes -/

theorem segments_split (hx : '\'' ∉ x) (t) : segments (x ++ '\'' :: t) = x :: segments t := by
  simpa using segments_append hx (segments_quote t)

theorem segments_quoteless (hx : '\'' ∉ x) : segments x = [x] := by
  have h : segments [] = [] :: [] := rfl
  simpa using segments_append hx h

theorem exists_split (h : '\'' ∈ t) : ∃ x u, '\'' ∉ x ∧ t = x ++ '\'' :: u := by
  obtain ⟨x, u, ht, hx⟩ := eq_append_cons_of_mem h
  exact ⟨x, u, hx, ht⟩

theorem segments_piecewise (hf : IsPiecewise f) (t) : segments (f t) = (segments t).map f := by
  induction h : t.length using Nat.strongRecOn generalizing t with
  | _ n ih =>
    by_cases ht : '\'' ∈ t
    · obtain ⟨x, u, hx, rfl⟩ := exists_split ht
      rw [hf.split x u, segments_split (hf.single x hx), segments_split hx, map_cons,
        ih u.length (by simp at h; omega) u rfl]
    · rw [segments_quoteless ht, segments_quoteless (hf.single t ht), map_singleton]

theorem enclosed_map : ∀ ss : List (List Char), enclosed (ss.map f) = (enclosed ss).map (List.map f)
  | [] => rfl
  | [_] => rfl
  | a :: x :: ss => by
    rw [map_cons, map_cons, enclosed, enclosed, enclosed_map ss, Option.map_map, Option.map_map]
    rfl

/-- Such a pass works on every literal. -/
theorem read_piecewise (hf : IsPiecewise f) (hplain : ∀ x ∈ xs, IsPlain (f x))
    (h : quoting.read (outside done) t = outside (done ++ xs)) :
    quoting.read (outside done) (f t) = outside (done ++ xs.map f) := by
  obtain ⟨hq, ys, henclosed, -, hys⟩ := read_eq_outside.1.mp h
  rw [← append_cancel_left hys] at henclosed
  refine read_eq_outside.1.mpr ⟨hf.double t hq, xs.map f, ?_, fun y hy => ?_, rfl⟩
  · rw [segments_piecewise hf, enclosed_map, henclosed, Option.map_some]
  · obtain ⟨x, hx, rfl⟩ := mem_map.mp hy
    exact hplain x hx

/-- Literals that the pass leaves alone stay as they are. -/
theorem read_of_fixed (hf : IsPiecewise f) (hfixed : ∀ x ∈ ds, f x = x)
    (h : quoting.read (outside done) t = outside ds) : quoting.read (outside done) (f t) = outside ds := by
  obtain ⟨-, xs, -, hplain, rfl⟩ := read_eq_outside.1.mp h
  have hxs : ∀ x ∈ xs, f x = x := fun x hx => hfixed x (mem_append_right _ hx)
  have := read_piecewise hf (fun x hx => (hxs x hx).symm ▸ hplain x hx) h
  rwa [map_congr_left hxs, map_id'] at this

/-- Only they do. -/
theorem fixed_of_read (hf : IsPiecewise f) (h : quoting.read (outside []) t = outside xs)
    (hnew : quoting.read (outside []) (f t) = outside xs) : ∀ x ∈ xs, f x = x := by
  obtain ⟨-, _, henclosed, -, rfl⟩ := read_eq_outside.1.mp h
  obtain ⟨-, zs, henclosed', -, hzs⟩ := read_eq_outside.1.mp hnew
  rw [nil_append] at hzs
  rw [segments_piecewise hf, enclosed_map, henclosed, Option.map_some, Option.some.injEq] at henclosed'
  have hmap : xs.map f = xs.map id := by rw [henclosed', ← hzs, map_id]
  exact map_inj_left.mp hmap

theorem mem_of_enclosed : ∀ {ss xs : List (List Char)}, enclosed ss = some xs → ∀ x ∈ xs, x ∈ ss
  | [], _, h, _, _ => by cases h
  | [_], _, h, x, hx => by cases h; cases hx
  | a :: y :: ss, _, h, x, hx => by
    obtain ⟨ys, hys, rfl⟩ := Option.map_eq_some_iff.mp h
    rcases mem_cons.mp hx with rfl | hx
    · simp
    · simp [mem_of_enclosed hys x hx]

theorem isFree_of_segment (hq : '"' ∉ t) (hx : x ∈ segments t) : IsFree x := by
  induction t generalizing x with
  | nil =>
    rw [mem_singleton.mp hx]
    intro c hc
    cases hc
  | cons c t ih =>
    simp only [mem_cons, not_or] at hq
    by_cases hc : c = '\''
    · subst hc
      rcases mem_cons.mp hx with rfl | hx
      · intro c hc
        cases hc
      · exact ih hq.2 hx
    · obtain ⟨s, ss, hs⟩ := exists_cons_of_ne_nil (segments_ne_nil t)
      rw [segments_cons hc hs] at hx
      rw [hs] at ih
      rcases mem_cons.mp hx with rfl | hx
      · intro e he
        rcases mem_cons.mp he with rfl | he
        · exact ⟨hc, Ne.symm hq.1⟩
        · exact ih hq.2 (.head _) e he
      · exact ih hq.2 (.tail _ hx)

theorem isFree_of_literal (h : quoting.read (outside []) t = outside xs) (hx : x ∈ xs) : IsFree x := by
  obtain ⟨hq, ys, henclosed, -, rfl⟩ := read_eq_outside.1.mp h
  exact isFree_of_segment hq (mem_of_enclosed henclosed x hx)

/-! ## Blanks around a text -/

theorem isFree_of_blank (h : ∀ c ∈ t, Text.isBlank c) : IsFree t := by
  have h1 : Text.isBlank '\'' = false := by decide
  have h2 : Text.isBlank '"' = false := by decide
  intro c hc
  have hblank := h c hc
  constructor
  · rintro rfl
    rw [h1] at hblank
    cases hblank
  · rintro rfl
    rw [h2] at hblank
    cases hblank

theorem read_trimLeft (q t) : quoting.read (outside q) (Text.trimLeft t) = quoting.read (outside q) t := by
  have hfree : IsFree (t.takeWhile Text.isBlank) := isFree_of_blank fun c hc => all_eq_true.mp all_takeWhile c hc
  have hsplit : t.takeWhile Text.isBlank ++ t.dropWhile Text.isBlank = t := takeWhile_append_dropWhile
  rw [Text.trimLeft]
  nth_rewrite 2 [← hsplit]
  rw [Reader.read_append, read_outside hfree]

theorem read_trimRight (h : quoting.read (outside done) t = outside ds) :
    quoting.read (outside done) (Text.trimRight t) = outside ds := by
  have hsplit : t = Text.trimRight t ++ (t.reverse.takeWhile Text.isBlank).reverse := by
    rw [Text.trimRight, Text.trimLeft, ← reverse_append, takeWhile_append_dropWhile, reverse_reverse]
  have hfree : IsFree (t.reverse.takeWhile Text.isBlank).reverse :=
    isFree_of_blank fun c hc => all_eq_true.mp all_takeWhile c (mem_reverse.mp hc)
  rw [hsplit, Reader.read_append] at h
  cases hq : quoting.read (outside done) (Text.trimRight t) with
  | outside q =>
    rw [hq, read_outside hfree] at h
    exact h
  | inside q x =>
    rw [hq, read_inside hfree] at h
    split at h <;> cases h
  | broken =>
    rw [hq, read_broken] at h
    cases h

theorem read_trim (h : quoting.read (outside done) t = outside ds) :
    quoting.read (outside done) (Text.trim t) = outside ds :=
  read_trimRight ((read_trimLeft done t).trans h)

end MappingFlow.Expression
