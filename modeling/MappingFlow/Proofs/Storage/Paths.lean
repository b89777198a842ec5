/-
  MappingFlow.Proofs.Storage.Paths — a path and its text.

  The parts of a path that was read have no slash in them and are neither empty nor a
  single dot (`Path.IsClean`); a path with such parts is the one that its text stands for
  (`read_toText`). A name that a single part can be (`IsPlainName`) names a child of every
  folder, and the text of the path to it ends in it.
-/

import MappingFlow.Proofs.Text.Splitting
import MappingFlow.Storage.Path

namespace MappingFlow

open List

variable {ps : List String} {n : String} {p : Path}

/-! ## Pieces between slashes -/

namespace Text

theorem split_slash_cons (c : Char) (t) :
    split ['/'] (c :: t) = if c = '/' then [] :: split ['/'] t else consHead c (split ['/'] t) := by
  have hprefix : ['/'].isPrefixOf (c :: t) = ('/' == c) := by simp [List.isPrefixOf]
  unfold split
  rw [splitFrom, hprefix]
  by_cases hc : c = '/'
  · subst hc
    simp
  · have hne : ('/' == c) = false := beq_eq_false_iff_ne.mpr (Ne.symm hc)
    simp [hne, hc]

theorem not_mem_of_mem_split_slash (h : a ∈ split ['/'] t) : '/' ∉ a := by
  induction t generalizing a with
  | nil =>
    obtain rfl : a = [] := by simpa [split, splitFrom] using h
    exact not_mem_nil
  | cons c t ih =>
    rw [split_slash_cons] at h
    split at h
    · rcases mem_cons.mp h with rfl | h
      · exact not_mem_nil
      · exact ih h
    · rename_i hc
      unfold consHead at h
      split at h
      · obtain rfl := mem_singleton.mp h
        simpa using Ne.symm hc
      · rename_i p ps hsplit
        rw [hsplit] at ih
        rcases mem_cons.mp h with rfl | h
        · rw [mem_cons, not_or]
          exact ⟨Ne.symm hc, ih mem_cons_self⟩
        · exact ih (.tail _ h)

theorem split_slash_intercalate {ps : List (List Char)} (h : ∀ p ∈ ps, '/' ∉ p) (hne : ps ≠ []) :
    split ['/'] (['/'].intercalate ps) = ps := by
  induction ps with
  | nil => exact absurd rfl hne
  | cons p ps ih =>
    have hp := h p mem_cons_self
    cases ps with
    | nil =>
      rw [intercalate_singleton]
      exact split_of_not_mem hp
    | cons q ps =>
      have hrest := ih (fun r hr => h r (.tail _ hr)) (cons_ne_nil q ps)
      rw [intercalate_cons_cons, append_assoc, split_append hp, hrest]

end Text

/-! ## Paths -/

namespace Path

/-- A part that reading a path keeps as it is. -/
def IsPart (n : String) : Prop := '/' ∉ n.toList ∧ n ≠ "" ∧ n ≠ "."

instance (n : String) : Decidable (IsPart n) := inferInstanceAs (Decidable (_ ∧ _))

def IsClean (p : Path) : Prop := ∀ n ∈ p.parts, IsPart n

theorem isPart_iff : IsPart n ↔ '/' ∉ n.toList ∧ n.toList ≠ [] ∧ n.toList ≠ ['.'] := by
  have hempty : n.toList = [] ↔ n = "" := @String.toList_inj n ""
  have hdot : n.toList = ['.'] ↔ n = "." := @String.toList_inj n "."
  unfold IsPart
  rw [Ne, Ne, Ne, Ne, hempty, hdot]

theorem isClean_read (s) : (Path.read s).IsClean := by
  intro n hn
  obtain ⟨t, ht, rfl⟩ := mem_map.mp hn
  obtain ⟨ht, hkept⟩ := mem_filter.mp ht
  rw [isPart_iff, String.toList_ofList]
  refine ⟨Text.not_mem_of_mem_split_slash ht, ?_, ?_⟩
  · rintro rfl
    cases hkept
  · rintro rfl
    cases hkept

/-- A piece that is a part of the path. -/
def keeps (t : List Char) : Bool := !t.isEmpty && t != ['.']

theorem keeps_of_isPart (h : IsPart n) : keeps n.toList = true := by
  obtain ⟨-, hempty, hdot⟩ := isPart_iff.mp h
  simp [keeps, hempty, hdot]

theorem filter_keeps_split (h : ∀ n ∈ ps, IsPart n) :
    (Text.split ['/'] ("/".intercalate ps).toList).filter keeps = ps.map String.toList := by
  rw [String.toList_intercalate]
  change (Text.split ['/'] (['/'].intercalate (ps.map String.toList))).filter keeps = _
  by_cases hps : ps = []
  · subst hps
    rfl
  · rw [Text.split_slash_intercalate]
    · refine filter_eq_self.mpr fun t ht => ?_
      obtain ⟨n, hn, rfl⟩ := mem_map.mp ht
      exact keeps_of_isPart (h n hn)
    · intro t ht
      obtain ⟨n, hn, rfl⟩ := mem_map.mp ht
      exact (h n hn).1
    · simpa using hps

theorem head?_intercalate (h : ∀ n ∈ ps, IsPart n) : ("/".intercalate ps).toList.head? ≠ some '/' := by
  rw [String.toList_intercalate]
  cases ps with
  | nil => simp
  | cons n ps =>
    obtain ⟨hslash, hempty, -⟩ := isPart_iff.mp (h n mem_cons_self)
    obtain ⟨c, t, hn⟩ := exists_cons_of_ne_nil hempty
    have hc : c ≠ '/' := by
      rintro rfl
      exact hslash (by simp [hn])
    cases ps <;> simp [hn, hc, intercalate_cons_cons]

theorem read_eq (hhead : (s.toList.head? == some '/') = b)
    (hpieces : (Text.split ['/'] s.toList).filter keeps = ps.map String.toList) : Path.read s = ⟨b, ps⟩ := by
  have hparts : (Path.read s).parts = ps := by
    change ((Text.split ['/'] s.toList).filter keeps).map String.ofList = ps
    rw [hpieces, map_map]
    simp
  rw [← hparts, ← hhead]
  rfl

theorem read_toText (h : p.IsClean) : Path.read p.toText = p := by
  obtain ⟨isAbsolute, parts⟩ := p
  have hpieces := filter_keeps_split h
  unfold toText
  cases isAbsolute with
  | true =>
    have htext : ("/" ++ "/".intercalate parts).toList = '/' :: ("/".intercalate parts).toList := by
      rw [String.toList_append]
      rfl
    dsimp only
    rw [if_pos rfl]
    refine read_eq (by rw [htext]; rfl) ?_
    rw [htext, Text.split_slash_cons, if_pos rfl, filter_cons_of_neg (by decide)]
    exact hpieces
  | false =>
    by_cases hempty : parts = []
    · subst hempty
      decide
    · simp only [Bool.false_eq_true, if_false, List.isEmpty_iff, hempty]
      exact read_eq (beq_eq_false_iff_ne.mpr (head?_intercalate h)) hpieces

/-- The text of a path is never empty. -/
theorem toText_ne_empty (h : p.IsClean) : p.toText ≠ "" := by
  intro hempty
  have hread := read_toText h
  rw [hempty] at hread
  rw [← hread] at hempty
  exact absurd hempty (by decide)

/-! ## Children -/

/-- A name that a file or a folder can have. -/
def IsPlainName (n : String) : Prop := IsPart n ∧ n ≠ ".."

instance (n : String) : Decidable (IsPlainName n) := inferInstanceAs (Decidable (_ ∧ _))

theorem read_name (h : IsPart n) : Path.read n = ⟨false, [n]⟩ := by
  have hclean : IsClean ⟨false, [n]⟩ := fun m hm => by
    obtain rfl := mem_singleton.mp hm
    exact h
  have htext : Path.toText ⟨false, [n]⟩ = n := by
    simp [toText]
  have hread := read_toText hclean
  rwa [htext] at hread

theorem child_eq (h : IsPart n) (p : Path) : p.child n = { p with parts := p.parts ++ [n] } := by
  unfold child
  rw [read_name h]
  rfl

theorem isClean_child (h : IsPart n) (hp : p.IsClean) : (p.child n).IsClean := by
  rw [child_eq h]
  intro m hm
  rcases mem_append.mp hm with hm | hm
  · exact hp m hm
  · obtain rfl := mem_singleton.mp hm
    exact h

end Path

end MappingFlow
