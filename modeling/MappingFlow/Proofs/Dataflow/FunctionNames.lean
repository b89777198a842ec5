/-
  MappingFlow.Proofs.Dataflow.FunctionNames — names of functions in lower case.

  In an aggregate the names of functions are put in lower case, one name after the other,
  wherever one is a word of its own. All passes together put one word for another: the
  function that it names, whatever its case (`lowerFunctions_eq`). Neither a parenthesis
  behind the word nor quotes around it are asked for, so no more than the calls are changed
  exactly if every word that changes is called and outside quotes (`only_calls_lowered_iff`).
-/

import MappingFlow.Dataflow.Script
import MappingFlow.Proofs.Conversion.Spelling
import MappingFlow.Proofs.Expression.Arguments

namespace MappingFlow.Dataflow.Script

open Expression Pattern Text
open List hiding all

variable {name : String} {w : List Char} {d : Char}

/-! ## One name -/

/-- The name in any case, with no letter before or behind it. -/
def namePattern (name : String) : Pattern := all [wordEdge, caseless name.toList, wordEdge]

theorem namePattern_pos (hne : name ≠ "") : 0 < (namePattern name).minLength :=
  Nat.lt_of_lt_of_le (Conversion.minLength_caseless hne) (by simp [namePattern, all, minLength])

theorem lowerFunction_eq (t name) :
    lowerFunction t name = (namePattern name).replaceAll (fun _ => lower name.toList) t := substitute_plain ..

/-- In a run the edges are at its ends, so it is read whole. -/
theorem reads_run {u : Scan} (hne : name ≠ "") (hw : IsRun isWord w)
    (hsplit : w = before.reverse ++ rest) (h : (namePattern name).Reads ⟨before, rest, []⟩ u) :
    before = [] ∧ u.rest = [] ∧ SameLetters name.toList w := by
  have hedge : ∀ x : List Char, (∀ c ∈ x, c ∈ w) → x.head?.any isWord = !x.isEmpty := by
    rintro (_ | ⟨c, x⟩) hx
    · rfl
    · exact hw.all c (hx c (.head _))
  obtain ⟨_, ⟨rfl, hstart⟩, v, hv, rfl, hend⟩ := h
  obtain ⟨n, after, hn, hrest, rfl⟩ := reads_caseless.mp hv
  simp only at hrest
  have hnil : n ≠ [] := by
    rintro rfl
    exact hne (String.toList_eq_nil_iff.mp (forall₂_nil_right_iff.mp hn))
  subst hrest hsplit
  simp only [atWordEdge] at hstart hend
  rw [hedge before (by grind), hedge (n ++ after) (by grind)] at hstart
  rw [hedge (n.reverse ++ before) (by grind), hedge after (by grind)] at hend
  obtain rfl : before = [] := by simpa [isEmpty_eq_false_iff.mpr, hnil] using hstart
  obtain rfl : after = [] := by simpa [isEmpty_eq_false_iff.mpr hnil] using hend
  simpa using hn

theorem lowerFunction_run (hne : name ≠ "") (hw : IsRun isWord w) :
    lowerFunction w name = if SameLetters name.toList w then lower name.toList else w := by
  rw [lowerFunction_eq]
  split
  · rename_i hsame
    have hread : (namePattern name).Reads ⟨[], w, []⟩ ⟨w.reverse ++ [], [], []⟩ := by
      refine ⟨_, ⟨rfl, ?_⟩, _, reads_caseless.mpr ⟨w, [], hsame, (append_nil w).symm, rfl⟩, rfl, ?_⟩
      · simpa [atWordEdge] using hw.head []
      · simpa [atWordEdge] using hw.reverse.head []
    cases hat : (namePattern name).at? [] w with
    | none => exact absurd hread (at_eq_none_iff.mp hat _)
    | some m =>
      have hm := at_reads hat
      have hrest := hm.rest_eq
      obtain ⟨u, hu, hmatch⟩ := hm
      have hafter : m.after = [] := by rw [hmatch]; exact (reads_run hne hw rfl hu).2.1
      rw [hafter, append_nil] at hrest
      have hstep : (namePattern name).replaceFrom (fun _ => lower name.toList) [] 0 (w ++ []) = _ :=
        replaceFrom_match (by rwa [append_nil]) hrest.symm hw.ne_nil
      rw [append_nil] at hstep
      rw [replaceAll, hstep, Pattern.replaceFrom, at_nil (namePattern_pos hne)]
      simp
  · rename_i hother
    refine replaceAll_of_absent fun before rest ht => at_eq_none_iff.mpr fun u hu => hother ?_
    exact (reads_run hne hw ht hu).2.2

/-! ## All names -/

/-- The function that a word names, in lower case; any other text as it is. -/
def lowered (w : List Char) : List Char :=
  ((aggregateFunctions.find? fun name => SameLetters name.toList w).map fun name => lower name.toList).getD w

theorem aggregateFunctions_plain : ∀ name ∈ aggregateFunctions, name ≠ "" ∧ name.toList.all isPlainLetter ∧
    IsRun isWord (lower name.toList) ∧ (lower name.toList).length = name.toList.length ∧
    ∀ other ∈ aggregateFunctions, SameLetters other.toList (lower name.toList) → other = name := by
  decide +kernel

theorem lowerFunctions_run (hw : IsRun isWord w) : lowerFunctions w = lowered w := by
  suffices ∀ names ⊆ aggregateFunctions, names.foldl lowerFunction w =
      ((names.find? fun name => SameLetters name.toList w).map fun name => lower name.toList).getD w from
    this _ (Subset.refl _)
  intro names hnames
  induction names with
  | nil => rfl
  | cons name names ih =>
    obtain ⟨hmem, hrest⟩ := cons_subset.mp hnames
    obtain ⟨hne, -, hrun, -, hother⟩ := aggregateFunctions_plain name hmem
    rw [foldl_cons, lowerFunction_run hne hw, find?_cons]
    by_cases hsame : SameLetters name.toList w
    · -- A name in lower case is left by the other names.
      have hstay : ∀ others ⊆ aggregateFunctions, others.foldl lowerFunction (lower name.toList) = lower name.toList := by
        intro others hothers
        induction others with
        | nil => rfl
        | cons other others ih =>
          obtain ⟨hfirst, hothers⟩ := cons_subset.mp hothers
          rw [foldl_cons, lowerFunction_run (aggregateFunctions_plain other hfirst).1 hrun]
          split
          · rename_i hlike
            rw [hother other hfirst hlike]
            exact ih hothers
          · exact ih hothers
      simp [hsame, hstay names hrest]
    · simp [hsame, ih hrest]

theorem splitsAt_lowerFunctions (hd : isWord d = false) : SplitsAt d lowerFunctions := by
  refine SplitsAt.foldl fun name hname => ?_
  obtain ⟨hne, hletters, -⟩ := aggregateFunctions_plain name hname
  refine splitsAt_substitute (isLocal_all fun p hp => ?_) (namePattern_pos hne) hd
  simp only [mem_cons, not_mem_nil, or_false] at hp
  rcases hp with rfl | rfl | rfl
  · simp [isLocal, hd]
  · exact isLocal_caseless (all_eq_true.mp hletters) hd
  · simp [isLocal, hd]

theorem length_lowered (w) : (lowered w).length = w.length := by
  unfold lowered
  cases hname : aggregateFunctions.find? fun name => SameLetters name.toList w with
  | none => rfl
  | some name =>
    obtain ⟨-, -, -, hlength, -⟩ := aggregateFunctions_plain name (mem_of_find?_eq_some hname)
    have hsame := find?_some hname
    exact hlength.trans (of_decide_eq_true hsame).length_eq

theorem lowerFunctions_eq (t) : lowerFunctions t = mapRuns isWord lowered t := by
  have hnil : lowerFunctions [] = [] := by decide +kernel
  rw [eq_mapRuns (fun d hd => splitsAt_lowerFunctions hd) hnil t]
  refine mapRuns_congr fun w hw => ?_
  rcases mem_runs hw with hrun | ⟨d, hd, rfl⟩
  · exact lowerFunctions_run hrun
  · have hsplit := splitsAt_lowerFunctions hd [] []
    rw [hnil] at hsplit
    refine hsplit.trans (Eq.symm ?_)
    -- A sign is no name of a function.
    unfold lowered
    rw [find?_eq_none.mpr]
    · rfl
    · intro name hname hsame
      have hlength := (of_decide_eq_true hsame).length_eq
      have hlong : ∀ name ∈ aggregateFunctions, 1 < name.toList.length := by decide
      exact absurd hlength (hlong name hname).ne'

/-! ## Calls -/

/-- A parenthesis follows, with blanks before it. -/
def isCalled (rest : List Char) : Bool := (rest.dropWhile isBlank).head? == some '('

/-- The text ends outside quotes. -/
def isOutside (before : List Char) : Bool := (reading.read .start before).quote.isNone

/-- The words of a text with the functions in lower case that are called outside quotes. -/
def lowerCalls (before : List Char) : List (List Char) → List Char
  | [] => []
  | w :: ws => (if isOutside before && isCalled ws.flatten then lowered w else w) ++ lowerCalls (before ++ w) ws

theorem flatMap_lowered_iff (before ws) : ws.flatMap lowered = lowerCalls before ws ↔
    ∀ xs w ys, ws = xs ++ w :: ys → lowered w ≠ w → isOutside (before ++ xs.flatten) ∧ isCalled ys.flatten := by
  induction ws generalizing before with
  | nil => simp [lowerCalls]
  | cons v ws ih =>
    have hhead : (if isOutside before && isCalled ws.flatten then lowered v else v) = lowered v ↔
        (lowered v ≠ v → isOutside before ∧ isCalled ws.flatten) := by
      cases isOutside before <;> cases isCalled ws.flatten <;> simp [eq_comm]
    have hlength : (lowered v).length = (if isOutside before && isCalled ws.flatten then lowered v else v).length := by
      split <;> simp [length_lowered]
    rw [flatMap_cons, lowerCalls, append_eq_append_iff_of_size_eq_left hlength, eq_comm, hhead, ih]
    constructor
    · rintro ⟨hfirst, hlater⟩ (_ | ⟨x, xs⟩) w ys hsplit hw
      · obtain ⟨rfl, rfl⟩ := cons.inj hsplit
        simpa using hfirst hw
      · obtain ⟨rfl, rfl⟩ := cons.inj hsplit
        simpa using hlater xs w ys rfl hw
    · intro hall
      refine ⟨fun hv => by simpa using hall [] v ws rfl hv, fun xs w ys hsplit hw => ?_⟩
      simpa using hall (v :: xs) w ys (by rw [hsplit]; rfl) hw

/-- Every word that names a function is put in lower case, and nothing else is changed. These are only calls outside quotes
    exactly if no other word names a function in another case. -/
theorem only_calls_lowered_iff (t : List Char) : lowerFunctions t = mapRuns isWord lowered t ∧
    (lowerFunctions t = lowerCalls [] (runs isWord t) ↔ ∀ xs w ys, runs isWord t = xs ++ w :: ys → lowered w ≠ w →
      isOutside xs.flatten ∧ isCalled ys.flatten) := by
  refine ⟨lowerFunctions_eq t, ?_⟩
  rw [lowerFunctions_eq, mapRuns, flatMap_lowered_iff]
  simp only [nil_append]

/-- A column that has the name of a function. -/
theorem countColumn_lowered : lowerFunctions "SUM(COUNT)".toList = "sum(count)".toList ∧
    lowerCalls [] (runs isWord "SUM(COUNT)".toList) = "sum(COUNT)".toList := by
  decide +kernel

end MappingFlow.Dataflow.Script
