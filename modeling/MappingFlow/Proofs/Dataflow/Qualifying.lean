/-
  MappingFlow.Proofs.Dataflow.Qualifying — columns are called by their streams.

  A pass for one column goes through the text that earlier passes made. It looks at a whole
  word and at the one character before it, so of a path `a@b` it sees the first name only
  and calls it by its stream (`replaceAll_column`). All passes together therefore do to each
  path what they do to it alone (`foldlM_qualifyColumn`). For a word of an expression without
  `@` that is to call it by its stream and its column once, unless the stream is a column
  with another name itself (`disambiguate_once_iff`).
-/

import MappingFlow.Proofs.Dataflow.Disambiguation
import MappingFlow.Proofs.Document.Fields
import MappingFlow.Proofs.Expression.Quiet
import Mathlib.Algebra.Order.BigOperators.Group.List
import Mathlib.Algebra.Order.Ring.Nat
import Mathlib.Data.List.TakeWhile
import Mathlib.Data.Set.List

namespace MappingFlow.Dataflow

open Pattern Text
open List hiding all

/-- A column that is called by the stream and the column it stands for. -/
structure Qualification where
  column : String
  stream : String
  base : String
  column_word : IsRun isWord column.toList := by decide
  stream_word : IsRun isWord stream.toList := by decide
  base_word : IsRun isWord base.toList := by decide

namespace Qualification

def value (c : Qualification) : Value := .text (c.stream ++ "@" ++ c.base)

/-- The entry that says so. -/
def entry (c : Qualification) : String × Value := (c.column, c.value)

def written (c : Qualification) : List Char := c.stream.toList ++ '@' :: c.base.toList

theorem toList_value (c : Qualification) : c.value.display.toList = c.written := by
  simp [value, Value.display, written]

theorem count_written (c : Qualification) : c.written.count '@' = 1 := by
  have hstream := count_eq_zero.mpr (c.stream_word.not_mem (by decide : isWord '@' = false))
  have hbase := count_eq_zero.mpr (c.base_word.not_mem (by decide : isWord '@' = false))
  rw [written, count_append, count_cons_self, hstream, hbase]

end Qualification

/-- Names with `@` between them are made of these. -/
def isPath (d : Char) : Bool := isWord d || d == '@'

theorem isPath_of_isWord (h : isWord d) : isPath d = true := by rw [isPath, h, Bool.true_or]

theorem isWord_of_isPath (h : isPath d) (hat : d ≠ '@') : isWord d = true := by
  rw [isPath, Bool.or_eq_true, beq_iff_eq] at h
  exact h.resolve_right hat

theorem isWord_of_not_isPath (h : isPath d = false) : isWord d = false :=
  Bool.eq_false_iff.mpr fun hword => Bool.false_ne_true (h.symm.trans (isPath_of_isWord hword))

theorem startsClear_of_not_isPath (h : t.head?.any isPath = false) : StartsClear t := by
  cases t with
  | nil => rfl
  | cons d t => exact isWord_of_not_isPath h

theorem isRun_isPath (h : IsRun isWord w) : IsRun isPath w :=
  ⟨h.ne_nil, fun d hd => isPath_of_isWord (h.all d hd)⟩

theorem isRun_written (c : Qualification) : IsRun isPath c.written := by
  refine ⟨append_ne_nil_of_right_ne_nil _ (cons_ne_nil _ _), fun d hd => ?_⟩
  rcases mem_append.mp hd with hd | hd
  · exact (isRun_isPath c.stream_word).all d hd
  · rcases mem_cons.mp hd with rfl | hd
    · rfl
    · exact (isRun_isPath c.base_word).all d hd

variable {c : Qualification} {before rest w x q e : List Char} {write : Match → List Char}

/-! ## One pass -/

theorem reads_columnPattern (h : (columnPattern c.column).Reads s u) :
    s.before.head?.any isPath = false ∧ s.rest = c.column.toList ++ u.rest ∧ StartsClear u.rest := by
  obtain ⟨s, ⟨rfl, hafter⟩, hword⟩ := h
  obtain ⟨hrest, hbefore, hclear⟩ := reads_wholeWord c.column_word.ne_nil c.column_word.all hword
  refine ⟨?_, hrest, hclear⟩
  rw [StartsClear] at hbefore
  cases hd : s.before.head? with
  | none => rfl
  | some d =>
    rw [hd, Option.any_some] at hafter hbefore
    rw [Option.any_some, isPath, hbefore, hafter, Bool.false_or]

/-- Inside a path nothing is replaced. -/
theorem replaceFrom_inside (hx : ∀ d ∈ x, isPath d) (hbefore : before.head?.any isPath) :
    (columnPattern c.column).replaceFrom write before 0 (x ++ rest) =
      x ++ (columnPattern c.column).replaceFrom write (x.reverse ++ before) 0 rest := by
  refine replaceFrom_pass fun u v huv _ => at_eq_none_iff.mpr fun t ht => ?_
  have hclear := (reads_columnPattern ht).1
  cases hu : u.reverse with
  | nil =>
    rw [hu, nil_append] at hclear
    exact Bool.false_ne_true (hclear.symm.trans hbefore)
  | cons d y =>
    rw [hu] at hclear
    have hd : d ∈ u := mem_reverse.mp (hu ▸ mem_cons_self)
    exact Bool.false_ne_true (hclear.symm.trans (hx d (huv ▸ mem_append_left v hd)))

/-- A character at which the column does not begin is copied. -/
theorem replaceFrom_copy (h : (d :: rest).takeWhile isWord ≠ c.column.toList) :
    (columnPattern c.column).replaceFrom write before 0 (d :: rest) =
      d :: (columnPattern c.column).replaceFrom write (d :: before) 0 rest := by
  refine replaceFrom_pass (x := [d]) fun u v huv hv => at_eq_none_iff.mpr fun t ht => h ?_
  obtain ⟨-, hrest, hclear⟩ := reads_columnPattern ht
  obtain ⟨rfl, rfl⟩ : u = [] ∧ v = [d] := by
    rcases singleton_eq_append_iff.mp huv with ⟨rfl, rfl⟩ | ⟨rfl, rfl⟩
    · exact ⟨rfl, rfl⟩
    · exact absurd rfl hv
  rw [show d :: rest = c.column.toList ++ t.rest from hrest, takeWhile_word c.column_word.all hclear]

/-- The column as the first name of a path is replaced. -/
theorem replaceFrom_column (hbefore : before.head?.any isPath = false) (hrest : StartsClear rest) :
    (columnPattern c.column).replaceFrom (fun _ => q) before 0 (c.column.toList ++ rest) =
      q ++ (columnPattern c.column).replaceFrom (fun _ => q) (c.column.toList.reverse ++ before) 0 rest := by
  have hclear := startsClear_of_not_isPath hbefore
  have hafter : before.head?.any (· == '@') = false := by
    cases hd : before.head? with
    | none => rfl
    | some d =>
      rw [hd, Option.any_some, isPath, Bool.or_eq_false_iff] at hbefore
      exact hbefore.2
  have hrun : (columnPattern c.column).run ⟨before, c.column.toList ++ rest, []⟩ some =
      some ⟨c.column.toList.reverse ++ before, rest, []⟩ := by
    rw [StartsClear] at hclear hrest
    simp only [columnPattern, all, run, run_literal, atWordEdge, hafter, hclear, hrest, c.column_word.head,
      c.column_word.reverse.head]
    rfl
  exact replaceFrom_match (at_of_run hrun) rfl c.column_word.ne_nil

/-- What a pass makes of a path: the first name is called by its stream. -/
def lead (c : Qualification) (p : List Char) : List Char :=
  if p.takeWhile isWord = c.column.toList then c.written ++ p.dropWhile isWord else p

theorem replaceFrom_path (hw : IsRun isPath w) (hbefore : before.head?.any isPath = false)
    (hrest : StartsClear rest) : (columnPattern c.column).replaceFrom (fun _ => c.written) before 0 (w ++ rest) =
      lead c w ++ (columnPattern c.column).replaceFrom (fun _ => c.written) (w.reverse ++ before) 0 rest := by
  have hsplit := takeWhile_append_dropWhile (p := isWord) (l := w)
  have hclear : StartsClear (w.dropWhile isWord ++ rest) := by
    cases hd : w.dropWhile isWord with
    | nil => exact hrest
    | cons d y => exact (hd ▸ startsClear_dropWhile w : StartsClear (d :: y))
  rw [lead]
  split
  · rename_i hcolumn
    rw [hcolumn] at hsplit
    have hinside : ∀ d ∈ w.dropWhile isWord, isPath d = true := fun d hd =>
      hw.all d ((dropWhile_sublist _).subset hd)
    rw [← hsplit, append_assoc, replaceFrom_column hbefore hclear, hsplit,
      replaceFrom_inside hinside ((isRun_isPath c.column_word).reverse.head before), append_assoc,
      ← append_assoc _ _ before, ← reverse_append, hsplit]
  · rename_i hcolumn
    obtain ⟨d, y, rfl⟩ := exists_cons_of_ne_nil hw.ne_nil
    have hcopy : (d :: (y ++ rest)).takeWhile isWord ≠ c.column.toList := by
      rwa [← cons_append, ← hsplit, append_assoc, takeWhile_word (allWord_takeWhile _) hclear]
    have hinside : (d :: before).head?.any isPath = true := hw.all d mem_cons_self
    rw [cons_append, replaceFrom_copy hcopy, replaceFrom_inside (fun x hx => hw.all x (.tail d hx)) hinside]
    simp

theorem lead_word (hw : AllWord w) : lead c w = if w = c.column.toList then c.written else w := by
  rw [lead, takeWhile_eq_self_iff.mpr hw, dropWhile_eq_nil_iff.mpr hw, append_nil]

theorem lead_sign (hd : isPath d = false) : lead c [d] = [d] := by
  have hclear : StartsClear [d] := isWord_of_not_isPath hd
  rw [lead, takeWhile_of_startsClear hclear, if_neg c.column_word.ne_nil.symm]

theorem replaceAll_column (e : List Char) :
    (columnPattern c.column).replaceAll (fun _ => c.written) e = mapRuns isPath (lead c) e := by
  have hcolumn : c.column ≠ "" := fun h => c.column_word.ne_nil (by rw [h]; rfl)
  -- Behind a path the text goes on with a sign.
  suffices ∀ before : List Char, before.head?.any isPath = false ∨ e.head?.any isPath = false →
      (columnPattern c.column).replaceFrom (fun _ => c.written) before 0 e = mapRuns isPath (lead c) e from
    this [] (.inl rfl)
  induction e using runs_induction isPath with
  | nil =>
    intro before _
    change (((columnPattern c.column).at? before []).map _).getD [] = []
    rw [at_nil (minLength_columnPattern hcolumn)]
    rfl
  | sign d e hd ih =>
    intro before _
    have hclear : StartsClear (d :: e) := isWord_of_not_isPath hd
    have hcopy : (d :: e).takeWhile isWord ≠ c.column.toList := by
      rw [takeWhile_of_startsClear hclear]
      exact c.column_word.ne_nil.symm
    rw [mapRuns_sign hd, lead_sign hd, replaceFrom_copy hcopy, ih (d :: before) (.inl hd)]
    rfl
  | run w e hw he ih =>
    intro before hclear
    have hbefore := hclear.resolve_right fun h => Bool.false_ne_true (h.symm.trans (hw.head e))
    rw [mapRuns_run hw he, replaceFrom_path hw hbefore (startsClear_of_not_isPath he), ih _ (.inr he)]

theorem qualifyColumn_entry (s : String) : qualifyColumn (.text s) c.entry =
    .ok (.text (String.ofList (mapRuns isPath (lead c) s.toList))) := by
  have hread : Template.read 0 (c.stream ++ "@" ++ c.base).toList = .ok (Template.plain c.written) := by
    rw [show (c.stream ++ "@" ++ c.base).toList = c.written from c.toList_value]
    exact Template.read_plain ((isRun_written c).not_mem (by decide))
  simp only [qualifyColumn, Qualification.entry, Qualification.value, hread, substitute_plain, replaceAll_column]
  split
  · rfl
  · rename_i hnone
    rw [Bool.not_eq_true, occursIn_eq_false_iff] at hnone
    rw [← replaceAll_column, replaceAll_of_absent hnone, String.ofList_toList]

/-! ## All passes -/

variable {qs : List Qualification}

theorem keepsRuns_lead (c : Qualification) : KeepsRuns isPath (lead c) where
  sign _ := lead_sign
  run w hw := by
    rw [lead]
    split
    · refine ⟨append_ne_nil_of_left_ne_nil (isRun_written c).ne_nil _, fun d hd => ?_⟩
      rcases mem_append.mp hd with hd | hd
      · exact (isRun_written c).all d hd
      · exact hw.all d ((dropWhile_sublist _).subset hd)
    · exact hw

/-- What all passes make of a path. -/
def leadAll (qs : List Qualification) (p : List Char) : List Char := qs.foldl (fun p c => lead c p) p

theorem foldlM_qualifyColumn (qs : List Qualification) (e : List Char) :
    (qs.map Qualification.entry).foldlM qualifyColumn (.text (String.ofList e)) =
      .ok (.text (String.ofList (mapRuns isPath (leadAll qs) e))) := by
  induction qs generalizing e with
  | nil =>
    have hsame : mapRuns isPath (leadAll []) e = e := flatMap_id.trans (flatten_runs e)
    rw [hsame]
    rfl
  | cons c qs ih =>
    rw [map_cons, foldlM_cons, qualifyColumn_entry, String.toList_ofList]
    refine (ih _).trans ?_
    rw [(keepsRuns_lead c).mapRuns_mapRuns]
    rfl

/-! ## Once, or again and again -/

theorem takeWhile_written (c : Qualification) : c.written.takeWhile isWord = c.stream.toList :=
  takeWhile_word c.stream_word.all rfl

theorem leadAll_of_free (h : ∀ c ∈ qs, w.takeWhile isWord ≠ c.column.toList) : leadAll qs w = w := by
  induction qs with
  | nil => rfl
  | cons c qs ih =>
    obtain ⟨hc, hqs⟩ := forall_mem_cons.mp h
    have hlead : lead c w = w := if_neg hc
    rw [leadAll, foldl_cons, hlead]
    exact ih hqs

/-- A column whose stream is no column is called by it once. -/
theorem leadAll_column (hw : AllWord w) (hkey : ∃ c ∈ qs, w = c.column.toList)
    (h : ∀ c ∈ qs, w = c.column.toList → c.written = q ∧ ∀ c' ∈ qs, c.stream.toList ≠ c'.column.toList) :
    leadAll qs w = q := by
  induction qs with
  | nil => obtain ⟨c, hc, -⟩ := hkey; cases hc
  | cons c qs ih =>
    rw [leadAll, foldl_cons, lead_word hw]
    split
    · rename_i hcolumn
      obtain ⟨rfl, hfree⟩ := h c mem_cons_self hcolumn
      refine leadAll_of_free fun c' hc' => ?_
      rw [takeWhile_written]
      exact hfree c' (.tail _ hc')
    · rename_i hcolumn
      refine ih ?_ fun c' hc' hw' => ?_
      · obtain ⟨c', hc', hw'⟩ := hkey
        rcases mem_cons.mp hc' with rfl | hc'
        · exact absurd hw' hcolumn
        · exact ⟨c', hc', hw'⟩
      · obtain ⟨hwritten, hfree⟩ := h c' (.tail _ hc') hw'
        exact ⟨hwritten, fun c'' hc'' => hfree c'' (.tail _ hc'')⟩

theorem count_lead (h : w.takeWhile isWord = c.column.toList) : w.count '@' < (lead c w).count '@' := by
  have hsplit := takeWhile_append_dropWhile (p := isWord) (l := w)
  rw [h] at hsplit
  have hzero : c.column.toList.count '@' = 0 := count_eq_zero.mpr (c.column_word.not_mem (by decide))
  rw [lead, if_pos h, ← hsplit, count_append, hzero, hsplit, count_append, c.count_written]
  omega

theorem count_le_leadAll (qs : List Qualification) (w : List Char) : w.count '@' ≤ (leadAll qs w).count '@' := by
  induction qs generalizing w with
  | nil => exact Nat.le_refl _
  | cons c qs ih =>
    refine Nat.le_trans ?_ (ih (lead c w))
    by_cases h : w.takeWhile isWord = c.column.toList
    · exact Nat.le_of_lt (count_lead h)
    · rw [lead, if_neg h]

/-- Each time that a first name is a column, one `@` more is written. -/
theorem count_lt_leadAll (h : ∃ c ∈ qs, w.takeWhile isWord = c.column.toList) :
    w.count '@' < (leadAll qs w).count '@' := by
  induction qs with
  | nil => obtain ⟨c, hc, -⟩ := h; cases hc
  | cons c qs ih =>
    by_cases hc : w.takeWhile isWord = c.column.toList
    · exact Nat.lt_of_lt_of_le (count_lead hc) (count_le_leadAll qs (lead c w))
    · obtain ⟨c', hc', hp⟩ := h
      rcases mem_cons.mp hc' with rfl | hc'
      · exact absurd hp hc
      · have hlead : lead c w = w := if_neg hc
        rw [leadAll, foldl_cons, hlead]
        exact ih ⟨c', hc', hp⟩

theorem mapRuns_leadAll_ne (hw : w ∈ runs isPath e) (h : ∃ c ∈ qs, (g w).takeWhile isWord = c.column.toList) :
    mapRuns isPath (leadAll qs ∘ g) e ≠ mapRuns isPath g e := by
  intro heq
  have hcount := congrArg (List.count '@') heq
  rw [mapRuns, mapRuns, count_flatMap, count_flatMap] at hcount
  exact absurd hcount (Nat.ne_of_gt (sum_lt_sum _ _ (fun w _ => count_le_leadAll qs (g w)) ⟨w, hw, count_lt_leadAll h⟩))

theorem not_mem_of_mem_runs (hw : w ∈ runs isPath e) (he : '@' ∉ e) : '@' ∉ w := fun hmem =>
  he (flatten_runs e ▸ mem_flatten.mpr ⟨w, hw, hmem⟩)

/-- Without `@` every path is one name. -/
theorem takeWhile_of_mem_runs (hw : w ∈ runs isPath e) (he : '@' ∉ e) :
    w.takeWhile isWord = w ∨ w.takeWhile isWord = [] := by
  rcases mem_runs hw with hrun | ⟨d, hd, rfl⟩
  · refine .inl (takeWhile_eq_self_iff.mpr fun d hd => isWord_of_isPath (hrun.all d hd) ?_)
    rintro rfl
    exact not_mem_of_mem_runs hw he hd
  · have hclear : StartsClear [d] := isWord_of_not_isPath hd
    exact .inr (takeWhile_of_startsClear hclear)

/-- Names with two `@` between them stand in the text. -/
def HasChain (t : List Char) : Prop := ∃ p ∈ runs isPath t, 2 ≤ p.count '@'

/-! ## The lookups before a step -/

/-- A step that, if it is a lookup, has a name and calls names by a stream and a column. -/
def IsQualifying (step : Value) : Prop := IsReadable step ∧ ∀ f ∈ renamesOf step, ∃ c : Qualification, c.entry = f

/-- What the lookups call a column; of several entries the last counts. -/
def meaning (steps : List Value) (name : String) : Option Value := (steps.flatMap renamesOf).reverse.lookup name

/-- A word as the lookups call it. -/
def called (steps : List Value) (w : List Char) : List Char :=
  (meaning steps (String.ofList w)).elim w (·.display.toList)

variable {steps : List Value}

theorem exists_entries (h : ∀ step ∈ steps, IsQualifying step) : ∃ qs : List Qualification,
    (∀ v, disambiguate steps v = (qs.map Qualification.entry).foldlM qualifyColumn v) ∧
      ∀ name v, meaning steps name = some v ↔ ∃ c ∈ qs, c.entry = (name, v) := by
  have hread := qualifications_eq (fun step hstep => (h step hstep).1) []
  have hentries : ∀ f ∈ longestFirst (Fields.update [] (steps.flatMap renamesOf)), f ∈ Set.range Qualification.entry := by
    refine forall_longestFirst (forall_update (forall_mem_nil _) fun f hf => ?_)
    obtain ⟨step, hstep, hf⟩ := mem_flatMap.mp hf
    exact (h step hstep).2 f hf
  obtain ⟨qs, hqs⟩ : longestFirst (Fields.update [] (steps.flatMap renamesOf)) ∈ Set.range (List.map Qualification.entry) := by
    rwa [Set.range_list_map]
  refine ⟨qs, fun v => ?_, fun name v => ?_⟩
  · rw [disambiguate, hread, hqs]
    rfl
  · have hempty : (Fields.keys []).Nodup := nodup_nil
    have hnodup := Fields.nodup_update hempty (steps.flatMap renamesOf)
    have hget := Fields.get?_update [] (steps.flatMap renamesOf) name
    rw [show Fields.get? [] name = none from rfl, Option.or_none] at hget
    rw [meaning, ← hget, Fields.get?_eq_some_iff hnodup, ← (perm_longestFirst _).mem_iff, ← hqs, mem_map]

theorem called_column (h : meaning steps c.column = some c.value) : called steps c.column.toList = c.written := by
  rw [called, String.ofList_toList, h]
  exact c.toList_value

section Entries

variable (hmeaning : ∀ name v, meaning steps name = some v ↔ ∃ c ∈ qs, c.entry = (name, v))

include hmeaning

theorem called_other (h : ∀ c ∈ qs, w ≠ c.column.toList) : called steps w = w := by
  cases hw : meaning steps (String.ofList w) with
  | none => rw [called, hw]; rfl
  | some v =>
    obtain ⟨c, hc, hentry⟩ := (hmeaning _ _).mp hw
    refine absurd ?_ (h c hc)
    rw [show c.column = String.ofList w from congrArg Prod.fst hentry, String.toList_ofList]

theorem called_cases (w : List Char) : (∃ c ∈ qs, w = c.column.toList ∧ called steps w = c.written) ∨
    (∀ c ∈ qs, w ≠ c.column.toList) ∧ called steps w = w := by
  by_cases hkey : ∃ c ∈ qs, w = c.column.toList
  · obtain ⟨c, hc, rfl⟩ := hkey
    exact .inl ⟨c, hc, rfl, called_column ((hmeaning _ _).mpr ⟨c, hc, rfl⟩)⟩
  · have hother : ∀ c ∈ qs, w ≠ c.column.toList := fun c hc hw => hkey ⟨c, hc, hw⟩
    exact .inr ⟨hother, called_other hmeaning hother⟩

theorem keepsRuns_called : KeepsRuns isPath (called steps) where
  sign d hd := called_other hmeaning fun c _ hcolumn =>
    c.column_word.not_mem (isWord_of_not_isPath hd) (hcolumn ▸ mem_cons_self)
  run w hw := by
    rcases called_cases hmeaning w with ⟨c, -, -, hcalled⟩ | ⟨-, hcalled⟩
    · rw [hcalled]
      exact isRun_written c
    · rwa [hcalled]

theorem not_hasChain_called (he : '@' ∉ e) : ¬ HasChain (mapRuns isPath (called steps) e) := by
  rintro ⟨p, hp, hcount⟩
  rw [(keepsRuns_called hmeaning).runs_mapRuns, mem_map] at hp
  obtain ⟨w, hw, rfl⟩ := hp
  rcases called_cases hmeaning w with ⟨c, -, -, hcalled⟩ | ⟨-, hcalled⟩
  · rw [hcalled, c.count_written] at hcount
    exact absurd hcount (by decide)
  · rw [hcalled, count_eq_zero.mpr (not_mem_of_mem_runs hw he)] at hcount
    exact absurd hcount (by decide)

/-- A word is called as it should be, and stays so, if its stream is no column. -/
theorem leadAll_called (hw : w ∈ runs isPath e) (he : '@' ∉ e)
    (h : ∀ c ∈ qs, w = c.column.toList → meaning steps c.stream = none) :
    leadAll qs w = called steps w ∧ leadAll qs (called steps w) = called steps w := by
  have hfree {c : Qualification} (hc : c ∈ qs) (hcolumn : w = c.column.toList) {c' : Qualification} (hc' : c' ∈ qs) :
      c.stream.toList ≠ c'.column.toList := by
    intro heq
    have hsome := (hmeaning _ _).mpr ⟨c', hc', rfl⟩
    rw [← String.toList_inj.mp heq, h c hc hcolumn] at hsome
    cases hsome
  rcases called_cases hmeaning w with ⟨c, hc, rfl, hcalled⟩ | ⟨hother, hcalled⟩
  · refine ⟨leadAll_column c.column_word.all ⟨c, hc, rfl⟩ fun c' hc' hcolumn => ⟨?_, fun _ => hfree hc' hcolumn⟩, ?_⟩
    · rw [hcolumn]
      exact (called_column ((hmeaning _ _).mpr ⟨c', hc', rfl⟩)).symm
    · rw [hcalled]
      exact leadAll_of_free fun c' hc' => by rw [takeWhile_written]; exact hfree hc rfl hc'
  · have hstay : leadAll qs w = w := leadAll_of_free fun c hc hcolumn => by
      rcases takeWhile_of_mem_runs hw he with htake | htake
      · exact hother c hc (htake.symm.trans hcolumn)
      · exact c.column_word.ne_nil (hcolumn.symm.trans htake)
    rw [hcalled]
    exact ⟨hstay, hstay⟩

end Entries

/-- The columns of an expression without `@` are called by the lookups before it, each once,
without chains and for good, exactly if none of them is called by a stream that is itself a
column with another name. -/
theorem disambiguate_once_iff (steps : List Value) (e : String) (hsteps : ∀ step ∈ steps, IsQualifying step)
    (he : '@' ∉ e.toList) :
    ∃ r : String, disambiguate steps (.text e) = .ok (.text r) ∧
      (r.toList = mapRuns isPath (called steps) e.toList ∧ ¬ HasChain r.toList ∧
          disambiguate steps (.text r) = .ok (.text r) ↔
        ∀ c : Qualification, c.column.toList ∈ runs isPath e.toList → meaning steps c.column = some c.value →
          meaning steps c.stream = none) := by
  obtain ⟨qs, hrun, hmeaning⟩ := exists_entries hsteps
  have hfirst := foldlM_qualifyColumn qs e.toList
  have hagain := foldlM_qualifyColumn qs (mapRuns isPath (called steps) e.toList)
  rw [String.ofList_toList, ← hrun] at hfirst
  rw [(keepsRuns_called hmeaning).mapRuns_mapRuns, ← hrun] at hagain
  refine ⟨_, hfirst, ?_⟩
  rw [String.toList_ofList]
  constructor
  · rintro ⟨hr, -, hfix⟩ c hword hc
    rw [hr, hagain] at hfix
    have hstay := String.ofList_injective (Value.text.inj (Except.ok.inj hfix))
    by_contra hne
    obtain ⟨v, hv⟩ := Option.ne_none_iff_exists'.mp hne
    obtain ⟨c', hc', hentry⟩ := (hmeaning _ _).mp hv
    refine mapRuns_leadAll_ne hword ⟨c', hc', ?_⟩ hstay
    rw [called_column hc, takeWhile_written, show c'.column = c.stream from congrArg Prod.fst hentry]
  · intro h
    have hwords {w : List Char} (hw : w ∈ runs isPath e.toList) := leadAll_called hmeaning hw he fun c hc hcolumn =>
      h c (hcolumn ▸ hw) ((hmeaning _ _).mpr ⟨c, hc, rfl⟩)
    have hfix : mapRuns isPath (leadAll qs ∘ called steps) e.toList = mapRuns isPath (called steps) e.toList :=
      mapRuns_congr fun w hw => (hwords hw).2
    rw [mapRuns_congr fun w hw => (hwords hw).1, hagain, hfix]
    exact ⟨rfl, not_hasChain_called hmeaning he, rfl⟩

def lookupOf (name : String) (qs : List Qualification) : Value :=
  .object [("type", .text "Lookup"), ("name", .text name), ("columnDisambiguation", .object (qs.map Qualification.entry))]

theorem isQualifying_lookupOf (name : String) (qs : List Qualification) : IsQualifying (lookupOf name qs) :=
  ⟨⟨_, rfl, fun _ => ⟨⟨_, rfl⟩, _, rfl⟩⟩, fun _ hf => (mem_map.mp hf).imp fun _ h => h.2⟩

/-- Two lookups; the later one has another table for promotions. -/
def promotionSteps : List Value :=
  [lookupOf "lkp_DATES" [{ column := "DAY", stream := "SALES", base := "DAY" },
     { column := "DAY1", stream := "DATES", base := "DAY" }, { column := "PROMO1", stream := "DATES", base := "PROMO" }],
   lookupOf "lkp_PROMOS" [{ column := "PROMO1", stream := "PROMOS", base := "PROMO" }]]

theorem promotionSteps_once : disambiguate promotionSteps (.text "iif(DAY1 == DAY, PROMO1, PROMO12)") =
      .ok (.text "iif(DATES@DAY == SALES@DAY, PROMOS@PROMO, PROMO12)") ∧
    disambiguate promotionSteps (.text "iif(DATES@DAY == SALES@DAY, PROMOS@PROMO, PROMO12)") =
      .ok (.text "iif(DATES@DAY == SALES@DAY, PROMOS@PROMO, PROMO12)") := by
  have hsteps : ∀ step ∈ promotionSteps, IsQualifying step := by
    refine List.forall_mem_cons.mpr ⟨isQualifying_lookupOf _ _, List.forall_mem_singleton.mpr (isQualifying_lookupOf _ _)⟩
  obtain ⟨r, hr, hiff⟩ := disambiguate_once_iff promotionSteps "iif(DAY1 == DAY, PROMO1, PROMO12)" hsteps (by decide)
  obtain rfl : "iif(DATES@DAY == SALES@DAY, PROMOS@PROMO, PROMO12)" = r := Value.text.inj (Except.ok.inj hr)
  refine ⟨hr, (hiff.mpr fun c _ hc => ?_).2.2⟩
  have hstreams : ∀ f ∈ (promotionSteps.flatMap renamesOf).reverse,
      meaning promotionSteps (String.ofList (f.2.display.toList.takeWhile isWord)) = none := by decide +kernel
  have hstream := hstreams _ (mem_of_lookup hc)
  rwa [c.toList_value, takeWhile_written, String.ofList_toList] at hstream

/-- A price of a table that is named like a column. -/
def priceSteps : List Value :=
  [lookupOf "lkp_CODES" [{ column := "PRICE1", stream := "CODE", base := "PRICE" },
     { column := "CODE", stream := "SRC", base := "CODE" }]]

/-- The stream is taken for the column, and a chain is written. -/
theorem priceSteps_chained : (∀ step ∈ priceSteps, IsQualifying step) ∧
    disambiguate priceSteps (.text "PRICE1 * 2") = .ok (.text "SRC@CODE@PRICE * 2") ∧
    mapRuns isPath (called priceSteps) "PRICE1 * 2".toList = "CODE@PRICE * 2".toList ∧
    HasChain "SRC@CODE@PRICE * 2".toList := by
  refine ⟨List.forall_mem_singleton.mpr (isQualifying_lookupOf _ _), rfl, by decide +kernel, ?_⟩
  exact ⟨"SRC@CODE@PRICE".toList, by decide +kernel, by decide⟩

end MappingFlow.Dataflow
