/-
  MappingFlow.Proofs.Web.Batch — all listed files are converted, or the session keeps what it had.

  Results enter the session after the last file only. If a file fails, those before it were
  converted, and the failure is all that the session takes from the run; if none does, it
  takes one result for each file, in their order, with the counts and the parts of the
  first one.
-/

import Mathlib.Algebra.GroupWithZero.Nat
import MappingFlow.Proofs.Document.Access
import MappingFlow.Proofs.Web.Migration
import MappingFlow.Proofs.Web.Session

namespace MappingFlow.Web

open List

variable {w : Surroundings} {s t : Screen} {skip : Bool} {file : Value}

/-! ## One file -/

theorem Performs.runs {α : Type} {p : Page α} {x : Filing α} {a : α} (h : Performs w p x)
    (hrun : p.runOn w s = (.ok a, t)) : Runs x s.storage a t.storage := by
  obtain ⟨es, lines, hp⟩ := h.runOn s
  rw [hp] at hrun
  unfold Runs
  generalize outcome x s.storage = o at hrun ⊢
  obtain ⟨f | b, files⟩ := o
  · cases hrun
  · cases hrun
    rfl

/-- A result goes by the file it was made of, and notes nothing if the review was left out. -/
structure IsResultOf (skip : Bool) (file : Value) (m : Migrated) : Prop where
  fileName : file.field "name" = .ok m.fileName
  name : ∃ path p, file.field "path" = .ok path ∧ pathOf path = .ok p ∧ m.name = p.stem
  skipped : skip = true → m.errors = [] ∧ m.warnings = []

theorem convertFile_answers : Answers (convertFile w skip file) (IsResultOf skip file) := by
  intro files m files' hrun
  unfold convertFile at hrun
  obtain ⟨fileName, hname, hrun⟩ := Runs.bind_lift_iff.mp hrun
  obtain ⟨path, hpath, hrun⟩ := Runs.bind_lift_iff.mp hrun
  obtain ⟨p, hp, hrun⟩ := Runs.bind_lift_iff.mp hrun
  obtain ⟨mapping, _, -, hrun⟩ := Runs.bind_iff.mp hrun
  obtain ⟨plan, -, hrun⟩ := Runs.bind_lift_iff.mp hrun
  obtain ⟨found, hfound, hrun⟩ := Runs.bind_lift_iff.mp hrun
  have hskipped : skip = true → found = .none := by
    intro hskip
    unfold findings at hfound
    rw [if_pos hskip] at hfound
    exact (Except.ok.inj hfound).symm
  have hrest : Answers (writeResult w p.stem fileName mapping plan found) (IsResultOf skip file) :=
    .after fun _ => .after fun _ => .after fun _ => .after fun _ => .pure
      ⟨hname, ⟨path, p, hpath, hp, rfl⟩, fun h => by rw [hskipped h]; exact ⟨rfl, rfl⟩⟩
  exact hrest _ _ _ hrun

/-! ## One file after another -/

theorem migrateEach_ok {p : Position} (h : (migrateEach skip p files).runOn w s = (.ok ms, t)) :
    Forall₂ (IsResultOf skip) files ms := by
  induction files generalizing p s ms with
  | nil =>
    cases h
    exact .nil
  | cons file rest ih =>
    obtain ⟨m, u, hfile, h⟩ := Page.ok_of_runOn_bind h
    obtain ⟨ms, v, hrest, h⟩ := Page.ok_of_runOn_bind h
    cases h
    exact .cons (convertFile_answers _ _ _ ((migrateFile_performs skip p file).runs hfile)) (ih hrest)

/-- The files before the one that fails are converted. -/
theorem migrateEach_error (h : (migrateEach skip p files).runOn w s = (.error l, t)) :
    ∃ before bad after ms u, files = before ++ bad :: after ∧ (migrateEach skip p before).runOn w s = (.ok ms, u) ∧
      (migrateFile skip { p with index := p.index + before.length } bad).runOn w u = (.error l, t) := by
  induction files generalizing p s with
  | nil => cases h
  | cons file rest ih =>
    rcases Page.error_of_runOn_bind h with hfile | ⟨m, u, hfile, h⟩
    · exact ⟨[], file, rest, [], s, rfl, rfl, hfile⟩
    · rcases Page.error_of_runOn_bind h with hrest | ⟨ms, v, -, h⟩
      · obtain ⟨before, bad, after, ms, u', rfl, hbefore, hbad⟩ := ih hrest
        refine ⟨file :: before, bad, after, m :: ms, u', rfl, ?_, ?_⟩
        · unfold migrateEach
          rw [Page.runOn_bind_ok hfile, Page.runOn_bind_ok hbefore]
          rfl
        · rw [length_cons, Nat.add_comm before.length, ← Nat.add_assoc]
          exact hbad
      · cases h

/-! ## The session -/

/-- The entries that hold the parts of one result. -/
def partSlots : List Slot := [.pipeline, .dataflow, .report, .datasets]

/-- The entries that a conversion makes. -/
def resultSlots : List Slot :=
  partSlots ++ [.migrations, .errorCount, .warningCount, .selected, .duration, .migrated]

/-- The session `t` is `s` with the results `ms` of the files. -/
structure Kept (skip : Bool) (files : List Value) (ms : List Migrated) (s t : Session) : Prop where
  listed : t.get? .migrations = some (.list (ms.map (·.toValue)))
  inOrder : Forall₂ (IsResultOf skip) files ms
  errors : t.get? .errorCount = some (.int ((ms.map (·.errors.length)).sum : Nat))
  warnings : t.get? .warningCount = some (.int ((ms.map (·.warnings.length)).sum : Nat))
  skipped : skip = true → t.get? .errorCount = some (.int 0) ∧ t.get? .warningCount = some (.int 0)
  first : ∃ m, ms.head? = some m ∧ ∀ k ∈ partSlots, ∃ v, m.toValue.field k.key = .ok v ∧ t.get? k = some v
  migrated : t.get? .migrated = some (.bool true)
  others : ∀ k ∉ resultSlots, t.get? k = s.get? k
  parsed : t.parsed = s.parsed

theorem errorTotal_eq_sum (ms) : errorTotal ms = (ms.map (·.errors.length)).sum := by
  unfold errorTotal
  rw [length_flatMap]

theorem warningTotal_eq_sum (ms) : warningTotal ms = (ms.map (·.warnings.length)).sum := by
  unfold warningTotal
  rw [length_flatMap]

theorem totals_of_skipped (h : Forall₂ (IsResultOf true) files ms) : errorTotal ms = 0 ∧ warningTotal ms = 0 := by
  induction h with
  | nil => exact ⟨rfl, rfl⟩
  | cons hm _ ih =>
    obtain ⟨herrors, hwarnings⟩ := hm.skipped rfl
    unfold errorTotal warningTotal at ih ⊢
    simp [herrors, hwarnings, ih]

theorem keepResults_kept {s : Session} (elapsed)
    (h : Forall₂ (IsResultOf skip) (file :: rest) ms) : Kept skip (file :: rest) ms s (s.keepResults elapsed ms) := by
  obtain _ | ⟨first, ms⟩ := ms
  · cases h
  have hcounts : (s.keepResults elapsed (first :: ms)).get? .errorCount = some (.int (errorTotal (first :: ms))) ∧
      (s.keepResults elapsed (first :: ms)).get? .warningCount = some (.int (warningTotal (first :: ms))) := by
    simp [Session.keepResults, Session.keepFirst]
  refine ⟨?_, h, ?_, ?_, ?_, ?_, ?_, ?_, rfl⟩
  · simp [Session.keepResults, Session.keepFirst]
  · rw [hcounts.1, errorTotal_eq_sum]
  · rw [hcounts.2, warningTotal_eq_sum]
  · intro hskip
    subst hskip
    rw [hcounts.1, hcounts.2, (totals_of_skipped h).1, (totals_of_skipped h).2]
    exact ⟨rfl, rfl⟩
  · refine ⟨first, rfl, fun k hk => ?_⟩
    simp only [partSlots, mem_cons, not_mem_nil, or_false] at hk
    rcases hk with rfl | rfl | rfl | rfl
    all_goals exact ⟨_, rfl, by simp [Session.keepResults, Session.keepFirst]⟩
  · simp [Session.keepResults]
  · intro k hk
    simp only [resultSlots, partSlots, mem_append, mem_cons, not_mem_nil, or_false, not_or] at hk
    obtain ⟨⟨h1, h2, h3, h4⟩, h5, h6, h7, h8, h9, h10⟩ := hk
    simp [Session.keepResults, Session.keepFirst, Ne.symm h1, Ne.symm h2, Ne.symm h3, Ne.symm h4, Ne.symm h5,
      Ne.symm h6, Ne.symm h7, Ne.symm h8, Ne.symm h9, Ne.symm h10]

/-- What a conversion of the files leads to, from the screen `s` to the screen `t`. -/
inductive Concluded (w : Surroundings) (skip : Bool) (files : List Value) (s t : Screen) : Prop where
  /-- A file fails after others that did not, and only the failure is noted. -/
  | failed (before after : List Value) (bad : Value) (ms : List Migrated) (u v : Screen) (f : Fault)
    (split : files = before ++ bad :: after)
    (converted : (migrateEach skip ⟨0, files.length⟩ before).runOn w s = (.ok ms, u))
    (fails : (migrateFile skip ⟨before.length, files.length⟩ bad).runOn w u = (.error (.fault f), v))
    (storage : t.storage = v.storage)
    (session : t.session = (s.session.set .failure (.text f.message)).set .failureTrace (.text w.trace))
  | converted (ms : List Migrated) (u : Screen)
    (all : (migrateEach skip ⟨0, files.length⟩ files).runOn w s = (.ok ms, u))
    (storage : t.storage = u.storage)
    (session : Kept skip files ms s.session t.session)

theorem migrateFiles_all_or_nothing (w : Surroundings) (s : Screen) (skip : Bool) (file : Value) (rest : List Value)
    (h : s.session.get? .files = some (.list (file :: rest))) :
    ∃ t, (migrateFiles skip).runOn w s = (.ok (), t) ∧ Concluded w skip (file :: rest) s t := by
  obtain ⟨es, lines, hrun⟩ := migrateFiles_runOn (w := w) skip h
  obtain ⟨es', lines', heach⟩ :=
    (migrateEach_performs (w := w) skip ⟨0, (file :: rest).length⟩ (file :: rest)).runOn s
  generalize outcome ((file :: rest).mapM (convertFile w skip)) s.storage = o at hrun heach
  obtain ⟨f | ms, storage⟩ := o
  · obtain ⟨before, bad, after, ms, u, hsplit, hbefore, hbad⟩ := migrateEach_error heach
    rw [Nat.zero_add] at hbad
    exact ⟨_, hrun, .failed before after bad ms u _ f hsplit hbefore hbad rfl rfl⟩
  · exact ⟨_, hrun, .converted ms _ heach rfl (keepResults_kept w.elapsed (migrateEach_ok heach))⟩

/-- Two files, the second of which is not there. -/
theorem migrateFiles_one_missing :
    let w : Surroundings := ⟨.standard, .standard, ⟨2024, 1, 1, 0, 0, 0⟩, .zero false, "", ⟨[], [], []⟩⟩
    let files := [fileEntry "a.xml" "a.xml" 4, fileEntry "b.xml" "b.xml" 4]
    let s : Screen := ⟨Session.empty.set .files (.list files), ⟨[(["a.xml"], Encoding.encodeUtf8 "<a/>".toList)], []⟩, [], []⟩
    ∃ t, (migrateFiles false).runOn w s = (.ok (), t) ∧ Concluded w false files s t :=
  migrateFiles_all_or_nothing _ _ _ _ _ rfl

end MappingFlow.Web
