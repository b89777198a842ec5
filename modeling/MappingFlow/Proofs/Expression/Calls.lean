/-
  MappingFlow.Proofs.Expression.Calls — what a call rule makes of a call.

  The rules are flat: an argument runs to the first comma, the last one to the first
  closing parenthesis, whatever stands between. `run_upTo` says so of one argument, and
  `unary_match`, `binary_match` and `ternary_match` of a whole call: the name is replaced
  and the rest is copied. Where the word at hand is not the name of the rule there is no
  match (`callee_of_match`).
-/

import MappingFlow.Proofs.Expression.Quiet

namespace MappingFlow

open Text
open List hiding all

namespace Pattern

variable {before rest : List Char}

/-! ## One argument -/

theorem append_cons_inj (ha : c ∉ a) (ha' : c ∉ a') (h : a ++ c :: b = a' ++ c :: b') : a = a' ∧ b = b' := by
  induction a generalizing a' with
  | nil =>
    cases a' with
    | nil => exact ⟨rfl, (List.cons.inj h).2⟩
    | cons d a' =>
      obtain ⟨rfl, -⟩ := List.cons.inj h
      exact absurd (.head _) ha'
  | cons d a ih =>
    cases a' with
    | nil =>
      obtain ⟨rfl, -⟩ := List.cons.inj h
      exact absurd (.head _) ha
    | cons d' a' =>
      simp only [cons_append] at h
      obtain ⟨rfl, hrest⟩ := List.cons.inj h
      obtain ⟨rfl, rfl⟩ := ih (fun hc => ha (.tail _ hc)) (fun hc => ha' (.tail _ hc)) hrest
      exact ⟨rfl, rfl⟩

/-- No blanks are taken where there are none. -/
theorem run_blanks_none (h : rest.head?.any isBlank = false) (hk : k ⟨before, rest, groups⟩ = some r) :
    blanks.run ⟨before, rest, groups⟩ k = some r :=
  run_many_greedy (x := []) (by simp) h hk

theorem run_blanks_one (h : rest.head?.any isBlank = false) (hk : k ⟨' ' :: before, rest, groups⟩ = some r) :
    blanks.run ⟨before, ' ' :: rest, groups⟩ k = some r :=
  run_many_greedy (x := [' ']) (by decide) h hk

/-- A text that can be an argument: it has neither the sign that ends the argument nor blanks
    at its ends. -/
structure Fills (stop : Char) (x : List Char) : Prop where
  free : stop ∉ x
  first : ∃ c, x.head? = some c ∧ isBlank c = false
  last : ∃ c, x.getLast? = some c ∧ isBlank c = false

variable {stop : Char}

theorem Fills.starts (hx : Fills stop x) : (x ++ rest).head?.any isBlank = false := by
  obtain ⟨c, hc, hblank⟩ := hx.first
  rw [head?_append, hc]
  exact hblank

/-- Inside an argument its end is not found. -/
theorem run_blanks_stop_none (hstop : isBlank stop = false) (hx : Fills stop x) (hg : AllBlank g)
    (huv : x = u ++ v) (hv : v ≠ []) :
    (all (blanks :: char stop :: ps)).run ⟨before, v ++ (g ++ stop :: rest), groups⟩ k = none := by
  rw [← Option.not_isSome_iff_eq_none]
  intro hsome
  obtain ⟨t, ht⟩ := Option.isSome_iff_exists.mp hsome
  obtain ⟨_, hreads, -⟩ := run_reads ht
  obtain ⟨s, hblanks, hreads⟩ := reads_all_cons hreads
  obtain ⟨s', hchar, -⟩ := reads_all_cons hreads
  obtain ⟨gap, hgap, heq⟩ := reads_blanks hblanks
  simp only [(reads_char hchar).1, ← append_assoc v] at heq
  have hclear : ∀ {y}, AllBlank y → stop ∉ y := fun hy h => by rw [hy stop h] at hstop; cases hstop
  have hfree : stop ∉ v ++ g := fun h => (mem_append.mp h).elim (fun h => hx.free (by simp [huv, h])) (hclear hg)
  obtain ⟨rfl, -⟩ := append_cons_inj hfree (hclear hgap) heq
  obtain ⟨c, hc, hblank⟩ := hx.last
  rw [huv, getLast?_append] at hc
  obtain ⟨d, hd⟩ := Option.ne_none_iff_exists'.mp (mt getLast?_eq_none_iff.mp hv)
  rw [hd] at hc
  cases hc
  rw [hgap c (mem_append_left _ (mem_of_getLast? hd))] at hblank
  cases hblank

/-- An argument up to the sign that ends it, perhaps with blanks before the sign. -/
theorem run_shortest (hstop : isBlank stop = false) (hx : Fills stop x)
    (haccepts : ∀ c ∈ x, accepts c) (hg : AllBlank g)
    (hk : (all ps).run ⟨stop :: (g.reverse ++ (x.reverse ++ before)), rest,
      (i, ⟨x ++ (g ++ stop :: rest), g ++ stop :: rest⟩) :: groups⟩ k = some r) :
    (all (group i (shortest accepts) :: blanks :: char stop :: ps)).run ⟨before, x ++ (g ++ stop :: rest), groups⟩ k =
      some r := by
  obtain ⟨c, hc, hblank⟩ := hx.first
  obtain ⟨x', rfl⟩ : ∃ x', x = c :: x' := by
    cases x with
    | nil => cases hc
    | cons d x' => cases hc; exact ⟨x', rfl⟩
  rw [run_all_cons]
  simp only [run, shortest, cons_append, haccepts c (.head _), if_true]
  refine run_many_lazy (fun d hd => haccepts d (.tail _ hd)) (fun u v huv hv => ?_) ?_
  · exact run_blanks_stop_none (x := c :: x') hstop hx hg (u := c :: u) (by rw [huv]; rfl) hv
  · rw [run_all_cons]
    refine run_many_greedy hg (by simpa using hstop) ?_
    rw [run_all_cons, run_char]
    simpa using hk

theorem run_upTo (hstop : isBlank stop = false) (hx : Fills stop x)
    (hk : (all ps).run ⟨stop :: (x.reverse ++ before), rest, (i, ⟨x ++ stop :: rest, stop :: rest⟩) :: groups⟩ k = some r) :
    (all (group i (shortest (· != stop)) :: blanks :: char stop :: ps)).run ⟨before, x ++ stop :: rest, groups⟩ k =
      some r :=
  have hne : ∀ d ∈ x, (d != stop) = true := fun _ hd => bne_iff_ne.mpr fun h => hx.free (h ▸ hd)
  run_shortest (g := []) hstop hx hne (forall_mem_nil _) hk

/-- An argument that is not the last one, with the comma behind it. -/
theorem run_argument (hx : Fills ',' x) (hrest : rest.head?.any isBlank = false)
    (hk : (all ps).run ⟨' ' :: ',' :: (x.reverse ++ before), rest,
      (i, ⟨x ++ ',' :: ' ' :: rest, ',' :: ' ' :: rest⟩) :: groups⟩ k = some r) :
    (all (group i (shortest (· != ',')) :: blanks :: char ',' :: blanks :: ps)).run
      ⟨before, x ++ ',' :: ' ' :: rest, groups⟩ k = some r := by
  refine run_upTo (by decide) hx ?_
  rw [run_all_cons]
  exact run_blanks_one hrest hk

end Pattern

namespace Expression

open Pattern

/-! ## Whole calls -/

/-- The rule takes the text for a call and writes another one. -/
def Rewrites (r : CallRule) (x y : List Char) : Prop :=
  x ≠ [] ∧ ∀ before rest, ∃ m, r.pattern.at? before (x ++ rest) = some m ∧ m.matched = x ∧ r.result.expand m = y

theorem rewrites_of_run (hx : x ≠ [])
    (h : ∀ before rest, ∃ b groups, r.pattern.run ⟨before, x ++ rest, []⟩ some = some ⟨b, rest, groups⟩ ∧
      r.result.expand ⟨before, x, rest, groups⟩ = y) : Rewrites r x y := by
  refine ⟨hx, fun before rest => ?_⟩
  obtain ⟨b, groups, hrun, hy⟩ := h before rest
  exact ⟨⟨before, x, rest, groups⟩, at_of_run hrun, rfl, hy⟩

variable {name target : String}

/-- The name, the parenthesis and what follows it. -/
theorem run_callee (hn : SameLetters name.toList n) (hrest : rest.head?.any isBlank = false)
    (hk : (all ps).run ⟨'(' :: (n.reverse ++ before), rest, []⟩ k = some r) :
    (all (caseless name.toList :: blanks :: char '(' :: blanks :: ps)).run ⟨before, n ++ '(' :: rest, []⟩ k = some r := by
  rw [run_all_cons, run_caseless hn, run_all_cons]
  refine run_blanks_none rfl ?_
  rw [run_all_cons, run_char, run_all_cons]
  exact run_blanks_none hrest hk

theorem unary_match (hn : SameLetters name.toList n) (hx : Fills ')' x) :
    Rewrites (unary name target) (n ++ '(' :: x ++ [')']) (target.toList ++ '(' :: x ++ [')']) := by
  refine rewrites_of_run (by simp) fun before rest => ?_
  have hrun : (unary name target).pattern.run ⟨before, n ++ '(' :: (x ++ ')' :: rest), []⟩ some = _ :=
    run_callee hn hx.starts (run_upTo (by decide) hx rfl)
  refine ⟨_, _, by simpa using hrun, ?_⟩
  have hresult : (unary name target).result = Template.plain target.toList ++ Template.plain ['('] ++ firstArg
      ++ Template.plain [')'] := rfl
  simp [hresult, firstArg, Match.group, Span.text_append]

theorem binary_match (hn : SameLetters name.toList n) (hx : Fills ',' x)
    (hy : Fills ')' y) : Rewrites (binary name target) (n ++ '(' :: x ++ [',', ' '] ++ y ++ [')'])
      (target.toList ++ '(' :: x ++ [',', ' '] ++ y ++ [')']) := by
  refine rewrites_of_run (by simp) fun before rest => ?_
  have hrun : (binary name target).pattern.run ⟨before, n ++ '(' :: (x ++ ',' :: ' ' :: (y ++ ')' :: rest)), []⟩ some =
      _ := run_callee hn hx.starts (run_argument hx hy.starts (run_upTo (by decide) hy rfl))
  refine ⟨_, _, by simpa using hrun, ?_⟩
  have hresult : (binary name target).result = Template.plain target.toList ++ Template.plain ['('] ++ (firstArg
      ++ Template.plain ", ".toList ++ secondArg) ++ Template.plain [')'] := rfl
  simp [hresult, firstArg, secondArg, Argument.captures, Match.group, Span.text_append, lookup_cons]

theorem ternary_match (hn : SameLetters name.toList n) (hx : Fills ',' x) (hy : Fills ',' y) (hz : Fills ')' z) :
    Rewrites (ternary name target) (n ++ '(' :: x ++ [',', ' '] ++ y ++ [',', ' '] ++ z ++ [')'])
      (target.toList ++ '(' :: x ++ [',', ' '] ++ y ++ [',', ' '] ++ z ++ [')']) := by
  refine rewrites_of_run (by simp) fun before rest => ?_
  have hrun : (ternary name target).pattern.run
      ⟨before, n ++ '(' :: (x ++ ',' :: ' ' :: (y ++ ',' :: ' ' :: (z ++ ')' :: rest))), []⟩ some = _ :=
    run_callee hn hx.starts (run_argument hx hy.starts (run_argument hy hz.starts (run_upTo (by decide) hz rfl)))
  refine ⟨_, _, by simpa using hrun, ?_⟩
  have hresult : (ternary name target).result = Template.plain target.toList ++ Template.plain ['('] ++ (firstArg
      ++ Template.plain ", ".toList ++ (secondArg ++ Template.plain ", ".toList ++ thirdArg)) ++ Template.plain [')'] := rfl
  simp [hresult, firstArg, secondArg, thirdArg, Argument.captures, Match.group, Span.text_append, lookup_cons]

/-! ## No call -/

/-- A call is matched only where its name is the word at hand. -/
theorem callee_of_match (hname : isLettered name.toList)
    (hs : Spelled rest) (hw : AllWord w) (hb : StartsClear b) (hrest : rest = w ++ b)
    (h : (all (caseless name.toList :: blanks :: char '(' :: ps)).at? before rest ≠ none) :
    SameLetters name.toList w ∧ (b.dropWhile isBlank).head? = some '(' := by
  obtain ⟨m, hm⟩ := Option.ne_none_iff_exists'.mp h
  obtain ⟨u, hu, -⟩ := at_reads hm
  obtain ⟨_, hcaseless, hu⟩ := reads_all_cons hu
  obtain ⟨n, rest', hn, hn', rfl⟩ := reads_caseless.mp hcaseless
  obtain ⟨v, hblanks, hu⟩ := reads_all_cons hu
  obtain ⟨gap, hgap, hgap'⟩ := reads_blanks hblanks
  obtain ⟨x, hchar, -⟩ := reads_all_cons hu
  simp only [(reads_char hchar).1] at hn' hgap'
  have hword := (allWord_of_caseless hname hn fun c hc => hs c (by rw [hn']; simp [hc])).2
  have hclear : StartsClear (gap ++ '(' :: x.rest) := by
    cases gap with
    | nil => rfl
    | cons c gap => exact isWord_of_isBlank (hgap c (.head _))
  rw [hgap', hrest] at hn'
  obtain ⟨rfl, rfl⟩ := word_append_inj hw hword hb hclear hn'
  refine ⟨hn, ?_⟩
  rw [dropWhile_append_of_pos hgap]
  rfl

end Expression

end MappingFlow
