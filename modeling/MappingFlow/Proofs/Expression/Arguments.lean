/-
  MappingFlow.Proofs.Expression.Arguments — nothing but separators is lost when a call is
  taken apart.

  - `closeCall_eq`: a call is its content, a closing parenthesis and what follows.
  - `lastSeparator_eq`: the separator found from the end is a comma of the text.
  - `splitArguments_inverse`: splitting and joining are inverse to each other. Behind a
    separator the reader is as at the beginning, so every list is closed arguments with commas
    behind them and one more argument (`exists_glued`), and these are what splitting gives.
  - `lastSeparator_agrees`: read backwards, each step undoes the step forwards
    (`stepBack_step`), so both readers see the same separators.
-/

import MappingFlow.Expression.Arguments
import MappingFlow.Proofs.Pattern.Simulation
import MappingFlow.Proofs.Pattern.Weight
import MappingFlow.Text.Search
import Mathlib.Data.Nat.Find

namespace MappingFlow.Expression

open Text (join)
open List

theorem closeFrom_eq {t content after : List Char} (h : closeFrom? depth t = some (content, after)) :
    t = content ++ ')' :: after := by
  induction t generalizing depth content with
  | nil => cases h
  | cons c rest ih =>
    have inside : ∀ {d : Nat}, (closeFrom? d rest).map (fun x => (c :: x.1, x.2)) = some (content, after) →
        c :: rest = content ++ ')' :: after := by
      intro d hd
      obtain ⟨⟨a, b⟩, hab, he⟩ := Option.map_eq_some_iff.mp hd
      cases he
      rw [cons_append, ih hab]
    simp only [closeFrom?] at h
    split at h
    · exact inside h
    · split at h
      · rename_i hc
        cases depth with
        | zero => cases h; rw [hc]; rfl
        | succ d => exact inside h
      · exact inside h

theorem closeCall_eq {t content after : List Char} (h : closeCall? t = some (content, after)) :
    t = content ++ ')' :: after :=
  closeFrom_eq h

theorem separatorFromEnd_eq (h : separatorFromEnd? r t = some n) :
    ∃ skipped rest, t = skipped ++ ',' :: rest ∧ skipped.length = n := by
  induction t generalizing r n with
  | nil => cases h
  | cons c t ih =>
    simp only [separatorFromEnd?] at h
    split at h
    · rename_i hs
      cases h
      simp only [Reading.separates, Bool.and_eq_true, beq_iff_eq] at hs
      exact ⟨[], t, by rw [hs.1.1]; rfl, rfl⟩
    · obtain ⟨k, hk, rfl⟩ := Option.map_eq_some_iff.mp h
      obtain ⟨skipped, rest, rfl, hl⟩ := ih hk
      exact ⟨c :: skipped, rest, rfl, by simp [hl]⟩

theorem lastSeparator_eq (h : lastSeparator? t = some i) : t = t.take i ++ ',' :: t.drop (i + 1) := by
  obtain ⟨n, hn, rfl⟩ := Option.map_eq_some_iff.mp h
  obtain ⟨skipped, rest, he, rfl⟩ := separatorFromEnd_eq hn
  have ht : t = rest.reverse ++ ',' :: skipped.reverse := by
    have := congrArg reverse he
    simpa using this
  have hi : t.length - 1 - skipped.length = rest.reverse.length := by
    rw [ht]; simp
  rw [hi, ht]
  simp [drop_append]

/-! ## Separators -/

/-- The reader that splits argument lists. -/
def reading : Reader Reading := ⟨Reading.step⟩

/-- The text ends at depth zero and outside quotes. -/
def IsClosed (t : List Char) : Prop := reading.read .start t = .start

/-- A comma stands at the place, at depth zero and outside quotes. -/
def IsSeparator (t : List Char) (i : Nat) : Prop := t[i]? = some ',' ∧ IsClosed (t.take i)

/-- The text is one argument. -/
def IsWhole (t : List Char) : Prop := ∀ i, ¬ IsSeparator t i

variable {t p last : List Char} {args : List (List Char)} {r : Reading} {i : Nat}

instance : Decidable (IsClosed t) := inferInstanceAs (Decidable (_ = _))

instance : Decidable (IsSeparator t i) := inferInstanceAs (Decidable (_ ∧ _))

theorem IsSeparator.lt (h : IsSeparator t i) : i < t.length := (List.getElem?_eq_some_iff.mp h.1).1

instance : Decidable (IsWhole t) := decidable_of_iff (∀ i < t.length, ¬ IsSeparator t i)
  ⟨fun h i hi => h i hi.lt hi, fun h i _ => h i⟩

theorem isWhole_nil : IsWhole [] := by decide

theorem separates_iff : r.separates c ↔ c = ',' ∧ r = .start := by
  obtain ⟨depth, quote⟩ := r
  simp [Reading.separates, Reading.start, and_assoc]

/-- Behind closed text the reader is as at the beginning. -/
theorem isClosed_append (hp : IsClosed p) : IsClosed (p ++ t) ↔ IsClosed t := by
  rw [IsClosed, Reader.read_append, hp, IsClosed]

theorem isClosed_comma (hp : IsClosed p) : IsClosed (p ++ [',']) := (isClosed_append hp).mpr rfl

theorem isSeparator_append (hp : IsClosed p) : IsSeparator (p ++ t) (p.length + i) ↔ IsSeparator t i := by
  rw [IsSeparator, take_length_add_append, isClosed_append hp, getElem?_append_right (Nat.le_add_right ..),
    Nat.add_sub_cancel_left, IsSeparator]

theorem isSeparator_length (hp : IsClosed p) : IsSeparator (p ++ ',' :: t) p.length := ⟨by simp, by simpa using hp⟩

theorem isSeparator_snoc : IsSeparator (t ++ [c]) i ↔ IsSeparator t i ∨ i = t.length ∧ c = ',' ∧ IsClosed t := by
  unfold IsSeparator
  rcases Nat.lt_trichotomy i t.length with h | rfl | h
  · simp [getElem?_append_left h, take_append_of_le_length h.le, h.ne]
  · simp
  · have hnone : t[i]? = none ∧ (t ++ [c])[i]? = none := by simp; omega
    simp [hnone, h.ne']

/-! ## Splitting and joining -/

/-- Arguments, each with a comma behind it. -/
def glued (args : List (List Char)) : List Char := args.flatMap (· ++ [','])

theorem isClosed_glued (h : ∀ a ∈ args, IsClosed a) : IsClosed (glued args) := by
  induction args with
  | nil => rfl
  | cons a args ih =>
    rw [glued, flatMap_cons, isClosed_append (isClosed_comma (h a (.head _)))]
    exact ih fun b hb => h b (.tail _ hb)

/-- Every list is closed arguments with commas behind them, and one more argument. -/
theorem exists_glued (t) :
    ∃ args last, (∀ a ∈ args, IsWhole a ∧ IsClosed a) ∧ IsWhole last ∧ t = glued args ++ last := by
  induction hn : t.length using Nat.strong_induction_on generalizing t with
  | _ n ih =>
  by_cases hsep : ∃ i, IsSeparator t i
  · -- The first separator ends the first argument.
    have hfirst := Nat.find_spec hsep
    obtain ⟨hlt, hget⟩ := List.getElem?_eq_some_iff.mp hfirst.1
    have hwhole : IsWhole (t.take (Nat.find hsep)) := by
      intro i hi
      have hi' := hi.lt
      rw [length_take, Nat.lt_min] at hi'
      refine Nat.find_min hsep hi'.1 ⟨?_, ?_⟩
      · rw [← getElem?_take_of_lt hi'.1, hi.1]
      · simpa [take_take, hi'.1.le] using hi.2
    obtain ⟨args, last, hargs, hlast, hrest⟩ := ih _ (by rw [length_drop]; omega) (t.drop (Nat.find hsep + 1)) rfl
    refine ⟨t.take (Nat.find hsep) :: args, last, forall_mem_cons.mpr ⟨⟨hwhole, hfirst.2⟩, hargs⟩, hlast, ?_⟩
    rw [glued, flatMap_cons, append_assoc, ← glued, ← hrest, append_assoc, singleton_append, ← hget,
      ← drop_eq_getElem_cons hlt, take_append_drop]
  · exact ⟨[], t, by simp, not_exists.mp hsep, rfl⟩

theorem splitFrom_append (h : ∀ a b, p = a ++ ',' :: b → reading.read r a ≠ .start) (current) :
    splitFrom r current (p ++ t) = splitFrom (reading.read r p) (p.reverse ++ current) t := by
  induction p generalizing r current with
  | nil => rfl
  | cons c p ih =>
    have hsep : r.separates c = false := by
      refine Bool.eq_false_iff.mpr fun hs => ?_
      obtain ⟨rfl, rfl⟩ := separates_iff.mp hs
      exact h [] p rfl rfl
    rw [cons_append, splitFrom, hsep, if_neg Bool.false_ne_true, ih]
    · simp [reading]
    · rintro a b rfl
      exact h (c :: a) b rfl

theorem splitArguments_glued (hargs : ∀ a ∈ args, IsWhole a ∧ IsClosed a) (hlast : IsWhole last) :
    splitArguments (glued args ++ last) = args ++ if last = [] then [] else [last] := by
  have pass {p : List Char} (hp : IsWhole p) (t : List Char) :
      splitArguments (p ++ t) = splitFrom (reading.read .start p) p.reverse t := by
    rw [splitArguments, splitFrom_append, append_nil]
    rintro a b rfl ha
    exact hp a.length (isSeparator_length ha)
  induction args with
  | nil =>
    have := pass hlast []
    rw [append_nil] at this
    rw [glued, flatMap_nil, nil_append, this, splitFrom]
    simp
  | cons a args ih =>
    obtain ⟨hwhole, hclosed⟩ := hargs a (.head _)
    have hsep : Reading.start.separates ',' = true := by decide
    rw [glued, flatMap_cons, append_assoc, append_assoc, pass hwhole, hclosed, singleton_append, splitFrom, hsep, if_pos rfl,
      reverse_reverse, ← splitArguments, ← glued, ih fun b hb => hargs b (.tail _ hb), cons_append]

theorem join_concat (args last) : join [','] (args ++ [last]) = glued args ++ last := by
  induction args with
  | nil => rfl
  | cons a args ih =>
    cases args with
    | nil => simp [glued, join]
    | cons b args => simpa [glued, join] using ih

theorem join_splitArguments (t) :
    join [','] (splitArguments t) = if IsSeparator t (t.length - 1) then t.dropLast else t := by
  obtain ⟨args, last, hargs, hlast, rfl⟩ := exists_glued t
  have hclosed := isClosed_glued fun a ha => (hargs a ha).2
  rw [splitArguments_glued hargs hlast]
  rcases eq_nil_or_concat' last with rfl | ⟨last, c, rfl⟩
  · rcases eq_nil_or_concat' args with rfl | ⟨args, a, rfl⟩
    · rfl
    · have hend : glued (args ++ [a]) = glued args ++ a ++ [','] := by simp [glued]
      rw [hend] at hclosed ⊢
      have hsep : IsSeparator (glued args ++ a ++ [',']) (glued args ++ a).length := by
        refine isSeparator_length ((isClosed_append (isClosed_glued fun b hb => (hargs b ?_).2)).mpr (hargs a ?_).2) <;> simp [*]
      rw [if_pos rfl, append_nil, append_nil, if_pos (by simpa using hsep), dropLast_concat, join_concat]
  · rw [if_neg (by simp), join_concat, if_neg fun hsep => hlast last.length ?_]
    rw [length_append, length_append, length_singleton, ← Nat.add_assoc, Nat.add_sub_cancel, isSeparator_append hclosed] at hsep
    exact hsep

/-- Splitting and joining are inverse to each other, but for a separator at the end. -/
theorem splitArguments_inverse (t : List Char) :
    (join [','] (splitArguments t) = if IsSeparator t (t.length - 1) then t.dropLast else t) ∧
    (∀ a ∈ splitArguments t, IsWhole a) ∧ (∀ a ∈ (splitArguments t).dropLast, IsClosed a) ∧
    ∀ (args : List (List Char)) (last : List Char), (∀ a ∈ args ++ [last], IsWhole a) → (∀ a ∈ args, IsClosed a) →
      last ≠ [] → splitArguments (join [','] (args ++ [last])) = args ++ [last] := by
  refine ⟨join_splitArguments t, ?_, ?_, fun args last hwhole hclosed hne => ?_⟩
  · obtain ⟨args, last, hargs, hlast, rfl⟩ := exists_glued t
    rw [splitArguments_glued hargs hlast, forall_mem_append]
    exact ⟨fun a ha => (hargs a ha).1, by split <;> simp [hlast]⟩
  · obtain ⟨args, last, hargs, hlast, rfl⟩ := exists_glued t
    rw [splitArguments_glued hargs hlast]
    intro a ha
    refine (hargs a ?_).2
    split at ha
    · exact dropLast_subset args (append_nil args ▸ ha)
    · rwa [dropLast_concat] at ha
  · rw [forall_mem_append, forall_mem_singleton] at hwhole
    rw [join_concat, splitArguments_glued (fun a ha => ⟨hwhole.1 a ha, hclosed a ha⟩) hwhole.2, if_neg hne]

/-- Commas between quotes and in nested calls separate nothing. -/
theorem nestedArguments_joined : splitArguments (join [','] ["F(a,b)".toList, [], "'(,' ".toList, "\")'".toList]) =
    ["F(a,b)".toList, [], "'(,' ".toList, "\")'".toList] :=
  (splitArguments_inverse []).2.2.2 ["F(a,b)".toList, [], "'(,' ".toList] "\")'".toList (by decide) (by decide) (by decide)

/-- The arguments put together again are the list, but for a comma at its end. -/
theorem splitArguments_join (t) : ∃ last, (last = [] ∨ last = [',']) ∧ t = join [','] (splitArguments t) ++ last := by
  rw [join_splitArguments]
  split
  · rename_i h
    refine ⟨[','], .inr rfl, ?_⟩
    rw [dropLast_append_getLast?]
    rw [getLast?_eq_getElem?]
    exact h.1
  · exact ⟨[], .inl rfl, (append_nil t).symm⟩

theorem sum_weigh_split {M : Type} [AddCommGroup M] {w : Char → M} (hw : w ',' = 0) (t) :
    ((splitArguments t).map (weigh w)).sum = weigh w t := by
  obtain ⟨args, last, hargs, hlast, rfl⟩ := exists_glued t
  have hglued : (args.map (weigh w)).sum = weigh w (glued args) := by
    clear hargs
    induction args with
    | nil => rfl
    | cons a args ih => simpa [glued, hw] using ih
  rw [splitArguments_glued hargs hlast, map_append, sum_append, weigh_append, hglued]
  split <;> simp [*]

/-! ## Reading backwards -/

theorem stepBack_step (r : Reading) (c : Char) : (r.step c).stepBack c = r := by
  obtain ⟨depth, quote⟩ := r
  simp only [Reading.step, Reading.stepBack, Reading.afterQuote, Reading.afterParen]
  grind

/-- What is found from the end, where the reader is as it is behind the text, is the last separator. -/
theorem separatorFromEnd_spec (t) : separatorFromEnd? (reading.read .start t) t.reverse = none ∧ IsWhole t ∨
    ∃ x y, t = x ++ [','] ++ y ∧ IsClosed x ∧ IsWhole y ∧
      separatorFromEnd? (reading.read .start t) t.reverse = some y.length := by
  induction t using reverseRecOn with
  | nil => exact .inl ⟨rfl, isWhole_nil⟩
  | append_singleton t c ih =>
    -- Going back over the last character, the reader is where it was before it.
    have hback : (reading.read .start (t ++ [c])).stepBack c = reading.read .start t := by
      rw [Reader.read_append]
      exact stepBack_step _ c
    rw [reverse_append, reverse_singleton, singleton_append, separatorFromEnd?]
    simp only [hback, separates_iff]
    split
    · rename_i hc
      obtain ⟨rfl, hclosed⟩ := hc
      exact .inr ⟨t, [], by simp, hclosed, isWhole_nil, rfl⟩
    · rename_i hc
      rcases ih with ⟨hnone, hwhole⟩ | ⟨x, y, rfl, hx, hy, hsome⟩
      · refine .inl ⟨by rw [hnone]; rfl, fun i hi => ?_⟩
        exact (isSeparator_snoc.mp hi).elim (hwhole i) fun h => hc h.2
      · refine .inr ⟨x, y ++ [c], by simp, hx, fun i hi => ?_, by rw [hsome]; simp⟩
        rcases isSeparator_snoc.mp hi with hi | ⟨-, rfl, hclosed⟩
        · exact hy i hi
        · exact hc ⟨rfl, (isClosed_append (isClosed_comma hx)).mpr hclosed⟩

theorem lastSeparator_spec (h : IsClosed t) : lastSeparator? t = none ∧ IsWhole t ∨
    ∃ x y, t = x ++ [','] ++ y ∧ IsClosed x ∧ IsWhole y ∧ lastSeparator? t = some x.length := by
  have hspec := separatorFromEnd_spec t
  rw [h] at hspec
  refine hspec.imp (And.imp_left fun hnone => by rw [lastSeparator?, hnone]; rfl) ?_
  rintro ⟨x, y, rfl, hx, hy, hsome⟩
  exact ⟨x, y, rfl, hx, hy, by rw [lastSeparator?, hsome]; simp⟩

/-- Read backwards, a closed text has its last separator where it has it read forwards. -/
theorem lastSeparator_agrees (t : List Char) (h : IsClosed t) :
    (∀ i, lastSeparator? t = some i ↔ IsSeparator t i ∧ ∀ j, IsSeparator t j → j ≤ i) ∧
    (lastSeparator? t = none ↔ ∀ i, ¬ IsSeparator t i) ∧
    (¬ IsSeparator t (t.length - 1) → ∀ i, lastSeparator? t = some i →
      (splitArguments t).getLast? = some (t.drop (i + 1)) ∧ join [','] (splitArguments t).dropLast = t.take i) := by
  rcases lastSeparator_spec h with ⟨hnone, hwhole⟩ | ⟨x, y, rfl, hx, hy, hsome⟩
  · rw [hnone]
    exact ⟨fun i => iff_of_false nofun fun hi => hwhole i hi.1, iff_of_true rfl hwhole, fun _ i => nofun⟩
  · have hsep : IsSeparator (x ++ [','] ++ y) x.length := by simpa using isSeparator_length (t := y) hx
    have hlast : ∀ j, IsSeparator (x ++ [','] ++ y) j → j ≤ x.length := by
      intro j hj
      by_contra hlt
      obtain ⟨k, rfl⟩ := Nat.exists_eq_add_of_le (show (x ++ [',']).length ≤ j by simp; omega)
      exact hy k ((isSeparator_append (isClosed_comma hx)).mp hj)
    rw [hsome]
    refine ⟨fun i => ⟨?_, fun hi => ?_⟩, iff_of_false nofun fun hwhole => hwhole _ hsep, fun hend i hi => ?_⟩
    · rintro ⟨⟩
      exact ⟨hsep, hlast⟩
    · rw [(hlast i hi.1).antisymm (hi.2 _ hsep)]
    · cases hi
      have hne : y ≠ [] := by
        rintro rfl
        exact hend (by simpa using hsep)
      rw [drop_left' (by simp), append_assoc, take_left, ← append_assoc]
      obtain ⟨args, a, hargs, ha, rfl⟩ := exists_glued x
      have hclosed := (isClosed_append (isClosed_glued fun b hb => (hargs b hb).2)).mp hx
      have hglued : glued args ++ a ++ [','] = glued (args ++ [a]) := by simp [glued]
      rw [hglued, splitArguments_glued (forall_mem_append.mpr ⟨hargs, by simpa using ⟨ha, hclosed⟩⟩) hy, if_neg hne,
        dropLast_concat, join_concat]
      simp

/-- Each kind of quote hides the other, parentheses and commas. -/
theorem quotedUnit_agrees : lastSeparator? "ROUND(a,2),\"),'(\",'MM'".toList = some 17 ∧
    (splitArguments "ROUND(a,2),\"),'(\",'MM'".toList).getLast? = some "'MM'".toList := by
  have hlast : lastSeparator? "ROUND(a,2),\"),'(\",'MM'".toList = some 17 := by decide
  have hparts := (lastSeparator_agrees _ (by decide)).2.2 (by decide) 17 hlast
  exact ⟨hlast, hparts.1⟩

end MappingFlow.Expression
