/-
  MappingFlow.Proofs.Expression.DateCalls — texts without calls of the date functions.

  These are the functions whose conversion takes literals apart. A reader that remembers
  what it has read stops at the first such call (`dating`), so a text has none if the
  reader gets through it (`dateFree_iff_read`). What the passes write instead of other text ends in a
  sign that is no part of a name (`isGuarded`); it calls no date function and lets no text
  behind it do so that did not before (`thins_of_guarded`).
-/

import MappingFlow.Proofs.Expression.Quiet
import MappingFlow.Proofs.Pattern.Simulation

namespace MappingFlow

open Text
open List hiding all

variable {name : String} {w v : List Char}

namespace Pattern

theorem exists_of_startsAs {name : List Char} (h : startsAs name w) : ∃ n rest, SameLetters name n ∧ w = n ++ rest := by
  induction name generalizing w with
  | nil => exact ⟨[], w, .nil, rfl⟩
  | cons c name ih =>
    cases w with
    | nil => cases h
    | cons d w =>
      simp only [startsAs, Bool.and_eq_true] at h
      obtain ⟨n, rest, hn, rfl⟩ := ih h.2
      exact ⟨d :: n, rest, .cons h.1 hn, rfl⟩

theorem startsAs_append {name : List Char} (h : startsAs name w) (rest) : startsAs name (w ++ rest) = true := by
  obtain ⟨n, w', hn, rfl⟩ := exists_of_startsAs h
  rw [append_assoc]
  exact startsAs_of_caseless hn _

/-- A sign that is no letter of the name ends it. -/
theorem startsAs_cut {name rest : List Char} (he : ∀ c ∈ name, sameLetter c e = false)
    (h : startsAs name (w ++ e :: rest)) : startsAs name w = true := by
  induction name generalizing w with
  | nil => rfl
  | cons c name ih =>
    cases w with
    | nil => simp [startsAs, he c (.head _)] at h
    | cons d w =>
      simp only [cons_append, startsAs, Bool.and_eq_true] at h ⊢
      exact ⟨h.1, ih (fun a ha => he a (.tail _ ha)) h.2⟩

end Pattern

namespace Expression

open Pattern

def dateNames : List String := ["GET_DATE_PART", "ADD_TO_DATE", "ADD_DATE", "ADD_toDate", "TO_CHAR", "TO_DATE"]

def DateFree (t : List Char) : Prop := ∀ name ∈ dateNames, (callOf name).occursIn t = false

instance (t : List Char) : Decidable (DateFree t) :=
  inferInstanceAs (Decidable (∀ name ∈ dateNames, (callOf name).occursIn t = false))

/-- A text, last character first, that is called as a date function if a parenthesis follows. -/
def endsDate (w : List Char) : Bool := dateNames.any fun name => startsAs name.toList.reverse (w.dropWhile isBlank)

theorem not_blank_of_dateLetter (hname : name ∈ dateNames) (hc : c ∈ name.toList)
    (hd : sameLetter c d) : isBlank d = false := by
  have check : (dateNames.all fun name => name.toList.all fun c => blankCodes.all fun n =>
      !sameLetter c (Char.ofNat n)) = true := by decide +kernel
  cases hblank : isBlank d with
  | false => rfl
  | true =>
    simp only [all_eq_true, Bool.not_eq_true'] at check
    have := check name hname c hc d.toNat (toNat_mem_blankCodes hblank)
    rw [Char.ofNat_toNat, hd] at this
    cases this

theorem dateName_ne_nil (hname : name ∈ dateNames) : name.toList.reverse ≠ [] := by
  have : ∀ name ∈ dateNames, name.toList.reverse ≠ [] := by decide
  exact this name hname

theorem endsDate_of_caseless (hname : name ∈ dateNames) (hn : SameLetters name.toList n) (hgap : AllBlank gap)
    (before) : endsDate (gap.reverse ++ (n.reverse ++ before)) = true := by
  have hne : n.reverse ≠ [] := by
    intro hnil
    have hlen := hn.length_eq
    rw [reverse_eq_nil_iff.mp hnil] at hlen
    exact dateName_ne_nil hname (reverse_eq_nil_iff.mpr (length_eq_zero_iff.mp hlen))
  obtain ⟨d, n', hn'⟩ := exists_cons_of_ne_nil hne
  have hd : isBlank d = false := by
    obtain ⟨c, hc, hcd⟩ := exists_of_caseless hn (d := d) (mem_reverse.mp (hn' ▸ mem_cons_self ..))
    exact not_blank_of_dateLetter hname hc hcd
  refine any_eq_true.mpr ⟨name, hname, ?_⟩
  rw [dropWhile_append_of_pos fun c hc => hgap c (mem_reverse.mp hc), hn', cons_append,
    dropWhile_cons_of_neg (by simp [hd]), ← cons_append, ← hn']
  exact startsAs_of_caseless (rel_reverse hn) before

/-- A call read in the text, whatever its arguments. -/
theorem exists_of_callReads {name : List Char}
    (h : (all (caseless name :: blanks :: char '(' :: ps)).Reads s u) : ∃ n gap y, SameLetters name n ∧ AllBlank gap ∧
      s.rest = n ++ (gap ++ '(' :: y) := by
  obtain ⟨_, hcaseless, h⟩ := reads_all_cons h
  obtain ⟨n, rest, hn, hrest, rfl⟩ := reads_caseless.mp hcaseless
  obtain ⟨v, hblanks, h⟩ := reads_all_cons h
  obtain ⟨gap, hgap, hrest'⟩ := reads_blanks hblanks
  obtain ⟨x, hchar, -⟩ := reads_all_cons h
  simp only at hrest'
  rw [(reads_char hchar).1] at hrest'
  exact ⟨n, gap, x.rest, hn, hgap, by rw [hrest, hrest']⟩

variable {t : List Char}

theorem dateFree_iff : DateFree t ↔ ∀ x y, t = x ++ '(' :: y → endsDate x.reverse = false := by
  constructor
  · intro h x y ht
    by_contra hends
    rw [Bool.not_eq_false, endsDate, any_eq_true] at hends
    obtain ⟨name, hname, hstarts⟩ := hends
    obtain ⟨n, w, hn, hw⟩ := exists_of_startsAs hstarts
    have hcaseless : SameLetters name.toList n.reverse := by
      simpa using rel_reverse hn
    have hx : x = w.reverse ++ (n.reverse ++ (x.reverse.takeWhile isBlank).reverse) := by
      have := congrArg List.reverse (takeWhile_append_dropWhile (p := isBlank) (l := x.reverse))
      rw [hw] at this
      simpa using this.symm
    have habsent := occursIn_eq_false_iff.mp (h name hname) w (n.reverse ++ ((x.reverse.takeWhile isBlank).reverse ++ '(' :: y))
      (by rw [ht]; nth_rewrite 1 [hx]; simp)
    refine at_eq_none_iff.mp habsent ⟨_, y, []⟩ ⟨_, reads_caseless.mpr ⟨n.reverse, _, hcaseless, rfl, rfl⟩, _,
      ⟨(x.reverse.takeWhile isBlank).reverse, '(' :: y, ?_, rfl, rfl⟩, '(', y, rfl, by simp, rfl⟩
    exact fun c hc => all_eq_true.mp all_takeWhile c (mem_reverse.mp hc)
  · intro h name hname
    refine occursIn_eq_false_iff.mpr fun before rest ht => at_eq_none_iff.mpr fun u hu => ?_
    obtain ⟨n, gap, y, hn, hgap, hrest⟩ := exists_of_callReads hu
    simp only at hrest
    have := h (before.reverse ++ (n ++ gap)) y (by rw [ht, hrest]; simp)
    simp [endsDate_of_caseless hname hn hgap before] at this

theorem DateFree.not_called (h : DateFree t) (hname : name ∈ dateNames)
    (hn : SameLetters name.toList n) (hgap : AllBlank gap)
    (before y : List Char) : t ≠ before.reverse ++ (n ++ (gap ++ '(' :: y)) := by
  intro ht
  have := dateFree_iff.mp h (before.reverse ++ (n ++ gap)) y (by rw [ht]; simp)
  simp [endsDate_of_caseless hname hn hgap before] at this

theorem DateFree.call_absent (h : DateFree t) (hname : name ∈ dateNames) (ps) :
    (all (caseless name.toList :: blanks :: char '(' :: ps)).Absent t := by
  refine fun before rest ht => at_eq_none_iff.mpr fun u hu => ?_
  obtain ⟨n, gap, y, hn, hgap, hrest⟩ := exists_of_callReads hu
  exact h.not_called hname hn hgap before y (hrest ▸ ht)

theorem DateFree.convertDatePart (h : DateFree t) : convertDatePart t = t :=
  convertDatePart_absent (h.call_absent (by decide) [])

theorem DateFree.addCall_absent (h : DateFree t) : addCallPattern.Absent t := by
  refine fun before rest ht => at_eq_none_iff.mpr fun u hu => ?_
  rcases hu with hu | hu
  · obtain ⟨_, hadd, hu⟩ := reads_all_cons hu
    obtain ⟨n, rest', hn, hrest, rfl⟩ := reads_caseless.mp hadd
    obtain ⟨v, hto, hu⟩ := reads_all_cons hu
    obtain ⟨n₂, gap, y, hn₂, hgap, hrest₂⟩ := exists_of_callReads hu
    simp only at hrest
    -- With or without TO_ in the middle, the name is one of the list.
    rcases hto with hto | rfl
    · obtain ⟨n₁, rest₁, hn₁, hrest₁, rfl⟩ := reads_caseless.mp hto
      simp only at hrest₁ hrest₂
      have hname : SameLetters "ADD_TO_DATE".toList (n ++ (n₁ ++ n₂)) :=
        rel_append hn (rel_append hn₁ hn₂)
      exact h.not_called (by decide) hname hgap before y (by rw [ht, hrest, hrest₁, hrest₂]; simp)
    · simp only at hrest₂
      have hname : SameLetters "ADD_DATE".toList (n ++ n₂) := rel_append hn hn₂
      exact h.not_called (by decide) hname hgap before y (by rw [ht, hrest, hrest₂]; simp)
  · exact at_eq_none_iff.mp (h.call_absent (by decide) [] before rest ht) u hu

theorem DateFree.convertAddToDate (h : DateFree t) : convertAddToDate t = t := convertAddToDate_absent h.addCall_absent

theorem DateFree.apply (h : DateFree t) {r : CallRule} (hname : r.name ∈ dateNames) (hargs : r.arguments ≠ none) :
    r.apply t = t := by
  obtain ⟨name, args, result⟩ := r
  cases args with
  | none => exact absurd rfl hargs
  | some args => exact replaceAll_of_absent (h.call_absent hname _)

/-! ## Reading on -/

/-- Keeps what was read, last character first, up to a call of a date function. -/
def dating : Reader (Option (List Char)) :=
  ⟨fun s c => s.bind fun w => if c = '(' ∧ endsDate w = true then none else some (c :: w)⟩

@[simp] theorem read_dating_none (t) : dating.read none t = none := by
  induction t with
  | nil => rfl
  | cons c t ih => exact ih

theorem read_dating_eq : dating.read (some w) t = some w' ↔
    w' = t.reverse ++ w ∧ ∀ x y, t = x ++ '(' :: y → endsDate (x.reverse ++ w) = false := by
  induction t generalizing w with
  | nil =>
    rw [Reader.read_nil, Option.some.injEq]
    exact ⟨fun h => ⟨h.symm, fun x y hxy => by simp at hxy⟩, fun h => h.1.symm⟩
  | cons c t ih =>
    rw [Reader.read_cons]
    by_cases hc : c = '(' ∧ endsDate w = true
    · have hstep : dating.step (some w) c = none := by simp [dating, hc]
      rw [hstep, read_dating_none]
      refine ⟨fun h => (by cases h), fun h => ?_⟩
      have := h.2 [] t (by rw [hc.1]; rfl)
      simp [hc.2] at this
    · have hstep : dating.step (some w) c = some (c :: w) := by simp [dating, hc]
      rw [hstep, ih]
      refine and_congr (by simp) ⟨fun h x y ht => ?_, fun h x y ht => ?_⟩
      · cases x with
        | nil =>
          obtain ⟨rfl, rfl⟩ := List.cons.inj ht
          simpa using hc
        | cons d x =>
          obtain ⟨rfl, rfl⟩ := List.cons.inj ht
          simpa using h x y rfl
      · simpa using h (c :: x) y (by rw [ht]; rfl)

theorem dateFree_iff_read : DateFree t ↔ dating.read (some []) t ≠ none := by
  rw [dateFree_iff, Option.ne_none_iff_exists']
  simp [read_dating_eq]

/-- The new text calls no date function that the old one does not. -/
def Thins (new old : Option (List Char)) : Prop :=
  old = none ∨ ∃ w w', new = some w ∧ old = some w' ∧ ∀ q, endsDate (q ++ w) = true → endsDate (q ++ w') = true

theorem thins_respects : dating.Respects Thins where
  refl s := by
    cases s with
    | none => exact .inl rfl
    | some w => exact .inr ⟨w, w, rfl, rfl, fun _ => id⟩
  trans := by
    rintro a b c hab (rfl | ⟨w, w', rfl, rfl, hbc⟩)
    · exact .inl rfl
    · rcases hab with h | ⟨v, v', rfl, hv, hab⟩
      · cases h
      · cases hv
        exact .inr ⟨v, w', rfl, rfl, fun q h => hbc q (hab q h)⟩
  step := by
    rintro a b c (rfl | ⟨w, w', rfl, rfl, h⟩)
    · exact .inl rfl
    · by_cases hc : c = '(' ∧ endsDate w' = true
      · exact .inl (by simp [dating, hc])
      · have hw : ¬ (c = '(' ∧ endsDate w = true) := fun hw => hc ⟨hw.1, h [] hw.2⟩
        refine .inr ⟨c :: w, c :: w', by simp [dating, hw], by simp [dating, hc], fun q hq => ?_⟩
        have := h (q ++ [c])
        simpa using this (by simpa using hq)

theorem dateFree_of_thins (h : Thins (dating.read (some []) new) (dating.read (some []) old))
    (hold : DateFree old) : DateFree new := by
  rw [dateFree_iff_read] at hold ⊢
  rcases h with hnone | ⟨w, w', hnew, -⟩
  · exact absurd hnone hold
  · rw [hnew]
    exact Option.some_ne_none w

/-! ## Texts that end in a sign -/

/-- A sign that is in no name of a date function. -/
def isApart (c : Char) : Bool := dateNames.all fun name => name.toList.all fun a => !sameLetter a c

/-- A text, last character first, that ends in such a sign and perhaps blanks. -/
def endsApart : List Char → Bool
  | [] => false
  | c :: w => isApart c && (!isBlank c || endsApart w)

/-- Two texts that are told apart at some letter. -/
def differ : List Char → List Char → Bool
  | c :: name, d :: w => !sameLetter c d || differ name w
  | _, _ => false

/-- The text calls no date function wherever it stands, and none can be called behind it by
    what stands before it. `w` is what was read of it, last character first. -/
def isGuardedFrom (w : List Char) : List Char → Bool
  | [] => endsApart w
  | c :: v =>
    (c != '(' || (w.head?.any (!isBlank ·) && dateNames.all fun name => differ name.toList.reverse w))
      && isGuardedFrom (c :: w) v

def isGuarded (v : List Char) : Bool := isGuardedFrom [] v

theorem startsAs_of_differ {name : List Char} (h : differ name w) (rest) : startsAs name (w ++ rest) = false := by
  induction name generalizing w with
  | nil => cases h
  | cons c name ih =>
    cases w with
    | nil => cases h
    | cons d w =>
      simp only [differ, Bool.or_eq_true, Bool.not_eq_true'] at h
      simp only [cons_append, startsAs, Bool.and_eq_false_iff]
      exact h.imp_right ih

theorem endsDate_of_differ (hw : w.head?.any (!isBlank ·) = true)
    (h : ∀ name ∈ dateNames, differ name.toList.reverse w) (rest) : endsDate (w ++ rest) = false := by
  cases w with
  | nil => cases hw
  | cons c w =>
    have hc : isBlank c = false := by simpa using hw
    refine any_eq_false.mpr fun name hname => ?_
    rw [cons_append, dropWhile_cons_of_neg (by simp [hc]), ← cons_append,
      startsAs_of_differ (h name hname)]
    exact Bool.false_ne_true

theorem read_guarded (h : isGuardedFrom w v) (rest) :
    dating.read (some (w ++ rest)) v = some (v.reverse ++ w ++ rest) ∧ endsApart (v.reverse ++ w) = true := by
  induction v generalizing w with
  | nil => exact ⟨rfl, h⟩
  | cons c v ih =>
    simp only [isGuardedFrom, Bool.and_eq_true, Bool.or_eq_true, bne_iff_ne, all_eq_true] at h
    have hc : ¬ (c = '(' ∧ endsDate (w ++ rest) = true) := by
      rintro ⟨hc, hends⟩
      obtain ⟨hw, hdiffer⟩ := h.1.resolve_left (fun hne => hne hc)
      rw [endsDate_of_differ hw hdiffer] at hends
      cases hends
    have hstep : dating.step (some (w ++ rest)) c = some (c :: w ++ rest) := by simp [dating, hc]
    rw [Reader.read_cons, hstep]
    simpa using ih h.2

theorem not_dateLetter (h : isApart c) (hname : name ∈ dateNames) :
    ∀ a ∈ name.toList.reverse, sameLetter a c = false := by
  simp only [isApart, all_eq_true, Bool.not_eq_true'] at h
  exact fun a ha => h name hname a (mem_reverse.mp ha)

theorem startsAs_of_apart (hv : endsApart v) (hname : name ∈ dateNames) :
    startsAs name.toList.reverse ((v ++ w).dropWhile isBlank) = false := by
  induction v with
  | nil => cases hv
  | cons c v ih =>
    simp only [endsApart, Bool.and_eq_true, Bool.or_eq_true, Bool.not_eq_true'] at hv
    cases hc : isBlank c with
    | true =>
      rw [cons_append, dropWhile_cons_of_pos hc]
      exact ih (hv.2.resolve_left (by simp [hc]))
    | false =>
      rw [cons_append, dropWhile_cons_of_neg (by simp [hc])]
      obtain ⟨a, as, ha⟩ := exists_cons_of_ne_nil (dateName_ne_nil hname)
      have := not_dateLetter hv.1 hname a (ha ▸ mem_cons_self ..)
      rw [ha, startsAs, this, Bool.false_and]

/-- Behind such a text only what follows it can be the name of a date function. -/
theorem endsDate_of_apart (hv : endsApart v) (h : endsDate (q ++ (v ++ w))) (w') : endsDate (q ++ w') = true := by
  obtain ⟨name, hname, hstarts⟩ := any_eq_true.mp h
  rw [dropWhile_append] at hstarts
  split at hstarts
  · rw [startsAs_of_apart hv hname] at hstarts
    cases hstarts
  · rename_i hq
    refine any_eq_true.mpr ⟨name, hname, ?_⟩
    rw [dropWhile_append, if_neg hq]
    cases v with
    | nil => cases hv
    | cons c v =>
      simp only [endsApart, Bool.and_eq_true] at hv
      exact startsAs_append (startsAs_cut (not_dateLetter hv.1 hname) hstarts) w'

/-- Such a text may stand for any other. -/
theorem thins_of_guarded (hv : isGuarded v) (u) : dating.Sim Thins u v := by
  rintro a b (rfl | ⟨w, w', rfl, rfl, -⟩)
  · exact .inl (read_dating_none u)
  · obtain ⟨hread, hapart⟩ := read_guarded hv w
    rw [nil_append, append_nil] at hread
    rw [append_nil] at hapart
    cases hu : dating.read (some w') u with
    | none => exact .inl rfl
    | some w'' =>
      exact .inr ⟨_, _, hread, rfl, fun q hq => endsDate_of_apart hapart hq w''⟩

end Expression

end MappingFlow
