/-
  MappingFlow.Proofs.Dataflow.Punctuation — arrows, parentheses and commas of a text.

  What a text adds to the arrows and parentheses before it is counted piece by piece
  (`Adds`). A reader that remembers the last comma tells whether a parenthesis closes behind
  one (`dangles_eq`). `Writes` keeps both accounts at once, the commas on a text in which a
  word stands for each expression. Names and lists of names add nothing and leave no comma open.
-/

import MappingFlow.Proofs.Pattern.Simulation

namespace MappingFlow.Dataflow

open List

/-! ## Names and expressions -/

/-- The characters that mean something in a block, or in what is written for a column. -/
def isSign (c : Char) : Bool := "(),~>\\".toList.contains c || Text.isBlank c

def IsBare (s : String) : Prop := ∀ c ∈ s.toList, isSign c = false

instance (s : String) : Decidable (IsBare s) := List.decidableBAll (isSign · = false) s.toList

def IsName (s : String) : Prop := s ≠ "" ∧ IsBare s

instance (s : String) : Decidable (IsName s) := inferInstanceAs (Decidable (_ ∧ _))

/-- How often `~>` stands in a text. -/
def arrows : List Char → Nat
  | [] => 0
  | c :: rest => (if c = '~' ∧ rest.head? = some '>' then 1 else 0) + arrows rest

/-- An expression that brings no arrow and closes what it opens. -/
def IsEven (e : String) : Prop := arrows e.toList = 0 ∧ e.toList.count '(' = e.toList.count ')'

instance (e : String) : Decidable (IsEven e) := inferInstanceAs (Decidable (_ ∧ _))

theorem IsBare.not_mem (h : IsBare s) (hc : isSign c) : c ∉ s.toList := by
  intro hmem
  rw [h c hmem] at hc
  cases hc

/-! ## What a text adds to the arrows and parentheses before it -/

theorem arrows_append (h : s.getLast? ≠ some '~' ∨ t.head? ≠ some '>') : arrows (s ++ t) = arrows s + arrows t := by
  induction s with
  | nil => simp [arrows]
  | cons c s ih =>
    cases s with
    | nil =>
      have hnone : ¬(c = '~' ∧ t.head? = some '>') := by
        rintro ⟨rfl, ht⟩
        exact h.elim (· rfl) (· ht)
      simp [arrows, hnone]
    | cons d s =>
      have hrest := ih (by simpa using h)
      rw [cons_append, arrows, hrest, ← Nat.add_assoc]
      rfl

theorem arrows_eq_zero (h : '~' ∉ t) : arrows t = 0 := by
  induction t with
  | nil => rfl
  | cons c t ih =>
    rw [mem_cons, not_or] at h
    simp [arrows, Ne.symm h.1, ih h.2]

/-- Parentheses opened less those closed, and arrows. No arrow can begin before the text and
    end in it. -/
def Adds (t : List Char) (depth : Int) (count : Nat) : Prop :=
  (t.count '(' : Int) - t.count ')' = depth ∧ arrows t = count ∧ t.head? ≠ some '>'

instance (t : List Char) (depth : Int) (count : Nat) : Decidable (Adds t depth count) :=
  inferInstanceAs (Decidable (_ ∧ _ ∧ _))

variable {x y : String}

theorem Adds.append (hs : Adds s d n) (ht : Adds t d' n') : Adds (s ++ t) (d + d') (n + n') := by
  obtain ⟨hsd, hsn, hsh⟩ := hs
  obtain ⟨htd, htn, hth⟩ := ht
  refine ⟨?_, by rw [arrows_append (.inr hth), hsn, htn], ?_⟩
  · simp only [count_append]
    omega
  · cases s with
    | nil => exact hth
    | cons c s => exact hsh

theorem Adds.str (hx : Adds x.toList d n) (hy : Adds y.toList d' n') : Adds (x ++ y).toList (d + d') (n + n') := by
  rw [String.toList_append]
  exact hx.append hy

theorem IsBare.adds (h : IsBare x) : Adds x.toList 0 0 := by
  refine ⟨?_, arrows_eq_zero (h.not_mem (by decide)), fun hh => ?_⟩
  · rw [count_eq_zero.mpr (h.not_mem (by decide)), count_eq_zero.mpr (h.not_mem (by decide))]
    rfl
  · exact h.not_mem (c := '>') (by decide) (mem_of_mem_head? hh)

/-- An expression may begin with `>`, so it must not follow a `~`. -/
theorem Adds.even (hx : Adds x.toList d n) (hne : x ≠ "") (hlast : x.toList.getLast? ≠ some '~')
    (he : IsEven e) : Adds (x ++ e).toList d n := by
  obtain ⟨hd, hn, hh⟩ := hx
  rw [String.toList_append]
  refine ⟨?_, by rw [arrows_append (.inl hlast), hn, he.1, Nat.add_zero], ?_⟩
  · simp only [count_append]
    have := he.2
    omega
  · obtain ⟨c, rest, hx⟩ := exists_cons_of_ne_nil (l := x.toList) (by simpa using hne)
    rwa [hx] at hh ⊢

/-! ## Commas in front of a parenthesis -/

/-- Behind nothing but blanks a parenthesis closes. -/
def closesNext (t : List Char) : Bool := (t.dropWhile Text.isBlank).head? == some ')'

/-- Some comma stands, blanks apart, in front of a closing parenthesis. -/
def dangles : List Char → Bool
  | [] => false
  | c :: rest => (c == ',' && closesNext rest) || dangles rest

structure Commas where
  /-- Only blanks have come since a comma. -/
  pending : Bool
  dangling : Bool

def commas : Reader Commas where
  step s c :=
    if Text.isBlank c then s
    else if c = ',' then ⟨true, s.dangling⟩
    else if c = ')' then ⟨false, s.pending || s.dangling⟩
    else ⟨false, s.dangling⟩

theorem closesNext_cons (c : Char) (t) :
    closesNext (c :: t) = if Text.isBlank c then closesNext t else c == ')' := by
  rw [closesNext, dropWhile_cons]
  split
  · rfl
  · simp

theorem dangling_read (s) (t) :
    (commas.read s t).dangling = (s.dangling || dangles t || (s.pending && closesNext t)) := by
  induction t generalizing s with
  | nil => simp [dangles, closesNext]
  | cons c t ih =>
    rw [Reader.read_cons, ih, closesNext_cons, dangles]
    simp only [commas]
    by_cases hblank : Text.isBlank c = true
    · have hcomma : (c == ',') = false := by
        rw [beq_eq_false_iff_ne]
        rintro rfl
        cases hblank
      simp [hblank, hcomma]
    · by_cases hcomma : c = ','
      · subst hcomma
        cases s.dangling <;> cases dangles t <;> cases closesNext t <;> simp [hblank]
      · by_cases hclose : c = ')'
        · subst hclose
          cases s.pending <;> cases s.dangling <;> simp [hblank]
        · simp [hblank, hcomma, hclose, beq_eq_false_iff_ne.mpr hcomma, beq_eq_false_iff_ne.mpr hclose]

theorem dangles_eq (t) : dangles t = (commas.read ⟨false, false⟩ t).dangling := by
  simp [dangling_read]

theorem step_of_not_sign (h : isSign c = false) (s) : commas.step s c = ⟨false, s.dangling⟩ := by
  simp only [isSign, Bool.or_eq_false_iff] at h
  have hcomma : c ≠ ',' := by rintro rfl; cases h.1
  have hclose : c ≠ ')' := by rintro rfl; cases h.1
  simp [commas, h.2, hcomma, hclose]

theorem IsBare.read (h : IsBare x) (s) :
    commas.read s x.toList = ⟨x.toList.isEmpty && s.pending, s.dangling⟩ := by
  unfold IsBare at h
  generalize x.toList = t at h
  induction t generalizing s with
  | nil => rfl
  | cons c t ih =>
    rw [Reader.read_cons, step_of_not_sign (h c mem_cons_self), ih _ fun d hd => h d (.tail _ hd)]
    simp

/-! ## Both accounts -/

/-- What `t` adds, and what becomes in `u` of a comma before it. The two are the same text,
    but for a word in `u` where `t` has an expression. -/
structure Writes (t u : List Char) (depth : Int) (count : Nat) (f : Commas → Commas) : Prop where
  adds : Adds t depth count
  reads : ∀ s, commas.read s u = f s

/-- No comma came last. -/
def Commas.cleared (s : Commas) : Commas := ⟨false, s.dangling⟩

variable {v w : String}

theorem IsBare.writes (h : IsBare x) : Writes x.toList x.toList 0 0 fun s => ⟨x.toList.isEmpty && s.pending, s.dangling⟩ :=
  ⟨h.adds, h.read⟩

theorem IsName.writes (h : IsName x) : Writes x.toList x.toList 0 0 Commas.cleared := by
  refine ⟨h.2.adds, fun s => ?_⟩
  rw [h.2.read]
  simp [Commas.cleared, h.1]

namespace Writes

theorem literal (x : String) (d : Int) (n : Nat) (h : Adds x.toList d n) :
    Writes x.toList x.toList d n (commas.read · x.toList) := ⟨h, fun _ => rfl⟩

theorem of_eq (h : Writes t u d n f) (hf : ∀ s, f s = f' s) : Writes t u d n f' :=
  ⟨h.adds, fun s => (h.reads s).trans (hf s)⟩

theorem append (h : Writes t u d n f) (h' : Writes t' u' d' n' f') :
    Writes (t ++ t') (u ++ u') (d + d') (n + n') fun s => f' (f s) :=
  ⟨h.adds.append h'.adds, fun s => by rw [Reader.read_append, h.reads, h'.reads]⟩

theorem str (h : Writes x.toList v.toList d n f) (h' : Writes y.toList w.toList d' n' f') :
    Writes (x ++ y).toList (v ++ w).toList (d + d') (n + n') fun s => f' (f s) := by
  rw [String.toList_append, String.toList_append]
  exact h.append h'

theorem text (h : Writes x.toList v.toList d n f) (y : String) (d' : Int) (n' : Nat) (hy : Adds y.toList d' n') :
    Writes (x ++ y).toList (v ++ y).toList (d + d') (n + n') fun s => commas.read (f s) y.toList := h.str (literal y d' n' hy)

theorem comma (h : Writes x.toList v.toList d n Commas.cleared) :
    Writes (x ++ ",").toList (v ++ ",").toList d n fun s => ⟨true, s.dangling⟩ := by
  have := h.text "," 0 0 (by decide)
  rwa [Int.add_zero] at this

/-- Where no comma is open, it does not matter whether a bare word is empty. -/
theorem bare (h : Writes x.toList v.toList d n f) (hf : ∀ s, (f s).pending = false) (hy : IsBare y) :
    Writes (x ++ y).toList (v ++ y).toList d n f := by
  have := h.str hy.writes
  rw [Int.add_zero] at this
  refine this.of_eq fun s => ?_
  rw [hf, Bool.and_false, ← hf s]

theorem even (h : Writes x.toList v.toList d n f) (hne : x ≠ "") (hlast : x.toList.getLast? ≠ some '~')
    (he : IsEven e) : Writes (x ++ e).toList (v ++ "x").toList d n fun s => (f s).cleared :=
  ⟨h.adds.even hne hlast he, (h.text "x" 0 0 (by decide)).reads⟩

end Writes

/-! ## Lines -/

/-- Lines as one text. -/
def written (ls : List String) : List Char := ls.flatMap fun l => l.toList ++ ['\n']

theorem written_append (ls ms) : written (ls ++ ms) = written ls ++ written ms := flatMap_append

theorem written_cons (l) (ls) : written (l :: ls) = l.toList ++ (['\n'] ++ written ls) := by
  simp [written]

theorem writes_none : Writes (written []) (written []) 0 0 id := ⟨by decide, fun _ => rfl⟩

namespace Writes

theorem lines (h : Writes x.toList v.toList d n f) (hls : Writes (written ls) (written ms) d' n' f') :
    Writes (written (x :: ls)) (written (v :: ms)) (d + d') (n + n') fun s => f' (f s) := by
  have hend : Writes ['\n'] ['\n'] 0 0 id := ⟨by decide, fun _ => rfl⟩
  have := h.append (hend.append hls)
  rw [Int.zero_add, Nat.zero_add] at this
  rw [written_cons, written_cons]
  exact this

theorem line (h : Writes x.toList v.toList d n f) : Writes (written [x]) (written [v]) d n f := by
  have := h.lines writes_none
  rwa [Int.add_zero] at this

theorem append_lines (h : Writes (written ls) (written ms) d n f) (h' : Writes (written ls') (written ms') d' n' f') :
    Writes (written (ls ++ ls')) (written (ms ++ ms')) (d + d') (n + n') fun s => f' (f s) := by
  rw [written_append, written_append]
  exact h.append h'

end Writes

/-! ## Lists of names -/

/-- Names with a comma between them. -/
def AreNames (g : String) : Prop := ∃ names, names ≠ [] ∧ (∀ a ∈ names, IsName a) ∧ g = ", ".intercalate names

theorem AreNames.writes (h : AreNames g) : Writes g.toList g.toList 0 0 Commas.cleared := by
  obtain ⟨names, hne, hnames, rfl⟩ := h
  induction names with
  | nil => exact absurd rfl hne
  | cons a names ih =>
    have ha := (hnames a mem_cons_self).writes
    cases names with
    | nil => simpa using ha
    | cons b names =>
      have hrest := ih (cons_ne_nil b names) fun b hb => hnames b (.tail _ hb)
      rw [String.intercalate_cons_cons]
      exact (ha.text ", " 0 0 (by decide)).str hrest

end MappingFlow.Dataflow
