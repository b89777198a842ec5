/-
  MappingFlow.Proofs.Expression.Mentions — a reader that looks out for a name.

  `sighting w` goes through a text and tells whether the word `w` has come up as a name that
  is used: not as that of a function, so no parenthesis follows it, and not up against a
  quote. A rewriting keeps every such use if the reader never falls behind on the new text
  (`Ahead`). Since a word begins at an edge, what a replacement does to a reader may depend on the
  text before it, and on which earlier places were tried in vain; `walk_replaceFrom` carries
  any such knowledge along.
-/

import MappingFlow.Proofs.Expression.Quiet
import MappingFlow.Proofs.Pattern.Locality

namespace MappingFlow.Expression

open Pattern Reader Text
open List

/-! ## The reader -/

/-- How far a name has come up. -/
inductive Sight where
  /-- A word goes on that is not the name. -/
  | lost
  /-- A word goes on with the first `n` characters of the name; with none of them, no word does. -/
  | reading (n : Nat)
  /-- The name, and blanks behind it. -/
  | passed
  | found
  deriving DecidableEq

def isQuote (c : Char) : Bool := c == '\'' || c == '"'

def sighting (w : List Char) : Reader Sight where
  step
    | .lost, c => if isWord c then .lost else .reading 0
    | .reading n, c =>
      if isWord c then if w[n]? = some c then .reading (n + 1) else .lost
      else if n = w.length then
        if isBlank c then .passed else if c == '(' || isQuote c then .reading 0 else .found
      else .reading 0
    | .passed, c => if isBlank c then .passed else if c == '(' then .reading 0 else .found
    | .found, _ => .found

/-- The name has come up, unless something follows that makes it another thing. -/
def Sight.isSeen (w : List Char) : Sight → Bool
  | .lost => false
  | .reading n => n == w.length
  | .passed => true
  | .found => true

/-- The text uses the name. -/
def Sees (w t : List Char) : Prop := ((sighting w).read (.reading 0) t).isSeen w = true

/-- The first reader has seen all that the second has, and will. -/
def Ahead (a b : Sight) : Prop := b = .lost ∨ a = b ∨ a = .found ∨ a = .passed ∧ b = .reading 0

variable {w t u v x y : List Char} {a b s : Sight} {c : Char}

section Steps

theorem step_word (hc : isWord c) : (sighting w).step .lost c = .lost ∧ (sighting w).step .passed c = .found ∧
    ∀ n, (sighting w).step (.reading n) c = if w[n]? = some c then .reading (n + 1) else .lost := by
  have hblank := isBlank_of_isWord hc
  have hopen : c ≠ '(' := by
    rintro rfl
    exact absurd hc (by decide)
  simp [sighting, hc, hblank, hopen]

/-- Behind a sign no word goes on. -/
theorem ahead_step (hc : isWord c = false) : Ahead ((sighting w).step s c) (.reading 0) := by
  unfold Ahead
  cases s <;> simp only [sighting, hc] <;> grind

end Steps

theorem ahead_respects (hw : w ≠ []) : (sighting w).Respects Ahead := by
  have hlength : 0 ≠ w.length := fun h => hw (length_eq_zero_iff.mp h.symm)
  refine ⟨fun _ => .inr (.inl rfl), fun {a b c} hab hbc => ?_, fun {a b} c h => ?_⟩
  · unfold Ahead at *
    grind
  · rcases h with rfl | rfl | rfl | ⟨rfl, rfl⟩
    · by_cases hc : isWord c = true
      · exact .inl (step_word hc).1
      · rw [Bool.not_eq_true] at hc
        rw [show (sighting w).step .lost c = .reading 0 by simp [sighting, hc]]
        exact ahead_step hc
    · exact .inr (.inl rfl)
    · exact .inr (.inr (.inl rfl))
    · by_cases hc : isWord c = true
      · exact .inr (.inr (.inl (step_word hc).2.1))
      · rw [Bool.not_eq_true] at hc
        rw [show (sighting w).step (.reading 0) c = .reading 0 by simp [sighting, hc, hlength]]
        exact ahead_step hc

theorem Ahead.isSeen (h : Ahead a b) (hb : b.isSeen w) : a.isSeen w = true := by
  rcases h with rfl | rfl | rfl | ⟨rfl, rfl⟩
  · cases hb
  · exact hb
  · rfl
  · rfl

theorem Ahead.eq_found (h : Ahead a .found) : a = .found := by
  rcases h with h | h | h | ⟨-, h⟩
  · cases h
  · exact h
  · exact h
  · cases h

theorem Ahead.of_passed (h : Ahead a .passed) : a = .passed ∨ a = .found := by
  rcases h with h | h | h | ⟨-, h⟩
  · cases h
  · exact .inl h
  · exact .inr h
  · cases h

theorem read_found (t) : (sighting w).read .found t = .found := by
  induction t with
  | nil => rfl
  | cons c t ih => exact ih

/-- Text that begins with something else than a blank or a parenthesis. -/
def isFirm (v : List Char) : Bool := v.head?.any fun c => !isBlank c && c != '('

/-- A name with blanks behind it has been used where such text follows. -/
theorem read_firm (hv : isFirm v) (h : Ahead a b) (hb : b = .passed ∨ b = .found) : (sighting w).read a v = .found := by
  cases v with
  | nil => cases hv
  | cons c v =>
    simp only [isFirm, head?_cons, Option.any_some, Bool.and_eq_true, Bool.not_eq_true', bne_iff_ne] at hv
    have ha : a = .passed ∨ a = .found := by
      rcases hb with rfl | rfl
      · exact h.of_passed
      · exact .inr h.eq_found
    rcases ha with rfl | rfl
    · rw [read_cons, show (sighting w).step .passed c = .found by simp [sighting, hv], read_found]
    · exact read_found _

/-- Behind a text that ends with a sign no word goes on. -/
theorem ahead_ends (hne : t ≠ []) (ht : EndsClear t) : Ahead ((sighting w).read s t) (.reading 0) := by
  obtain ⟨t, c, rfl⟩ := (eq_nil_or_concat t).resolve_left hne
  rw [concat_eq_append] at ht ⊢
  rw [EndsClear, getLast?_concat] at ht
  rw [read_append]
  exact ahead_step (by simpa using ht)

theorem ahead_of_endsClear (ht : EndsClear t) : Ahead ((sighting w).read (.reading 0) t) (.reading 0) := by
  by_cases hne : t = []
  · exact .inr (.inl (by rw [hne]; rfl))
  · exact ahead_ends hne ht

/-! ## Words, blanks and signs -/

theorem read_lost (hx : AllWord x) : (sighting w).read .lost x = .lost := by
  induction x with
  | nil => rfl
  | cons c x ih =>
    rw [read_cons, (step_word (hx c (.head _))).1]
    exact ih fun d hd => hx d (.tail _ hd)

/-- A word goes on with the name or is lost. -/
theorem read_reading (hx : AllWord x) (n : Nat) :
    (sighting w).read (.reading n) x = if x <+: w.drop n then .reading (n + x.length) else .lost := by
  induction x generalizing n with
  | nil => simp
  | cons c x ih =>
    have hrest : AllWord x := fun d hd => hx d (.tail _ hd)
    rw [read_cons, (step_word (hx c (.head _))).2.2]
    by_cases hn : w[n]? = some c
    · obtain ⟨hlt, hget⟩ := List.getElem?_eq_some_iff.mp hn
      rw [if_pos hn, ih hrest, drop_eq_getElem_cons hlt, hget, length_cons]
      simp only [cons_prefix_cons, true_and, Nat.add_assoc, Nat.add_comm 1]
    · rw [if_neg hn, read_lost hrest, if_neg]
      rintro ⟨z, hz⟩
      refine hn ?_
      rw [← head?_drop, ← hz]
      rfl

/-- A reader that has not found the name goes over a word without finding it. -/
theorem read_passed (hx : AllWord x) (hne : x ≠ []) : (sighting w).read .passed x = .found := by
  obtain ⟨c, x, rfl⟩ := exists_cons_of_ne_nil hne
  rw [read_cons, (step_word (hx c (.head _))).2.1, read_found]

/-- What a sign makes of a state: a name before it is one that is used. -/
def Sight.severed (w : List Char) (s : Sight) : Sight := if s.isSeen w then .found else .reading 0

theorem severed_ahead : Ahead (s.severed w) (.reading 0) := by
  unfold Sight.severed
  split
  · exact .inr (.inr (.inl rfl))
  · exact .inr (.inl rfl)

/-- What a parenthesis or a quote makes of a state: a name right before it is none. -/
def Sight.opened (s : Sight) : Sight := if s = .found ∨ s = .passed then .found else .reading 0

theorem Ahead.severed (h : Ahead a b) : Ahead (a.severed w) (b.severed w) := by
  unfold Sight.severed
  by_cases hb : b.isSeen w = true
  · rw [if_pos hb, if_pos (h.isSeen hb)]
    exact .inr (.inl rfl)
  · rw [if_neg hb]
    exact severed_ahead

/-- Signs that end a name and are neither blank nor quote nor opening parenthesis. -/
def isSign (c : Char) : Bool := !isWord c && !isBlank c && c != '(' && !isQuote c

theorem step_sign (hc : isSign c) : (sighting w).step s c = s.severed w := by
  simp only [isSign, Bool.and_eq_true, Bool.not_eq_true', bne_iff_ne] at hc
  cases s <;> simp [sighting, hc, Sight.severed, Sight.isSeen]

theorem step_quote (hc : isQuote c) : (sighting w).step s c = s.opened := by
  have hword : isWord c = false ∧ isBlank c = false ∧ c ≠ '(' := by
    simp only [isQuote, Bool.or_eq_true, beq_iff_eq] at hc
    rcases hc with rfl | rfl <;> decide
  cases s <;> simp [sighting, hword, hc, Sight.opened]

theorem step_open : (sighting w).step s '(' = if s = .found then .found else .reading 0 := by
  have hword : isWord '(' = false ∧ isBlank '(' = false := by decide
  cases s <;> simp [sighting, hword]

theorem sees_sign (hc : isSign c) : Sees w (x ++ c :: y) ↔ Sees w x ∨ Sees w y := by
  simp only [Sees, read_append, read_cons, step_sign hc, Sight.severed]
  cases ((sighting w).read (.reading 0) x).isSeen w with
  | true => simp [read_found, Sight.isSeen]
  | false => simp

theorem read_passed_blanks (hx : AllBlank x) : (sighting w).read .passed x = .passed := by
  induction x with
  | nil => rfl
  | cons c x ih =>
    have hstep : (sighting w).step .passed c = .passed := by simp [sighting, hx c (.head _)]
    rw [read_cons, hstep]
    exact ih fun d hd => hx d (.tail _ hd)

section Blanks

variable (hw : w ≠ [])

include hw

theorem isSeen_fresh : (Sight.reading 0).isSeen w = false := by
  cases w with
  | nil => exact absurd rfl hw
  | cons c w => rfl

theorem severed_severed : (s.severed w).severed w = s.severed w := by
  unfold Sight.severed
  cases s.isSeen w with
  | true => rfl
  | false => simp [isSeen_fresh hw]

theorem step_blank (hc : isBlank c) :
    ((sighting w).step s c).isSeen w = s.isSeen w ∧ ((sighting w).step s c = .found ↔ s = .found) := by
  have hword := isWord_of_isBlank hc
  have hfresh := isSeen_fresh hw
  cases s with
  | reading n =>
    by_cases hn : n = w.length
    · simp [sighting, hword, hc, hn, Sight.isSeen]
    · have : (sighting w).step (.reading n) c = .reading 0 := by simp [sighting, hword, hn]
      rw [this, hfresh]
      simp [Sight.isSeen, hn]
  | lost =>
    rw [show (sighting w).step .lost c = .reading 0 by simp [sighting, hword], hfresh]
    simp [Sight.isSeen]
  | passed => simp [sighting, hc, Sight.isSeen]
  | found => simp [sighting, Sight.isSeen]

theorem read_blanks (hx : AllBlank x) :
    ((sighting w).read s x).isSeen w = s.isSeen w ∧ ((sighting w).read s x = .found ↔ s = .found) := by
  induction x generalizing s with
  | nil => exact ⟨rfl, Iff.rfl⟩
  | cons c x ih =>
    obtain ⟨hseen, hfound⟩ := step_blank (s := s) hw (hx c (.head _))
    obtain ⟨hseen', hfound'⟩ := ih (s := (sighting w).step s c) fun d hd => hx d (.tail _ hd)
    exact ⟨hseen'.trans hseen, hfound'.trans hfound⟩

theorem read_fresh_blanks (hx : AllBlank x) : (sighting w).read (.reading 0) x = .reading 0 := by
  have hlength : 0 ≠ w.length := fun h => hw (length_eq_zero_iff.mp h.symm)
  induction x with
  | nil => rfl
  | cons c x ih =>
    have hstep : (sighting w).step (.reading 0) c = .reading 0 := by
      simp [sighting, isWord_of_isBlank (hx c (.head _)), hlength]
    rw [read_cons, hstep]
    exact ih fun d hd => hx d (.tail _ hd)

theorem read_severed_blanks (hx : AllBlank x) : (sighting w).read (s.severed w) x = s.severed w := by
  unfold Sight.severed
  split
  · exact read_found x
  · exact read_fresh_blanks hw hx

/-- Blanks, a sign and blanks. -/
theorem read_sign (hx : AllBlank x) (hc : isSign c) (hy : AllBlank y) :
    (sighting w).read s (x ++ c :: y) = s.severed w := by
  rw [read_append, read_cons, step_sign hc, Sight.severed, (read_blanks hw hx).1, ← Sight.severed,
    read_severed_blanks hw hy]

/-- A name of a function, and blanks around its parenthesis. -/
theorem read_call (hu : AllWord u) (hne : u ≠ []) (hx : AllBlank x) (hy : AllBlank y) :
    (sighting w).read s (u ++ (x ++ '(' :: y)) = s.opened := by
  have hstay : ∀ s : Sight, s ≠ .found → (sighting w).read s (x ++ '(' :: y) = .reading 0 := by
    intro s hs
    rw [read_append, read_cons, step_open, if_neg fun h => hs ((read_blanks hw hx).2.mp h), read_fresh_blanks hw hy]
  rw [read_append]
  cases s with
  | lost =>
    rw [read_lost hu]
    exact hstay _ (by simp)
  | reading n =>
    rw [read_reading hu]
    exact hstay _ (by split <;> simp)
  | passed => rw [read_passed hu hne, read_found]; rfl
  | found => rw [read_found, read_found]; rfl

/-! ## Texts that use the name -/

theorem sees_blanks (hx : AllBlank x) : Sees w (x ++ y) ↔ Sees w y := by
  rw [Sees, read_append, read_fresh_blanks hw hx, Sees]

theorem sees_append_blanks (hy : AllBlank y) : Sees w (x ++ y) ↔ Sees w x := by
  rw [Sees, read_append, (read_blanks hw hy).1, Sees]

theorem not_sees_nil : ¬ Sees w [] := by
  rw [Sees, read_nil, isSeen_fresh hw]
  exact Bool.false_ne_true

theorem sees_trim : Sees w (trim t) ↔ Sees w t := by
  obtain ⟨x, y, hx, hy, ht⟩ := trim_split t
  conv_rhs => rw [ht]
  rw [sees_append_blanks hw hy, sees_blanks hw hx]

/-- Blanks are all alike, and many are like one. -/
theorem step_blank_eq (hc : isBlank c) : (sighting w).step s c = (sighting w).step s ' ' ∧
    (sighting w).step ((sighting w).step s ' ') c = (sighting w).step s ' ' := by
  have hlength : 0 ≠ w.length := fun h => hw (length_eq_zero_iff.mp h.symm)
  have hspace : isWord ' ' = false ∧ isBlank ' ' = true := by decide
  have hword := isWord_of_isBlank hc
  cases s with
  | reading n => by_cases hn : n = w.length <;> simp [sighting, hword, hc, hspace, hlength, hn]
  | lost => simp [sighting, hword, hspace, hlength]
  | passed => simp [sighting, hc, hspace]
  | found => simp [sighting]

theorem read_squeezeFrom (t) : (∀ s, (sighting w).read s (squeezeFrom false t) = (sighting w).read s t) ∧
    ∀ s, (sighting w).read ((sighting w).step s ' ') (squeezeFrom true t) =
      (sighting w).read ((sighting w).step s ' ') t := by
  induction t with
  | nil => exact ⟨fun _ => rfl, fun _ => rfl⟩
  | cons c t ih =>
    by_cases hc : isBlank c = true
    · refine ⟨fun s => ?_, fun s => ?_⟩
      · simp only [squeezeFrom, hc, if_true, Bool.false_eq_true, if_false, read_cons]
        rw [ih.2, (step_blank_eq hw hc).1]
      · simp only [squeezeFrom, hc, if_true, read_cons]
        rw [ih.2, (step_blank_eq hw hc).2]
    · refine ⟨fun s => ?_, fun s => ?_⟩
      · simp only [squeezeFrom, hc, Bool.false_eq_true, if_false, read_cons, ih.1]
      · simp only [squeezeFrom, hc, Bool.false_eq_true, if_false, read_cons, ih.1]

theorem sees_squeeze : Sees w (squeeze t) ↔ Sees w t := by
  rw [Sees, squeeze, (read_squeezeFrom hw t).1, Sees]

theorem sees_join {sep : List Char} (hsep : AllBlank sep) (as) :
    Sees w (join (',' :: sep) as) ↔ ∃ a ∈ as, Sees w a := by
  induction as with
  | nil => simpa [join] using not_sees_nil hw
  | cons a as ih =>
    cases as with
    | nil => simp [join]
    | cons b bs =>
      rw [join, append_assoc, cons_append, sees_sign (by decide), sees_blanks hw hsep, ih]
      simp

end Blanks

/-- The text has the name as a word of its own, not called and not up against a quote. -/
def Uses (t w : List Char) : Prop :=
  ∃ b, Stands w t b ∧ (b.dropWhile isBlank).head? ≠ some '(' ∧ b.head?.any isQuote = false

theorem read_word (hw : AllWord w) : (sighting w).read (.reading 0) w = .reading w.length := by
  rw [read_reading hw, drop_zero, if_pos (prefix_refl w), Nat.zero_add]

theorem sees_of_uses (h : Uses t w) : Sees w t := by
  obtain ⟨b, hstands, hcalled, hquote⟩ := h
  obtain ⟨a, rfl, ha⟩ := hstands.split
  have hne := hstands.ne_nil
  have hclear := hstands.clear
  -- Behind the name the reader is at least as far as one that has just read it.
  have hbefore : Ahead ((sighting w).read (.reading 0) (a ++ w)) (.reading w.length) := by
    rw [read_append, ← read_word hstands.word]
    exact (ahead_respects hne).read (ahead_of_endsClear ha) w
  refine Ahead.isSeen (b := (sighting w).read (.reading w.length) b) ?_ ?_
  · rw [read_append]
    exact (ahead_respects hne).read hbefore b
  · cases b with
    | nil => simp [Sight.isSeen]
    | cons c b =>
      have hc : isWord c = false := hclear
      by_cases hblank : isBlank c = true
      · have hstep : (sighting w).step (.reading w.length) c = .passed := by simp [sighting, hc, hblank]
        rw [dropWhile_cons, if_pos hblank] at hcalled
        rw [read_cons, hstep, ← takeWhile_append_dropWhile (p := isBlank) (l := b), read_append]
        rw [read_passed_blanks (all_eq_true.mp all_takeWhile)]
        cases hrest : b.dropWhile isBlank with
        | nil => rfl
        | cons d rest =>
          have hd : isBlank d = false := by
            have := head?_dropWhile_not isBlank b
            rw [hrest] at this
            simpa using this
          have hopen : d ≠ '(' := by
            rintro rfl
            exact hcalled (by rw [hrest]; rfl)
          have hfound : (sighting w).step .passed d = .found := by simp [sighting, hd, hopen]
          rw [read_cons, hfound, read_found]
          rfl
      · have hopen : c ≠ '(' := by
          rintro rfl
          exact hcalled rfl
        have hstep : (sighting w).step (.reading w.length) c = .found := by
          simpa [sighting, hc, hblank, hopen] using hquote
        rw [read_cons, hstep, read_found]
        rfl

/-- What the text that has been read is like. -/
def Traced (w t : List Char) : Sight → Prop
  | .lost => True
  | .reading n => ∃ a, t = a ++ w.take n ∧ EndsClear a
  | .passed => ∃ b, Stands w t b ∧ b ≠ []
  | .found => ∃ b, Stands w t b ∧ b ≠ []

theorem Traced.step (hw : AllWord w) (hne : w ≠ []) (h : Traced w t s) : Traced w (t ++ [c]) ((sighting w).step s c) := by
  have later : (∃ b, Stands w t b ∧ b ≠ []) → ∃ b, Stands w (t ++ [c]) b ∧ b ≠ [] := by
    rintro ⟨b, h, hb⟩
    obtain ⟨a, rfl, ha⟩ := h.split
    exact ⟨b ++ [c], ⟨hne, hw, startsClear_append h.clear hb, a, by simp, ha⟩, by simp⟩
  by_cases hc : isWord c = true
  · cases s with
    | lost => rw [(step_word hc).1]; trivial
    | reading n =>
      obtain ⟨a, rfl, ha⟩ := h
      rw [(step_word hc).2.2]
      split
      · rename_i hnext
        obtain ⟨hlt, rfl⟩ := List.getElem?_eq_some_iff.mp hnext
        exact ⟨a, by rw [append_assoc, take_append_getElem hlt], ha⟩
      · trivial
    | passed => rw [(step_word hc).2.1]; exact later h
    | found => exact later h
  · rw [Bool.not_eq_true] at hc
    have fresh : Traced w (t ++ [c]) (.reading 0) := ⟨t ++ [c], by simp, by simpa [EndsClear] using hc⟩
    cases s with
    | lost => rwa [show (sighting w).step .lost c = .reading 0 by simp [sighting, hc]]
    | reading n =>
      by_cases hn : n = w.length
      · obtain ⟨a, rfl, ha⟩ := h
        have stands : ∃ b, Stands w (a ++ w.take n ++ [c]) b ∧ b ≠ [] :=
          ⟨[c], ⟨hne, hw, hc, a, by rw [hn, take_length], ha⟩, by simp⟩
        simp only [sighting, hc, Bool.false_eq_true, if_false, if_pos hn]
        split
        · exact stands
        · split
          · exact fresh
          · exact stands
      · rwa [show (sighting w).step (.reading n) c = .reading 0 by simp [sighting, hc, hn]]
    | passed =>
      simp only [sighting]
      split
      · exact later h
      · split
        · exact fresh
        · exact later h
    | found => exact later h

theorem Traced.read (hw : AllWord w) (hne : w ≠ []) (h : Traced w t s) (u) :
    Traced w (t ++ u) ((sighting w).read s u) := by
  induction u generalizing t s with
  | nil => rwa [append_nil]
  | cons c u ih =>
    have := ih (h.step hw hne (c := c))
    rwa [append_assoc] at this

theorem stands_of_sees (hw : AllWord w) (hne : w ≠ []) (h : Sees w t) : ∃ b, Stands w t b := by
  have htraced := Traced.read hw hne (t := []) (s := .reading 0) ⟨[], rfl, rfl⟩ t
  rw [nil_append] at htraced
  unfold Sees at h
  generalize (sighting w).read (.reading 0) t = s at h htraced
  cases s with
  | lost => cases h
  | reading n =>
    obtain ⟨a, rfl, ha⟩ := htraced
    have hn : n = w.length := beq_iff_eq.mp h
    exact ⟨[], hne, hw, rfl, a, by rw [hn, take_length, append_nil], ha⟩
  | passed | found => exact htraced.imp fun _ hb => hb.1

end MappingFlow.Expression
