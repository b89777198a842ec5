/-
  MappingFlow.Proofs.Expression.Phrase — calls, columns and joins, mark by mark.

  A phrase is a list of marks: the head of a call with its parenthesis, a column, a comma,
  a blank before an operand, a closing parenthesis, a join. Every mark but the last tells whether an operand has to
  follow (`Joined`), so that two words never touch. The words of a phrase are its heads
  and columns (`stands_phrase`), and what it calls are its heads (`calls_phrase`). If
  these are ordinary words, each pass leaves the phrase alone unless it looks for one of
  the heads.
-/

import MappingFlow.Proofs.Expression.Quiet
import MappingFlow.Proofs.Text.Splitting

namespace MappingFlow.Expression

open Pattern Text
open List

inductive Mark where
  /-- A name and the parenthesis that opens its arguments. -/
  | head (name : List Char)
  | column (name : List Char)
  /-- A comma and the blank behind it. -/
  | comma
  /-- One more blank before an operand. -/
  | gap
  | close
  | bar
  deriving DecidableEq

namespace Mark

def text : Mark → List Char
  | head name => name ++ ['(']
  | column name => name
  | comma => [',', ' ']
  | gap => [' ']
  | close => [')']
  | bar => [' ', '|', '|', ' ']

def isOperand : Mark → Bool
  | head _ => true
  | column _ => true
  | comma => false
  | gap => true
  | close => false
  | bar => false

/-- An operand has to follow. -/
def expects : Mark → Bool
  | head _ => true
  | column _ => false
  | comma => true
  | gap => true
  | close => false
  | bar => true

/-- What a mark writes besides its word. -/
def signs : Mark → List Char
  | head _ => ['(']
  | column _ => []
  | comma => [',', ' ']
  | gap => [' ']
  | close => [')']
  | bar => [' ', '|', '|', ' ']

def word? : Mark → Option (List Char)
  | head name => some name
  | column name => some name
  | _ => none

end Mark

def phrase (ms : List Mark) : List Char := ms.flatMap Mark.text

@[simp] theorem phrase_nil : phrase [] = [] := rfl

@[simp] theorem phrase_cons (m : Mark) (ms) : phrase (m :: ms) = m.text ++ phrase ms := rfl

@[simp] theorem phrase_append (ms ns) : phrase (ms ++ ns) = phrase ms ++ phrase ns :=
  flatMap_append

/-- Operands stand where they are expected, and nowhere else. -/
def Joined : Bool → List Mark → Prop
  | e, [] => e = false
  | e, m :: ms => m.isOperand = e ∧ Joined m.expects ms

/-- A word that begins with no direction marker, is no keyword and has no SYSDATE in it. -/
def isOrdinary (w : List Char) : Bool :=
  !w.isEmpty && w.all isWord && !"IN_".toList.isPrefixOf w && !"OUT_".toList.isPrefixOf w
    && keywords.all (fun k => upper w != k.toList) && !(caseless "SYSDATE".toList).occursIn w

structure IsPhrase (e : Bool) (ms : List Mark) : Prop where
  joined : Joined e ms
  ordinary : ∀ m ∈ ms, ∀ w, m.word? = some w → isOrdinary w = true

theorem IsPhrase.tail (h : IsPhrase e (m :: ms)) : IsPhrase m.expects ms :=
  ⟨h.joined.2, fun m' hm' => h.ordinary m' (.tail _ hm')⟩

/-- Where no operand stands, a phrase can be cut. -/
theorem IsPhrase.cut (h : IsPhrase e (ms ++ m :: ns)) (hm : m.isOperand = false) :
    IsPhrase e ms ∧ IsPhrase m.expects ns := by
  have hjoined : Joined e ms ∧ Joined m.expects ns := by
    have hall := h.joined
    clear h
    induction ms generalizing e with
    | nil => exact ⟨hall.1.symm.trans hm, hall.2⟩
    | cons m' ms ih => exact ⟨⟨hall.1, (ih hall.2).1⟩, (ih hall.2).2⟩
  refine ⟨⟨hjoined.1, fun m' hm' => h.ordinary m' ?_⟩, ⟨hjoined.2, fun m' hm' => h.ordinary m' ?_⟩⟩
  · exact mem_append_left _ hm'
  · exact mem_append_right _ (.tail _ hm')

theorem isOrdinary.ne_nil (h : isOrdinary w) : w ≠ [] := by
  simp only [isOrdinary, Bool.and_eq_true, Bool.not_eq_true', isEmpty_eq_false_iff] at h
  exact h.1.1.1.1.1

theorem isOrdinary.allWord (h : isOrdinary w) : AllWord w := by
  simp only [isOrdinary, Bool.and_eq_true, all_eq_true] at h
  exact h.1.1.1.1.2

theorem phrase_ne_nil (hp : IsPhrase true ms) : phrase ms ≠ [] := by
  cases ms with
  | nil => cases hp.joined
  | cons m ms =>
    have hword := fun w hw => isOrdinary.ne_nil (hp.ordinary m (.head _) w hw)
    rw [phrase_cons]
    cases m with
    | column name => simp [Mark.text, hword name rfl]
    | head | comma | gap | close | bar => simp [Mark.text]

/-! ## Putting phrases together -/

theorem isPhrase_column (h : isOrdinary w) : IsPhrase true [.column w] := by
  refine ⟨⟨rfl, rfl⟩, fun m hm v hv => ?_⟩
  rw [mem_singleton.mp hm] at hv
  cases hv
  exact h

theorem Joined.append (hm : Joined e ms) (hn : Joined false ns) : Joined e (ms ++ ns) := by
  induction ms generalizing e with
  | nil => rw [show e = false from hm]; exact hn
  | cons m ms ih => exact ⟨hm.1, ih hm.2⟩

/-- Phrases with a mark between them. -/
def between (m : Mark) : List (List Mark) → List Mark
  | [] => []
  | [p] => p
  | p :: q :: ps => p ++ m :: between m (q :: ps)

theorem phrase_between (m : Mark) (ps) : phrase (between m ps) = join m.text (ps.map phrase) := by
  induction ps with
  | nil => rfl
  | cons p ps ih =>
    cases ps with
    | nil => rfl
    | cons q ps =>
      rw [between, phrase_append, phrase_cons, ih]
      simp [join]

theorem mem_between (h : m' ∈ between m ps) : m' = m ∨ ∃ p ∈ ps, m' ∈ p := by
  induction ps with
  | nil => cases h
  | cons p ps ih =>
    cases ps with
    | nil => exact .inr ⟨p, mem_cons_self .., h⟩
    | cons q ps =>
      rcases mem_append.mp h with h | h
      · exact .inr ⟨p, mem_cons_self .., h⟩
      · rcases mem_cons.mp h with h | h
        · exact .inl h
        · exact (ih h).imp_right fun ⟨p', hp', h⟩ => ⟨p', mem_cons_of_mem _ hp', h⟩

theorem mem_between_of_mem (hp : p ∈ ps) (h : m' ∈ p) : m' ∈ between m ps := by
  induction ps with
  | nil => cases hp
  | cons q ps ih =>
    cases ps with
    | nil => rw [mem_singleton.mp hp] at h; exact h
    | cons q' ps =>
      rw [between, mem_append, mem_cons]
      rcases mem_cons.mp hp with rfl | hp
      · exact .inl h
      · exact .inr (.inr (ih hp))

theorem isPhrase_between (hm : m.isOperand = false) (hexpects : m.expects) (hps : ∀ p ∈ ps, IsPhrase true p)
    (hne : ps ≠ []) : IsPhrase true (between m ps) := by
  refine ⟨?_, fun m' hm' w hw => ?_⟩
  · induction ps with
    | nil => exact absurd rfl hne
    | cons p ps ih =>
      have hp := hps p (.head _)
      cases ps with
      | nil => exact hp.joined
      | cons q ps =>
        refine hp.joined.append ⟨hm, ?_⟩
        rw [hexpects]
        exact ih (fun p' hp' => hps p' (.tail _ hp')) (by simp)
  · rcases mem_between hm' with rfl | ⟨p, hp, hmem⟩
    · have hnone : m'.word? = none := by cases m' <;> simp_all [Mark.isOperand, Mark.word?]
      rw [hnone] at hw
      cases hw
    · exact (hps p hp).ordinary m' hmem w hw

/-! ## The words of a phrase -/

/-- Where no operand is expected, neither a word nor a parenthesis follows. -/
theorem startsClear_phrase (h : Joined false ms) :
    StartsClear (phrase ms) ∧ ((phrase ms).dropWhile isBlank).head? ≠ some '(' := by
  cases ms with
  | nil => exact ⟨rfl, by simp⟩
  | cons m ms =>
    cases m with
    | head | column | gap => cases h.1
    | comma | close | bar => exact ⟨rfl, by simp [Mark.text, isBlank]⟩

theorem stands_phrase (hp : IsPhrase e ms) (h : Stands w (phrase ms) b) :
    (∃ pre post, ms = pre ++ Mark.head w :: post ∧ b = '(' :: phrase post) ∨
      Mark.column w ∈ ms ∧ (b.dropWhile isBlank).head? ≠ some '(' := by
  induction ms generalizing e with
  | nil =>
    obtain ⟨a, ha, -⟩ := h.split
    exact absurd (append_eq_nil_iff.mp (append_eq_nil_iff.mp ha.symm).1).2 h.ne_nil
  | cons m ms ih =>
    have later : Stands w (phrase ms) b → (∃ pre post, m :: ms = pre ++ Mark.head w :: post ∧ b = '(' :: phrase post) ∨
        Mark.column w ∈ m :: ms ∧ (b.dropWhile isBlank).head? ≠ some '(' := fun h =>
      (ih hp.tail h).imp (fun ⟨pre, post, hms, hb⟩ => ⟨m :: pre, post, by rw [hms]; rfl, hb⟩) fun h =>
        ⟨mem_cons_of_mem _ h.1, h.2⟩
    rw [phrase_cons] at h
    cases m with
    | head name =>
      have hname := hp.ordinary _ (.head _) name rfl
      rw [Mark.text, append_assoc] at h
      have hclear : StartsClear (['('] ++ phrase ms) := rfl
      rcases stands_word (isOrdinary.ne_nil hname) (isOrdinary.allWord hname) hclear h with ⟨rfl, rfl⟩ | h
      · exact .inl ⟨[], ms, rfl, rfl⟩
      · exact later (stands_sep (by decide) h)
    | column name =>
      have hname := hp.ordinary _ (.head _) name rfl
      obtain ⟨hclear, hopen⟩ := startsClear_phrase hp.joined.2
      rcases stands_word (isOrdinary.ne_nil hname) (isOrdinary.allWord hname) hclear h with ⟨rfl, rfl⟩ | h
      · exact .inr ⟨mem_cons_self .., hopen⟩
      · exact later h
    | comma | gap | close | bar => exact later (stands_sep (by decide) h)

theorem ordinary_of_stands (hp : IsPhrase e ms) (h : Stands w (phrase ms) b) : isOrdinary w = true := by
  rcases stands_phrase hp h with ⟨pre, post, rfl, -⟩ | ⟨h, -⟩
  · exact hp.ordinary (.head w) (by simp) w rfl
  · exact hp.ordinary _ h w rfl

theorem calls_phrase (hp : IsPhrase e ms) (h : Calls (phrase ms) w) : Mark.head w ∈ ms := by
  obtain ⟨b, hstands, hopen⟩ := h
  rcases stands_phrase hp hstands with ⟨pre, post, rfl, -⟩ | ⟨-, h⟩
  · simp
  · exact absurd hopen h

theorem exists_sign (hp : IsPhrase e ms) (hc : isWord c = false) (h : c ∈ phrase ms) : ∃ m ∈ ms, c ∈ m.signs := by
  obtain ⟨m, hm, hcm⟩ := mem_flatMap.mp h
  have hword : ∀ w, m.word? = some w → c ∉ w := fun w hw hmem => by
    rw [isOrdinary.allWord (hp.ordinary m hm w hw) c hmem] at hc
    cases hc
  refine ⟨m, hm, ?_⟩
  cases m with
  | head name => exact (mem_append.mp hcm).resolve_left (hword name rfl)
  | column name => exact absurd hcm (hword name rfl)
  | comma | gap | close | bar => exact hcm

theorem spelled_phrase (hp : IsPhrase e ms) : Spelled (phrase ms) := by
  intro c hc
  cases hword : isWord c with
  | true => exact .inl rfl
  | false =>
    obtain ⟨m, -, hsign⟩ := exists_sign hp hword hc
    have hsigns : ∀ m : Mark, m.signs ⊆ plainSigns := fun m => by cases m <;> simp [Mark.signs, plainSigns]
    exact .inr (hsigns m hsign)

/-! ## Passes that find nothing -/

theorem isOrdinary.unmarked (h : isOrdinary w) : ¬ "IN_".toList <+: w ∧ ¬ "OUT_".toList <+: w := by
  simp only [isOrdinary, Bool.and_eq_true, Bool.not_eq_true', ← Bool.not_eq_true, isPrefixOf_iff_prefix] at h
  exact ⟨h.1.1.1.2, h.1.1.2⟩

theorem isOrdinary.upper_ne (h : isOrdinary w) : ∀ k ∈ keywords, upper w ≠ k.toList := by
  simp only [isOrdinary, Bool.and_eq_true, all_eq_true, bne_iff_ne] at h
  exact h.1.2

theorem isOrdinary.undated (h : isOrdinary w) : (caseless "SYSDATE".toList).Absent w := by
  simp only [isOrdinary, Bool.and_eq_true, Bool.not_eq_true'] at h
  exact occursIn_eq_false_iff.mp h.2

theorem dropDirectionMarkers_phrase (hp : IsPhrase e ms) : dropDirectionMarkers (phrase ms) = phrase ms :=
  dropDirectionMarkers_quiet fun _ _ h => isOrdinary.unmarked (ordinary_of_stands hp h)

/-- No call of the phrase ends in the name. -/
def Silent (ms : List Mark) (name : String) : Prop :=
  ∀ w, Mark.head w ∈ ms → startsAs name.toList.reverse w.reverse = false

theorem Silent.not_endsIn {name : String} (h : Silent ms name) (hp : IsPhrase e ms) (w)
    (hw : Calls (phrase ms) w) : ¬ EndsIn name.toList w := by
  intro hends
  have := h w (calls_phrase hp hw)
  rw [hends.startsAs] at this
  cases this

theorem convertDecode_phrase (hp : IsPhrase e ms) (h : Silent ms "DECODE") : convertDecode (phrase ms) = phrase ms :=
  convertDecode_quiet (spelled_phrase hp) (h.not_endsIn hp)

theorem convertDates_phrase (hp : IsPhrase e ms) (hpart : Silent ms "GET_DATE_PART") (hdate : Silent ms "DATE")
    (hadd : Silent ms "ADD_toDate") : convertDatePart (convertAddToDate (phrase ms)) = phrase ms := by
  rw [convertAddToDate_quiet (spelled_phrase hp) fun w hw => ⟨hdate.not_endsIn hp w hw, hadd.not_endsIn hp w hw⟩]
  exact convertDatePart_quiet (spelled_phrase hp) (hpart.not_endsIn hp)

theorem callRules_lettered : ∀ r ∈ callRules, isLettered r.name.toList = true := by decide +kernel

theorem bareRules : ∀ r ∈ callRules, r.arguments.isSome = false → r.name = "SYSDATE" := by decide +kernel

theorem apply_phrase (hr : r ∈ callRules) (hp : IsPhrase e ms)
    (h : r.arguments.isSome → Silent ms r.name) : r.apply (phrase ms) = phrase ms := by
  refine apply_quiet (spelled_phrase hp) (callRules_lettered r hr) ?_
  by_cases hargs : r.arguments.isSome = true
  · rw [if_pos hargs]
    exact (h hargs).not_endsIn hp
  · rw [if_neg hargs, bareRules r hr (by simpa using hargs)]
    exact fun w b hw => isOrdinary.undated (ordinary_of_stands hp hw)

theorem not_mem_phrase (hp : IsPhrase e ms) (hword : isWord c = false) (hc : c ∉ plainSigns) :
    c ∉ phrase ms := fun hmem => by
  rcases spelled_phrase hp c hmem with h | h
  · rw [hword] at h; cases h
  · exact hc h

theorem convertOperators_phrase (hp : IsPhrase e ms) : convertOperators (phrase ms) = phrase ms := by
  have word : ∀ k ∈ keywords, upper k.toList = k.toList → ∀ b, ¬ Stands k.toList (phrase ms) b :=
    fun k hk hupper b h => isOrdinary.upper_ne (ordinary_of_stands hp h) k hk hupper
  refine convertOperators_quiet (fun b => ?_) ⟨not_mem_phrase hp rfl (by decide), not_mem_phrase hp rfl (by decide)⟩
  exact ⟨word "AND" (by decide) (by decide) b, word "OR" (by decide) (by decide) b, word "NOT" (by decide) (by decide) b⟩

theorem convertComparisons_phrase (hp : IsPhrase e ms) : convertComparisons (phrase ms) = phrase ms :=
  convertComparisons_quiet (not_mem_phrase hp rfl (by decide))

theorem markersIn_phrase (hp : IsPhrase e ms) (h : ∀ w, Mark.head w ∈ ms → ∀ m ∈ callMarkers, ¬ m.toList <:+ upper w) :
    markersIn (phrase ms) = [] :=
  markersIn_eq_nil (spelled_phrase hp) (fun w hw => h w (calls_phrase hp hw)) fun _ _ hw =>
    isOrdinary.upper_ne (ordinary_of_stands hp hw)

/-! ## Blanks -/

theorem squeezeFrom_append (hx : x ≠ []) (h : ∀ c ∈ x, isBlank c = false) (inRun : Bool)
    (rest) : squeezeFrom inRun (x ++ rest) = x ++ squeezeFrom false rest := by
  induction x generalizing inRun with
  | nil => exact absurd rfl hx
  | cons c x ih =>
    have hc := h c (.head _)
    cases x with
    | nil => simp [squeezeFrom, hc]
    | cons d x =>
      have := ih (by simp) (fun d hd => h d (.tail _ hd)) false
      rw [cons_append, squeezeFrom, hc, this]
      rfl

theorem squeezeFrom_phrase (hp : IsPhrase e ms) (hgap : Mark.gap ∉ ms) (inRun : Bool)
    (hrun : inRun → e) : squeezeFrom inRun (phrase ms) = phrase ms := by
  induction ms generalizing e inRun with
  | nil => rfl
  | cons m ms ih =>
    have hword := fun w hw => isOrdinary.allWord (hp.ordinary m (.head _) w hw)
    have hne := fun w hw => isOrdinary.ne_nil (hp.ordinary m (.head _) w hw)
    have hlater := fun inRun => ih hp.tail (fun h => hgap (.tail _ h)) inRun
    have htrue : m.isOperand = false → inRun = false := fun hm => by
      cases inRun with
      | false => rfl
      | true => rw [hp.joined.1, hrun rfl] at hm; cases hm
    rw [phrase_cons]
    cases m with
    | head name =>
      rw [Mark.text, squeezeFrom_append (by simp) (fun c hc => ?_), hlater false (by simp)]
      rcases mem_append.mp hc with hc | hc
      · exact isBlank_of_isWord (hword name rfl c hc)
      · rw [mem_singleton.mp hc]; rfl
    | column name =>
      rw [Mark.text, squeezeFrom_append (hne name rfl) fun c hc => isBlank_of_isWord (hword name rfl c hc),
        hlater false (by simp)]
    | gap => exact absurd (.head _) hgap
    | comma =>
      have := hlater true fun _ => rfl
      simpa [Mark.text, squeezeFrom, isBlank] using this
    | close => simpa [Mark.text, squeezeFrom, isBlank] using hlater false (by simp)
    | bar =>
      have := hlater true fun _ => rfl
      simpa [Mark.text, squeezeFrom, isBlank, htrue rfl] using this

theorem phrase_first (hp : IsPhrase true ms) (hgap : Mark.gap ∉ ms) : ∃ c, (phrase ms).head? = some c ∧ isBlank c = false := by
  cases ms with
  | nil => cases hp.joined
  | cons m ms =>
    have first : ∀ w rest, isOrdinary w = true → ∃ c, (w ++ rest).head? = some c ∧ isBlank c = false := by
      intro w rest hw
      obtain ⟨c, w', rfl⟩ := exists_cons_of_ne_nil (isOrdinary.ne_nil hw)
      exact ⟨c, rfl, isBlank_of_isWord (isOrdinary.allWord hw c (.head _))⟩
    have hword := hp.ordinary m (.head _)
    cases m with
    | head name => rw [phrase_cons, Mark.text, append_assoc]; exact first _ _ (hword name rfl)
    | column name => exact first _ _ (hword name rfl)
    | comma | close | bar => cases hp.joined.1
    | gap => exact absurd (.head _) hgap

theorem phrase_last (hp : IsPhrase e ms) (hne : ms ≠ []) : ∃ c, (phrase ms).getLast? = some c ∧ isBlank c = false := by
  induction ms generalizing e with
  | nil => exact absurd rfl hne
  | cons m ms ih =>
    rw [phrase_cons, getLast?_append]
    cases ms with
    | cons m' ms =>
      obtain ⟨c, hc, hblank⟩ := ih hp.tail (by simp)
      exact ⟨c, by rw [hc]; rfl, hblank⟩
    | nil =>
      -- The last mark expects nothing, so it is a column or a parenthesis.
      have hlast := hp.tail.joined
      cases m with
      | head | comma | gap | bar => cases hlast
      | column name =>
        have hname := hp.ordinary _ (.head _) name rfl
        obtain ⟨c, hc⟩ := Option.ne_none_iff_exists'.mp (mt getLast?_eq_none_iff.mp (isOrdinary.ne_nil hname))
        exact ⟨c, by simp [Mark.text, hc], isBlank_of_isWord (isOrdinary.allWord hname c (mem_of_getLast? hc))⟩
      | close => exact ⟨')', rfl, rfl⟩

theorem trim_phrase (hp : IsPhrase true ms) (hgap : Mark.gap ∉ ms) : trim (phrase ms) = phrase ms := by
  have hne : ms ≠ [] := by rintro rfl; cases hp.joined
  obtain ⟨c, hc, hfirst⟩ := phrase_first hp hgap
  obtain ⟨d, hd, hlast⟩ := phrase_last hp hne
  refine trim_eq_self (fun c' hc' => ?_) fun d' hd' => ?_
  · rw [hc] at hc'; cases hc'; exact hfirst
  · rw [hd] at hd'; cases hd'; exact hlast

/-- What comes first leaves a phrase as it is. -/
theorem clean_phrase (hp : IsPhrase true ms) (hgap : Mark.gap ∉ ms) :
    dropDirectionMarkers (trim (squeeze (trim (phrase ms)))) = phrase ms := by
  rw [trim_phrase hp hgap, squeeze, squeezeFrom_phrase hp hgap false (by simp), trim_phrase hp hgap,
    dropDirectionMarkers_phrase hp]

theorem not_isBlankText_phrase (hp : IsPhrase true ms) (hgap : Mark.gap ∉ ms) : isBlankText (phrase ms) = false := by
  obtain ⟨c, hc, hblank⟩ := phrase_first hp hgap
  rw [isBlankText, all_eq_false]
  exact ⟨c, mem_of_head? hc, by simp [hblank]⟩

end MappingFlow.Expression
