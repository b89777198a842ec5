/-
  MappingFlow.Proofs.Expression.Sweep — the call rules over a whole text of nested calls.

  A text of nested calls is a list of slots: heads of calls, columns, commas and closing
  parentheses. A call rule begins at a head and ends at the first parenthesis behind the
  commas that it needs, whatever stands in between; the calls inside the match are passed
  over. Over the slots that is one sweep (`apply_text`), and a round of the rules is a
  sweep for each function (`applyCallRules_text`).
-/

import MappingFlow.Proofs.Expression.Calls
import MappingFlow.Proofs.Expression.Phrase
import Mathlib.Logic.Function.Iterate

namespace MappingFlow.Expression

open Pattern Text
open List

/-! ## Trees of calls -/

inductive Callee where
  | upper
  | lower
  | length
  | abs
  | nvl
  | iif
  deriving DecidableEq

namespace Callee

def source : Callee → String
  | upper => "UPPER"
  | lower => "LOWER"
  | length => "LENGTH"
  | abs => "ABS"
  | nvl => "NVL"
  | iif => "IIF"

def target : Callee → String
  | upper => "upper"
  | lower => "lower"
  | length => "length"
  | abs => "abs"
  | nvl => "coalesce"
  | iif => "iif"

/-- The commas between the arguments. -/
def commas : Callee → Nat
  | nvl => 1
  | iif => 2
  | _ => 0

def name (f : Callee) (translated : Bool) : List Char := (if translated then f.target else f.source).toList

/-- All of them, in the order of their rules. -/
def all : List Callee := [upper, lower, length, iif, abs, nvl]

end Callee

inductive Slot where
  | head (f : Callee) (translated : Bool)
  | column (name : List Char)
  | comma
  | close
  deriving DecidableEq

namespace Slot

def mark : Slot → Mark
  | head f translated => .head (f.name translated)
  | column name => .column name
  | comma => .comma
  | close => .close

/-- A head with its name in the other language. -/
def translate : Slot → Slot
  | head f _ => head f true
  | s => s

/-- What becomes of a match with `k` commas to go; it may end here. -/
def advance : Slot → Nat → Option Nat
  | close, 0 => none
  | close, k + 1 => some (k + 1)
  | comma, k => some (k - 1)
  | _, k => some k

end Slot

def text (ss : List Slot) : List Char := phrase (ss.map Slot.mark)

@[simp] theorem text_nil : text [] = [] := rfl

@[simp] theorem text_cons (s : Slot) (ss) : text (s :: ss) = s.mark.text ++ text ss := rfl

@[simp] theorem text_append (ss rs) : text (ss ++ rs) = text ss ++ text rs := by
  simp [text]

/-! ## One rule over a whole text -/

/-- One pass: `begins` tells at which heads the rule matches, `k` how many commas a match
    has to pass before a parenthesis ends it. -/
def sweep (begins : Slot → Bool) (k : Nat) : Option Nat → List Slot → List Slot
  | _, [] => []
  | some j, s :: ss => s :: sweep begins k (s.advance j) ss
  | none, s :: ss =>
    if begins s then s.translate :: sweep begins k (some k) ss else s :: sweep begins k none ss

/-- A match with `k` commas to go comes to its end. -/
def Closes : Nat → List Slot → Prop
  | _, [] => False
  | k, s :: ss =>
    match s.advance k with
    | none => True
    | some j => Closes j ss

/-- Every call comes to its end. -/
def Closing : List Slot → Prop
  | [] => True
  | s :: ss => (∀ f translated, s = .head f translated → Closes f.commas ss) ∧ Closing ss

theorem Closes.mono (h : Closes k ss) (hjk : j ≤ k) : Closes j ss := by
  induction ss generalizing j k with
  | nil => exact h
  | cons s ss ih =>
    cases s with
    | head | column => exact ih h hjk
    | comma => exact ih (k := k - 1) h (Nat.sub_le_sub_right hjk 1)
    | close =>
      cases j with
      | zero => trivial
      | succ j =>
        obtain ⟨k, rfl⟩ : ∃ i, k = i + 1 := ⟨k - 1, by omega⟩
        exact ih (k := k + 1) h hjk

theorem Closes.append (h : Closes k ss) (rs) : Closes k (rs ++ ss) := by
  suffices hall : ∀ j ≤ k, Closes j (rs ++ ss) from hall k (Nat.le_refl k)
  induction rs with
  | nil => exact fun j hj => h.mono hj
  | cons r rs ih =>
    intro j hj
    cases r with
    | head | column => exact ih j hj
    | comma => exact ih (j - 1) (by omega)
    | close =>
      cases j with
      | zero => trivial
      | succ j => exact ih (j + 1) hj

variable {k j : Nat} {ss : List Slot}

/-- The argument that a match is at runs to the first slot that takes it further. -/
theorem Closes.stop (begins) (k : Nat) {stop : Slot} (hstay : ∀ s, s ≠ stop → s.advance j = some j)
    (h : Closes j ss) : ∃ as bs, ss = as ++ stop :: bs ∧ stop ∉ as ∧ Closes j (stop :: bs) ∧
      sweep begins k (some j) ss = as ++ sweep begins k (some j) (stop :: bs) := by
  induction ss with
  | nil => cases h
  | cons s ss ih =>
    by_cases hs : s = stop
    · exact ⟨[], ss, by rw [hs]; rfl, not_mem_nil, hs ▸ h, by rw [hs]; rfl⟩
    · rw [Closes, hstay s hs] at h
      obtain ⟨as, bs, rfl, hfree, hcloses, hsweep⟩ := ih h
      refine ⟨s :: as, bs, rfl, by simp [hfree, Ne.symm hs], hcloses, ?_⟩
      rw [sweep, hstay s hs, hsweep]
      rfl

/-! ## The text of a stretch of slots -/

theorem sign_not_mem_text (hp : IsPhrase e (ss.map Slot.mark)) (hc : isWord c = false)
    (h : ∀ s ∈ ss, c ∉ s.mark.signs) : c ∉ text ss := by
  intro hmem
  obtain ⟨m, hm, hsign⟩ := exists_sign hp hc hmem
  obtain ⟨s, hs, rfl⟩ := mem_map.mp hm
  exact h s hs hsign

theorem gap_not_mem (ss : List Slot) : Mark.gap ∉ ss.map Slot.mark := by
  intro h
  obtain ⟨s, -, hs⟩ := mem_map.mp h
  cases s <;> cases hs

theorem text_fills (hp : IsPhrase true (as.map Slot.mark)) (h : stop ∉ text as) : Fills stop (text as) := by
  refine ⟨h, phrase_first hp (gap_not_mem as), phrase_last hp ?_⟩
  rintro hnil
  rw [hnil] at hp
  cases hp.joined

/-! ## A rule that takes some heads -/

def ruleOf (k : Nat) (name target : String) : CallRule :=
  match k with
  | 0 => unary name target
  | 1 => binary name target
  | _ => ternary name target

/-- The rule of that name takes just the heads that `begins` tells. -/
structure Takes (begins : Slot → Bool) (k : Nat) (name target : String) : Prop where
  lettered : isLettered name.toList = true
  few : k ≤ 2
  heads : ∀ s, begins s = true → ∃ f translated, s = .head f translated
  called : ∀ f translated, begins (.head f translated) = true → k ≤ f.commas ∧ f.name true = target.toList ∧
    SameLetters name.toList (f.name translated)
  others : ∀ f translated, begins (.head f translated) = false →
    startsAs name.toList.reverse (f.name translated).reverse = false

variable {name target : String}

theorem Closes.fills (begins) (k : Nat) (stop : Slot) (c : Char) (hstop : stop.mark.isOperand = false)
    (hc : isWord c = false) (hstay : ∀ s, s ≠ stop → s.advance j = some j ∧ c ∉ s.mark.signs) (h : Closes j ss)
    (hp : IsPhrase true (ss.map Slot.mark)) : ∃ as bs, ss = as ++ stop :: bs ∧ Closes j (stop :: bs) ∧
      IsPhrase stop.mark.expects (bs.map Slot.mark) ∧
      sweep begins k (some j) ss = as ++ sweep begins k (some j) (stop :: bs) ∧ Fills c (text as) := by
  obtain ⟨as, bs, rfl, hfree, hcloses, hsweep⟩ := h.stop begins k fun s hs => (hstay s hs).1
  rw [map_append, map_cons] at hp
  obtain ⟨has, hbs⟩ := hp.cut hstop
  refine ⟨as, bs, rfl, hcloses, hbs, hsweep, text_fills has (sign_not_mem_text has hc fun s hs => ?_)⟩
  exact (hstay s fun he => hfree (he ▸ hs)).2

/-- The argument that a match is at, if it is the last one. -/
theorem last_fills (hc : Closes 0 ss) (hp : IsPhrase true (ss.map Slot.mark)) : ∃ as bs, ss = as ++ .close :: bs ∧
    sweep begins k (some 0) ss = as ++ .close :: sweep begins k none bs ∧ Fills ')' (text as) := by
  obtain ⟨as, bs, rfl, -, -, hsweep, hfills⟩ := hc.fills begins k .close ')' rfl rfl (fun s hs => by
    cases s <;> simp_all [Slot.advance, Slot.mark, Mark.signs]) hp
  exact ⟨as, bs, rfl, hsweep, hfills⟩

theorem earlier_fills (hc : Closes (j + 1) ss) (hp : IsPhrase true (ss.map Slot.mark)) :
    ∃ as bs, ss = as ++ .comma :: bs ∧ Closes j bs ∧ IsPhrase true (bs.map Slot.mark) ∧
      sweep begins k (some (j + 1)) ss = as ++ .comma :: sweep begins k (some j) bs ∧ Fills ',' (text as) :=
  hc.fills begins k .comma ',' rfl rfl (fun s hs => by cases s <;> simp_all [Slot.advance, Slot.mark, Mark.signs]) hp

theorem call_rewrites (begins target) (h : k ≤ 2)
    (hn : SameLetters name.toList n) (hp : IsPhrase true (ss.map Slot.mark))
    (hc : Closes k ss) : ∃ as bs, ss = as ++ .close :: bs ∧
      sweep begins k (some k) ss = as ++ .close :: sweep begins k none bs ∧
      Rewrites (ruleOf k name target) (n ++ '(' :: text as ++ [')']) (target.toList ++ '(' :: text as ++ [')']) := by
  obtain rfl | rfl | rfl : k = 0 ∨ k = 1 ∨ k = 2 := by omega
  · obtain ⟨as, bs, rfl, hsweep, hfills⟩ := last_fills hc hp
    exact ⟨as, bs, rfl, hsweep, unary_match hn hfills⟩
  · obtain ⟨as, rest, rfl, hc, hp, hsweep, hfirst⟩ := earlier_fills hc hp
    obtain ⟨as', bs, rfl, hsweep', hlast⟩ := last_fills hc hp
    have hmatch : Rewrites (binary name target) _ _ := binary_match hn hfirst hlast
    refine ⟨as ++ .comma :: as', bs, by simp, by rw [hsweep, hsweep']; simp, ?_⟩
    simpa [ruleOf, Slot.mark, Mark.text] using hmatch
  · obtain ⟨as, rest, rfl, hc, hp, hsweep, hfirst⟩ := earlier_fills hc hp
    obtain ⟨as', rest', rfl, hc, hp, hsweep', hsecond⟩ := earlier_fills hc hp
    obtain ⟨as'', bs, rfl, hsweep'', hlast⟩ := last_fills hc hp
    have hmatch : Rewrites (ternary name target) _ _ := ternary_match hn hfirst hsecond hlast
    refine ⟨as ++ .comma :: as' ++ .comma :: as'', bs, by simp, by rw [hsweep, hsweep', hsweep'']; simp, ?_⟩
    simpa [ruleOf, Slot.mark, Mark.text] using hmatch

theorem ruleOf_pattern (k : Nat) (name target) :
    ∃ ps, (ruleOf k name target).pattern = Pattern.all (caseless name.toList :: blanks :: char '(' :: ps) := by
  unfold ruleOf
  split <;> exact ⟨_, rfl⟩

/-- Away from the heads it takes, a rule finds nothing. -/
theorem at_none_in_slot (ht : Takes begins k name target) (hs : begins s = false)
    (hp : IsPhrase e ((s :: ss).map Slot.mark)) (huv : s.mark.text = u ++ v) (hv : v ≠ []) :
    (ruleOf k name target).pattern.at? before (v ++ text ss) = none := by
  obtain ⟨ps, hps⟩ := ruleOf_pattern k name target
  have hspelled : Spelled (v ++ text ss) := fun c hc => spelled_phrase hp c (by
    rw [map_cons, phrase_cons, huv]
    rcases mem_append.mp hc with hc | hc
    · simp [hc]
    · exact mem_append_right _ hc)
  have hnil : ¬ SameLetters name.toList [] := by
    intro h
    have := ht.lettered
    rw [forall₂_nil_right_iff.mp h] at this
    cases this
  rw [hps]
  by_contra hsome
  -- At a sign no word begins, so there the name would have to be empty.
  have sign : (∀ c ∈ v, isWord c = false) → False := by
    intro hsigns
    obtain ⟨c, v', rfl⟩ := exists_cons_of_ne_nil hv
    have hclear : StartsClear (c :: v' ++ text ss) := hsigns c (.head _)
    exact hnil (callee_of_match ht.lettered hspelled (w := []) (by simp [AllWord]) hclear rfl hsome).1
  cases s with
  | head f translated =>
    have hname := isOrdinary.allWord (hp.ordinary _ (.head _) (f.name translated) rfl)
    rcases append_eq_append_iff.mp huv with ⟨v', -, hv'⟩ | ⟨u', hu', rfl⟩
    · refine sign fun c hc => ?_
      have : c ∈ ['('] := by rw [hv']; exact mem_append_right _ hc
      rw [mem_singleton.mp this]
      rfl
    · have hcallee := callee_of_match ht.lettered hspelled (w := u') (b := '(' :: text ss)
        (fun c hc => hname c (by rw [hu']; simp [hc])) rfl (by simp) hsome
      have hends : EndsIn name.toList (f.name translated) := ⟨u, u', hu', hcallee.1⟩
      have := ht.others f translated hs
      rw [hends.startsAs] at this
      cases this
  | column c =>
    have hc := isOrdinary.allWord (hp.ordinary _ (.head _) c rfl)
    obtain ⟨hclear, hopen⟩ := startsClear_phrase hp.joined.2
    have huv : c = u ++ v := huv
    exact hopen (callee_of_match ht.lettered hspelled (w := v) (fun d hd => hc d (by rw [huv]; simp [hd])) hclear rfl
      hsome).2
  | comma =>
    refine sign fun c hc => ?_
    exact (by decide : ∀ c ∈ Slot.comma.mark.text, isWord c = false) c (by rw [huv]; simp [hc])
  | close =>
    refine sign fun c hc => ?_
    exact (by decide : ∀ c ∈ Slot.close.mark.text, isWord c = false) c (by rw [huv]; simp [hc])

theorem Closing.drop (rs) (h : Closing (rs ++ ss)) : Closing ss := by
  induction rs with
  | nil => exact h
  | cons r rs ih => exact ih h.2

theorem at_none_nil (ht : Takes begins k name target) (before) :
    (ruleOf k name target).pattern.at? before [] = none := by
  obtain ⟨ps, hps⟩ := ruleOf_pattern k name target
  rw [hps]
  by_contra hsome
  have hempty := (callee_of_match ht.lettered (fun c hc => by cases hc) (w := []) (b := []) (by simp [AllWord]) rfl rfl
    hsome).2
  cases hempty

theorem replaceFrom_text (ht : Takes begins k name target) (n : Nat) : ∀ (ss : List Slot) (e : Bool) (before : List Char),
    ss.length ≤ n → IsPhrase e (ss.map Slot.mark) → Closing ss →
      (ruleOf k name target).pattern.replaceFrom (ruleOf k name target).result.expand before 0 (text ss) =
        text (sweep begins k none ss) := by
  have empty : ∀ before : List Char, (ruleOf k name target).pattern.replaceFrom (ruleOf k name target).result.expand
      before 0 (text []) = text (sweep begins k none []) := by
    intro before
    simp [text, sweep, Pattern.replaceFrom, at_none_nil ht]
  -- A match covers several slots, so the induction is on a bound of their number.
  induction n with
  | zero =>
    intro ss e before hlen _ _
    rw [length_eq_zero_iff.mp (Nat.le_zero.mp hlen)]
    exact empty before
  | succ n ih =>
    intro ss e before hlen hp hc
    cases ss with
    | nil => exact empty before
    | cons s ss =>
      have hlen : ss.length ≤ n := by simpa using hlen
      cases hs : begins s with
      | false =>
        rw [text_cons, replaceFrom_pass fun u v huv hv => at_none_in_slot ht hs hp huv hv]
        rw [ih ss _ _ hlen hp.tail hc.2, sweep, if_neg (by simp [hs]), text_cons]
      | true =>
        obtain ⟨f, translated, rfl⟩ := ht.heads s hs
        obtain ⟨hcommas, htarget, hcaseless⟩ := ht.called f translated hs
        have hcloses := (hc.1 f translated rfl).mono hcommas
        obtain ⟨as, bs, rfl, hsweep, hne, hmatch⟩ := call_rewrites begins target ht.few hcaseless hp.tail hcloses
        obtain ⟨m, hat, hm, hwrite⟩ := hmatch before (text bs)
        have hbs : IsPhrase false (bs.map Slot.mark) := by
          have := hp.tail
          rw [map_append, map_cons] at this
          exact (this.cut rfl).2
        have hlen : bs.length ≤ n := by simp at hlen; omega
        have hsplit : text (.head f translated :: (as ++ .close :: bs)) =
            f.name translated ++ '(' :: text as ++ [')'] ++ text bs := by
          simp [Slot.mark, Mark.text]
        rw [hsplit, replaceFrom_match hat hm hne, hwrite, ih bs _ _ hlen hbs (hc.2.drop as).2, sweep, if_pos hs, hsweep,
          ← htarget]
        simp [Slot.translate, Slot.mark, Mark.text]

theorem apply_text (ht : Takes begins k name target) (hp : IsPhrase e (ss.map Slot.mark)) (hc : Closing ss) :
    (ruleOf k name target).apply (text ss) = text (sweep begins k none ss) :=
  replaceFrom_text ht ss.length ss e [] (Nat.le_refl _) hp hc

/-! ## Well-formed texts -/

/-- The shape of a text does not change when heads are translated. -/
structure Shaped (ss : List Slot) : Prop where
  isPhrase : IsPhrase true (ss.map Slot.mark)
  closing : Closing ss

theorem isOrdinary_name (f : Callee) (translated : Bool) : isOrdinary (f.name translated) = true := by
  cases f <;> cases translated <;> decide +kernel

theorem map_translate_sweep (σ) : (sweep begins k σ ss).map Slot.translate = ss.map Slot.translate := by
  have twice : ∀ s : Slot, s.translate.translate = s.translate := fun s => by cases s <;> rfl
  fun_induction sweep begins k σ ss with
  | case1 => rfl
  | case2 j s ss ih => rw [map_cons, map_cons, ih]
  | case3 s ss hs ih => rw [map_cons, map_cons, ih, twice]
  | case4 s ss hs ih => rw [map_cons, map_cons, ih]

theorem joined_translate : Joined e ((ss.map Slot.translate).map Slot.mark) ↔ Joined e (ss.map Slot.mark) := by
  induction ss generalizing e with
  | nil => rfl
  | cons s ss ih => cases s <;> exact and_congr_right fun _ => ih

/-- The names of the functions are ordinary words. -/
theorem ordinary_iff : (∀ m ∈ ss.map Slot.mark, ∀ w, m.word? = some w → isOrdinary w = true) ↔
    ∀ c, .column c ∈ ss → isOrdinary c = true := by
  refine ⟨fun h c hc => h _ (mem_map_of_mem hc) c rfl, fun h m hm w hw => ?_⟩
  obtain ⟨s, hs, rfl⟩ := mem_map.mp hm
  cases s with
  | head f b => cases hw; exact isOrdinary_name f b
  | column c => cases hw; exact h _ hs
  | comma | close => cases hw

theorem column_translate (c : List Char) : .column c ∈ ss.map Slot.translate ↔ .column c ∈ ss := by
  have same : ∀ s : Slot, s.translate = .column c ↔ s = .column c := fun s => by cases s <;> simp [Slot.translate]
  simp [same]

theorem closes_translate : Closes k (ss.map Slot.translate) ↔ Closes k ss := by
  induction ss generalizing k with
  | nil => rfl
  | cons s ss ih =>
    cases s with
    | head | column | comma => exact ih
    | close =>
      cases k with
      | zero => rfl
      | succ k => exact ih

theorem closing_translate : Closing (ss.map Slot.translate) ↔ Closing ss := by
  induction ss with
  | nil => rfl
  | cons s ss ih =>
    simp only [map_cons, Closing, ih, closes_translate]
    refine and_congr_left fun _ => ?_
    cases s with
    | head f translated =>
      refine ⟨fun h g t heq => ?_, fun h g t heq => ?_⟩
      · cases heq; exact h f true rfl
      · cases heq; exact h f translated rfl
    | column | comma | close => rfl

theorem shaped_iff : Shaped ss ↔ Joined true (ss.map Slot.mark) ∧ (∀ c, .column c ∈ ss → isOrdinary c = true) ∧ Closing ss :=
  ⟨fun h => ⟨h.isPhrase.joined, ordinary_iff.mp h.isPhrase.ordinary, h.closing⟩,
    fun h => ⟨⟨h.1, ordinary_iff.mpr h.2.1⟩, h.2.2⟩⟩

theorem shaped_translate : Shaped (ss.map Slot.translate) ↔ Shaped ss := by
  simp only [shaped_iff, joined_translate, column_translate, closing_translate]

theorem Shaped.sweep (h : Shaped ss) (begins) (k : Nat) : Shaped (sweep begins k none ss) := by
  rw [← shaped_translate, map_translate_sweep, shaped_translate]
  exact h

/-! ## All rules, once -/

/-- The rule of a function takes its heads; all but one also take those they have written. -/
def Callee.takes (f : Callee) (s : Slot) : Bool :=
  s == .head f false || (s == .head f true && f != .nvl)

def Callee.pass (f : Callee) (ss : List Slot) : List Slot := Expression.sweep f.takes f.commas none ss

theorem caseless_of_startsAs {name n : List Char} (h : startsAs name n) (hlen : name.length = n.length) :
    SameLetters name n := by
  induction name generalizing n with
  | nil => rw [length_eq_zero_iff.mp hlen.symm]; exact .nil
  | cons c name ih =>
    cases n with
    | nil => cases hlen
    | cons d n =>
      simp only [startsAs, Bool.and_eq_true] at h
      exact .cons h.1 (ih h.2 (by simpa using hlen))

theorem takes_callee (f : Callee) : Takes f.takes f.commas f.source f.target := by
  have hcalled : ∀ g t, f.takes (.head g t) = true → f.commas ≤ g.commas ∧ g.name true = f.target.toList ∧
      startsAs f.source.toList (g.name t) = true ∧ f.source.toList.length = (g.name t).length := by
    intro g t
    cases f <;> cases g <;> cases t <;> decide +kernel
  refine ⟨?_, ?_, fun s hs => ?_, fun g t h => ?_, fun g t => ?_⟩
  · cases f <;> decide +kernel
  · cases f <;> decide
  · cases s with
    | head g t => exact ⟨g, t, rfl⟩
    | column | comma | close => simp [Callee.takes] at hs
  · obtain ⟨hcommas, htarget, hstarts, hlen⟩ := hcalled g t h
    exact ⟨hcommas, htarget, caseless_of_startsAs hstarts hlen⟩
  · cases f <;> cases g <;> cases t <;> decide +kernel

def Callee.rule (f : Callee) : CallRule := ruleOf f.commas f.source f.target

theorem Shaped.pass (h : Shaped ss) (f : Callee) : Shaped (f.pass ss) := h.sweep f.takes f.commas

theorem rule_text (h : Shaped ss) (f : Callee) : f.rule.apply (text ss) = text (f.pass ss) :=
  apply_text (takes_callee f) h.isPhrase h.closing

/-- None of the functions' names ends in this one. -/
def isUnheard (name : String) : Bool :=
  Callee.all.all fun f =>
    !startsAs name.toList.reverse (f.name false).reverse && !startsAs name.toList.reverse (f.name true).reverse

theorem silent_slots (h : isUnheard name) (ss : List Slot) : Silent (ss.map Slot.mark) name := by
  intro w hw
  obtain ⟨s, -, hs⟩ := mem_map.mp hw
  cases s with
  | head f translated =>
    cases hs
    have hf := all_eq_true.mp h f (by cases f <;> decide)
    rw [Bool.and_eq_true, Bool.not_eq_true', Bool.not_eq_true'] at hf
    cases translated
    · exact hf.1
    · exact hf.2
  | column | comma | close => cases hs

theorem sweep_eq_self (hb : ∀ s, begins s → s.translate = s) (σ) : sweep begins k σ ss = ss := by
  fun_induction sweep begins k σ ss with
  | case1 => rfl
  | case2 j s ss ih => rw [ih]
  | case3 s ss hs ih => rw [hb s hs, ih]
  | case4 s ss hs ih => rw [ih]

/-- COALESCE is written as it is. -/
theorem coalesce_text (h : Shaped ss) : (unary "COALESCE" "coalesce").apply (text ss) = text ss := by
  have htakes : Takes (· == .head .nvl true) 0 "COALESCE" "coalesce" := by
    refine ⟨by decide +kernel, by decide, fun s hs => ⟨_, _, beq_iff_eq.mp hs⟩, fun f t hs => ?_, fun f t hs => ?_⟩
    · cases beq_iff_eq.mp hs
      exact ⟨by decide, rfl, caseless_of_startsAs (by decide +kernel) (by decide)⟩
    · revert hs
      cases f <;> cases t <;> decide +kernel
  refine (apply_text htakes h.isPhrase h.closing).trans (congrArg text (sweep_eq_self (fun s hs => ?_) none))
  rw [beq_iff_eq.mp hs]
  rfl

/-- All rules, one after the other. -/
def round (ss : List Slot) : List Slot := Callee.all.foldl (fun ss f => f.pass ss) ss

theorem Shaped.round (h : Shaped ss) : Shaped (round ss) := by
  exact (((((h.pass .upper).pass .lower).pass .length).pass .iif).pass .abs).pass .nvl

/-- The function that a rule is the rule of. -/
def calleeOf? (r : CallRule) : Option Callee := Callee.all.find? (r = ·.rule)

/-- The other rules are for calls that are not there. -/
theorem apply_other (h : Shaped ss) (hr : r ∈ callRules) (hf : calleeOf? r = none) : r.apply (text ss) = text ss := by
  have check : ∀ r ∈ callRules, calleeOf? r = none →
      r.arguments = none ∨ isUnheard r.name = true ∨ r = unary "COALESCE" "coalesce" := by decide +kernel
  rcases check r hr hf with hnone | hunheard | rfl
  · exact apply_phrase hr h.isPhrase fun hargs => by rw [hnone] at hargs; cases hargs
  · exact apply_phrase hr h.isPhrase fun _ => silent_slots hunheard ss
  · exact coalesce_text h

theorem foldl_text (h : Shaped ss) (hrs : rs ⊆ callRules) :
    rs.foldl CallRule.apply (text ss) = text ((rs.filterMap calleeOf?).foldl (fun ss f => f.pass ss) ss) := by
  induction rs generalizing ss with
  | nil => rfl
  | cons r rs ih =>
    obtain ⟨hr, hrest⟩ := cons_subset.mp hrs
    rw [foldl_cons]
    cases hf : calleeOf? r with
    | none => rw [filterMap_cons_none hf, apply_other h hr hf, ih h hrest]
    | some f =>
      have hrule : r = f.rule := by simpa using find?_some hf
      rw [filterMap_cons_some hf, foldl_cons, hrule, rule_text h, ih (h.pass f) hrest]

theorem applyCallRules_text (h : Shaped ss) : applyCallRules (text ss) = text (round ss) := by
  have hcallees : callRules.filterMap calleeOf? = Callee.all := by decide +kernel
  rw [applyCallRules, foldl_text h fun _ hr => hr, hcallees, round]

theorem convertCalls_text (h : Shaped ss) : convertCalls (text ss) = text (round^[10] ss) := by
  suffices hall : ∀ n ss, Shaped ss → repeatStep callsOnce? n (text ss) = text (round^[n] ss) from hall 10 ss h
  intro n
  induction n with
  | zero => exact fun ss _ => rfl
  | succ n ih =>
    intro ss h
    rw [repeatStep, callsOnce?, applyCallRules_text h, Function.iterate_succ_apply]
    by_cases hsame : text (round ss) = text ss
    · -- The round changed nothing, and no later one would.
      rw [if_pos hsame]
      have hfix : ∀ m rs, Shaped rs → text rs = text ss → text (round^[m] rs) = text ss := by
        intro m
        induction m with
        | zero => exact fun rs _ hrs => hrs
        | succ m ihm =>
          intro rs hrs heq
          rw [Function.iterate_succ_apply]
          refine ihm _ hrs.round ?_
          rw [← applyCallRules_text hrs, heq, applyCallRules_text h, hsame]
      exact (hfix n _ h.round hsame).symm
    · rw [if_neg hsame]
      exact ih _ h.round

end MappingFlow.Expression
