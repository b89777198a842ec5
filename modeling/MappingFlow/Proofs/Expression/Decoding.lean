/-
  MappingFlow.Proofs.Expression.Decoding — DECODE calls among joins.

  In a flat phrase no call holds another one and joins stand outside the calls. A round of
  the DECODE conversion takes one such call: the content up to its parenthesis is split at
  the commas, each piece converted on its own and all of them written behind `case`
  (`decodeOnce_chained`). The pieces have no join in them, so every join of the phrase
  is still there afterwards, and the later passes leave it (`convert_chained`).
-/

import MappingFlow.Proofs.Expression.Phrase

namespace MappingFlow.Expression

open Pattern Text
open List

/-! ## Flat phrases -/

/-- Whether the next mark stands inside a call, or `none` where a mark is out of place. -/
def Mark.next : Bool → Mark → Option Bool
  | false, head _ => some true
  | false, column _ => some false
  | false, bar => some false
  | true, column _ => some true
  | true, comma => some true
  | true, gap => some true
  | true, close => some false
  | _, _ => none

def Flat (inside : Bool) (ms : List Mark) : Prop := ms.foldlM Mark.next inside = some false

/-- The marks inside a call. -/
def Mark.isInner : Mark → Bool
  | column _ => true
  | comma => true
  | gap => true
  | _ => false

variable {ms pre post : List Mark} {e : Bool} {w : List Char}

theorem flat_head (h : Flat inside (pre ++ .head w :: post)) :
    Flat true post ∧ ∀ w' post', Flat true post' → Flat inside (pre ++ .head w' :: post') := by
  rw [Flat, foldlM_append, Option.bind_eq_bind, Option.bind_eq_some_iff] at h
  obtain ⟨between, hpre, hpost⟩ := h
  rw [foldlM_cons, Option.bind_eq_bind, Option.bind_eq_some_iff] at hpost
  obtain ⟨inside', hhead, hpost⟩ := hpost
  cases between with
  | true => cases hhead
  | false =>
    cases hhead
    refine ⟨hpost, fun w' post' hpost' => ?_⟩
    rw [Flat, foldlM_append, hpre]
    exact hpost'

/-- Inside a call the closing parenthesis is to come. -/
theorem flat_close (h : Flat true ms) :
    ∃ args rest, ms = args ++ .close :: rest ∧ (∀ m ∈ args, m.isInner) ∧ Flat false rest := by
  induction ms with
  | nil => cases h
  | cons m ms ih =>
    have inner : m.isInner = true → Flat true ms →
        ∃ args rest, m :: ms = args ++ .close :: rest ∧ (∀ m ∈ args, m.isInner = true) ∧ Flat false rest := by
      intro hm hms
      obtain ⟨args, rest, rfl, hargs, hrest⟩ := ih hms
      exact ⟨m :: args, rest, rfl, forall_mem_cons.mpr ⟨hm, hargs⟩, hrest⟩
    cases m with
    | head | bar => cases h
    | column | comma | gap => exact inner rfl h
    | close => exact ⟨[], ms, rfl, by simp, h⟩

theorem flat_inner (hargs : ∀ m ∈ args, m.isInner) : Flat true (args ++ .close :: rest) ↔ Flat false rest := by
  induction args with
  | nil => rfl
  | cons m args ih =>
    have hm := hargs m (.head _)
    have hlater := ih fun m' hm' => hargs m' (.tail _ hm')
    cases m with
    | column | comma | gap => exact hlater
    | head | close | bar => cases hm

theorem flat_between (h : ∀ p ∈ ps, Flat false p) : Flat false (between .bar ps) := by
  induction ps with
  | nil => rfl
  | cons p ps ih =>
    have hp := h p (.head _)
    cases ps with
    | nil => exact hp
    | cons q ps =>
      rw [between, Flat, foldlM_append, show p.foldlM Mark.next false = some false from hp]
      exact ih fun p' hp' => h p' (.tail _ hp')

theorem Joined.replace (h : Joined e (pre ++ .head w :: post)) :
    Joined true post ∧ ∀ w' post', Joined true post' → Joined e (pre ++ .head w' :: post') := by
  induction pre generalizing e with
  | nil => exact ⟨h.2, fun w' post' hpost' => ⟨h.1, hpost'⟩⟩
  | cons m pre ih =>
    obtain ⟨hpost, hnew⟩ := ih h.2
    exact ⟨hpost, fun w' post' hpost' => ⟨h.1, hnew w' post' hpost'⟩⟩

/-! ## The arguments of a call -/

theorem closeCall_of_free (hopen : '(' ∉ x) (hclose : ')' ∉ x) : closeCall? (x ++ ')' :: rest) = some (x, rest) := by
  rw [closeCall?]
  induction x with
  | nil => rfl
  | cons c x ih =>
    simp only [mem_cons, not_or] at hopen hclose
    rw [cons_append, closeFrom?, if_neg (Ne.symm hopen.1), if_neg (Ne.symm hclose.1), ih hopen.2 hclose.2]
    rfl

/-- Signs that a splitter stops at. -/
def splitSigns : List Char := ['(', ')', '\'', '"', ',']

theorem splitFrom_pass (h : ∀ c ∈ x, c ∉ splitSigns) (current rest : List Char) :
    splitFrom .start current (x ++ rest) = splitFrom .start (x.reverse ++ current) rest := by
  induction x generalizing current with
  | nil => rfl
  | cons c x ih =>
    have hc := h c (.head _)
    simp only [splitSigns, mem_cons, not_mem_nil, or_false, not_or] at hc
    have hsep : Reading.start.separates c = false := by simp [Reading.separates, hc]
    have hstep : Reading.start.step c = .start := by
      simp [Reading.step, Reading.afterQuote, Reading.afterParen, Reading.start, hc]
    rw [cons_append, splitFrom, hsep, hstep, if_neg (by decide), ih fun d hd => h d (.tail _ hd)]
    simp

/-- A piece of an argument list: a column, with blanks before it. -/
structure IsPiece (p : List Mark) : Prop where
  isPhrase : IsPhrase true p
  inner : ∀ m ∈ p, m.isInner = true

theorem splitFrom_phrase {args current : List Mark} (hp : IsPhrase true (current ++ args))
    (hcurrent : ∀ m ∈ current, m.isInner) (hargs : ∀ m ∈ args, m.isInner) :
    ∃ ps : List (List Mark), splitFrom .start (phrase current).reverse (phrase args) = ps.map phrase ∧
      ∀ p ∈ ps, IsPiece p := by
  induction args generalizing current with
  | nil =>
    rw [append_nil] at hp
    refine ⟨[current], ?_, by simpa using ⟨hp, hcurrent⟩⟩
    have hne : (phrase current).reverse.isEmpty = false := by simpa using phrase_ne_nil hp
    rw [phrase_nil, splitFrom, hne]
    simp
  | cons m args ih =>
    have hargs' := fun m' hm' => hargs m' (.tail _ hm')
    have pass : (∀ c ∈ m.text, c ∉ splitSigns) → m.isInner = true →
        ∃ ps : List (List Mark), splitFrom .start (phrase current).reverse (phrase (m :: args)) = ps.map phrase ∧
          ∀ p ∈ ps, IsPiece p := by
      intro hsigns hm
      obtain ⟨ps, hps, hpieces⟩ := @ih (current ++ [m]) (by simpa using hp)
        (forall_mem_append.mpr ⟨hcurrent, by simpa using hm⟩) hargs'
      refine ⟨ps, ?_, hpieces⟩
      rw [phrase_cons, splitFrom_pass hsigns, ← hps]
      simp
    cases m with
    | column name =>
      refine pass (fun c hc hsign => ?_) rfl
      have hname := hp.ordinary (.column name) (by simp) name rfl
      have hword := isOrdinary.allWord hname c hc
      have hsigns : ∀ c ∈ splitSigns, isWord c = false := by decide
      rw [hsigns c hsign] at hword
      cases hword
    | gap => exact pass (by decide) rfl
    | comma =>
      obtain ⟨hpiece, hrest⟩ := hp.cut rfl
      -- The blank behind the comma begins the next piece.
      have hrest : IsPhrase true ([.gap] ++ args) :=
        ⟨⟨rfl, hrest.joined⟩, fun m hm w hw => by
          rcases mem_cons.mp hm with rfl | hm
          · cases hw
          · exact hrest.ordinary m hm w hw⟩
      obtain ⟨ps, hps, hpieces⟩ := ih hrest (by decide) hargs'
      refine ⟨current :: ps, ?_, forall_mem_cons.mpr ⟨⟨hpiece, hcurrent⟩, hpieces⟩⟩
      rw [map_cons, ← hps]
      have hsep : Reading.start.separates ',' = true := by decide
      have hblank : splitFrom .start [] ([' '] ++ phrase args) = splitFrom .start [' '] (phrase args) :=
        splitFrom_pass (by decide) [] _
      rw [phrase_cons, Mark.text, cons_append, splitFrom, hsep, if_pos rfl, hblank]
      simp [Mark.text]
    | head | close | bar => cases hargs _ (.head _)

/-! ## One round -/

theorem sign_not_mem_inner (hp : IsPhrase e ms) (hms : ∀ m ∈ ms, m.isInner)
    (hc : c = '(' ∨ c = ')' ∨ c = '|') : c ∉ phrase ms := by
  intro hmem
  obtain ⟨m, hm, hsign⟩ := exists_sign hp (by rcases hc with rfl | rfl | rfl <;> rfl) hmem
  have hinner := hms m hm
  cases m with
  | column name => cases hsign
  | comma | gap => rcases hc with rfl | rfl | rfl <;> exact absurd hsign (by decide)
  | head | close | bar => cases hinner

theorem convertArgument_piece (hp : IsPiece p) : convertArgument (phrase p) = phrase p := by
  rw [convertArgument, joinTexts_quiet (sign_not_mem_inner hp.isPhrase hp.inner (by simp)),
    convertOperators_phrase hp.isPhrase, convertComparisons_phrase hp.isPhrase]

theorem caseCall_pieces {ps : List (List Mark)} (hps : ∀ p ∈ ps, IsPiece p) (hlen : 3 ≤ ps.length) :
    ∃ qs, caseCall (ps.map phrase) = "case(".toList ++ phrase (between .comma qs) ++ [')'] ∧ qs ≠ [] ∧
      ∀ q ∈ qs, IsPiece q := by
  have hsame : (ps.map phrase).map convertArgument = ps.map phrase := by
    rw [map_map]
    exact map_congr_left fun p hp => convertArgument_piece (hps p hp)
  obtain ⟨p, qs, rfl⟩ := exists_cons_of_length_pos (by omega : 0 < ps.length)
  by_cases htrue : isTrueWord (phrase p) = true
  · refine ⟨qs, ?_, ?_, fun q hq => hps q (.tail _ hq)⟩
    · rw [caseCall, hsame, map_cons, dropTrue, if_pos htrue, phrase_between]
      rfl
    · rintro rfl
      simp at hlen
  · refine ⟨p :: qs, ?_, by simp, hps⟩
    rw [caseCall, hsame, map_cons, dropTrue, if_neg htrue, phrase_between]
    rfl

/-- Operands with joins between them, each a column or a call of DECODE or `case`. -/
structure Chained (ms : List Mark) : Prop where
  isPhrase : IsPhrase true ms
  flat : Flat false ms
  bar : .bar ∈ ms
  heads : ∀ w, .head w ∈ ms → w = "DECODE".toList ∨ w = "case".toList

/-- Another call in the place of one. -/
theorem Chained.replace (h : Chained (pre ++ .head w :: (args ++ .close :: rest))) (hw' : isOrdinary w')
    (hhead : w' = "DECODE".toList ∨ w' = "case".toList) (hargs : ∀ m ∈ args, m.isInner)
    (hargs' : ∀ m ∈ args', m.isInner) (hp : IsPhrase true args') (hrest : IsPhrase false rest) :
    Chained (pre ++ .head w' :: (args' ++ .close :: rest)) := by
  obtain ⟨hpost, hflat⟩ := flat_head h.flat
  obtain ⟨-, hjoined⟩ := h.isPhrase.joined.replace
  -- A mark of the new phrase is the new head, one of the new arguments or an old mark.
  have hold : ∀ m ∈ pre ++ .head w' :: (args' ++ .close :: rest), m = .head w' ∨ m ∈ args' ∨
      m ∈ pre ++ .head w :: (args ++ .close :: rest) := by
    intro m hm
    simp only [mem_append, mem_cons] at hm ⊢
    tauto
  refine ⟨⟨hjoined _ _ (hp.joined.append ⟨rfl, hrest.joined⟩), fun m hm v hv => ?_⟩,
    hflat _ _ ((flat_inner hargs').mpr ((flat_inner hargs).mp hpost)), ?_, fun v hv => ?_⟩
  · rcases hold m hm with rfl | hm | hm
    · cases hv; exact hw'
    · exact hp.ordinary m hm v hv
    · exact h.isPhrase.ordinary m hm v hv
  · have hbar : Mark.bar ∉ args := fun hmem => by cases hargs _ hmem
    have := h.bar
    simp only [mem_append, mem_cons] at this ⊢
    tauto
  · rcases hold _ hv with hv | hv | hv
    · cases hv; exact hhead
    · cases hargs' _ hv
    · exact h.heads v hv

/-- The conversion finds the head of a DECODE call. -/
theorem find_decode (h : Chained ms) (hm : decodePattern.find? (phrase ms) = some m) :
    ∃ pre post, ms = pre ++ .head "DECODE".toList :: post ∧ m.before.reverse = phrase pre ∧ m.after = phrase post := by
  obtain ⟨ht, u, hu, hmatch⟩ := find_reads hm
  obtain ⟨a, n, gap, v, hn, hgap, hrest, hstands, hv⟩ := stands_of_reads (t := phrase ms) (by decide)
    (spelled_phrase h.isPhrase) (by rw [ht, append_assoc]) hu
  have hafter : m.after = v.rest := by rw [hmatch, show u = v from hv]; rfl
  rcases stands_phrase h.isPhrase hstands with ⟨pre, post, hms, hb⟩ | ⟨-, hopen⟩
  · have hnil : gap = [] := by
      cases gap with
      | nil => rfl
      | cons c gap =>
        obtain ⟨rfl, -⟩ := List.cons.inj hb
        cases hgap '(' (.head _)
    subst hnil
    have hpost : v.rest = phrase post := (List.cons.inj hb).2
    have hlen : n.length = 6 := hn.length_eq.symm
    have hword : a ++ n = "DECODE".toList := by
      refine (h.heads (a ++ n) (by rw [hms]; simp)).resolve_right fun hcase => ?_
      have := congrArg List.length hcase
      simp [hlen] at this
    have ha : a = [] := by
      have := congrArg List.length hword
      simpa [hlen] using this
    subst ha
    refine ⟨pre, post, by rw [hms, hword], ?_, hafter.trans hpost⟩
    have hcovered : m.matched ++ m.after = n ++ '(' :: phrase post := by rw [← hpost]; exact hrest
    have hsplit : m.before.reverse ++ (n ++ '(' :: phrase post) = phrase pre ++ (n ++ '(' :: phrase post) := by
      rw [← hcovered, ← append_assoc, ← ht, hcovered, hms]
      simp [Mark.text]
    exact append_cancel_right hsplit
  · rw [dropWhile_append_of_pos hgap] at hopen
    exact absurd rfl hopen

theorem decodeOnce_chained (h : Chained ms) {t : List Char} (ht : decodeOnce? (phrase ms) = some t) :
    ∃ ns, t = phrase ns ∧ Chained ns := by
  simp only [decodeOnce?, Option.bind_eq_bind, Option.bind_eq_some_iff] at ht
  obtain ⟨m, hm, ⟨content, after⟩, hclose, ht⟩ := ht
  obtain ⟨pre, post, rfl, hbefore, hafter⟩ := find_decode h hm
  obtain ⟨args, rest, rfl, hargs, -⟩ := flat_close (flat_head h.flat).1
  obtain ⟨hjoined, -⟩ := h.isPhrase.joined.replace
  have hpost' : IsPhrase true (args ++ .close :: rest) :=
    ⟨hjoined, fun m' hm' => h.isPhrase.ordinary m' (mem_append_right _ (.tail _ hm'))⟩
  have hinner := hpost'.cut rfl
  have hcontent : content = phrase args ∧ after = phrase rest := by
    have hfree : ∀ c, c = '(' ∨ c = ')' ∨ c = '|' → c ∉ phrase args := fun c => sign_not_mem_inner hinner.1 hargs
    rw [hafter, phrase_append, phrase_cons, Mark.text, singleton_append,
      closeCall_of_free (hfree '(' (by simp)) (hfree ')' (by simp))] at hclose
    cases hclose
    exact ⟨rfl, rfl⟩
  obtain ⟨rfl, rfl⟩ := hcontent
  obtain ⟨ps, hps, hpieces⟩ := @splitFrom_phrase args [] hinner.1 (by simp) hargs
  have hsplit : splitArguments (phrase args) = ps.map phrase := hps
  rw [hsplit, length_map] at ht
  split at ht
  · cases ht
  · rename_i hlen
    obtain ⟨qs, hcase, hne, hqs⟩ := caseCall_pieces hpieces (by omega)
    cases ht
    refine ⟨pre ++ .head "case".toList :: (between .comma qs ++ .close :: rest), ?_, ?_⟩
    · rw [hbefore, hcase]
      simp [Mark.text]
    · have hnew := isPhrase_between (m := .comma) rfl rfl (fun q hq => (hqs q hq).isPhrase) hne
      have hmarks : ∀ m' ∈ between .comma qs, m'.isInner = true := by
        intro m' hm'
        rcases mem_between hm' with rfl | ⟨q, hq, hmem⟩
        · rfl
        · exact (hqs q hq).inner m' hmem
      exact h.replace (by decide) (.inr rfl) hargs hmarks hnew hinner.2

theorem convertDecode_chained (h : Chained ms) : ∃ ns, convertDecode (phrase ms) = phrase ns ∧ Chained ns := by
  suffices hall : ∀ n ms, Chained ms → ∃ ns, repeatStep decodeOnce? n (phrase ms) = phrase ns ∧ Chained ns from hall 20 ms h
  intro n
  induction n with
  | zero => exact fun ms h => ⟨ms, rfl, h⟩
  | succ n ih =>
    intro ms h
    rw [repeatStep]
    cases hstep : decodeOnce? (phrase ms) with
    | none => exact ⟨ms, rfl, h⟩
    | some t =>
      obtain ⟨ns, rfl, hns⟩ := decodeOnce_chained h hstep
      exact ih ns hns

/-! ## What is left at the end -/

theorem Chained.silent (h : Chained ms) {name : String} (hdecode : startsAs name.toList.reverse "DECODE".toList.reverse = false)
    (hcase : startsAs name.toList.reverse "case".toList.reverse = false) : Silent ms name := by
  intro w hw
  rcases h.heads w hw with rfl | rfl
  · exact hdecode
  · exact hcase

/-- Beside a DECODE the joins stay. -/
theorem convert_chained (h : Chained ms) (hgap : .gap ∉ ms) (hdecode : contains "DECODE".toList (upper (phrase ms))) (hr : convert (phrase ms) = .ok r) : contains ['|', '|'] r = true := by
  obtain ⟨ns, hns, hchained⟩ := convertDecode_chained h
  have hrules : ∀ r ∈ callRules, r.arguments.isSome = true → Silent ns r.name := by
    have hall : ∀ r ∈ callRules, startsAs r.name.toList.reverse "DECODE".toList.reverse = false ∧
        startsAs r.name.toList.reverse "case".toList.reverse = false := by decide +kernel
    exact fun r hr _ => hchained.silent (hall r hr).1 (hall r hr).2
  have hstructure : convertStructure (phrase ms) = phrase ns := by
    rw [convertStructure, clean_phrase h.isPhrase hgap, hns, convertDates_phrase hchained.isPhrase
      (hchained.silent (by decide) (by decide)) (hchained.silent (by decide) (by decide))
      (hchained.silent (by decide) (by decide))]
    exact convertCalls_quiet fun r hr => apply_phrase hr hchained.isPhrase (hrules r hr)
  have hunchecked : convertUnchecked (phrase ms) = phrase ns := by
    rw [convertUnchecked, hstructure, convertJoins, hdecode]
    simp [convertOperators_phrase hchained.isPhrase, convertComparisons_phrase hchained.isPhrase]
  rw [convert, not_isBlankText_phrase h.isPhrase hgap, if_neg (by decide)] at hr
  simp only [hunchecked] at hr
  split at hr
  · cases hr
    obtain ⟨pre, post, rfl⟩ := append_of_mem hchained.bar
    exact contains_iff.mpr ⟨phrase pre ++ [' '], ' ' :: phrase post, by simp [Mark.text]⟩
  · cases hr

end MappingFlow.Expression
