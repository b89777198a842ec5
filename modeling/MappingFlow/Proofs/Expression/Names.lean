/-
  MappingFlow.Proofs.Expression.Names — names that an expression uses and its conversion
  still has.

  A rule for calls writes the name of a function for another, signs for signs, and drops
  texts between quotes; a reader that looks out for a column follows each of these
  exchanges (`Tracks`). DECODE and the date calls are taken apart at commas and put
  together again (`sees_call`). So the conversion keeps every use of a name that is none of
  the words it looks for (`IsSafe`).
-/

import MappingFlow.Proofs.Expression.Constants
import MappingFlow.Proofs.Expression.Edges
import MappingFlow.Proofs.Text.Letters

namespace MappingFlow.Expression

open Pattern Reader Text
open List hiding all

variable {w t t' u v x y n : List Char} {a b s : Sight} {c : Char} {name f : List Char}

/-! ## Exchanges that a reader follows -/

def Tracks (w u v : List Char) : Prop := (sighting w).Sim Ahead u v

theorem Tracks.sees (h : Tracks w u v) (hu : Sees w u) : Sees w v :=
  (h (.reading 0) (.reading 0) (.inr (.inl rfl))).isSeen hu

/-- Read from anywhere, the text ends a call's name. -/
def Opens (w u : List Char) : Prop := ∀ s, (sighting w).read s u = s.opened

/-- Read from anywhere, the text ends a name that is used. -/
def Severs (w u : List Char) : Prop := ∀ s, (sighting w).read s u = s.severed w

/-- Before a text that ends a name, the text makes no difference. -/
def Absorbs (w u : List Char) : Prop := ∀ s, ((sighting w).read s u).severed w = s.severed w

/-- Text for the front of a call. -/
def isFront (v : List Char) : Bool := isFirm v && v.getLast?.any (!isWord ·)

/-- Text for behind an argument. -/
def isBack (v : List Char) : Bool := v.head?.any isSign && v.getLast?.any (!isWord ·)

section Exchanges

variable (hw : w ≠ [])

theorem ahead_last (hv : v.getLast?.any (!isWord ·) = true) : Ahead ((sighting w).read s v) (.reading 0) := by
  have hne : v ≠ [] := by
    rintro rfl
    cases hv
  refine ahead_ends hne ?_
  obtain ⟨c, hc⟩ := Option.ne_none_iff_exists'.mp (mt getLast?_eq_none_iff.mp hne)
  rw [hc] at hv
  rw [EndsClear, hc]
  simpa using hv

theorem front_ahead (hv : isFront v) : Ahead ((sighting w).read s v) s.opened := by
  simp only [isFront, Bool.and_eq_true] at hv
  unfold Sight.opened
  split
  · rename_i hs
    rw [read_firm hv.1 (.inr (.inl rfl)) hs.symm]
    exact .inr (.inl rfl)
  · exact ahead_last hv.2

theorem back_ahead (hv : isBack v) : Ahead ((sighting w).read s v) (s.severed w) := by
  simp only [isBack, Bool.and_eq_true] at hv
  unfold Sight.severed
  split
  · rename_i hs
    cases v with
    | nil => cases hv.1
    | cons c v =>
      rw [read_cons, step_sign (by simpa using hv.1), Sight.severed, if_pos hs, read_found]
      exact .inr (.inl rfl)
  · exact ahead_last hv.2

include hw

theorem tracks_front (hu : Opens w u) (hv : isFront v) : Tracks w u v :=
  Sim.of_read (ahead_respects hw) fun s => hu s ▸ front_ahead hv

theorem tracks_back (hu : Severs w u) (hv : isBack v) : Tracks w u v :=
  Sim.of_read (ahead_respects hw) fun s => hu s ▸ back_ahead hv

theorem tracks_quote (hc : isQuote c) : Tracks w [c] ['\''] := by
  refine Sim.of_read (ahead_respects hw) fun s => .inr (.inl ?_)
  exact (step_quote (by decide)).trans (step_quote hc).symm

theorem severs_sign (hx : AllBlank x) (hc : isSign c) (hy : AllBlank y) :
    Severs w (x ++ c :: y) := fun _ => read_sign hw hx hc hy

theorem severs_signs (hne : x ≠ []) (hx : x.all isSign) : Severs w x := by
  induction x with
  | nil => exact absurd rfl hne
  | cons c x ih =>
    rw [all_cons, Bool.and_eq_true] at hx
    intro s
    rw [read_cons, step_sign hx.1]
    by_cases hnil : x = []
    · rw [hnil, read_nil]
    · rw [ih hnil hx.2, severed_severed hw]

theorem Severs.absorbs (h : Severs w u) : Absorbs w u := fun s => by rw [h, severed_severed hw]

omit hw in
theorem Absorbs.append (hu : Absorbs w u) (hv : Absorbs w v) : Absorbs w (u ++ v) := fun s => by
  rw [read_append, hv, hu]

omit hw in
theorem Absorbs.severs (hu : Absorbs w u) (hv : Severs w v) : Severs w (u ++ v) := fun s => by rw [read_append, hv, hu]

theorem opened_severed : s.opened.severed w = s.opened := by
  unfold Sight.opened Sight.severed
  split
  · rfl
  · simp [isSeen_fresh hw]

theorem Opens.append (hu : Opens w u) (hv : Severs w v) : Opens w (u ++ v) := fun s => by
  rw [read_append, hv, hu, opened_severed hw]

end Exchanges

/-! ## Texts between quotes -/

/-- Between quotes, the text shows the name to no reader. -/
def Hidden (w n : List Char) : Prop := ((sighting w).read (.reading 0) n).opened = .reading 0

theorem hidden_word (hn : AllWord n) : Hidden w n := by
  unfold Hidden
  rw [read_reading hn]
  split <;> simp [Sight.opened]

/-- A word that is not the name, a sign and hidden text. -/
theorem hidden_sign (hx : AllWord x) (hxw : x ≠ w) (hc : isSign c) (hy : Hidden w y) : Hidden w (x ++ c :: y) := by
  have hsevered : ((sighting w).read (.reading 0) x).severed w = .reading 0 := by
    rw [read_reading hx, drop_zero, Nat.zero_add]
    split
    · rename_i hpart
      have hlength : x.length ≠ w.length := fun h => hxw (List.IsPrefix.eq_of_length hpart h)
      simp [Sight.severed, Sight.isSeen, hlength]
    · simp [Sight.severed, Sight.isSeen]
  rw [Hidden, read_append, read_cons, step_sign hc, hsevered]
  exact hy

theorem absorbs_quoted (hw : w ≠ []) (hu : Severs w u) (hq : isQuote q) (hn : Hidden w n)
    (hq' : isQuote q') : Absorbs w (u ++ (q :: n ++ [q'])) := by
  intro s
  rw [read_append, hu]
  have : (sighting w).read (s.severed w) (q :: n ++ [q']) = s.severed w := by
    unfold Sight.severed
    split
    · exact read_found _
    · rw [cons_append, read_cons, step_quote hq, read_append]
      exact (step_quote hq').trans hn
  rw [this, severed_severed hw]

/-! ## Fixed texts without regard to case -/

theorem allWord_of_plain (hname : name.all isPlainLetter) (hn : SameLetters name n) : AllWord n := by
  intro d hd
  obtain ⟨c, hc, hcd⟩ := exists_of_caseless hn hd
  exact isWord_of_sameLetter (all_eq_true.mp hname c hc) hcd

/-- The text is hidden in whatever case it is written. -/
def Hides (w : List Char) (f : List Char) : Prop :=
  ∀ n, SameLetters f n → Hidden w n

theorem hides_plain (hf : f.all isPlainLetter) : Hides w f := fun _ hn =>
  hidden_word (allWord_of_plain hf hn)

theorem upper_of_caseless (hf : ∀ c ∈ f, c ∈ "DMY/-".toList) (hn : SameLetters f n) : upper n = f := by
  induction hn with
  | nil => rfl
  | cons hcd _ ih =>
    have hd := upperChar_of_sameLetter (hf _ (.head _)) hcd
    rw [upper, flatMap_cons, hd, ← upper, ih fun c hc => hf c (.tail _ hc)]
    rfl

theorem caseless_append (hn : SameLetters (f ++ g) n) : ∃ n₁ n₂, n = n₁ ++ n₂ ∧ SameLetters f n₁ ∧
      SameLetters g n₂ := by
  induction f generalizing n with
  | nil => exact ⟨[], n, rfl, .nil, hn⟩
  | cons c f ih =>
    cases hn with
    | cons hcd hn =>
      obtain ⟨n₁, n₂, rfl, h₁, h₂⟩ := ih hn
      exact ⟨_ :: n₁, n₂, rfl, .cons hcd h₁, h₂⟩

/-- A part of a date format, a sign and the rest of it. -/
theorem hides_sign (hf : ∀ c ∈ f, c ∈ "DMY".toList) (hc : c ∈ "/-".toList) (hother : upper w ≠ f)
    (hg : Hides w g) : Hides w (f ++ c :: g) := by
  have hletter : ∀ c ∈ "DMY".toList, c ∈ "DMY/-".toList ∧ isPlainLetter c = true := by decide +kernel
  have hsign : ∀ c ∈ "/-".toList, c ∈ "DMY/-".toList ∧ isUncased c = true ∧ isSign c = true := by decide +kernel
  intro n hn
  obtain ⟨n₁, n₂, rfl, h₁, h₂⟩ := caseless_append hn
  cases h₂ with
  | @cons _ d _ n₂ hcd h₂ =>
    have hd : d = c := (mem_upperChar_iff (hsign c hc).2.1).mp (by rw [upperChar_of_sameLetter (hsign c hc).1 hcd]; simp)
    have hword : AllWord n₁ :=
      allWord_of_plain (all_eq_true.mpr fun e he => (hletter e (hf e he)).2) h₁
    have hne : n₁ ≠ w := by
      rintro rfl
      exact hother (upper_of_caseless (fun e he => (hletter e (hf e he)).1) h₁)
    rw [hd]
    exact hidden_sign hword hne (hsign c hc).2.2 (hg _ h₂)

/-! ## Names that the conversion does not look for -/

/-- The words that an operator is written as. -/
def operatorWords : List String := ["AND", "OR", "NOT"]

/-- What may be dropped from a DECODE or rewritten in a date format, in any case. -/
def droppedWords : List String := ["TRUE", "DD", "MM", "YYYY"]

structure IsSafe (w : List Char) : Prop where
  ne_nil : w ≠ []
  word : AllWord w
  unmarked : ¬ "IN_".toList <+: w ∧ ¬ "OUT_".toList <+: w
  timeless : (caseless "SYSDATE".toList).occursIn w = false
  operator : String.ofList w ∉ operatorWords
  kept : String.ofList (upper w) ∉ droppedWords

theorem IsSafe.upper_ne (h : IsSafe w) (hd : d ∈ droppedWords) : upper w ≠ d.toList := fun he =>
  h.kept (by rw [he, String.ofList_toList]; exact hd)

def dateFormats : List String := ["MM/DD/YYYY", "DD/MM/YYYY", "YYYY-MM-DD"]

theorem hides_format (hw : IsSafe w) {f : String} (hf : f ∈ dateFormats) : Hides w f.toList := by
  have day : upper w ≠ "DD".toList := hw.upper_ne (by decide)
  have month : upper w ≠ "MM".toList := hw.upper_ne (by decide)
  have year : upper w ≠ "YYYY".toList := hw.upper_ne (by decide)
  simp only [dateFormats, mem_cons, not_mem_nil, or_false] at hf
  rcases hf with rfl | rfl | rfl
  · exact hides_sign (f := "MM".toList) (c := '/') (by decide) (by decide) month
      (hides_sign (f := "DD".toList) (c := '/') (by decide) (by decide) day (hides_plain (f := "YYYY".toList) (by decide)))
  · exact hides_sign (f := "DD".toList) (c := '/') (by decide) (by decide) day
      (hides_sign (f := "MM".toList) (c := '/') (by decide) (by decide) month (hides_plain (f := "YYYY".toList) (by decide)))
  · exact hides_sign (f := "YYYY".toList) (c := '-') (by decide) (by decide) year
      (hides_sign (f := "MM".toList) (c := '-') (by decide) (by decide) month (hides_plain (f := "DD".toList) (by decide)))

/-! ## What patterns read -/

theorem finds_blanks : Finds (all [blanks]) AllBlank := by
  refine ⟨rfl, fun s s' u hr hu => ?_⟩
  obtain ⟨gap, hgap, hrest⟩ := reads_blanks hr
  rwa [← append_cancel_right (hrest.symm.trans hu)]

theorem finds_quote : Finds (all [quoteMark]) fun u => ∃ c, isQuote c = true ∧ u = [c] :=
  (finds_one _).mono fun u hu => by simpa [isQuote] using hu

theorem isGroupless_caseless (name) : (caseless name).isGroupless = true := by
  induction name with
  | nil => rfl
  | cons c name ih => exact isGroupless_append (l := [one (sameLetter c)]).trans (by rw [← caseless, ih]; rfl)

theorem finds_caseless (name) : Finds (all [caseless name]) (SameLetters name) := by
  refine ⟨isGroupless_caseless name, fun s s' u hr hu => ?_⟩
  obtain ⟨n, rest, hn, hrest, rfl⟩ := reads_caseless.mp hr
  rwa [← append_cancel_right (hrest.symm.trans hu)]

theorem finds_name (hname : name ≠ [] ∧ name.all isPlainLetter) :
    Finds (all [caseless name]) fun n => n ≠ [] ∧ AllWord n := by
  refine (finds_caseless name).mono fun n hn => ⟨?_, allWord_of_plain hname.2 hn⟩
  rintro rfl
  cases hn
  exact hname.1 rfl

section Reading

variable (hw : w ≠ [])

include hw

/-- A sign with blanks before and behind it. -/
theorem finds_sign (hc : isSign c) : Finds (all [blanks, char c, blanks]) (Severs w) := by
  refine finds_append (l := [blanks]) finds_blanks (finds_append (l := [char c]) (finds_char c) finds_blanks
    (S := fun u => ∃ y, AllBlank y ∧ u = c :: y) fun x y hx hy => ⟨y, hy, by rw [hx]; rfl⟩) ?_
  rintro x _ hx ⟨y, hy, rfl⟩
  exact severs_sign hw hx hc hy

theorem finds_severs (hc : isSign c) : Finds (all [char c]) (Severs w) := by
  refine ⟨rfl, fun s s' u hr hu => ?_⟩
  rw [(finds_char c).2 s s' u hr hu]
  exact severs_sign hw (x := []) (y := []) (forall_mem_nil _) hc (forall_mem_nil _)

theorem finds_last (hc : isSign c) : Finds (all [blanks, char c]) (Severs w) := by
  refine finds_append (l := [blanks]) finds_blanks (finds_char c) ?_
  rintro x _ hx rfl
  exact severs_sign hw hx hc (forall_mem_nil _)

/-- A word, blanks and a parenthesis. -/
theorem finds_callee (hl : Finds (all l) fun n => n ≠ [] ∧ AllWord n) :
    Finds (all (l ++ [blanks, char '('])) (Opens w) := by
  refine finds_append hl (finds_append (l := [blanks]) finds_blanks (finds_char '(')
    (S := fun u => ∃ x, AllBlank x ∧ u = x ++ ['(']) fun x y hx hy => ⟨x, hx, by rw [hy]⟩) ?_
  rintro n _ ⟨hne, hword⟩ ⟨x, hx, rfl⟩ s
  exact read_call hw hword hne hx (forall_mem_nil _)

theorem finds_call (hname : name ≠ [] ∧ name.all isPlainLetter) :
    Finds (all ([caseless name, blanks, char '('] ++ [blanks])) (Opens w) := by
  refine finds_append (finds_callee (l := [caseless name]) hw (finds_name hname)) finds_blanks fun x y hx hy s => ?_
  rw [read_append, hx]
  unfold Sight.opened
  split
  · exact read_found y
  · exact read_fresh_blanks hw hy

/-- A separator, and a fixed text between quotes behind it. -/
theorem finds_fixed {f : String} (hf : Hides w f.toList) :
    Finds (all ([blanks, char ',', blanks] ++ [(Argument.fixed f).pattern 0])) (Absorbs w) := by
  refine finds_append (finds_sign hw (by decide)) (finds_append (l := [quoteMark]) finds_quote
    (finds_append (l := [caseless f.toList]) (finds_caseless _) finds_quote
      (S := fun u => ∃ n q, Hidden w n ∧ isQuote q = true ∧ u = n ++ [q]) ?_)
    (S := fun u => ∃ q n q', isQuote q = true ∧ Hidden w n ∧ isQuote q' = true ∧ u = q :: n ++ [q']) ?_) ?_
  · rintro n _ hn ⟨q, hq, rfl⟩
    exact ⟨n, q, hf n hn, hq, rfl⟩
  · rintro _ _ ⟨q, hq, rfl⟩ ⟨n, q', hn, hq', rfl⟩
    exact ⟨q, n, q', hq, hn, hq', rfl⟩
  · rintro u _ hu ⟨q, n, q', hq, hn, hq', rfl⟩
    exact absorbs_quoted hw hu hq hn hq'

end Reading

/-! ## Rules for calls -/

namespace Argument

/-- An argument that a reader can follow; fixed texts are units or date formats. -/
def isTracked : Argument → Bool
  | fixed f => f.toList.all isPlainLetter || dateFormats.contains f
  | star => false
  | _ => true

theorem hides_fixed (hw : IsSafe w) {f : String} (h : (fixed f).isTracked) : Hides w f.toList := by
  simp only [isTracked, Bool.or_eq_true, contains_iff_mem] at h
  rcases h with h | h
  · exact hides_plain h
  · exact hides_format hw h

end Argument

theorem spacing_sighting (hw : IsSafe w) :
    Spacing (sighting w) Ahead Argument.isTracked fun ps => Finds (all ps) (Absorbs w) where
  same := Sim.rfl (ahead_respects hw.ne_nil)
  none := finds_nil fun _ => rfl
  fixed _ _ hf hps := finds_append hps (finds_fixed hw.ne_nil (Argument.hides_fixed hw hf)) fun _ _ => Absorbs.append
  comma _ hps := recasts_of_finds (finds_append hps (finds_sign hw.ne_nil (by decide)) fun _ _ => Absorbs.severs)
    fun _ hu => tracks_back hw.ne_nil hu (by decide)
  quote _ := by
    refine recasts_of_finds finds_quote ?_
    rintro _ ⟨c, hc, rfl⟩
    exact tracks_quote hw.ne_nil hc
  star := rfl

namespace CallRule

/-- A rule whose result a reader can follow. -/
def isTracked (rule : CallRule) : Bool :=
  !rule.name.toList.isEmpty && rule.name.toList.all isPlainLetter && isFront rule.front &&
    (decide (rule.result = .plain rule.front) || isBack rule.back) && rule.isShaped Argument.isTracked

theorem tracks_apply (hw : IsSafe w) {rule : CallRule} (h : rule.isTracked) (t) : Tracks w t (rule.apply t) := by
  have hne := hw.ne_nil
  simp only [isTracked, Bool.and_eq_true, Bool.not_eq_true', isEmpty_eq_false_iff] at h
  obtain ⟨⟨⟨hname, hfront⟩, hback⟩, hshaped⟩ := h
  have opening := finds_call hne hname
  have hrule := recasts_rule (R := Ahead) (spacing_sighting hw) hshaped (fun _ ps hps => ?_) fun hresult => ⟨?_, fun ps hps => ?_⟩
  · exact sim_substitute (ahead_respects hne) hrule.1 hrule.2 t
  · have hps : Finds (all ps) (Severs w) := by
      simp only [mem_cons, not_mem_nil, or_false] at hps
      rcases hps with rfl | rfl
      · exact finds_severs hne (by decide)
      · exact finds_append (l := [char '*']) (finds_severs hne (by decide)) (finds_last hne (by decide)) fun _ _ hx hy =>
          (hx.absorbs hne).severs hy
    exact recasts_of_finds (finds_append opening hps fun _ _ hx hy => hx.append hne hy) fun _ hu =>
      tracks_front hne hu hfront
  · exact recasts_of_finds opening fun _ hu => tracks_front hne hu hfront
  · simp only [hresult, decide_false, Bool.false_or] at hback
    exact recasts_of_finds (finds_append hps (finds_last hne (by decide)) fun _ _ => Absorbs.severs) fun _ hu =>
      tracks_back hne hu hback

end CallRule

theorem rules_tracked : ∀ r ∈ rulesBeforeSysdate ++ rulesAfterSysdate, r.isTracked = true := by
  have check : (rulesBeforeSysdate ++ rulesAfterSysdate).all CallRule.isTracked = true := by decide +kernel
  exact all_eq_true.mp check

/-- A name without SYSDATE in it is lost where SYSDATE comes up. -/
theorem tracks_sysdate (hw : IsSafe w) (t) : Tracks w t (sysdate.apply t) := by
  have hresp := ahead_respects hw.ne_nil
  rw [sysdate_apply, blindly_eq]
  refine sim_replaceAll hresp (fun before rest m hm => Sim.of_read hresp fun s => ?_) t
  have hsplit := hm.rest_eq
  obtain ⟨u, hu, rfl⟩ := hm
  have hn := (finds_caseless "SYSDATE".toList).2 _ _ _ hu hsplit
  generalize (toMatch before rest u).matched = n at hn
  have hword := allWord_of_plain (by decide) hn
  have hne : n ≠ [] := by
    rintro rfl
    cases hn
  cases s with
  | lost => exact .inl (read_lost hword)
  | reading k =>
    rw [read_reading hword, if_neg]
    · exact .inl rfl
    · rintro ⟨z, hz⟩
      have habsent := occursIn_eq_false_iff.mp hw.timeless (w.take k).reverse (n ++ z)
        (by rw [reverse_reverse, hz, take_append_drop])
      exact at_eq_none_iff.mp habsent _ (reads_caseless.mpr ⟨n, z, hn, rfl, rfl⟩)
  | passed =>
    rw [read_passed hword hne, read_firm (by decide) (.inr (.inl rfl)) (.inl rfl)]
    exact .inr (.inl rfl)
  | found =>
    rw [read_found, read_found]
    exact .inr (.inl rfl)

theorem tracks_applyCallRules (hw : IsSafe w) (t) : Tracks w t (applyCallRules t) := by
  have hresp := ahead_respects hw.ne_nil
  have fold {rs : List CallRule} (hrs : ∀ r ∈ rs, r ∈ rulesBeforeSysdate ++ rulesAfterSysdate) (t : List Char) :
      Tracks w t (rs.foldl CallRule.apply t) := Sim.foldl hresp (fun r hr t => CallRule.tracks_apply hw (rules_tracked r (hrs r hr)) t) t
  rw [applyCallRules, callRules_split, foldl_append, foldl_cons]
  exact ((fold (fun r hr => mem_append_left _ hr) t).trans hresp (tracks_sysdate hw _)).trans hresp
    (fold (fun r hr => mem_append_right _ hr) _)

theorem sees_convertCalls (hw : IsSafe w) (h : Sees w t) : Sees w (convertCalls t) := by
  refine repeatStep_invariant (I := Sees w) (fun t t' ht hstep => ?_) 10 h
  simp only [callsOnce?] at hstep
  split at hstep
  · cases hstep
  · rw [← Option.some.inj hstep]
    exact (tracks_applyCallRules hw t).sees ht

/-! ## Operators -/

theorem sees_literal (hw : w ≠ []) (hold : Severs w old) (hnew : isBack new) (h : Sees w t) :
    Sees w ((literal old).substitute (.plain new) t) := by
  have hresp := ahead_respects hw
  have : Tracks w t ((literal old).substitute (.plain new) t) := by
    refine sim_replaceAll hresp (fun before rest m hm => ?_) t
    have hsplit := hm.rest_eq
    obtain ⟨u, hu, rfl⟩ := hm
    rw [Template.expand_plain, append_cancel_right (hsplit.symm.trans (reads_literal hu).1)]
    exact tracks_back hw hold hnew
  exact this.sees h

theorem sees_convertOperators (hw : IsSafe w) (h : Sees w t) : Sees w (convertOperators t) := by
  have word {x v t : List Char} (hx : x ≠ [] ∧ x.all isPlainLetter = true) (hv : isFirm v = true)
      (hother : String.ofList x ∈ operatorWords) (h : Sees w t) : Sees w ((wholeWord x).substitute (.plain v) t) := by
    refine sees_wholeWord hw.ne_nil (fun c hc => ?_) hx.1 (fun he => hw.operator (he ▸ hother)) hv h
    have := all_eq_true.mp hx.2 c hc
    simp only [isPlainLetter, Bool.and_eq_true] at this
    exact this.2
  have sign {old new t : List Char} (hold : old ≠ [] ∧ old.all isSign = true) (hnew : isBack new = true) (h : Sees w t) :=
    sees_literal hw.ne_nil (severs_signs hw.ne_nil hold.1 hold.2) hnew h
  simp only [convertOperators, operatorRules, foldl_cons, foldl_nil]
  refine sign (by decide) (by decide) (sign (by decide) (by decide) ?_)
  exact word (by decide) (by decide) (by decide) (word (by decide) (by decide) (by decide)
    (word (by decide) (by decide) (by decide) h))

theorem sees_convertComparisons (hw : w ≠ []) (h : Sees w t) : Sees w (convertComparisons t) := by
  have hresp := ahead_respects hw
  have sign : (all [blanks, char '=', blanks]).Recasts (sighting w) Ahead Ahead (.plain " == ".toList) [] := by
    refine recasts_of_finds (finds_sign hw (by decide)) fun u hu => Sim.of_read hresp fun s => ?_
    have hnew : Severs w " == ".toList := ((severs_sign hw (x := [' ']) (y := []) (by decide) (by decide)
      (by decide)).absorbs hw).severs (severs_sign hw (x := []) (y := [' ']) (by decide) (by decide) (by decide))
    exact .inr (.inl ((hnew s).trans (hu s).symm))
  have : Tracks w t (convertComparisons t) :=
    sim_substitute hresp (recasts_comparisons (Sim.rfl hresp) sign) (by decide) t
  exact this.sees h

theorem sees_joinTexts (hw : w ≠ []) (h : Sees w t) : Sees w (joinTexts t) := by
  refine repeatStep_invariant (I := Sees w) (fun t t' ht hstep => ?_) 20 h
  simp only [joinOnce?] at hstep
  split at hstep
  · cases hstep
    exact sees_joins hw ht
  · cases hstep

/-! ## Calls that are taken apart -/

/-- Behind the name of a call, what is seen of the arguments is still seen. -/
theorem sees_call (hw : w ≠ []) (hu : Opens w u) (hv : isFront v) (hxy : Sees w x → Sees w y)
    (h : Sees w (t ++ (u ++ x))) : Sees w (t ++ (v ++ y)) := by
  simp only [Sees, read_append, hu _] at h ⊢
  generalize (sighting w).read (.reading 0) t = s at h ⊢
  have hahead := (ahead_respects hw).read (front_ahead (w := w) (s := s) hv) y
  refine hahead.isSeen ?_
  unfold Sight.opened at h ⊢
  split at h
  · rename_i hs
    rw [if_pos hs, read_found]
    rfl
  · rename_i hs
    rw [if_neg hs]
    exact hxy h

theorem sees_convertArgument (hw : IsSafe w) (h : Sees w t) : Sees w (convertArgument t) :=
  sees_convertComparisons hw.ne_nil (sees_convertOperators hw (sees_joinTexts hw.ne_nil h))

/-- A name other than TRUE is in no argument that is dropped. -/
theorem not_sees_trueWord (hw : IsSafe w) (ht : isTrueWord t) : ¬ Sees w t := by
  intro h
  have hupper : upper (trim t) = "TRUE".toList := beq_iff_eq.mp ht
  have hletters : ∀ d ∈ "TRUE".toList, d ∈ commonLetters := by decide
  have hword : AllWord (trim t) := fun c hc => isWord_of_upperChar fun d hd => hletters d (by
    rw [← hupper]
    exact mem_flatMap.mpr ⟨c, hc, hd⟩)
  obtain ⟨b, hb⟩ := stands_of_sees hw.word hw.ne_nil ((sees_trim hw.ne_nil).mpr h)
  obtain ⟨a, hsplit, ha⟩ := hb.split
  rw [hsplit] at hword hupper
  have ha : a = [] := eq_nil_of_endsClear ha fun c hc => hword c (by simp [hc])
  have hb : b = [] := by
    cases b with
    | nil => rfl
    | cons c b =>
      have hclear : isWord c = false := hb.clear
      rw [hword c (by simp)] at hclear
      cases hclear
  rw [ha, hb, nil_append, append_nil] at hupper
  exact hw.upper_ne (by decide) hupper

theorem finds_callOf (hw : w ≠ []) {name : String} (hname : name.toList ≠ [] ∧ name.toList.all isPlainLetter) :
    Finds (callOf name) (Opens w) := finds_callee (l := [caseless name.toList]) hw (finds_name hname)

theorem finds_addCall (hw : w ≠ []) : Finds addCallPattern (Opens w) := by
  have direction : Finds (all [Pattern.optional (caseless "TO_".toList)]) AllWord :=
    finds_alt ((finds_name (by decide)).mono fun _ h => h.2) (finds_nil fun _ h => absurd h not_mem_nil)
  have name : Finds (all ([caseless "ADD_".toList] ++ ([Pattern.optional (caseless "TO_".toList)] ++
      [caseless "DATE".toList]))) fun n => n ≠ [] ∧ AllWord n := by
    refine finds_append (finds_name (by decide)) (finds_append direction (finds_name (by decide)) (S := AllWord) ?_) ?_
    · rintro x y hx ⟨-, hy⟩ c hc
      exact (mem_append.mp hc).elim (hx c) (hy c)
    · rintro x y ⟨hne, hx⟩ hy
      exact ⟨by simp [hne], fun c hc => (mem_append.mp hc).elim (hx c) (hy c)⟩
  exact finds_alt (finds_callee hw name) (finds_callOf hw (by decide))

/-- What is seen of a list of arguments is seen in one of them. -/
theorem sees_arguments (hw : w ≠ []) (h : Sees w t) : ∃ a ∈ splitArguments t, Sees w a := by
  obtain ⟨last, hlast, hsplit⟩ := splitArguments_join t
  refine (sees_join hw (forall_mem_nil _) _).mp ?_
  rw [hsplit] at h
  rcases hlast with hlast | hlast
  · rwa [hlast, append_nil] at h
  · rw [hlast, sees_sign (by decide)] at h
    exact h.resolve_right (not_sees_nil hw)

theorem sees_decodeOnce (hw : IsSafe w) (hstep : decodeOnce? t = some t') (h : Sees w t) : Sees w t' := by
  have hne := hw.ne_nil
  simp only [decodeOnce?, Option.bind_eq_bind, Option.bind_eq_some_iff] at hstep
  obtain ⟨m, hm, ⟨content, after⟩, hclose, hstep⟩ := hstep
  split at hstep
  · cases hstep
  · cases hstep
    obtain ⟨ht, -⟩ := find_reads hm
    rw [ht, append_assoc, closeCall_eq hclose] at h
    simp only [caseCall, append_assoc]
    refine sees_call hne ((finds_callOf hne (by decide)).found hm) (by decide) (fun hx => ?_) h
    rw [cons_append, nil_append, sees_sign (by decide)]
    refine ((sees_sign (by decide)).mp hx).imp_left fun hx => ?_
    obtain ⟨a, ha, hseen⟩ := sees_arguments hne hx
    refine (sees_join hne (by decide) _).mpr ⟨convertArgument a, ?_, sees_convertArgument hw hseen⟩
    have hmem : convertArgument a ∈ (splitArguments content).map convertArgument := mem_map_of_mem ha
    -- Only TRUE is dropped.
    cases hs : (splitArguments content).map convertArgument with
    | nil => rw [hs] at hmem; cases hmem
    | cons b bs =>
      rw [hs] at hmem
      rw [dropTrue]
      split
      · rename_i htrue
        refine (mem_cons.mp hmem).resolve_left fun he => ?_
        exact not_sees_trueWord hw htrue (he ▸ sees_convertArgument hw hseen)
      · exact hmem

/-! ## Date calls -/

/-- A unit between quotes shows no name. -/
theorem not_sees_unit (hw : w ≠ []) (hletter : ∀ c, letter c → isWord c)
    (h : unitOf? letter t = some u) : ¬ Sees w t := by
  obtain ⟨m, hm, -⟩ := Option.map_eq_some_iff.mp h
  obtain ⟨r, hr, -⟩ := at_reads hm
  obtain ⟨_, ⟨q, rest, hrest, hq, rfl⟩, hr⟩ := reads_all_cons hr
  obtain ⟨_, ⟨v, ⟨_, ⟨c, rest₁, hrest₁, hc, rfl⟩, cs, rest₂, hcs, hrest₂, rfl⟩, rfl⟩, hr⟩ := reads_all_cons hr
  obtain ⟨_, ⟨q', rest₃, hrest₃, hq', rfl⟩, hr⟩ := reads_all_cons hr
  obtain ⟨rfl, hend⟩ := hr
  simp only at hrest hrest₁ hrest₂ hrest₃ hend
  have hquote : isQuote q = true ∧ isQuote q' = true := ⟨by simpa [isQuote] using hq, by simpa [isQuote] using hq'⟩
  have hblank : ∀ d ∈ rest₃, isBlank d = true := by
    rcases hend with rfl | rfl <;> decide
  have hhidden : Hidden w (c :: cs) := by
    refine hidden_word fun d hd => ?_
    rcases mem_cons.mp hd with rfl | hd
    · exact hletter d hc
    · exact hletter d (hcs d hd)
  have ht : t = q :: ((c :: cs) ++ q' :: rest₃) := by rw [hrest, hrest₁, hrest₂, hrest₃]; rfl
  have hread : (sighting w).read (.reading 0) t = .reading 0 := by
    rw [ht, read_cons, step_quote hquote.1, read_append, read_cons, step_quote hquote.2]
    exact (congrArg ((sighting w).read · rest₃) hhidden).trans (read_fresh_blanks hw hblank)
  rw [Sees, hread, isSeen_fresh hw]
  exact Bool.false_ne_true

theorem isWord_of_capital (h : isCapital c) : isWord c = true := by
  have hascii : ∀ c : Char, c.toNat < 128 → isCapital c = true → isWord c = true := forall_ascii (by decide +kernel)
  refine hascii c ?_ h
  simp only [isCapital, Bool.and_eq_true, decide_eq_true_eq, Char.le_def, UInt32.le_iff_toNat_le] at h
  exact Nat.lt_of_le_of_lt h.2 (by decide)

theorem isWord_of_capitalCaseless (h : isCapitalCaseless c) : isWord c = true := by
  obtain ⟨d, hd, hcd⟩ := any_eq_true.mp h
  have hplain : ∀ d ∈ "ABCDEFGHIJKLMNOPQRSTUVWXYZ".toList, isPlainLetter d = true := by decide +kernel
  exact isWord_of_sameLetter_left (hplain d hd) hcd

theorem isFront_functionFor (htable : ∀ f ∈ table, isFront (f.2.toList ++ ['(']))
    (h : functionFor? table u = some v) : isFront (v ++ ['(']) = true := by
  obtain ⟨target, hl, rfl⟩ := Option.map_eq_some_iff.mp h
  exact htable (String.ofList u, target) (mem_of_lookup hl)

theorem sees_addOnce (hw : w ≠ []) (hstep : addOnce? t = some t') (h : Sees w t) : Sees w t' := by
  simp only [addOnce?, Option.bind_eq_bind, Option.bind_eq_some_iff] at hstep
  obtain ⟨m, hm, ⟨content, after⟩, hclose, hstep⟩ := hstep
  simp only at hstep
  split at hstep
  · rename_i date u amount hargs
    obtain ⟨unit, hunit, hstep⟩ := Option.bind_eq_some_iff.mp hstep
    obtain ⟨name, hname, hstep⟩ := Option.bind_eq_some_iff.mp hstep
    cases hstep
    have hdropped : ¬ Sees w u := fun hu =>
      not_sees_unit hw (fun _ => isWord_of_capitalCaseless) hunit ((sees_trim hw).mpr hu)
    obtain ⟨ht, -⟩ := find_reads hm
    rw [ht, append_assoc, closeCall_eq hclose] at h
    have hsplit : m.before.reverse ++ name ++ ['('] ++ trim date ++ [',', ' '] ++ trim amount ++ [')'] ++ after =
        m.before.reverse ++ ((name ++ ['(']) ++ (trim date ++ ',' :: ([' '] ++ (trim amount ++ ')' :: after)))) := by simp
    rw [hsplit]
    refine sees_call hw ((finds_addCall hw).found hm) (isFront_functionFor (by decide) hname) (fun hx => ?_) h
    rw [sees_sign (by decide), sees_blanks hw (by decide), sees_sign (by decide), sees_trim hw, sees_trim hw]
    rcases (sees_sign (by decide)).mp hx with hx | hx
    · obtain ⟨a, ha, hseen⟩ := sees_arguments hw hx
      rw [hargs] at ha
      simp only [mem_cons, not_mem_nil, or_false] at ha
      rcases ha with rfl | rfl | rfl
      · exact .inl hseen
      · exact absurd hseen hdropped
      · exact .inr (.inl hseen)
    · exact .inr (.inr hx)
  · cases hstep

theorem sees_partOnce (hw : w ≠ []) (hstep : partOnce? t = some t') (h : Sees w t) : Sees w t' := by
  simp only [partOnce?, Option.bind_eq_bind, Option.bind_eq_some_iff] at hstep
  obtain ⟨m, hm, ⟨content, after⟩, hclose, comma, hcomma, unit, hunit, name, hname, hstep⟩ := hstep
  cases hstep
  have hdropped : ¬ Sees w (content.drop (comma + 1)) := fun hu =>
    not_sees_unit hw (fun _ => isWord_of_capital) hunit ((sees_trim hw).mpr hu)
  obtain ⟨ht, -⟩ := find_reads hm
  rw [ht, append_assoc, closeCall_eq hclose] at h
  have hsplit : m.before.reverse ++ name ++ ['('] ++ trim (content.take comma) ++ [')'] ++ after =
      m.before.reverse ++ ((name ++ ['(']) ++ (trim (content.take comma) ++ ')' :: after)) := by simp
  rw [hsplit]
  refine sees_call hw ((finds_callOf hw (by decide)).found hm) (isFront_functionFor (by decide) hname) (fun hx => ?_) h
  rw [sees_sign (by decide), sees_trim hw]
  refine ((sees_sign (by decide)).mp hx).imp_left fun hx => ?_
  have hcontent : content = _ := lastSeparator_eq hcomma
  rw [hcontent, sees_sign (by decide)] at hx
  exact hx.resolve_right hdropped

/-! ## The whole conversion -/

/-- IN_ and OUT_ are no words of the text. -/
def IsUnmarked (t : List Char) : Prop := ∀ b, ¬ Stands "IN_".toList t b ∧ ¬ Stands "OUT_".toList t b

theorem IsUnmarked.cleaned (h : IsUnmarked t) : IsUnmarked (trim (squeeze (trim t))) := by
  have word {k b : List Char} (hk : Stands k (trim (squeeze (trim t))) b) : ∃ b, Stands k t b := by
    obtain ⟨b, hk⟩ := stands_of_trim hk
    obtain ⟨b, hk⟩ := stands_of_squeezeFrom false hk
    exact stands_of_trim hk
  refine fun b => ⟨fun hk => ?_, fun hk => ?_⟩
  · obtain ⟨b, hk⟩ := word hk
    exact (h b).1 hk
  · obtain ⟨b, hk⟩ := word hk
    exact (h b).2 hk

theorem sees_convertStructure (hw : IsSafe w) (hbare : IsUnmarked t) (h : Sees w t) : Sees w (convertStructure t) := by
  have hne := hw.ne_nil
  have hcleaned : Sees w (trim (squeeze (trim t))) := by rwa [sees_trim hne, sees_squeeze hne, sees_trim hne]
  have hmarkers := sees_dropDirectionMarkers hne hw.unmarked hbare.cleaned hcleaned
  have hdecode := repeatStep_invariant (fun _ _ ht hstep => sees_decodeOnce hw hstep ht) 20 hmarkers
  have hadd := repeatStep_invariant (fun _ _ ht hstep => sees_addOnce hne hstep ht) 20 hdecode
  have hpart := repeatStep_invariant (fun _ _ ht hstep => sees_partOnce hne hstep ht) 20 hadd
  exact sees_convertCalls hw hpart

theorem sees_convert (hw : IsSafe w) (hbare : IsUnmarked t) (hr : convert t = .ok r) (h : Sees w t) : Sees w r := by
  rw [convert_eq hr]
  split
  · exact h
  · have hjoins : Sees w (convertJoins t (convertStructure t)) := by
      rw [convertJoins]
      split
      · exact sees_joinTexts hw.ne_nil (sees_convertStructure hw hbare h)
      · exact sees_convertStructure hw hbare h
    exact sees_convertComparisons hw.ne_nil (sees_convertOperators hw hjoins)

end MappingFlow.Expression
