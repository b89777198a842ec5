/-
  MappingFlow.Proofs.Conversion.Spelling — what becomes of a name in an expression before it
  is converted, and if it does not convert.

  A conversion knows the casing of the columns it has met (`casingOf`) and writes a word in
  the casing of the first column with its letters (`spelling`). A name that is spelled so
  stays in the expression (`sees_recased`).

  In an expression that does not convert functions are renamed wherever their letters turn
  up, and joins are replaced by a word. Both work on either side of a break by itself: of a
  character that belongs to no word and to no join. A name between two breaks stays if it
  would stay alone (`StandsApart.pass`).
-/

import MappingFlow.Proofs.Conversion.Shapes
import MappingFlow.Proofs.Expression.Edges

namespace MappingFlow

variable {words : List (List Char)}

/-! ## Patterns of letters -/

namespace Pattern

theorem isLocal_wholeWord (hx : Text.AllWord x) (hd : Text.isWord d = false) : (wholeWord x).isLocal d = true := by
  have hliteral : (literal x).isLocal d = true := by
    refine isLocal_all fun p hp => ?_
    obtain ⟨c, hc, rfl⟩ := List.mem_map.mp hp
    have hne : d ≠ c := fun he => by simp [he, hx c hc] at hd
    simpa [char, isLocal] using hne
  simp [wholeWord, all, isLocal, hd, hliteral]

theorem isLocal_caseless (hx : ∀ c ∈ x, Text.isPlainLetter c) (hd : Text.isWord d = false) :
    (caseless x).isLocal d = true := by
  refine isLocal_all fun p hp => ?_
  obtain ⟨c, hc, rfl⟩ := List.mem_map.mp hp
  rw [isLocal, Bool.not_eq_true']
  refine Bool.eq_false_iff.mpr fun hsame => ?_
  simp [Text.isWord_of_sameLetter (hx c hc) hsame] at hd

end Pattern

namespace Conversion

open Pattern Text Expression
open List

/-! ## A name between two breaks -/

/-- Part of no word and of no join. -/
def isBreak (c : Char) : Bool := !isWord c && c != '|'

theorem isWord_of_isBreak (h : isBreak c) : isWord c = false := by
  simp only [isBreak, Bool.and_eq_true, Bool.not_eq_true'] at h
  exact h.1

structure StandsApart (w t : List Char) : Prop where
  ne_nil : w ≠ []
  word : AllWord w
  split : ∃ a b, t = a ++ w ++ b ∧ a.getLast?.all isBreak = true ∧ b.head?.all isBreak = true

theorem StandsApart.stands (h : StandsApart w t) : ∃ b, Stands w t b := by
  have any_of_all : ∀ o : Option Char, o.all isBreak = true → o.any isWord = false := by
    rintro (_ | c) hc
    · rfl
    · exact isWord_of_isBreak hc
  obtain ⟨a, b, ht, ha, hb⟩ := h.split
  exact ⟨b, h.ne_nil, h.word, any_of_all _ hb, a, ht, any_of_all _ ha⟩

theorem StandsApart.pass (h : StandsApart w t) (hf : ∀ d, isBreak d → SplitsAt d f) (hw : f w = w) :
    StandsApart w (f t) := by
  obtain ⟨a, b, rfl, ha, hb⟩ := h.split
  have behind : ∃ b', f (w ++ b) = w ++ b' ∧ b'.head?.all isBreak = true := by
    cases b with
    | nil => exact ⟨[], by rw [append_nil, hw], rfl⟩
    | cons d b => exact ⟨d :: f b, by rw [hf d hb, hw], hb⟩
  obtain ⟨b', hbehind, hb'⟩ := behind
  refine ⟨h.ne_nil, h.word, ?_⟩
  rw [append_assoc]
  rcases eq_nil_or_concat a with rfl | ⟨a, d, rfl⟩
  · exact ⟨[], b', hbehind, rfl, hb'⟩
  · have hd : isBreak d = true := by simpa using ha
    refine ⟨f a ++ [d], b', ?_, by simpa using hd, hb'⟩
    rw [concat_eq_append, append_assoc, singleton_append, hf d hd, hbehind]
    simp

/-! ## Casings -/

/-- The casings after columns one by one. -/
def learnAll (casing : List (String × String)) (names : List String) : List (String × String) :=
  names.foldl (fun casing name => learnCasing name casing) casing

def casingOf (names : List String) : List (String × String) := learnAll [] names

theorem casingOf_concat (names name) : casingOf (names ++ [name]) = learnCasing name (casingOf names) := by
  simp [casingOf, learnAll]

theorem Learned.learnAll (h : Learned casing) (names) : Learned (learnAll casing names) := by
  induction names generalizing casing with
  | nil => exact h
  | cons name names ih => exact ih (h.learn name)

theorem learned_casingOf (names) : Learned (casingOf names) :=
  Learned.learnAll (fun _ hp => absurd hp not_mem_nil) names

theorem lookup_learnCasing (name key casing) : (learnCasing name casing).lookup key =
      (casing.lookup key).or (if lowerName name == key then some name else none) := by
  unfold learnCasing
  split
  · rename_i known hknown
    by_cases hkey : lowerName name = key
    · rw [← hkey, hknown, Option.some_or]
    · simp [hkey]
  · rw [lookup_append]
    by_cases hkey : lowerName name = key
    · simp [hkey]
    · have hne : (key == lowerName name) = false := by simpa using Ne.symm hkey
      simp [hkey, lookup_cons, hne]

theorem lookup_learnAll (names key casing) :
    (learnAll casing names).lookup key = (casing.lookup key).or (names.find? (lowerName · == key)) := by
  induction names generalizing casing with
  | nil => simp [learnAll]
  | cons name names ih =>
    rw [show learnAll casing (name :: names) = learnAll (learnCasing name casing) names from rfl, ih, lookup_learnCasing,
      Option.or_assoc, find?_cons]
    cases lowerName name == key <;> simp

/-- The first column with the letters tells the casing. -/
theorem lookup_casingOf (names key) : (casingOf names).lookup key = names.find? (lowerName · == key) := by
  simpa [casingOf] using lookup_learnAll names key []

/-- How a name is spelled where the columns are known. -/
def spelling (known : List String) (name : String) : String := (known.find? (lowerName · == lowerName name)).getD name

variable {word : List Char} {known : List String} {name s : String}

/-- The casing that is known for a word is its own. -/
def IsSpelled (casing : List (String × String)) (w : List Char) : Prop :=
  ∀ known, casing.lookup (String.ofList (lower w)) = some known → known.toList = w

theorem isSpelled_casingOf (h : spelling known name = name) : IsSpelled (casingOf known) name.toList := by
  intro found hfound
  rw [lookup_casingOf] at hfound
  rw [spelling, show lowerName name = String.ofList (lower name.toList) from rfl, hfound, Option.getD_some] at h
  rw [h]

theorem IsIdentifier.allWord (h : IsIdentifier word) : AllWord word := fun c hc => by
  have := isPlainLetter_of_identifier (h.2 c hc)
  simp only [isPlainLetter, Bool.and_eq_true] at this
  exact this.2

theorem isFirm_of_allWord (hne : t ≠ []) (h : AllWord t) : isFirm t = true := by
  obtain ⟨c, t, rfl⟩ := exists_cons_of_ne_nil hne
  have hc := h c (.head _)
  have hopen : c ≠ '(' := fun he => absurd (he ▸ hc) (by decide)
  simp [isFirm, isBlank_of_isWord hc, hopen]

theorem sees_recase (hcasing : Learned casing) (hword : IsIdentifier word) (hw : w ≠ []) (hspelled : IsSpelled casing w)
    (h : Sees w t) : Sees w (recase casing t word) := by
  unfold recase
  split
  · exact h
  · rename_i known hknown
    split
    · exact h
    · rename_i hother
      obtain ⟨hne, hall⟩ := hcasing.allWord hword hknown
      refine sees_wholeWord hw hword.allWord hword.1 (fun he => hother ?_) (isFirm_of_allWord hne hall) h
      subst he
      exact hspelled known hknown

theorem sees_recased (hcasing : Learned casing) (hw : w ≠ []) (hspelled : IsSpelled casing w) (h : Sees w s.toList) :
    Sees w (recased casing s).toList := by
  have hwords : ∀ words : List (List Char), (∀ word ∈ words, IsIdentifier word) → ∀ t, Sees w t →
      Sees w (words.foldl (recase casing) t) := by
    intro words hwords
    induction words with
    | nil => exact fun _ => id
    | cons word words ih =>
      intro t ht
      refine ih (fun v hv => hwords v (.tail _ hv)) _ ?_
      exact sees_recase hcasing (hwords word (.head _)) hw hspelled ht
  rw [recased, String.toList_ofList]
  exact hwords _ (fun _ => isIdentifier_of_findAll) _ h

theorem splitsAt_recase (hd : isWord d = false) (hword : IsIdentifier word) : SplitsAt d (recase casing · word) := by
  intro x y
  unfold recase
  split
  · rfl
  · split
    · rfl
    · exact splitsAt_substitute (isLocal_wholeWord hword.allWord hd) (wholeWord_pos hword.1) hd x y

/-- A word in the casing that is known for it. -/
def spelled (casing : List (String × String)) (w : List Char) : List Char :=
  ((casing.lookup (String.ofList (lower w))).map String.toList).getD w

theorem IsSpelled.spelled_eq (h : IsSpelled casing w) : spelled casing w = w := by
  unfold spelled
  cases hk : casing.lookup (String.ofList (lower w)) with
  | none => rfl
  | some known => exact h known hk

theorem substitute_word (hword : IsIdentifier word) (hw : IsRun isWord w) :
    (wholeWord word).substitute (.plain v) w = if w = word then v else w := by
  rw [substitute_plain]
  split
  · rename_i hsame
    subst hsame
    have hrun : (wholeWord w).run ⟨[], w ++ [], []⟩ some = some ⟨w.reverse ++ [], [], []⟩ := by
      simp only [wholeWord, Pattern.all, run, run_literal, atWordEdge, hw.head, hw.reverse.head]
      rfl
    have hall : (wholeWord w).replaceFrom (fun _ => v) [] 0 (w ++ []) = _ :=
      replaceFrom_match (at_of_run hrun) rfl hw.ne_nil
    rw [append_nil] at hall
    rw [replaceAll, hall, Pattern.replaceFrom, at_nil (wholeWord_pos hword.1), Option.map_none, Option.getD_none, append_nil]
  · rename_i hother
    refine replaceAll_of_absent (wholeWord_absent hword.1 hword.allWord fun b hb => hother ?_)
    have hsame : word = w ∧ b = [] ∨ Stands word [] b := stands_word hw.ne_nil hw.all rfl (by rwa [append_nil])
    rcases hsame with ⟨rfl, -⟩ | hnil
    · rfl
    · obtain ⟨a, hsplit, -⟩ := hnil.split
      simp [hnil.ne_nil] at hsplit

theorem recase_word (hword : IsIdentifier word) (hw : IsRun isWord w) :
    recase casing w word = if w = word then spelled casing w else w := by
  unfold recase spelled
  split
  · rename_i hnone
    split
    · rename_i hsame
      rw [hsame, hnone]
      rfl
    · rfl
  · rename_i known hknown
    split
    · rename_i hown
      split
      · rename_i hsame
        rw [hsame, hknown]
        exact hown.symm
      · rfl
    · rw [substitute_word hword hw]
      split
      · rename_i hsame
        rw [hsame, hknown]
        rfl
      · rfl

theorem Learned.spelled_spelled (h : Learned casing) (w) : spelled casing (spelled casing w) = spelled casing w := by
  cases hk : casing.lookup (String.ofList (lower w)) with
  | none => simp only [spelled, hk, Option.map_none, Option.getD_none]
  | some known =>
    have hkey : String.ofList (lower known.toList) = String.ofList (lower w) := (h.lookup hk).symm
    simp only [spelled, hk, Option.map_some, Option.getD_some, hkey]

theorem Learned.isRun_spelled (h : Learned casing) (hw : IsIdentifier w) : IsRun isWord (spelled casing w) := by
  unfold spelled
  cases hk : casing.lookup (String.ofList (lower w)) with
  | none => exact ⟨hw.1, hw.allWord⟩
  | some known =>
    obtain ⟨hne, hall⟩ := h.allWord hw hk
    exact ⟨hne, hall⟩

/-- A word is respelled once: its casing is not respelled by a later pass. -/
theorem Learned.foldl_recase (h : Learned casing) (hwords : ∀ word ∈ words, IsIdentifier word) (hw : IsRun isWord w) :
    words.foldl (recase casing) w = if w ∈ words then spelled casing w else w := by
  induction words generalizing w with
  | nil => rfl
  | cons word words ih =>
    have hword := hwords word (.head _)
    have later := fun {v} => @ih v fun u hu => hwords u (.tail _ hu)
    rw [foldl_cons, recase_word hword hw]
    by_cases hsame : w = word
    · subst hsame
      rw [if_pos rfl, later (h.isRun_spelled hword), h.spelled_spelled, ite_self, if_pos (mem_cons_self ..)]
    · rw [if_neg hsame, later hw]
      simp only [mem_cons, hsame, false_or]

theorem foldl_recase_nil (hwords : ∀ word ∈ words, IsIdentifier word) : words.foldl (recase casing) [] = [] := by
  induction words with
  | nil => rfl
  | cons word words ih =>
    have hnil : recase casing [] word = [] := by
      unfold recase
      split
      · rfl
      · split
        · rfl
        · rw [substitute_plain, replaceAll, Pattern.replaceFrom, at_nil (wholeWord_pos (hwords word (.head _)).1)]
          rfl
    rw [foldl_cons, hnil]
    exact ih fun v hv => hwords v (.tail _ hv)

theorem splitsAt_recasing {d : Char} (hwords : ∀ word ∈ words, IsIdentifier word) (hd : isWord d = false) :
    SplitsAt d fun t => words.foldl (recase casing) t :=
  SplitsAt.foldl fun word hword => splitsAt_recase hd (hwords word hword)

theorem StandsApart.recased (hcasing : Learned casing) (hspelled : IsSpelled casing w) (h : StandsApart w s.toList) :
    StandsApart w (recased casing s).toList := by
  have hwords : ∀ word ∈ identifierPattern.findAll s.toList, IsIdentifier word := fun _ => isIdentifier_of_findAll
  rw [Conversion.recased, String.toList_ofList]
  refine h.pass (fun d hd => splitsAt_recasing hwords (isWord_of_isBreak hd)) ?_
  rw [hcasing.foldl_recase hwords ⟨h.ne_nil, h.word⟩, hspelled.spelled_eq, ite_self]

/-! ## Expressions that do not convert -/

theorem prefix_append_iff (hd : d ∉ old) : old <+: x ++ d :: t ↔ old <+: x := by
  refine ⟨fun h => ?_, fun h => h.trans (prefix_append ..)⟩
  rcases prefix_or_prefix_of_prefix h (prefix_append x _) with hx | ⟨y, rfl⟩
  · exact hx
  · rw [prefix_append_right_inj] at h
    cases y with
    | nil => simp
    | cons c y =>
      obtain ⟨rfl, -⟩ := cons_prefix_cons.mp h
      simp at hd

theorem splitsAt_replace (hd : d ∉ old) (hold : old ≠ []) : SplitsAt d (Text.replace old new) := by
  have walk : ∀ (x t : List Char) (skip : Nat), skip ≤ x.length → Text.replaceFrom old new skip (x ++ d :: t) =
      Text.replaceFrom old new skip x ++ d :: Text.replaceFrom old new 0 t := by
    intro x t
    induction x with
    | nil =>
      intro skip hskip
      obtain ⟨c, rest, rfl⟩ := exists_cons_of_ne_nil hold
      have hne : c ≠ d := fun he => hd (he ▸ mem_cons_self ..)
      rw [Nat.le_zero.mp hskip]
      simp [Text.replaceFrom, hne]
    | cons c x ih =>
      intro skip hskip
      cases skip with
      | succ n =>
        simp only [cons_append, Text.replaceFrom]
        exact ih n (by simpa using hskip)
      | zero =>
        have hsame : old.isPrefixOf (c :: (x ++ d :: t)) = old.isPrefixOf (c :: x) := by
          rw [Bool.eq_iff_iff, isPrefixOf_iff_prefix, isPrefixOf_iff_prefix, ← cons_append]
          exact prefix_append_iff hd
        simp only [cons_append, Text.replaceFrom, hsame]
        split
        · rename_i hpart
          have hle : old.length - 1 ≤ x.length := by
            have := ( isPrefixOf_iff_prefix.mp hpart).length_le
            simp only [length_cons] at this
            omega
          rw [ih _ hle, append_assoc]
        · rw [ih 0 (Nat.zero_le _), cons_append]
  exact fun x t => walk x t 0 (Nat.zero_le _)

/-- The name of a function in plain letters, and a text that refers to no group. -/
def isOrdinary (f : String × Value) : Bool := isPlainRow f && f.1 != "" && f.1.toList.all isPlainLetter

theorem minLength_caseless (h : name ≠ "") : 0 < (caseless name.toList).minLength := by
  obtain ⟨c, rest, hname⟩ := exists_cons_of_ne_nil (l := name.toList) (by simpa using h)
  rw [hname]
  exact minLength_all Nat.one_pos

theorem splitsAt_renameBy (hg : isOrdinary g) (hd : isWord d = false) : SplitsAt d (renameBy · g) := by
  simp only [isOrdinary, Bool.and_eq_true, bne_iff_ne, all_eq_true] at hg
  obtain ⟨⟨-, hne⟩, hletters⟩ := hg
  intro x y
  unfold renameBy
  split
  · exact splitsAt_substitute (isLocal_caseless hletters hd) (minLength_caseless hne) hd x y
  · rfl

theorem splitsAt_renamed (h : table.all isOrdinary) (hd : isBreak d) : SplitsAt d (renamed table) := by
  have hword := isWord_of_isBreak hd
  have hbar : d ∉ ['|', '|'] := by
    simp only [isBreak, Bool.and_eq_true, bne_iff_ne] at hd
    simp [hd.2]
  exact (splitsAt_replace hbar (by decide)).comp (SplitsAt.foldl fun f hf => splitsAt_renameBy (all_eq_true.mp h f hf) hword)

end Conversion

/-- Every function that the rules rename is an ordinary one. -/
def Rules.isOrdinary (r : Rules) : Bool :=
  match r.functions with
  | .object table => table.all Conversion.isOrdinary
  | _ => false

namespace Conversion

open Pattern Text Expression

variable {r : Rules} {name s : String}

theorem StandsApart.renamed (hr : r.isOrdinary) (hname : r.rename (.text name) = .ok name)
    (h : StandsApart name.toList s.toList) :
    ∃ o : String, r.rename (.text s) = .ok o ∧ StandsApart name.toList o.toList := by
  unfold Rules.isOrdinary at hr
  split at hr
  · rename_i table htable
    have hfields : r.functions.fieldsFor "items" = .ok table := by rw [htable]; rfl
    have hplain : table.all isPlainRow = true := List.all_eq_true.mpr fun f hf => by
      have := List.all_eq_true.mp hr f hf
      simp only [Conversion.isOrdinary, Bool.and_eq_true] at this
      exact this.1.1
    rw [rename_text hfields hplain, Except.ok.injEq] at hname
    refine ⟨_, rename_text hfields hplain s, ?_⟩
    rw [String.toList_ofList]
    exact h.pass (fun d hd => splitsAt_renamed hr hd) (by simpa using congrArg String.toList hname)
  · cases hr

end Conversion

end MappingFlow
